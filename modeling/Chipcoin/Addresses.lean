import Chipcoin.Crypto
import Chipcoin.Lib.Positional
import Chipcoin.Octets

/-!
# Addresses are read back

Base58Check text determines its payload, and an address that is derived from a public key is parsed
as an address of its kind.

* `base58checkDecode_encode`: a payload without a leading zero octet is read back.
* `parseAddress_publicKey`: the address of a key is a legacy address, since the version octet makes
  the text after `CHC` start with a `C`, never with the `Q` of the other kind.
* `text_of_isValidAddress`: a valid address is short ASCII text, so that it can be encoded.
-/

namespace Chipcoin

open Checked List Positional

variable {address : PyStr} {c : UInt8}

/-! ### Octets -/

private theorem fromBytesBig_eq_value (data : Bytes) :
    fromBytesBig data = value 256 (data.map UInt8.toNat) := by
  rw [fromBytesBig, value, foldl_map]

private theorem fromBytesBig_lt (data : Bytes) : fromBytesBig data < 256 ^ data.length := by
  have hdigit : ∀ digit ∈ data.map UInt8.toNat, digit < 256 := by
    intro digit hdigit
    obtain ⟨b, -, rfl⟩ := List.mem_map.mp hdigit
    exact b.toNat_lt
  rw [fromBytesBig_eq_value, ← @List.length_map _ _ data UInt8.toNat]
  exact value_lt (by decide) hdigit

private theorem pow_le_fromBytesBig (hc : c ≠ 0) (rest : Bytes) :
    256 ^ rest.length ≤ fromBytesBig (c :: rest) := by
  have hdigit : c.toNat ≠ 0 := fun h => hc (UInt8.toNat_inj.mp h)
  rw [fromBytesBig_eq_value, map_cons, ← @List.length_map _ _ rest UInt8.toNat]
  exact pow_le_value hdigit _

private theorem fromBytesBig_eq_little (data : Bytes) :
    fromBytesBig data = fromBytesLittle data.reverse := by
  rw [fromBytesBig, fromBytesLittle, foldr_reverse]
  simp only [mul_comm 256, add_comm]

private theorem minimalBytesBig_fromBytesBig (hc : c ≠ 0) (rest : Bytes) :
    minimalBytesBig (fromBytesBig (c :: rest)) = c :: rest := by
  have hlow := pow_le_fromBytesBig hc rest
  have hhigh := fromBytesBig_lt (c :: rest)
  rw [length_cons] at hhigh
  have hpow : ∀ n : ℕ, 256 ^ n = 2 ^ (8 * n) := fun n => by rw [pow_mul]; norm_num
  have hne : fromBytesBig (c :: rest) ≠ 0 := (lt_of_lt_of_le (Nat.pow_pos (by decide)) hlow).ne'
  have hlog : (fromBytesBig (c :: rest)).log2 / 8 + 1 = (c :: rest).reverse.length := by
    rw [hpow] at hlow hhigh
    have hle := (Nat.le_log2 hne).mpr hlow
    have hlt := (Nat.log2_lt hne).mpr hhigh
    rw [length_reverse, length_cons]
    omega
  rw [minimalBytesBig, if_neg hne, hlog, fromBytesBig_eq_little, leBytes_fromBytesLittle,
    reverse_reverse]

/-! ### Base58 -/

/-- The character of a digit. -/
def base58Char (digit : ℕ) : ℕ := base58Alphabet.getD digit 0

/-- Each digit has its own character, which is ASCII; only the digit zero is written `1`. -/
theorem base58Char_spec : ∀ digit < 58,
    base58Alphabet.findIdx? (· == base58Char digit) = some digit ∧ base58Char digit < 128 ∧
      (base58Char digit = 49 → digit = 0) := by
  decide

private theorem base58Digits_eq {fuel n : ℕ} (h : n < 2 ^ fuel) (encoded : PyStr) :
    base58Digits fuel n encoded = (Nat.digits 58 n).reverse.map base58Char ++ encoded := by
  induction fuel generalizing n encoded with
  | zero =>
    obtain rfl : n = 0 := by omega
    rfl
  | succ fuel ih =>
    rw [base58Digits]
    split_ifs with hzero
    · subst hzero
      rfl
    · have hless : n / 58 < 2 ^ fuel := by
        rw [pow_succ] at h
        omega
      rw [ih hless, Nat.digits_def' (by decide) (Nat.pos_of_ne_zero hzero), reverse_cons,
        map_append, append_assoc]
      rfl

private theorem base58Number_map {digits : List ℕ} (h : ∀ digit ∈ digits, digit < 58) :
    base58Number (digits.map base58Char) = .ok (value 58 digits) := by
  unfold base58Number value
  generalize 0 = n
  induction digits generalizing n with
  | nil => rfl
  | cons digit rest ih =>
    have hfound := (base58Char_spec digit (h digit mem_cons_self)).1
    rw [map_cons, foldlM_cons, hfound, foldl_cons]
    exact ih (forall_mem_of_forall_mem_cons h) _

/-- Text that is a number is written in base-58 digits. -/
theorem base58Number_ok {text : PyStr} {n : ℕ} (h : base58Number text = .ok n) :
    ∃ digits : List ℕ, (∀ digit ∈ digits, digit < 58) ∧ text = digits.map base58Char ∧
      n = value 58 digits := by
  have hdigits : ∃ digits : List ℕ,
      (∀ digit ∈ digits, digit < 58) ∧ text = digits.map base58Char := by
    unfold base58Number at h
    -- The digits do not depend on the number that the loop starts from.
    generalize 0 = start at h
    induction text generalizing start with
    | nil => exact ⟨[], fun _ hdigit => (nomatch hdigit), rfl⟩
    | cons c rest ih =>
      obtain ⟨next, hstep, hrest⟩ := foldlM_cons_eq_ok.mp h
      obtain ⟨digits, hdigits, rfl⟩ := ih _ hrest
      cases hfound : base58Alphabet.findIdx? (· == c) with
      | none =>
        rw [hfound] at hstep
        cases hstep
      | some index =>
        obtain ⟨hlt, hc, -⟩ := List.findIdx?_eq_some_iff_getElem.mp hfound
        have hchar : base58Char index = c := by
          rw [base58Char, getD_eq_getElem _ _ hlt]
          exact eq_of_beq hc
        refine ⟨index :: digits, ?_, by rw [map_cons, hchar]⟩
        intro digit hdigit
        rcases List.mem_cons.mp hdigit with rfl | hdigit
        · exact hlt
        · exact hdigits digit hdigit
  obtain ⟨digits, hlt, rfl⟩ := hdigits
  exact ⟨digits, hlt, rfl, ok_unique h (base58Number_map hlt)⟩

/-- How long the digits of a number are, apart from leading zeros. -/
theorem length_base58_le {digits : List ℕ} (h : ∀ digit ∈ digits, digit < 58) :
    ∃ count, digits.length ≤ ((digits.map base58Char).takeWhile (· == 49)).length + count ∧
      (count = 0 ∨ 58 ^ (count - 1) ≤ value 58 digits) := by
  induction digits with
  | nil => exact ⟨0, Nat.zero_le _, .inl rfl⟩
  | cons digit rest ih =>
    obtain ⟨-, -, hone⟩ := base58Char_spec digit (h digit mem_cons_self)
    by_cases hzero : digit = 0
    · -- A leading zero is written as a one.
      subst hzero
      obtain ⟨count, hlength, hcount⟩ := ih (forall_mem_of_forall_mem_cons h)
      refine ⟨count, ?_, ?_⟩
      · rw [map_cons, takeWhile_cons_of_pos (by decide), length_cons, length_cons]
        omega
      · rw [value_cons, Nat.zero_mul, Nat.zero_add]
        exact hcount
    · refine ⟨rest.length + 1, Nat.le_add_left _ _, .inr ?_⟩
      exact pow_le_value hzero rest

section

variable [Platform]

/-- The text of a payload without a leading zero octet: the digits of a number. -/
theorem base58checkEncode_eq (hc : c ≠ 0) (rest : Bytes) :
    base58checkEncode (c :: rest) =
      (Nat.digits 58 (fromBytesBig (c :: rest ++ (doubleSha256 (c :: rest)).take 4))).reverse.map
        base58Char := by
  have hpos := pow_le_fromBytesBig hc (rest ++ (doubleSha256 (c :: rest)).take 4)
  have hne := (lt_of_lt_of_le (Nat.pow_pos (by decide)) hpos).ne'
  have hzeros : ((c :: rest ++ (doubleSha256 (c :: rest)).take 4).takeWhile (· == 0)).length =
    0 := by
    rw [cons_append, takeWhile_cons_of_neg (by simpa using hc)]
    rfl
  have hfuel := @Nat.lt_log2_self (fromBytesBig (c :: rest ++ (doubleSha256 (c :: rest)).take 4))
  have hdigits : Nat.digits 58 (fromBytesBig (c :: rest ++ (doubleSha256 (c :: rest)).take 4)) ≠
    [] :=
    Nat.digits_ne_nil_iff_ne_zero.mpr hne
  unfold base58checkEncode
  dsimp only
  rw [hzeros, base58Digits_eq hfuel, append_nil, if_neg (by simpa using hdigits)]
  rfl

/-- **Base58Check text is read back.** -/
theorem base58checkDecode_encode (hc : c ≠ 0) (rest : Bytes) :
    base58checkDecode (base58checkEncode (c :: rest)) = .ok (c :: rest) := by
  have hchecksum : ((doubleSha256 (c :: rest)).take 4).length = 4 := by
    rw [length_take, length_doubleSha256]
    rfl
  rw [base58checkEncode_eq hc]
  generalize hcheck : (doubleSha256 (c :: rest)).take 4 = checksum at hchecksum
  have hraw := minimalBytesBig_fromBytesBig hc (rest ++ checksum)
  have hne : fromBytesBig (c :: (rest ++ checksum)) ≠ 0 :=
    (lt_of_lt_of_le (Nat.pow_pos (by decide)) (pow_le_fromBytesBig hc _)).ne'
  rw [← cons_append] at hraw hne
  have hdigits : ∀ digit ∈ (Nat.digits 58 (fromBytesBig (c :: rest ++ checksum))).reverse,
      digit < 58 := fun digit hdigit =>
    Nat.digits_lt_base (by decide) (List.mem_reverse.mp hdigit)
  have hnumber := base58Number_map hdigits
  rw [value_digits] at hnumber
  -- The first digit is not zero, so that no zero octets are put in front.
  have hones : ((Nat.digits 58 (fromBytesBig (c :: rest ++ checksum))).reverse.map
      base58Char).takeWhile (· == 49) = [] := by
    obtain ⟨first, others, heq, hfirst⟩ := @exists_leading 58 _ hne
    rw [heq] at hdigits ⊢
    have hchar := (base58Char_spec first (hdigits first mem_cons_self)).2.2
    rw [map_cons, takeWhile_cons_of_neg]
    simpa using mt hchar hfirst
  have hlength : (c :: rest ++ checksum).length - 4 = (c :: rest).length := by
    rw [length_append]
    omega
  unfold base58checkDecode
  rw [hnumber, ok_bind]
  dsimp only
  rw [hones, hraw, length_nil, replicate_zero, nil_append, hlength, take_left, drop_left, hcheck]
  have hlong : ¬ (c :: rest ++ checksum).length < 5 := by
    rw [length_append, length_cons]
    omega
  rw [raiseIf_bind hlong, raiseIf_bind (not_not.mpr rfl)]
  rfl

/-! ### Addresses of keys -/

/-- **The first digit of a legacy payload** is eleven, a `C`. -/
theorem head?_legacyText {rest : Bytes} (hlength : rest.length = 20) :
    (base58checkEncode (0x1C :: rest)).head? = some 67 := by
  have hchecksum : ((doubleSha256 (0x1C :: rest)).take 4).length = 4 := by
    rw [length_take, length_doubleSha256]
    rfl
  rw [base58checkEncode_eq (by decide)]
  generalize (doubleSha256 (0x1C :: rest)).take 4 = checksum at hchecksum
  -- The version octet fixes the size of the number.
  have hsize : 28 * 256 ^ 24 ≤ fromBytesBig (0x1C :: rest ++ checksum) ∧
      fromBytesBig (0x1C :: rest ++ checksum) < 29 * 256 ^ 24 := by
    have htail := fromBytesBig_lt (rest ++ checksum)
    have hlen : (rest ++ checksum).length = 24 := by rw [length_append, hlength, hchecksum]
    have hhead : fromBytesBig (0x1C :: rest ++ checksum) =
        28 * 256 ^ 24 + fromBytesBig (rest ++ checksum) := by
      rw [cons_append, fromBytesBig_eq_value, fromBytesBig_eq_value, map_cons, value_cons,
        length_map, hlen]
      rfl
    rw [hlen] at htail
    omega
  generalize fromBytesBig (0x1C :: rest ++ checksum) = n at hsize
  obtain ⟨first, others, heq, hfirst⟩ := @exists_leading 58 n (by omega)
  have hdigits : ∀ digit ∈ others, digit < 58 := fun digit hdigit =>
    Nat.digits_lt_base (by decide) (List.mem_reverse.mp (heq ▸ mem_cons_of_mem _ hdigit))
  have hvalue : n = first * 58 ^ others.length + value 58 others := by
    rw [← value_cons, ← heq, value_digits]
  have hothers := value_lt (by decide) hdigits
  have hfirstDigit : first < 58 :=
    Nat.digits_lt_base (by decide) (List.mem_reverse.mp (heq ▸ mem_cons_self))
  have hcount : others.length = 33 := by
    have hlow : 58 ^ others.length ≤ n :=
      calc 58 ^ others.length ≤ first * 58 ^ others.length :=
            Nat.le_mul_of_pos_left _ (Nat.pos_of_ne_zero hfirst)
        _ ≤ n := hvalue ▸ Nat.le_add_right _ _
    have hhigh : n < 58 ^ (others.length + 1) :=
      calc n < (first + 1) * 58 ^ others.length := by rw [hvalue, add_one_mul]; omega
        _ ≤ 58 * 58 ^ others.length := Nat.mul_le_mul_right _ hfirstDigit
        _ = 58 ^ (others.length + 1) := (pow_succ' 58 _).symm
    have hbelow : others.length < 34 :=
      (Nat.pow_lt_pow_iff_right (by decide)).mp
        (lt_of_le_of_lt hlow (lt_of_lt_of_le hsize.2 (by decide)))
    have habove : 33 < others.length + 1 :=
      (Nat.pow_lt_pow_iff_right (by decide)).mp
        (lt_of_le_of_lt (le_trans (by decide) hsize.1) hhigh)
    omega
  rw [hcount] at hvalue hothers
  obtain rfl : first = 11 := by omega
  rw [heq, map_cons, head?_cons]
  exact congrArg some (by decide)

/-- **The address of a key is a legacy address.** -/
theorem parseAddress_publicKey {publicKey : Bytes}
    (h : publicKeyToAddress publicKey = .ok address) :
    parseAddress address =
      .ok { kind := .legacy, schemeId := 0, hashOrCommitment := hash160 publicKey } := by
  obtain ⟨-, -, h⟩ := bind_eq_ok.mp h
  obtain rfl := pure_eq_ok.mp h
  have hlength : (hash160 publicKey).length = 20 := Platform.ripemd160_length _
  -- The version octet fixes the first digit, and it is not the `Q` of the other prefix.
  have hfirst := head?_legacyText hlength
  have hnotPq : pqAddressPrefix.isPrefixOf
      (addressPrefix ++ base58checkEncode (0x1C :: hash160 publicKey)) = false := by
    cases htext : base58checkEncode (0x1C :: hash160 publicKey) with
    | nil =>
      rw [htext] at hfirst
      cases hfirst
    | cons c rest =>
      rw [htext, head?_cons, Option.some.injEq] at hfirst
      subst hfirst
      rfl
  have hlegacy : addressPrefix.isPrefixOf
      (addressPrefix ++ base58checkEncode (0x1C :: hash160 publicKey)) = true :=
    List.isPrefixOf_iff_prefix.mpr (prefix_append _ _)
  rw [parseAddress, if_neg (by simp [hnotPq]), if_pos hlegacy, drop_left,
    base58checkDecode_encode (by decide), ok_bind,
    raiseIf_bind (by simp [hlength]), raiseIf_bind (by simp)]
  rfl

/-- **The address of a post-quantum key** names its scheme and commits to it. -/
theorem parseAddress_pqPublicKey {publicKey : Bytes} {schemeId : Int}
    (h : publicKeyToPqAddress publicKey schemeId = .ok address) :
    parseAddress address = .ok {
      kind := .pq
      schemeId := schemeId
      hashOrCommitment := pqPublicKeyCommitment publicKey } := by
  obtain ⟨⟨⟩, hrange, h⟩ := bind_eq_ok.mp h
  obtain rfl := pure_eq_ok.mp h
  have hrange := raiseIf_eq_ok.mp hrange
  have hlength : (pqPublicKeyCommitment publicKey).length = 32 := Platform.sha3_256_length _
  have hscheme : ((UInt8.ofNat schemeId.toNat).toNat : Int) = schemeId := by
    rw [UInt8.toNat_ofNat_of_lt' (by simp [UInt8.size]; omega)]
    omega
  have hprefixed : pqAddressPrefix.isPrefixOf (pqAddressPrefix ++
      base58checkEncode (0x50 :: UInt8.ofNat schemeId.toNat :: pqPublicKeyCommitment publicKey)) =
        true :=
    List.isPrefixOf_iff_prefix.mpr (prefix_append _ _)
  rw [parseAddress, if_pos hprefixed, drop_left, base58checkDecode_encode (by decide), ok_bind,
    raiseIf_bind (by simp [hlength]), raiseIf_bind (by simp)]
  rw [raiseIf_bind (by simp [hlength])]
  exact congrArg (fun i => Except.ok (AddressInfo.mk .pq i _)) hscheme

/-! ### The text of an address -/

/-- Text that is decoded is ASCII, and not much longer than its payload. -/
theorem base58checkDecode_text {text : PyStr} {payload : Bytes}
    (h : base58checkDecode text = .ok payload) :
    (∀ c ∈ text, c < 128) ∧ text.length ≤ 8 * (payload.length + 4) := by
  obtain ⟨n, hnumber, h⟩ := bind_eq_ok.mp h
  obtain ⟨⟨⟩, -, h⟩ := bind_eq_ok.mp h
  obtain ⟨⟨⟩, -, h⟩ := bind_eq_ok.mp h
  have hpayload := congrArg List.length (pure_eq_ok.mp h)
  obtain ⟨digits, hdigits, rfl, rfl⟩ := base58Number_ok hnumber
  refine ⟨fun c hc => ?_, ?_⟩
  · obtain ⟨digit, hdigit, rfl⟩ := List.mem_map.mp hc
    exact (base58Char_spec digit (hdigits digit hdigit)).2.1
  · -- `count` digits without leading zeros have a value of at least `count - 1` bits.
    obtain ⟨count, hlength, hcount⟩ := length_base58_le hdigits
    rw [length_take, length_append, length_replicate] at hpayload
    have hbits : count ≤ 8 * (minimalBytesBig (value 58 digits)).length := by
      rcases hcount with rfl | hcount
      · exact Nat.zero_le _
      have hne : value 58 digits ≠ 0 := (lt_of_lt_of_le (Nat.pow_pos (by decide)) hcount).ne'
      have hlog : 2 ^ (count - 1) < 2 ^ ((value 58 digits).log2 + 1) :=
        calc 2 ^ (count - 1) ≤ 58 ^ (count - 1) := Nat.pow_le_pow_left (by decide) _
          _ ≤ value 58 digits := hcount
          _ < 2 ^ ((value 58 digits).log2 + 1) := Nat.lt_log2_self
      have hcount := (Nat.pow_lt_pow_iff_right (by decide)).mp hlog
      rw [minimalBytesBig, if_neg hne, length_reverse, length_leBytes]
      omega
    rw [length_map]
    omega

/-- **A valid address is short ASCII text.** -/
theorem text_of_isValidAddress (h : isValidAddress address) :
    (∀ c ∈ address, c < 128) ∧ address.length ≤ 400 := by
  cases hparse : parseAddress address with
  | error e =>
    rw [isValidAddress, hparse] at h
    cases h
  | ok info =>
    -- Either kind is a short start and a text that is decoded to a payload of known length.
    have hsplit : ∃ start text payload, address = start ++ text ∧ (∀ c ∈ start, c < 128) ∧
        start.length ≤ 4 ∧ base58checkDecode text = .ok payload ∧ payload.length ≤ 34 := by
      rw [parseAddress] at hparse
      split_ifs at hparse with hpq hlegacy
      · obtain ⟨text, rfl⟩ := List.isPrefixOf_iff_prefix.mp hpq
        obtain ⟨payload, hpayload, hparse⟩ := bind_eq_ok.mp hparse
        obtain ⟨⟨⟩, hlength, -⟩ := bind_eq_ok.mp hparse
        rw [drop_left] at hpayload
        exact ⟨_, text, payload, rfl, by decide, by decide, hpayload,
          (not_not.mp (raiseIf_eq_ok.mp hlength)).le⟩
      · obtain ⟨text, rfl⟩ := List.isPrefixOf_iff_prefix.mp hlegacy
        obtain ⟨payload, hpayload, hparse⟩ := bind_eq_ok.mp hparse
        obtain ⟨⟨⟩, hlength, -⟩ := bind_eq_ok.mp hparse
        rw [drop_left] at hpayload
        have hlength := not_not.mp (raiseIf_eq_ok.mp hlength)
        exact ⟨_, text, payload, rfl, by decide, by decide, hpayload, by omega⟩
    obtain ⟨start, text, payload, rfl, hstart, hshort, hpayload, hlength⟩ := hsplit
    obtain ⟨hascii, htext⟩ := base58checkDecode_text hpayload
    refine ⟨fun c hc => ?_, ?_⟩
    · rcases List.mem_append.mp hc with hc | hc
      · exact hstart c hc
      · exact hascii c hc
    · rw [length_append]
      omega

end

end Chipcoin
