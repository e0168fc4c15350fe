import Chipcoin.Consensus.Models
import Chipcoin.Lib.Encoding

/-!
# The binary format determines what it encodes

Every field of the binary format delimits itself: integers have a fixed width, strings and lists
stand behind their length. So the octets of a transaction determine the transaction, with one
exception. A hash is written as its octets, and `bytes.fromhex` reads upper case digits and blanks
too, so that several texts of an outpoint have the same octets. Texts that `bytes.hex` has written,
which all identifiers that the node computes are, are determined (`Canonical`).

* `delimits_pack`, `delimits_encodeVarint`, `delimits_encodeString`: the fields.
* `delimits_serializeTransaction`: transactions.
* `serializeTransaction_canonical`: a transaction with any texts has the octets of one with
  canonical texts, so that its octets determine it up to the texts of its outpoints.
-/

namespace Chipcoin

open Checked Encoding List

variable {c n width : ℕ} {x : Bytes}

/-! ### Integers -/

theorem leBytes_injOn {m : ℕ} (hn : n < 256 ^ width) (hm : m < 256 ^ width)
    (h : leBytes width n = leBytes width m) : n = m := by
  induction width generalizing n m with
  | zero =>
    rw [pow_zero, Nat.lt_one_iff] at hn hm
    rw [hn, hm]
  | succ width ih =>
    rw [leBytes, leBytes, List.cons.injEq] at h
    obtain ⟨hlow, hhigh⟩ := h
    have hhigh : n / 256 = m / 256 := by
      refine ih ?_ ?_ hhigh
      · exact Nat.div_lt_of_lt_mul (by rw [pow_succ'] at hn; exact hn)
      · exact Nat.div_lt_of_lt_mul (by rw [pow_succ'] at hm; exact hm)
    have hlow : n % 256 = m % 256 := by
      have hoctets := congrArg UInt8.toNat hlow
      simpa using hoctets
    omega

theorem pack_ok {v : Int} (h : pack width v = .ok x) :
    0 ≤ v ∧ v.toNat < 256 ^ width ∧ x = leBytes width v.toNat := by
  simp only [pack, bind_eq_ok, raiseIf_eq_ok, Unique.exists_iff, pure_eq_ok,
    not_or, not_lt, not_le] at h
  obtain ⟨⟨hlow, hhigh⟩, rfl⟩ := h
  refine ⟨hlow, ?_, rfl⟩
  have hcast : ((v.toNat : ℕ) : Int) < ((256 ^ width : ℕ) : Int) := by
    rw [Int.toNat_of_nonneg hlow]
    exact_mod_cast hhigh
  exact_mod_cast hcast

theorem pack_eq {v : Int} (hlow : 0 ≤ v) (hhigh : v < 256 ^ width) :
    pack width v = .ok (leBytes width v.toNat) := by
  have hraise : (raiseIf (v < 0 ∨ 256 ^ width ≤ v) (.struct "argument out of range") :
      Except PyError Unit) = .ok () := raiseIf_eq_ok.mpr (by omega)
  unfold pack
  rw [hraise]
  rfl

theorem delimits_pack (width : ℕ) : Delimits (fun _ => True) (pack width) := by
  refine Delimits.of_length width (fun _ h => ?_) fun _ _ ha hb => ?_
  · obtain ⟨-, -, rfl⟩ := pack_ok h
    exact length_leBytes width _
  · obtain ⟨hapos, halt, hax⟩ := pack_ok ha
    obtain ⟨hbpos, hblt, hbx⟩ := pack_ok hb
    have hnat := leBytes_injOn halt hblt (hax.symm.trans hbx)
    omega

/-- The four forms of a length, told apart by the first octet. -/
theorem encodeVarint_ok {value : ℕ} (h : encodeVarint value = .ok x) :
    (value < 0xFD ∧ x = [UInt8.ofNat value]) ∨
      (value < 256 ^ 2 ∧ x = 0xFD :: leBytes 2 value) ∨
      (value < 256 ^ 4 ∧ x = 0xFE :: leBytes 4 value) ∨
      (value < 256 ^ 8 ∧ x = 0xFF :: leBytes 8 value) := by
  rw [encodeVarint] at h
  split_ifs at h with h1 h2 h3 h4
  · exact .inl ⟨h1, (Except.ok.inj h).symm⟩
  · exact .inr (.inl ⟨by omega, (Except.ok.inj h).symm⟩)
  · exact .inr (.inr (.inl ⟨by omega, (Except.ok.inj h).symm⟩))
  · exact .inr (.inr (.inr ⟨by omega, (Except.ok.inj h).symm⟩))

theorem encodeVarint_returns {value : ℕ} (h : value < 2 ^ 64) :
    ∃ x, encodeVarint value = .ok x := by
  unfold encodeVarint
  split_ifs with h1 h2 h3 h4
  · exact ⟨_, rfl⟩
  · exact ⟨_, rfl⟩
  · exact ⟨_, rfl⟩
  · exact ⟨_, rfl⟩
  · omega

theorem delimits_encodeVarint : Delimits (fun _ => True) encodeVarint := by
  refine ⟨fun {a b x y s t} _ _ ha hb heq => ?_⟩
  -- A short length is not one of the three marks.
  have hshort : ∀ {n : ℕ} {mark : UInt8}, n < 0xFD → 0xFD ≤ mark.toNat →
      UInt8.ofNat n ≠ mark := by
    intro n mark hn hmark hcon
    rw [← hcon, UInt8.toNat_ofNat'] at hmark
    omega
  -- Two lengths with the same mark have the same width.
  have hwide : ∀ {width n m : ℕ} {mark : UInt8}, n < 256 ^ width → m < 256 ^ width →
      mark :: leBytes width n ++ s = mark :: leBytes width m ++ t → n = m ∧ s = t := by
    intro width n m mark hn hm hsame
    rw [cons_append, cons_append, List.cons.injEq] at hsame
    obtain ⟨hbytes, hrest⟩ := append_inj hsame.2 (by simp [length_leBytes])
    exact ⟨leBytes_injOn hn hm hbytes, hrest⟩
  have hmarks : ∀ {u v : Bytes} {p q : UInt8}, p ≠ q → p :: u ++ s ≠ q :: v ++ t := by
    intro u v p q hne hcon
    exact hne (List.cons.inj hcon).1
  rcases encodeVarint_ok ha with ⟨hn, rfl⟩ | ⟨hn, rfl⟩ | ⟨hn, rfl⟩ | ⟨hn, rfl⟩ <;>
    rcases encodeVarint_ok hb with ⟨hm, rfl⟩ | ⟨hm, rfl⟩ | ⟨hm, rfl⟩ | ⟨hm, rfl⟩
  · obtain ⟨hfirst, hrest⟩ := List.cons.inj heq
    have hnat := congrArg UInt8.toNat hfirst
    simp only [UInt8.toNat_ofNat'] at hnat
    exact ⟨by omega, hrest⟩
  · exact absurd heq (hmarks (hshort hn (by decide)))
  · exact absurd heq (hmarks (hshort hn (by decide)))
  · exact absurd heq (hmarks (hshort hn (by decide)))
  · exact absurd heq (hmarks (hshort hm (by decide)).symm)
  · exact hwide hn hm heq
  · exact absurd heq (hmarks (by decide))
  · exact absurd heq (hmarks (by decide))
  · exact absurd heq (hmarks (hshort hm (by decide)).symm)
  · exact absurd heq (hmarks (by decide))
  · exact hwide hn hm heq
  · exact absurd heq (hmarks (by decide))
  · exact absurd heq (hmarks (hshort hm (by decide)).symm)
  · exact absurd heq (hmarks (by decide))
  · exact absurd heq (hmarks (by decide))
  · exact hwide hn hm heq

/-! ### Octets and text -/

private theorem delimits_encodeBytes : Delimits (fun _ => True) encodeBytes := by
  refine ⟨fun {a b x y s t} _ _ ha hb heq => ?_⟩
  simp only [encodeBytes, bind_eq_ok, pure_eq_ok] at ha hb
  obtain ⟨c, hc, rfl⟩ := ha
  obtain ⟨d, hd, rfl⟩ := hb
  rw [append_assoc, append_assoc] at heq
  obtain ⟨hlen, hrest⟩ := delimits_encodeVarint.cut trivial trivial hc hd heq
  exact append_inj hrest hlen

private theorem octet_injOn {m : ℕ} (h : UInt8.ofNat n = UInt8.ofNat m) : n % 256 = m % 256 := by
  have hnat := congrArg UInt8.toNat h
  simpa using hnat

/-- The four forms of a code point, told apart by the first octet. -/
theorem utf8EncodeChar_ok (h : utf8EncodeChar c = some x) :
    (c < 0x80 ∧ x = [UInt8.ofNat c]) ∨
      (c < 0x800 ∧ x = [UInt8.ofNat (0xC0 + c / 64), UInt8.ofNat (128 + c / 1 % 64)]) ∨
      (c < 0x10000 ∧ x = [UInt8.ofNat (0xE0 + c / 4096), UInt8.ofNat (128 + c / 64 % 64),
        UInt8.ofNat (128 + c / 1 % 64)]) ∨
      (c < 0x110000 ∧ x = [UInt8.ofNat (0xF0 + c / 262144), UInt8.ofNat (128 + c / 4096 % 64),
        UInt8.ofNat (128 + c / 64 % 64), UInt8.ofNat (128 + c / 1 % 64)]) := by
  dsimp only [utf8EncodeChar] at h
  split_ifs at h with h1 h2 h3 h4 h5
  · exact .inl ⟨h1, (Option.some.inj h).symm⟩
  · exact .inr (.inl ⟨h2, (Option.some.inj h).symm⟩)
  · exact .inr (.inr (.inl ⟨h4, (Option.some.inj h).symm⟩))
  · exact .inr (.inr (.inr ⟨h5, (Option.some.inj h).symm⟩))

/-- The octets of a code point say how many they are and which code point it is. -/
theorem delimits_utf8EncodeChar {d : ℕ} {y s t : Bytes} (hc : utf8EncodeChar c = some x)
    (hd : utf8EncodeChar d = some y) (heq : x ++ s = y ++ t) : c = d ∧ s = t := by
  rcases utf8EncodeChar_ok hc with ⟨hn, rfl⟩ | ⟨hn, rfl⟩ | ⟨hn, rfl⟩ | ⟨hn, rfl⟩ <;>
    rcases utf8EncodeChar_ok hd with ⟨hm, rfl⟩ | ⟨hm, rfl⟩ | ⟨hm, rfl⟩ | ⟨hm, rfl⟩ <;>
    simp only [cons_append, nil_append, List.cons.injEq] at heq
  -- In the four forms of equal length the octets hold the digits of the code point in base 64.
  case inl.inl => exact ⟨by have := octet_injOn heq.1; omega, heq.2⟩
  case inr.inl.inr.inl =>
    obtain ⟨h1, h2, hrest⟩ := heq
    have h1 := octet_injOn h1
    have h2 := octet_injOn h2
    exact ⟨by omega, hrest⟩
  case inr.inr.inl.inr.inr.inl =>
    obtain ⟨h1, h2, h3, hrest⟩ := heq
    have h1 := octet_injOn h1
    have h2 := octet_injOn h2
    have h3 := octet_injOn h3
    exact ⟨by omega, hrest⟩
  case inr.inr.inr.inr.inr.inr =>
    obtain ⟨h1, h2, h3, h4, hrest⟩ := heq
    have h1 := octet_injOn h1
    have h2 := octet_injOn h2
    have h3 := octet_injOn h3
    have h4 := octet_injOn h4
    exact ⟨by omega, hrest⟩
  all_goals
    have hfirst := octet_injOn heq.1
    omega

theorem utf8Encode?_cons {rest : PyStr} (h : utf8Encode? (c :: rest) = some x) :
    ∃ first later, utf8EncodeChar c = some first ∧ utf8Encode? rest = some later ∧
      x = first ++ later := by
  simp only [utf8Encode?, Option.bind_eq_bind, Option.bind_eq_some_iff, Option.pure_def,
    Option.some.injEq] at h
  obtain ⟨first, hfirst, later, hlater, rfl⟩ := h
  exact ⟨first, later, hfirst, hlater, rfl⟩

theorem utf8EncodeChar_ne_nil (h : utf8EncodeChar c = some x) : x ≠ [] := by
  rcases utf8EncodeChar_ok h with ⟨-, rfl⟩ | ⟨-, rfl⟩ | ⟨-, rfl⟩ | ⟨-, rfl⟩ <;> simp

private theorem utf8Encode?_injective {s t : PyStr} (hs : utf8Encode? s = some x)
    (ht : utf8Encode? t = some x) : s = t := by
  induction s generalizing t x with
  | nil =>
    obtain rfl : [] = x := Option.some.inj hs
    cases t with
    | nil => rfl
    | cons d rest =>
      obtain ⟨first, later, hfirst, -, hx⟩ := utf8Encode?_cons ht
      exact absurd (List.append_eq_nil_iff.mp hx.symm).1 (utf8EncodeChar_ne_nil hfirst)
  | cons c rest ih =>
    obtain ⟨first, later, hfirst, hlater, rfl⟩ := utf8Encode?_cons hs
    cases t with
    | nil =>
      have hx : [] = first ++ later := Option.some.inj ht
      exact absurd (List.append_eq_nil_iff.mp hx.symm).1 (utf8EncodeChar_ne_nil hfirst)
    | cons d rest' =>
      obtain ⟨first', later', hfirst', hlater', heq⟩ := utf8Encode?_cons ht
      obtain ⟨rfl, rfl⟩ := delimits_utf8EncodeChar hfirst hfirst' heq
      rw [ih hlater hlater']

theorem utf8Encode?_ascii {text : PyStr} (h : ∀ c ∈ text, c < 128) :
    utf8Encode? text = some (text.map UInt8.ofNat) := by
  induction text with
  | nil => rfl
  | cons c rest ih =>
    have hc : utf8EncodeChar c = some [UInt8.ofNat c] := by
      rw [utf8EncodeChar, if_pos (h c mem_cons_self)]
    rw [utf8Encode?, hc, ih (forall_mem_of_forall_mem_cons h)]
    rfl

theorem delimits_encodeString : Delimits (fun _ => True) encodeString := by
  refine ⟨fun {a b x y s t} _ _ ha hb heq => ?_⟩
  simp only [encodeString, utf8Encode, bind_eq_ok, orRaise_eq_ok] at ha hb
  obtain ⟨u, hu, hx⟩ := ha
  obtain ⟨v, hv, hy⟩ := hb
  obtain ⟨rfl, hrest⟩ := delimits_encodeBytes.cut trivial trivial hx hy heq
  exact ⟨utf8Encode?_injective hu hv, hrest⟩

/-! ### Hashes -/

theorem hexValue_hexDigit (h : n < 16) : hexValue (hexDigit n) = some n := by
  have hall : ∀ k < 16, hexValue (hexDigit k) = some k := by decide
  exact hall n h

theorem fromHex?_hex (octets : Bytes) : fromHex? (hex octets) = some octets := by
  induction octets with
  | nil => rfl
  | cons b rest ih =>
    have hb := b.toNat_lt
    have hhigh : b.toNat / 16 < 16 := by omega
    have hlow : b.toNat % 16 < 16 := by omega
    have hblank : ∀ k < 16, isAsciiSpace (hexDigit k) = false := by decide
    rw [hex, fromHex?, hblank _ hhigh, hexValue_hexDigit hhigh, hexValue_hexDigit hlow, ih]
    have hoctet : UInt8.ofNat (b.toNat / 16 * 16 + b.toNat % 16) = b := by
      rw [Nat.div_add_mod' b.toNat 16, UInt8.ofNat_toNat]
    simp [hoctet]

theorem length_hex (octets : Bytes) : (hex octets).length = 2 * octets.length := by
  induction octets with
  | nil => rfl
  | cons b rest ih =>
    rw [hex, length_cons, length_cons, length_cons, ih]
    omega

theorem exists_of_mem_hex {octets : Bytes} {c : ℕ} (h : c ∈ hex octets) :
    ∃ n < 16, c = hexDigit n := by
  induction octets with
  | nil => cases h
  | cons b rest ih =>
    have hb := b.toNat_lt
    rcases List.mem_cons.mp h with rfl | h
    · exact ⟨_, by omega, rfl⟩
    rcases List.mem_cons.mp h with rfl | h
    · exact ⟨_, by omega, rfl⟩
    · exact ih h

theorem hex_injective : Function.Injective hex := by
  intro a b h
  exact Option.mem_unique (fromHex?_hex a) ((congrArg fromHex? h).trans (fromHex?_hex b))

/-- A text that `bytes.hex` has written. -/
def Canonical (text : PyStr) : Prop := ∃ octets, text = hex octets

theorem delimits_encodeHash : Delimits Canonical encodeHash := by
  refine Delimits.of_length 32 (fun _ h => ?_) fun {a b x} ha hb hax hbx => ?_
  · simp only [encodeHash, bind_eq_ok, raiseIf_eq_ok, Unique.exists_iff, not_not, pure_eq_ok] at h
    obtain ⟨raw, -, hlen, rfl⟩ := h
    exact hlen
  · obtain ⟨u, rfl⟩ := ha
    obtain ⟨v, rfl⟩ := hb
    simp only [encodeHash, fromHex, fromHex?_hex, bind_eq_ok, orRaise_eq_ok, raiseIf_eq_ok,
      Unique.exists_iff, not_not, pure_eq_ok] at hax hbx
    obtain ⟨w, hu, -, rfl⟩ := hax
    obtain ⟨w', hv, -, rfl⟩ := hbx
    rw [Option.some.inj hu, Option.some.inj hv]

/-! ### Transactions -/

private theorem delimits_encodeSigScheme (version : Int) :
    Delimits (fun _ => True) (encodeSigScheme version) := by
  by_cases hversion : version ≥ 2
  · -- One octet, which holds the scheme.
    have hoctet : ∀ {scheme : Int} {x : Bytes}, encodeSigScheme version scheme = .ok x →
        0 ≤ scheme ∧ scheme ≤ 0xFF ∧ x = [UInt8.ofNat scheme.toNat] := by
      intro scheme x h
      rw [encodeSigScheme, if_pos hversion] at h
      split_ifs at h with hrange
      rw [not_or, not_lt, not_lt] at hrange
      exact ⟨hrange.1, hrange.2, (Except.ok.inj h).symm⟩
    refine Delimits.of_length 1 (fun _ h => ?_) fun _ _ ha hb => ?_
    · rw [(hoctet h).2.2]
      rfl
    · obtain ⟨ha0, ha1, hax⟩ := hoctet ha
      obtain ⟨hb0, hb1, hbx⟩ := hoctet hb
      have hsame := octet_injOn (List.cons.inj (hax.symm.trans hbx)).1
      omega
  · -- No octet, and only one scheme.
    have hlegacy : ∀ {scheme : Int} {x : Bytes}, encodeSigScheme version scheme = .ok x →
        scheme = 0 ∧ x = [] := by
      intro scheme x h
      rw [encodeSigScheme, if_neg hversion] at h
      split_ifs at h with hscheme
      rw [not_not] at hscheme
      exact ⟨hscheme, (Except.ok.inj h).symm⟩
    refine Delimits.of_length 0 (fun _ h => ?_) fun _ _ ha hb => ?_
    · rw [(hlegacy h).2]
      rfl
    · rw [(hlegacy ha).1, (hlegacy hb).1]

/-- An input that names its outpoint by a canonical text. -/
def TxInput.Canonical (txInput : TxInput) : Prop := Chipcoin.Canonical txInput.previousOutput.txid

private theorem delimits_serializeInput (version : Int) :
    Delimits TxInput.Canonical (serializeInput version) := by
  refine ⟨fun {a b x y s t} ha hb hax hby heq => ?_⟩
  simp only [serializeInput, bind_eq_ok, pure_eq_ok] at hax hby
  obtain ⟨txid, htxid, index, hindex, scheme, hscheme, signature, hsignature, publicKey,
    hpublicKey, sequence, hsequence, rfl⟩ := hax
  obtain ⟨txid', htxid', index', hindex', scheme', hscheme', signature', hsignature', publicKey',
    hpublicKey', sequence', hsequence', rfl⟩ := hby
  simp only [append_assoc] at heq
  -- The six fields, from the left.
  obtain ⟨htxid, heq⟩ := delimits_encodeHash.cut ha hb htxid htxid' heq
  obtain ⟨hindex, heq⟩ := (delimits_pack 4).cut trivial trivial hindex hindex' heq
  obtain ⟨hscheme, heq⟩ := (delimits_encodeSigScheme version).cut trivial trivial hscheme
    hscheme' heq
  obtain ⟨hsignature, heq⟩ := delimits_encodeBytes.cut trivial trivial hsignature hsignature' heq
  obtain ⟨hpublicKey, heq⟩ := delimits_encodeBytes.cut trivial trivial hpublicKey hpublicKey' heq
  obtain ⟨hsequence, heq⟩ := (delimits_pack 4).cut trivial trivial hsequence hsequence' heq
  refine ⟨?_, heq⟩
  obtain ⟨⟨_, _⟩, _, _, _, _⟩ := a
  obtain ⟨⟨_, _⟩, _, _, _, _⟩ := b
  simp_all

private theorem delimits_serializeOutput : Delimits (fun _ => True) serializeOutput := by
  refine ⟨fun {a b x y s t} _ _ hax hby heq => ?_⟩
  simp only [serializeOutput, bind_eq_ok, pure_eq_ok] at hax hby
  obtain ⟨value, hvalue, recipient, hrecipient, rfl⟩ := hax
  obtain ⟨value', hvalue', recipient', hrecipient', rfl⟩ := hby
  simp only [append_assoc] at heq
  obtain ⟨hvalue, heq⟩ := (delimits_pack 8).cut trivial trivial hvalue hvalue' heq
  obtain ⟨hrecipient, heq⟩ := delimits_encodeString.cut trivial trivial hrecipient hrecipient' heq
  refine ⟨?_, heq⟩
  obtain ⟨_, _⟩ := a
  obtain ⟨_, _⟩ := b
  simp_all

/-- One pair of the metadata. -/
def encodePair (pair : PyStr × PyStr) : Except PyError Bytes := do
  return (← encodeString pair.1) ++ (← encodeString pair.2)

theorem delimits_encodePair : Delimits (fun _ => True) encodePair := by
  refine ⟨fun {a b x y s t} _ _ hax hby heq => ?_⟩
  simp only [encodePair, bind_eq_ok, pure_eq_ok] at hax hby
  obtain ⟨key, hkey, value, hvalue, rfl⟩ := hax
  obtain ⟨key', hkey', value', hvalue', rfl⟩ := hby
  simp only [append_assoc] at heq
  obtain ⟨hkey, heq⟩ := delimits_encodeString.cut trivial trivial hkey hkey' heq
  obtain ⟨hvalue, heq⟩ := delimits_encodeString.cut trivial trivial hvalue hvalue' heq
  exact ⟨Prod.ext hkey hvalue, heq⟩

/-- A dictionary is written as its pairs in key order, which determine it. -/
theorem delimits_encodeMetadata : Delimits (fun _ => True) encodeMetadata := by
  refine ⟨fun {a b x y s t} _ _ hax hby heq => ?_⟩
  have hpairs : ∀ {metadata : Metadata} {x : Bytes}, encodeMetadata metadata = .ok x →
      ∃ count encoded, encodeVarint metadata.toList.length = .ok count ∧
        metadata.toList.mapM encodePair = .ok encoded ∧ x = count ++ encoded.flatten := by
    intro metadata x h
    simp only [encodeMetadata, bind_eq_ok, pure_eq_ok] at h
    obtain ⟨count, hcount, encoded, hencoded, rfl⟩ := h
    exact ⟨count, encoded, hcount, hencoded, rfl⟩
  obtain ⟨count, encoded, hcount, hencoded, rfl⟩ := hpairs hax
  obtain ⟨count', encoded', hcount', hencoded', rfl⟩ := hpairs hby
  simp only [append_assoc] at heq
  obtain ⟨hlist, hrest⟩ := delimits_encodePair.counted delimits_encodeVarint (fun _ _ => trivial)
    (fun _ _ => trivial) hcount hcount' hencoded hencoded' heq
  exact ⟨Std.ExtTreeMap.toList_inj.mp hlist, hrest⟩

/-- A transaction that names its outpoints by canonical texts. -/
def Transaction.Canonical (transaction : Transaction) : Prop :=
  ∀ txInput ∈ transaction.inputs, txInput.Canonical

/-- **The octets of a transaction determine it.** -/
theorem delimits_serializeTransaction : Delimits Transaction.Canonical serializeTransaction := by
  refine ⟨fun {a b x y s t} ha hb hax hby heq => ?_⟩
  simp only [serializeTransaction, bind_eq_ok, pure_eq_ok] at hax hby
  obtain ⟨version, hversion, inputCount, hinputCount, inputs, hinputs, outputCount, houtputCount,
    outputs, houtputs, locktime, hlocktime, metadata, hmetadata, rfl⟩ := hax
  obtain ⟨version', hversion', inputCount', hinputCount', inputs', hinputs', outputCount',
    houtputCount', outputs', houtputs', locktime', hlocktime', metadata', hmetadata', rfl⟩ := hby
  simp only [append_assoc] at heq
  obtain ⟨hversion, heq⟩ := (delimits_pack 4).cut trivial trivial hversion hversion' heq
  -- The version decides how inputs are written.
  rw [← hversion] at hinputs'
  obtain ⟨hinputs, heq⟩ := (delimits_serializeInput a.version).counted delimits_encodeVarint ha hb
    hinputCount hinputCount' hinputs hinputs' heq
  obtain ⟨houtputs, heq⟩ := delimits_serializeOutput.counted delimits_encodeVarint
    (fun _ _ => trivial) (fun _ _ => trivial) houtputCount houtputCount' houtputs houtputs' heq
  obtain ⟨hlocktime, heq⟩ := (delimits_pack 4).cut trivial trivial hlocktime hlocktime' heq
  obtain ⟨hmetadata, heq⟩ := delimits_encodeMetadata.cut trivial trivial hmetadata hmetadata' heq
  refine ⟨?_, heq⟩
  obtain ⟨_, _, _, _, _⟩ := a
  obtain ⟨_, _, _, _, _⟩ := b
  simp_all

/-! ### Other texts of an outpoint -/

/-- The text that `bytes.hex` writes for the octets that `bytes.fromhex` reads. -/
def canonicalHash (text : PyStr) : PyStr := ((fromHex? text).map hex).getD text

/-- The input with its outpoint named by the canonical text. -/
def TxInput.canonical (txInput : TxInput) : TxInput :=
  { txInput with previousOutput :=
      { txInput.previousOutput with txid := canonicalHash txInput.previousOutput.txid } }

/-- The transaction with its outpoints named by canonical texts. -/
def Transaction.canonical (transaction : Transaction) : Transaction :=
  { transaction with inputs := transaction.inputs.map TxInput.canonical }

theorem fromHex?_canonicalHash (text : PyStr) : fromHex? (canonicalHash text) = fromHex? text := by
  unfold canonicalHash
  cases htext : fromHex? text with
  | none => exact htext
  | some octets => exact fromHex?_hex octets

theorem encodeHash_hex {raw : Bytes} (h : raw.length = 32) : encodeHash (hex raw) = .ok raw := by
  simp [encodeHash, fromHex, fromHex?_hex, orRaise, raiseIf, h]

theorem encodeHash_canonical {text : PyStr} (h : encodeHash text = .ok x) :
    fromHex? text = some x ∧ canonicalHash text = hex x ∧ encodeHash (canonicalHash text) =
      .ok x := by
  simp only [encodeHash, fromHex, bind_eq_ok, orRaise_eq_ok, raiseIf_eq_ok, Unique.exists_iff,
    not_not, pure_eq_ok] at h
  obtain ⟨raw, hraw, hlen, rfl⟩ := h
  have htext : canonicalHash text = hex raw := by
    rw [canonicalHash, hraw]
    rfl
  exact ⟨hraw, htext, htext ▸ encodeHash_hex hlen⟩

private theorem serializeInput_canonical {version : Int} {txInput : TxInput}
    (h : serializeInput version txInput = .ok x) :
    txInput.canonical.Canonical ∧ serializeInput version txInput.canonical = .ok x := by
  obtain ⟨txid, htxid, h⟩ := bind_eq_ok.mp h
  obtain ⟨-, htext, hcanonical⟩ := encodeHash_canonical htxid
  refine ⟨⟨txid, htext⟩, ?_⟩
  exact bind_eq_ok.mpr ⟨txid, hcanonical, h⟩

/-- **Canonical texts have the same octets.** -/
theorem serializeTransaction_canonical {tx : Transaction} (h : serializeTransaction tx = .ok x) :
    tx.canonical.Canonical ∧ serializeTransaction tx.canonical = .ok x := by
  obtain ⟨version, hversion, h⟩ := bind_eq_ok.mp h
  obtain ⟨count, hcount, h⟩ := bind_eq_ok.mp h
  obtain ⟨inputs, hinputs, h⟩ := bind_eq_ok.mp h
  -- Each input can be written with the canonical text.
  have hall : ∀ {txInputs : List TxInput} {encoded : List Bytes},
      txInputs.mapM (serializeInput tx.version) = .ok encoded →
      (∀ txInput ∈ txInputs.map TxInput.canonical, txInput.Canonical) ∧
        (txInputs.map TxInput.canonical).mapM (serializeInput tx.version) =
          .ok encoded := by
    intro txInputs
    induction txInputs with
    | nil =>
      intro encoded hencoded
      exact ⟨by simp, hencoded⟩
    | cons first rest ih =>
      intro encoded hencoded
      obtain ⟨octets, later, hfirst, hlater, rfl⟩ := mapM_cons_eq_ok.mp hencoded
      obtain ⟨hcanonical, hsame⟩ := serializeInput_canonical hfirst
      obtain ⟨hcanonicals, hsames⟩ := ih hlater
      refine ⟨?_, mapM_cons_eq_ok.mpr ⟨octets, later, hsame, hsames, rfl⟩⟩
      rw [map_cons, forall_mem_cons]
      exact ⟨hcanonical, hcanonicals⟩
  obtain ⟨hcanonical, hsame⟩ := hall hinputs
  refine ⟨hcanonical, ?_⟩
  have hlength : tx.canonical.inputs.length = tx.inputs.length :=
    length_map ..
  refine bind_eq_ok.mpr ⟨version, hversion, bind_eq_ok.mpr ⟨count, ?_, ?_⟩⟩
  · rw [hlength]
    exact hcount
  · exact bind_eq_ok.mpr ⟨inputs, hsame, h⟩

/-! ### Identifiers -/

/-- The octets of a transaction that can be written. -/
def Transaction.octets (transaction : Transaction) : Bytes :=
  (serializeTransaction transaction).toOption.getD []

theorem Transaction.octets_eq {tx : Transaction}
    (h : serializeTransaction tx = .ok x) : tx.octets = x := by
  rw [Transaction.octets, h]
  rfl

/-- The hash of the octets, which the identifier of the transaction spells out. -/
def Transaction.digest [Platform] (transaction : Transaction) : Bytes :=
  doubleSha256 transaction.octets

theorem Transaction.txid_ok [Platform] {tx : Transaction} {txid : PyStr} (h : tx.txid = .ok txid) :
    ∃ octets, serializeTransaction tx = .ok octets ∧ txid = hex (doubleSha256 octets) := by
  simp only [Transaction.txid, bind_eq_ok, pure_eq_ok] at h
  obtain ⟨octets, hoctets, rfl⟩ := h
  exact ⟨octets, hoctets, rfl⟩

end Chipcoin
