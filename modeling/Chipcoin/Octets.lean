import Chipcoin.Consensus.Encoding
import Chipcoin.Lib.Decoding

/-!
# Octets read back

The reading side of the runtime: little-endian fields (`struct.unpack_from`) and UTF-8. Each reader
is tied to the writer of `Chipcoin.Runtime` by an equivalence, so that formats can be stated with
the writers alone.

* `fromBytesLittle_eq_iff`: a field of some width has one reading.
* `utf8Decode?_eq_some_iff`: the octets that are decoded to a text are those of the text.
-/

namespace Chipcoin

open Checked Decoding List

variable {c : ℕ} {text : PyStr}

/-! ### Little-endian fields -/

/-- `int.from_bytes(data, "little")`. -/
def fromBytesLittle (data : Bytes) : ℕ := data.foldr (fun b n => b.toNat + 256 * n) 0

theorem fromBytesLittle_lt (data : Bytes) : fromBytesLittle data < 256 ^ data.length := by
  induction data with
  | nil => simp [fromBytesLittle]
  | cons b rest ih =>
    have hb := b.toNat_lt
    rw [length_cons, pow_succ']
    show b.toNat + 256 * fromBytesLittle rest < _
    omega

theorem leBytes_fromBytesLittle (data : Bytes) :
    leBytes data.length (fromBytesLittle data) = data := by
  induction data with
  | nil => rfl
  | cons b rest ih =>
    have hb := b.toNat_lt
    have hlow : (b.toNat + 256 * fromBytesLittle rest) % 256 = b.toNat := by omega
    have hhigh : (b.toNat + 256 * fromBytesLittle rest) / 256 = fromBytesLittle rest := by omega
    show leBytes (rest.length + 1) (b.toNat + 256 * fromBytesLittle rest) = b :: rest
    rw [leBytes, hlow, hhigh, ih, UInt8.ofNat_toNat]

/-- A word of a given width is the field of exactly one number in range. -/
theorem fromBytesLittle_eq_iff {word : Bytes} {width n : ℕ} :
    word.length = width ∧ n = fromBytesLittle word ↔ n < 256 ^ width ∧ word = leBytes width n := by
  constructor
  · rintro ⟨rfl, rfl⟩
    exact ⟨fromBytesLittle_lt word, (leBytes_fromBytesLittle word).symm⟩
  · rintro ⟨hlt, rfl⟩
    refine ⟨length_leBytes width n, ?_⟩
    have hback := leBytes_fromBytesLittle (leBytes width n)
    have hrange := fromBytesLittle_lt (leBytes width n)
    rw [length_leBytes] at hback hrange
    exact leBytes_injOn hlt hrange hback.symm

/-- A number in a field of some width. -/
def fieldFormat (width : ℕ) : Format UInt8 ℕ := fun word n =>
  n < 256 ^ width ∧ word = leBytes width n

/-- A field of some width, or an error when the buffer ends before it. -/
def unpackOr {ε : Type} (width : ℕ) (short : ℕ → ℕ → ε) : Decoder ε UInt8 ℕ :=
  fun buffer offset => do
    raiseIf (buffer.length < offset + width) (short buffer.length offset)
    return (fromBytesLittle ((buffer.drop offset).take width), offset + width)

theorem reads_unpackOr {ε : Type} {width : ℕ} (hpos : 0 < width) (short : ℕ → ℕ → ε) :
    Reads (unpackOr width short) (fieldFormat width) := by
  refine Reads.field (fun _ _ => fromBytesLittle_eq_iff.symm) ?_ ?_ hpos
  · intro buffer offset hle
    rw [unpackOr, raiseIf, if_neg (by omega)]
    rfl
  · intro buffer offset hlt
    refine ⟨short buffer.length offset, ?_⟩
    rw [unpackOr, raiseIf, if_pos hlt]
    rfl

/-- `struct.unpack_from` of one unsigned little-endian field. -/
def unpackFrom (width : ℕ) : Decoder PyError UInt8 ℕ :=
  unpackOr width fun size offset => .struct
    (s!"unpack_from requires a buffer of at least {offset + width} bytes for unpacking {width} " ++
      s!"bytes at offset {offset} (actual buffer size is {size})")

/-! ### UTF-8 -/

/-- `UTF8-tail`: an octet that continues a code point, as the six bits that it holds. -/
def utf8Tail (b : UInt8) : Option ℕ :=
  if 0x80 ≤ b.toNat ∧ b.toNat ≤ 0xBF then some (b.toNat - 0x80) else none

/-- The code point that starts with an octet, and what follows it. No overlong form is read, no
surrogate, and no code point beyond the last one. -/
def utf8DecodeChar (a : UInt8) (rest : Bytes) : Option (ℕ × Bytes) :=
  if a.toNat < 0x80 then some (a.toNat, rest)
  else if 0xC2 ≤ a.toNat ∧ a.toNat ≤ 0xDF then
    match rest with
    | b :: rest => do
      let n ← utf8Tail b
      return ((a.toNat - 0xC0) * 64 + n, rest)
    | _ => none
  else if 0xE0 ≤ a.toNat ∧ a.toNat ≤ 0xEF then
    match rest with
    | b1 :: b2 :: rest => do
      let n1 ← utf8Tail b1
      let n2 ← utf8Tail b2
      let c := ((a.toNat - 0xE0) * 64 + n1) * 64 + n2
      if c < 0x800 ∨ (0xD800 ≤ c ∧ c ≤ 0xDFFF) then none else some (c, rest)
    | _ => none
  else if 0xF0 ≤ a.toNat ∧ a.toNat ≤ 0xF4 then
    match rest with
    | b1 :: b2 :: b3 :: rest => do
      let n1 ← utf8Tail b1
      let n2 ← utf8Tail b2
      let n3 ← utf8Tail b3
      let c := (((a.toNat - 0xF0) * 64 + n1) * 64 + n2) * 64 + n3
      if c < 0x10000 ∨ 0x110000 ≤ c then none else some (c, rest)
    | _ => none
  else none

/-- Code points until the octets are used up; each takes at least one octet. -/
def utf8DecodeLoop : ℕ → Bytes → Option PyStr
  | _, [] => some []
  | 0, _ :: _ => none
  | fuel + 1, a :: rest => do
    let (c, rest) ← utf8DecodeChar a rest
    return c :: (← utf8DecodeLoop fuel rest)

/-- `bytes.decode("utf-8")`, with `none` for its `UnicodeDecodeError`. -/
def utf8Decode? (octets : Bytes) : Option PyStr := utf8DecodeLoop octets.length octets

private theorem utf8Tail_eq_some {b : UInt8} {n : ℕ} :
    utf8Tail b = some n ↔ n < 64 ∧ b = UInt8.ofNat (128 + n) := by
  constructor
  · intro h
    rw [utf8Tail] at h
    split_ifs at h with hrange
    obtain rfl := Option.some.inj h
    refine ⟨by omega, ?_⟩
    rw [show 128 + (b.toNat - 0x80) = b.toNat by omega, UInt8.ofNat_toNat]
  · rintro ⟨hlt, rfl⟩
    have hvalue : (UInt8.ofNat (128 + n)).toNat = 128 + n := by
      rw [UInt8.toNat_ofNat']
      omega
    rw [utf8Tail, hvalue, if_pos (by omega), Nat.add_sub_cancel_left]

/-- The octets of a code point are decoded to it. -/
theorem utf8DecodeChar_complete {a : UInt8} {first rest rest' : Bytes}
    (h : utf8EncodeChar c = some first) (hoctets : a :: rest = first ++ rest') :
    utf8DecodeChar a rest = some (c, rest') := by
  have htail : ∀ n, utf8Tail (UInt8.ofNat (128 + n % 64)) = some (n % 64) :=
    fun n => utf8Tail_eq_some.mpr ⟨Nat.mod_lt _ (by decide), rfl⟩
  have hlead : ∀ {n : ℕ}, n < 256 → (UInt8.ofNat n).toNat = n := by
    intro n hn
    rw [UInt8.toNat_ofNat']
    omega
  dsimp only [utf8EncodeChar] at h
  -- One octet, two, three or four: the leading octet says which.
  split_ifs at h with h1 h2 h3 h4 h5 <;> obtain rfl := Option.some.inj h <;>
    simp only [cons_append, nil_append, List.cons.injEq] at hoctets <;>
    obtain ⟨rfl, rfl⟩ := hoctets
  · unfold utf8DecodeChar
    rw [hlead (by omega), if_pos h1]
  · unfold utf8DecodeChar
    rw [hlead (by omega), if_neg (by omega), if_pos (by omega)]
    simp only [htail, Option.bind_eq_bind, Option.bind_some, Option.pure_def]
    rw [show (0xC0 + c / 64 - 0xC0) * 64 + c / 1 % 64 = c by omega]
  · unfold utf8DecodeChar
    rw [hlead (by omega), if_neg (by omega), if_neg (by omega), if_pos (by omega)]
    simp only [htail, Option.bind_eq_bind, Option.bind_some]
    rw [show ((0xE0 + c / 4096 - 0xE0) * 64 + c / 64 % 64) * 64 + c / 1 % 64 = c by omega,
      if_neg (by omega)]
  · unfold utf8DecodeChar
    rw [hlead (by omega), if_neg (by omega), if_neg (by omega), if_neg (by omega),
      if_pos (by omega)]
    simp only [htail, Option.bind_eq_bind, Option.bind_some]
    rw [show (((0xF0 + c / 262144 - 0xF0) * 64 + c / 4096 % 64) * 64 + c / 64 % 64) * 64 +
      c / 1 % 64 = c by omega, if_neg (by omega)]

/-- What is decoded to a code point are the octets of it. -/
theorem utf8DecodeChar_sound {a : UInt8} {rest rest' : Bytes}
    (h : utf8DecodeChar a rest = some (c, rest')) :
    ∃ first, utf8EncodeChar c = some first ∧ a :: rest = first ++ rest' := by
  have hlead : ∀ {n : ℕ}, n = a.toNat → UInt8.ofNat n = a := by
    rintro n rfl
    exact UInt8.ofNat_toNat
  unfold utf8DecodeChar at h
  -- One case for each number of octets; the bounds rule out overlong forms.
  split_ifs at h with h1 h2 h3 h4
  · obtain ⟨rfl, rfl⟩ := Prod.mk.inj (Option.some.inj h)
    refine ⟨[a], ?_, rfl⟩
    rw [utf8EncodeChar, if_pos h1, hlead rfl]
  · rcases rest with _ | ⟨b, rest⟩
    · cases h
    obtain ⟨n, hn, h⟩ := Option.bind_eq_some_iff.mp h
    obtain ⟨rfl, rfl⟩ := Prod.mk.inj (Option.some.inj h)
    obtain ⟨hlt, rfl⟩ := utf8Tail_eq_some.mp hn
    refine ⟨[a, UInt8.ofNat (128 + n)], ?_, rfl⟩
    rw [utf8EncodeChar, if_neg (by omega), if_pos (by omega), hlead (by omega)]
    dsimp only
    rw [show ((a.toNat - 0xC0) * 64 + n) / 1 % 64 = n by omega]
  · rcases rest with _ | ⟨b1, _ | ⟨b2, rest⟩⟩
    · cases h
    · cases h
    obtain ⟨n1, hn1, h⟩ := Option.bind_eq_some_iff.mp h
    obtain ⟨n2, hn2, h⟩ := Option.bind_eq_some_iff.mp h
    dsimp only at h
    split_ifs at h with hrange
    obtain ⟨hc, rfl⟩ := Prod.mk.inj (Option.some.inj h)
    obtain ⟨hlt1, rfl⟩ := utf8Tail_eq_some.mp hn1
    obtain ⟨hlt2, rfl⟩ := utf8Tail_eq_some.mp hn2
    refine ⟨[a, UInt8.ofNat (128 + n1), UInt8.ofNat (128 + n2)], ?_, rfl⟩
    rw [utf8EncodeChar, if_neg (by omega), if_neg (by omega), if_neg (by omega), if_pos (by omega),
      hlead (by omega)]
    dsimp only
    rw [show c / 64 % 64 = n1 by omega, show c / 1 % 64 = n2 by omega]
  · rcases rest with _ | ⟨b1, _ | ⟨b2, _ | ⟨b3, rest⟩⟩⟩
    · cases h
    · cases h
    · cases h
    obtain ⟨n1, hn1, h⟩ := Option.bind_eq_some_iff.mp h
    obtain ⟨n2, hn2, h⟩ := Option.bind_eq_some_iff.mp h
    obtain ⟨n3, hn3, h⟩ := Option.bind_eq_some_iff.mp h
    dsimp only at h
    split_ifs at h with hrange
    obtain ⟨hc, rfl⟩ := Prod.mk.inj (Option.some.inj h)
    obtain ⟨hlt1, rfl⟩ := utf8Tail_eq_some.mp hn1
    obtain ⟨hlt2, rfl⟩ := utf8Tail_eq_some.mp hn2
    obtain ⟨hlt3, rfl⟩ := utf8Tail_eq_some.mp hn3
    refine ⟨[a, UInt8.ofNat (128 + n1), UInt8.ofNat (128 + n2), UInt8.ofNat (128 + n3)], ?_, rfl⟩
    rw [utf8EncodeChar, if_neg (by omega), if_neg (by omega), if_neg (by omega), if_neg (by omega),
      if_pos (by omega), hlead (by omega)]
    dsimp only
    rw [show c / 4096 % 64 = n1 by omega, show c / 64 % 64 = n2 by omega,
      show c / 1 % 64 = n3 by omega]

/-- No octets are the empty text, after any number of rounds. -/
theorem utf8DecodeLoop_nil_iff {fuel : ℕ} :
    utf8DecodeLoop fuel [] = some text ↔ utf8Encode? text = some [] := by
  rw [show utf8DecodeLoop fuel [] = some [] by cases fuel <;> rfl]
  cases text with
  | nil => exact ⟨fun _ => rfl, fun _ => rfl⟩
  | cons c text =>
    constructor
    · intro h
      cases h
    · intro h
      obtain ⟨first, later, hfirst, -, hnil⟩ := utf8Encode?_cons h
      exact absurd (List.append_eq_nil_iff.mp hnil.symm).1 (utf8EncodeChar_ne_nil hfirst)

/-- With enough rounds the loop inverts encoding. -/
theorem utf8DecodeLoop_eq_some_iff {fuel : ℕ} {octets : Bytes} (hfuel : octets.length ≤ fuel) :
    utf8DecodeLoop fuel octets = some text ↔ utf8Encode? text = some octets := by
  induction fuel generalizing octets text with
  | zero =>
    obtain rfl := eq_nil_of_length_eq_zero (Nat.le_zero.mp hfuel)
    exact utf8DecodeLoop_nil_iff
  | succ fuel ih =>
    cases octets with
    | nil => exact utf8DecodeLoop_nil_iff
    | cons a rest =>
      constructor
      · intro h
        obtain ⟨⟨c, rest'⟩, hchar, h⟩ := Option.bind_eq_some_iff.mp h
        obtain ⟨later, hlater, h⟩ := Option.bind_eq_some_iff.mp h
        obtain rfl := Option.some.inj h
        obtain ⟨first, hfirst, hoctets⟩ := utf8DecodeChar_sound hchar
        -- A code point takes at least one octet, so the fuel suffices for the rest.
        have hshort := congrArg List.length hoctets
        have hpos := length_pos_of_ne_nil (utf8EncodeChar_ne_nil hfirst)
        rw [length_append] at hshort
        rw [hoctets, utf8Encode?, hfirst, (ih (by omega)).mp hlater]
        rfl
      · intro h
        cases text with
        | nil => cases h
        | cons c text =>
          obtain ⟨first, later, hfirst, hlater, hoctets⟩ := utf8Encode?_cons h
          have hshort := congrArg List.length hoctets
          have hpos := length_pos_of_ne_nil (utf8EncodeChar_ne_nil hfirst)
          rw [length_append] at hshort
          rw [utf8DecodeLoop, utf8DecodeChar_complete hfirst hoctets]
          simp [(ih (by omega)).mpr hlater]

/-- **Decoding is the inverse of encoding.** -/
theorem utf8Decode?_eq_some_iff {octets : Bytes} :
    utf8Decode? octets = some text ↔ utf8Encode? text = some octets :=
  utf8DecodeLoop_eq_some_iff le_rfl

/-! ### Text with a UTF-8 form -/

/-- The text has no lone surrogate, so that `encode("utf-8")` does not raise. -/
def HasUtf8 (text : PyStr) : Prop := (utf8Encode? text).isSome

theorem hasUtf8_cons {rest : PyStr} :
    HasUtf8 (c :: rest) ↔ (utf8EncodeChar c).isSome ∧ HasUtf8 rest := by
  unfold HasUtf8
  rw [utf8Encode?]
  cases utf8EncodeChar c with
  | none => simp
  | some first => cases utf8Encode? rest <;> simp

theorem hasUtf8_append {s t : PyStr} : HasUtf8 (s ++ t) ↔ HasUtf8 s ∧ HasUtf8 t := by
  induction s with
  | nil => simp [HasUtf8, utf8Encode?]
  | cons c rest ih => rw [cons_append, hasUtf8_cons, hasUtf8_cons, ih, and_assoc]

/-- The characters of a literal are Unicode scalar values. -/
theorem hasUtf8_str (s : String) : HasUtf8 (str s) := by
  unfold str
  induction s.toList with
  | nil => exact rfl
  | cons c rest ih =>
    refine hasUtf8_cons.mpr ⟨?_, ih⟩
    have hvalid : c.toNat < 0xD800 ∨ 0xDFFF < c.toNat ∧ c.toNat < 0x110000 := c.valid
    unfold utf8EncodeChar
    split_ifs <;> first | rfl | omega

theorem hasUtf8_strOfInt (i : Int) : HasUtf8 (strOfInt i) := hasUtf8_str _

theorem utf8Encode_total (h : HasUtf8 text) : ∃ raw, utf8Encode text = .ok raw := by
  obtain ⟨raw, hraw⟩ := Option.isSome_iff_exists.mp h
  exact ⟨raw, orRaise_eq_ok.mpr hraw⟩

end Chipcoin
