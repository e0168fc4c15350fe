import Chipcoin.Lib.Checked

/-!
# The Python runtime seen by the node

The node is Python code over a handful of libraries. This file fixes how their values and
primitives appear in the model.

* A Python `str` is the list of its code points (`PyStr`), so that a lone surrogate, which
  `json.loads` can produce and `encode("utf-8")` refuses, is a value of the model. `bytes` is a
  list of octets. Python's unbounded `int` is `Int`.
* Code that may raise returns `Except PyError`. `PyError` keeps the classes that some handler of
  the source tells apart, together with the message.
* What the source imports and does not define (hash functions, signature backends, the JSON
  library, `int` on text) is the class `Platform`. All results hold on every platform.
-/

namespace Chipcoin

open Checked

/-- A Python string: its code points. -/
abbrev PyStr := List ℕ

instance : LawfulBEq PyStr := inferInstance

/-- A Python `bytes` object. -/
abbrev Bytes := List UInt8

/-- The Python string written as a literal. -/
def str (s : String) : PyStr := s.toList.map Char.toNat

/-- The exceptions of the source, by the class its handlers catch. -/
inductive PyError
  /-- `StatelessValidationError`, a `ValidationError`. -/
  | stateless (message : String)
  /-- `ContextualValidationError`, a `ValidationError`. -/
  | contextual (message : String)
  /-- A plain `ValidationError`. -/
  | validation (message : String)
  /-- `ValueError` and its subclasses (`UnicodeError`, `json.JSONDecodeError`). -/
  | value (message : String)
  | key (key : String)
  | type (message : String)
  | index (message : String)
  | overflow (message : String)
  | zeroDivision
  /-- `struct.error`. -/
  | struct (message : String)
  /-- `sqlite3.IntegrityError`. -/
  | integrity (message : String)
  | runtime (message : String)
deriving DecidableEq, Repr

/-- `except ValueError as exc: raise f(str(exc))`. -/
def onValueError (f : String → PyError) : PyError → Option PyError
  | .value message => some (f message)
  | _ => none

/-! ### Integers as text and as octets -/

/-- `str(i)` of an integer. -/
def strOfInt (i : Int) : PyStr := str (toString i)

theorem strOfInt_injective : Function.Injective strOfInt := by
  intro i j h
  have hchars : (toString i).toList = (toString j).toList :=
    List.map_injective_iff.mpr (fun _ _ => Char.toNat_inj.mp) h
  exact Int.repr_inj.mp (String.toList_injective hchars)

/-- The low `width` octets of `n`, least significant first. -/
def leBytes : ℕ → ℕ → Bytes
  | 0, _ => []
  | width + 1, n => UInt8.ofNat (n % 256) :: leBytes width (n / 256)

/-- `struct.pack` of one unsigned little-endian field of `width` octets. -/
def pack (width : ℕ) (v : Int) : Except PyError Bytes := do
  raiseIf (v < 0 ∨ 256 ^ width ≤ v) (.struct "argument out of range")
  return leBytes width v.toNat

/-- `int.to_bytes(width, "big")`. -/
def toBytesBig (width : ℕ) (v : Int) : Except PyError Bytes := do
  raiseIf (v < 0) (.overflow "can't convert negative int to unsigned")
  raiseIf (256 ^ width ≤ v) (.overflow "int too big to convert")
  return (leBytes width v.toNat).reverse

/-- `int.from_bytes(data, "big")`. -/
def fromBytesBig (data : Bytes) : ℕ :=
  data.foldl (fun n b => n * 256 + b.toNat) 0

/-! ### Hexadecimal text -/

/-- One hexadecimal digit, lower case. -/
def hexDigit (n : ℕ) : ℕ := if n < 10 then 48 + n else 87 + n

/-- `bytes.hex()`. -/
def hex : Bytes → PyStr
  | [] => []
  | b :: rest => hexDigit (b.toNat / 16) :: hexDigit (b.toNat % 16) :: hex rest

/-- The value of a hexadecimal digit of either case. -/
def hexValue (c : ℕ) : Option ℕ :=
  if 48 ≤ c ∧ c ≤ 57 then some (c - 48)
  else if 97 ≤ c ∧ c ≤ 102 then some (c - 87)
  else if 65 ≤ c ∧ c ≤ 70 then some (c - 55)
  else none

/-- The ASCII blanks that `bytes.fromhex` skips between octets. -/
def isAsciiSpace (c : ℕ) : Bool := c == 32 || (9 ≤ c && c ≤ 13)

/-- `bytes.fromhex`, with `none` for its `ValueError`. -/
def fromHex? : PyStr → Option Bytes
  | [] => some []
  | [c] => if isAsciiSpace c then some [] else none
  | a :: b :: rest =>
    if isAsciiSpace a then fromHex? (b :: rest)
    else match hexValue a, hexValue b, fromHex? rest with
      | some high, some low, some octets => some (UInt8.ofNat (high * 16 + low) :: octets)
      | _, _, _ => none

/-- `bytes.fromhex`. -/
def fromHex (s : PyStr) : Except PyError Bytes :=
  orRaise (fromHex? s) (.value "non-hexadecimal number found in fromhex() arg")

/-! ### UTF-8 -/

/-- The UTF-8 octets of one code point. A surrogate has none. -/
def utf8EncodeChar (c : ℕ) : Option Bytes :=
  let tail (shift : ℕ) : UInt8 := UInt8.ofNat (128 + c / shift % 64)
  if c < 0x80 then some [UInt8.ofNat c]
  else if c < 0x800 then some [UInt8.ofNat (0xC0 + c / 64), tail 1]
  else if 0xD800 ≤ c ∧ c ≤ 0xDFFF then none
  else if c < 0x10000 then some [UInt8.ofNat (0xE0 + c / 4096), tail 64, tail 1]
  else if c < 0x110000 then
    some [UInt8.ofNat (0xF0 + c / 262144), tail 4096, tail 64, tail 1]
  else none

/-- `str.encode("utf-8")`, with `none` for its `UnicodeEncodeError`. -/
def utf8Encode? : PyStr → Option Bytes
  | [] => some []
  | c :: rest => do return (← utf8EncodeChar c) ++ (← utf8Encode? rest)

/-- `str.encode("utf-8")`. -/
def utf8Encode (s : PyStr) : Except PyError Bytes :=
  orRaise (utf8Encode? s) (.value "'utf-8' codec can't encode characters: surrogates not allowed")

/-! ### JSON values -/

/-- What `json.loads` returns. A float is kept as its literal. -/
inductive Json
  | null
  | bool (b : Bool)
  | int (i : Int)
  | float (literal : PyStr)
  | str (s : PyStr)
  | arr (items : List Json)
  /-- A dictionary, with distinct keys. -/
  | obj (fields : List (PyStr × Json))

/-- The functions that the source imports. -/
class Platform where
  /-- `hashlib.sha256(data).digest()`. -/
  sha256 : Bytes → Bytes
  sha256_length : ∀ data, (sha256 data).length = 32
  ripemd160 : Bytes → Bytes
  ripemd160_length : ∀ data, (ripemd160 data).length = 20
  sha3_256 : Bytes → Bytes
  sha3_256_length : ∀ data, (sha3_256 data).length = 32
  /-- `EllipticCurvePublicKey.from_encoded_point(SECP256K1(), key)` accepts the octets. -/
  isSecp256k1Point : Bytes → Bool
  /-- Decode a DER signature and encode it again with a low `s`; `none` on malformed DER. -/
  normalizeLowS : Bytes → Option Bytes
  /-- ECDSA verification of a public key, a digest and a signature. -/
  ecdsaVerify : Bytes → Bytes → Bytes → Bool
  /-- The ML-DSA-44 backend, when it is installed. -/
  mldsa44Verify : Option (Bytes → Bytes → Bytes → Bool)
  jsonLoads : PyStr → Except PyError Json
  /-- `json.dumps(value, sort_keys=True, separators=(",", ":"))`. -/
  jsonDumps : Json → PyStr
  /-- `int(text)`; `none` for its `ValueError`. -/
  intOfStr : PyStr → Option Int
  /-- A vertical bar is no part of a numeral. -/
  intOfStr_bar : ∀ text, 124 ∈ text → intOfStr text = none
  /-- `int(x)` of a float literal. -/
  intOfFloat : PyStr → Except PyError Int
  /-- `str(x)` of a float literal. -/
  strOfFloat : PyStr → PyStr
  /-- `bool(x)` of a float literal. -/
  boolOfFloat : PyStr → Bool
  /-- `str(x)` of a list or a dictionary. -/
  strOfContainer : Json → PyStr
  /-- `str.lower()`. -/
  lower : PyStr → PyStr

section

variable [Platform]

/-- `int(text)`. -/
def intOfStr (s : PyStr) : Except PyError Int :=
  orRaise (Platform.intOfStr s) (.value "invalid literal for int() with base 10")

/-- `int(value)` on a decoded JSON value. -/
def Json.toInt : Json → Except PyError Int
  | .bool b => .ok (if b then 1 else 0)
  | .int i => .ok i
  | .float x => Platform.intOfFloat x
  | .str s => intOfStr s
  | .null | .arr _ | .obj _ => .error (.type "int() argument must be a string or a real number")

/-- `str(value)` on a decoded JSON value. -/
def Json.toStr : Json → PyStr
  | .null => Chipcoin.str "None"
  | .bool b => Chipcoin.str (if b then "True" else "False")
  | .int i => strOfInt i
  | .float x => Platform.strOfFloat x
  | .str s => s
  | .arr items => Platform.strOfContainer (.arr items)
  | .obj fields => Platform.strOfContainer (.obj fields)

/-- `bool(value)` on a decoded JSON value. -/
def Json.toBool : Json → Bool
  | .null => false
  | .bool b => b
  | .int i => i ≠ 0
  | .float x => Platform.boolOfFloat x
  | .str s => !s.isEmpty
  | .arr items => !items.isEmpty
  | .obj fields => !fields.isEmpty

/-- `item[key]` with a string key. -/
def Json.item (item : Json) (key : String) : Except PyError Json :=
  match item with
  | .obj fields => orRaise (fields.lookup (Chipcoin.str key)) (.key key)
  | _ => .error (.type "indices must be integers or slices, not str")

end

/-! ### A platform for closed instances

Concrete runs of the model are evaluated on this platform: a short polynomial hash in the last
octets of the digest, signatures that always verify, decimal integers, and a JSON decoder that
knows a given list of documents. -/

theorem length_leBytes (width n : ℕ) : (leBytes width n).length = width := by
  induction width generalizing n with
  | zero => rfl
  | succ width ih => simp [leBytes, ih]

/-- The digest of the sample platform. -/
def sampleDigest (data : Bytes) : Bytes :=
  List.replicate 24 0 ++
    leBytes 8 (data.foldl (fun n b => (n * 257 + b.toNat + 1) % (2 ^ 61 - 1)) 7)

private theorem length_sampleDigest (data : Bytes) : (sampleDigest data).length = 32 := by
  simp [sampleDigest, length_leBytes]

/-- A decimal numeral without sign. -/
def decimalDigits : PyStr → ℕ → Option ℕ
  | [], n => some n
  | c :: rest, n => if 48 ≤ c ∧ c ≤ 57 then decimalDigits rest (n * 10 + (c - 48)) else none

/-- A decimal numeral with an optional minus sign. -/
def decimalInt : PyStr → Option Int
  | [] => none
  | 45 :: digits => (decimalDigits digits 0).map fun n => -(n : Int)
  | digits => (decimalDigits digits 0).map fun n => (n : Int)

private theorem decimalDigits_bar {text : PyStr} (h : 124 ∈ text) (n : ℕ) :
    decimalDigits text n = none := by
  induction text generalizing n with
  | nil => cases h
  | cons c rest ih =>
    rw [decimalDigits]
    split_ifs with hdigit
    · -- The bar is not a digit, so it comes later.
      rcases List.mem_cons.mp h with rfl | hrest
      · omega
      · exact ih hrest _
    · rfl

private theorem decimalInt_bar (text : PyStr) (h : 124 ∈ text) : decimalInt text = none := by
  unfold decimalInt
  split
  · cases h
  · have hrest := (List.mem_cons.mp h).resolve_left (by decide)
    rw [decimalDigits_bar hrest]
    rfl
  · rw [decimalDigits_bar h]
    rfl

/-- The sample platform, with the JSON documents it can decode. -/
@[reducible] def samplePlatform (documents : List (PyStr × Json)) : Platform where
  sha256 := sampleDigest
  sha256_length := length_sampleDigest
  ripemd160 := fun data => (sampleDigest data).drop 12
  ripemd160_length := fun data => by rw [List.length_drop, length_sampleDigest]
  sha3_256 := sampleDigest
  sha3_256_length := length_sampleDigest
  isSecp256k1Point := fun _ => true
  normalizeLowS := some
  ecdsaVerify := fun _ _ _ => true
  mldsa44Verify := none
  jsonLoads := fun text => orRaise (documents.lookup text) (.value "Expecting value")
  jsonDumps := fun _ => str "[]"
  intOfStr := decimalInt
  intOfStr_bar := decimalInt_bar
  intOfFloat := fun _ => .error (.value "cannot convert float to integer")
  strOfFloat := id
  boolOfFloat := fun _ => true
  strOfContainer := fun _ => str "[]"
  lower := id

end Chipcoin
