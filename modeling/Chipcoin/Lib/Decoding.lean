import Chipcoin.Lib.Checked

/-!
# Decoders over a buffer

A decoder takes a buffer and an offset, and returns a value and the offset behind what it has read,
or fails. A format is a relation between words and values and knows no decoder. The two are
connected by two properties, and both pass through sequencing and repetition.

* `Reads`: a decoder succeeds exactly where a word of the format stands, and goes past it.
* `Faults`: among the errors of a decoder some are of interest; `Faults` says on which inputs the
  decoder raises one of those.
* `Reads.seq`, `Reads.times`, `Faults.seq`, `Faults.times`: one after another, and so many times.
-/

namespace Decoding

open Checked List

variable {ε σ α β : Type}

/-- A decoder: the value at an offset of a buffer and the offset behind it. -/
abbrev Decoder (ε σ α : Type) := List σ → ℕ → Except ε (α × ℕ)

/-- A format: which words stand for which values. -/
abbrev Format (σ α : Type) := List σ → α → Prop

/-- The decoder reads the words of the format, and nothing else. -/
structure Reads (decode : Decoder ε σ α) (format : Format σ α) : Prop where
  sound : ∀ {buffer offset a next}, decode buffer offset = .ok (a, next) →
    ∃ word, word <+: buffer.drop offset ∧ next = offset + word.length ∧ format word a
  complete : ∀ {buffer offset a word}, word <+: buffer.drop offset → format word a →
    decode buffer offset = .ok (a, offset + word.length)

/-- The decoder raises an error of interest exactly on the inputs that `fault` describes. -/
def Faults (Bad : ε → Prop) (decode : Decoder ε σ α) (fault : List σ → Prop) : Prop :=
  ∀ buffer offset, (∃ e, decode buffer offset = .error e ∧ Bad e) ↔ fault (buffer.drop offset)

/-! ### Formats -/

/-- One word after another; the second format may depend on the first value. -/
def Format.seq (first : Format σ α) (second : α → Format σ β) : Format σ β :=
  fun word b => ∃ u v a, word = u ++ v ∧ first u a ∧ second a v b

/-- The empty word, for one value. -/
def Format.done (a : α) : Format σ α := fun word b => word = [] ∧ b = a

/-- So many words, one after another. -/
def Format.times (format : Format σ α) : ℕ → Format σ (List α)
  | 0 => .done []
  | n + 1 => format.seq fun a => (format.times n).seq fun as => .done (a :: as)

/-- A fault behind a word of a format. -/
def Format.andThen (first : Format σ α) (fault : α → List σ → Prop) (rest : List σ) : Prop :=
  ∃ u a, u <+: rest ∧ first u a ∧ fault a (rest.drop u.length)

/-- A fault in the first, the second, … of so many words. -/
def Format.faultAmong (format : Format σ α) (fault : List σ → Prop) : ℕ → List σ → Prop
  | 0, _ => False
  | n + 1, rest => fault rest ∨ format.andThen (fun _ => format.faultAmong fault n) rest

variable {F format : Format σ α} {decode first : Decoder ε σ α} {fault : List σ → Prop}
  {second : α → Decoder ε σ β}

/-- As many values as words. -/
theorem Format.times_length {n : ℕ} {word : List σ} {as : List α} (h : format.times n word as) :
    as.length = n := by
  induction n generalizing word as with
  | zero =>
    rw [h.2]
    rfl
  | succ n ih =>
    obtain ⟨_, _, _, -, -, _, _, _, -, htail, -, rfl⟩ := h
    rw [length_cons, ih htail]

/-! ### Decoders -/

/-- One decoder after another. -/
def Decoder.seq (first : Decoder ε σ α) (second : α → Decoder ε σ β) : Decoder ε σ β :=
  fun buffer offset => do
    let (a, next) ← first buffer offset
    second a buffer next

/-- A value that takes no symbols. -/
def Decoder.done (a : α) : Decoder ε σ α := fun _ offset => .ok (a, offset)

/-- `for _ in range(count)`: the decoder so many times, with the values in a list. -/
def Decoder.times (decode : Decoder ε σ α) : ℕ → Decoder ε σ (List α)
  | 0 => .done []
  | n + 1 => decode.seq fun a => (decode.times n).seq fun as => .done (a :: as)

/-! ### Reading -/

/-- Two words in a row are the first word here and the second one behind it. -/
theorem append_prefix_drop {buffer u v : List σ} {offset : ℕ} :
    u ++ v <+: buffer.drop offset ↔
      u <+: buffer.drop offset ∧ v <+: buffer.drop (offset + u.length) := by
  constructor
  · rintro ⟨rest, hrest⟩
    rw [append_assoc] at hrest
    refine ⟨⟨v ++ rest, hrest⟩, rest, ?_⟩
    rw [← drop_drop, ← hrest, drop_left]
  · rintro ⟨⟨after, hafter⟩, rest, hrest⟩
    rw [← drop_drop, ← hafter, drop_left] at hrest
    refine ⟨rest, ?_⟩
    rw [append_assoc, hrest, hafter]

namespace Reads

theorem congr {format' : Format σ α} (h : Reads decode format)
    (hsame : ∀ word a, format word a ↔ format' word a) : Reads decode format' where
  sound := by
    intro buffer offset a next hdecode
    obtain ⟨word, hword, hnext, hformat⟩ := h.sound hdecode
    exact ⟨word, hword, hnext, (hsame word a).mp hformat⟩
  complete := fun hword hformat => h.complete hword ((hsame _ _).mpr hformat)

theorem seq {G : α → Format σ β} (hfirst : Reads first F) (hsecond : ∀ a, Reads (second a) (G a)) :
    Reads (first.seq second) (F.seq G) where
  sound := by
    intro buffer offset b next h
    obtain ⟨⟨a, middle⟩, ha, hb⟩ := bind_eq_ok.mp h
    obtain ⟨u, hu, rfl, hF⟩ := hfirst.sound ha
    obtain ⟨v, hv, rfl, hG⟩ := (hsecond a).sound hb
    refine ⟨u ++ v, append_prefix_drop.mpr ⟨hu, hv⟩, ?_, u, v, a, rfl, hF, hG⟩
    rw [length_append, Nat.add_assoc]
  complete := by
    rintro buffer offset b word hword ⟨u, v, a, rfl, hF, hG⟩
    obtain ⟨hu, hv⟩ := append_prefix_drop.mp hword
    refine bind_eq_ok.mpr ⟨(a, offset + u.length), hfirst.complete hu hF, ?_⟩
    rw [length_append, ← Nat.add_assoc]
    exact (hsecond a).complete hv hG

theorem done (a : α) : Reads (Decoder.done a : Decoder ε σ α) (.done a) where
  sound := by
    intro buffer offset b next h
    obtain ⟨rfl, rfl⟩ := Prod.mk.inj (Except.ok.inj h)
    exact ⟨[], nil_prefix, rfl, rfl, rfl⟩
  complete := by
    rintro buffer offset b word - ⟨rfl, rfl⟩
    rfl

theorem times (h : Reads decode format) (n : ℕ) : Reads (decode.times n) (format.times n) := by
  induction n with
  | zero => exact done []
  | succ n ih => exact h.seq fun a => ih.seq fun as => done (a :: as)

/-- A field of a fixed width. -/
theorem field {width : ℕ} {value : List σ → α}
    (hformat : ∀ word a, format word a ↔ word.length = width ∧ a = value word)
    (hok : ∀ buffer offset, offset + width ≤ buffer.length →
      decode buffer offset = .ok (value ((buffer.drop offset).take width), offset + width))
    (hshort : ∀ buffer offset, buffer.length < offset + width →
      ∃ e, decode buffer offset = .error e)
    (hpos : 0 < width) : Reads decode format where
  sound := by
    intro buffer offset a next h
    -- Too short a buffer raises; else the field is the next `width` symbols.
    rcases Nat.lt_or_ge buffer.length (offset + width) with hlt | hle
    · obtain ⟨e, he⟩ := hshort buffer offset hlt
      rw [he] at h
      cases h
    · rw [hok buffer offset hle] at h
      obtain ⟨rfl, rfl⟩ := Prod.mk.inj (Except.ok.inj h)
      have hlength : ((buffer.drop offset).take width).length = width := by
        rw [length_take, length_drop]
        omega
      refine ⟨(buffer.drop offset).take width, take_prefix _ _, ?_, ?_⟩
      · rw [hlength]
      · exact (hformat _ _).mpr ⟨hlength, rfl⟩
  complete := by
    intro buffer offset a word hword hvalue
    obtain ⟨hlength, rfl⟩ := (hformat _ _).mp hvalue
    have hle := hword.length_le
    rw [length_drop] at hle
    rw [hok buffer offset (by omega), ← hlength, ← List.prefix_iff_eq_take.mp hword]

end Reads

/-! ### Faults -/

namespace Faults

variable {Bad : ε → Prop}

/-- A decoder none of whose errors is of interest. -/
theorem never (h : ∀ {buffer offset e}, decode buffer offset = .error e → ¬ Bad e) :
    Faults Bad decode fun _ => False := by
  intro buffer offset
  rw [iff_false]
  rintro ⟨e, he, hbad⟩
  exact h he hbad

theorem done (a : α) : Faults Bad (Decoder.done a : Decoder ε σ α) fun _ => False :=
  never fun h => nomatch h

/-- A fault of two decoders in a row is one of the first, or one of the second behind a word that
the first has read. -/
theorem seq {fault' : α → List σ → Prop} (hreads : Reads first F) (hfirst : Faults Bad first fault)
    (hsecond : ∀ a, Faults Bad (second a) (fault' a)) :
    Faults Bad (first.seq second) fun rest => fault rest ∨ F.andThen fault' rest := by
  intro buffer offset
  constructor
  · rintro ⟨e, he, hbad⟩
    rcases bind_eq_error.mp he with he | ⟨⟨a, next⟩, ha, he⟩
    · exact .inl ((hfirst buffer offset).mp ⟨e, he, hbad⟩)
    · obtain ⟨u, hu, rfl, hF⟩ := hreads.sound ha
      refine .inr ⟨u, a, hu, hF, ?_⟩
      rw [drop_drop]
      exact (hsecond a buffer _).mp ⟨e, he, hbad⟩
  · rintro (hfault | ⟨u, a, hu, hF, hfault⟩)
    · obtain ⟨e, he, hbad⟩ := (hfirst buffer offset).mpr hfault
      exact ⟨e, bind_eq_error.mpr (.inl he), hbad⟩
    · rw [drop_drop] at hfault
      obtain ⟨e, he, hbad⟩ := (hsecond a buffer _).mpr hfault
      exact ⟨e, bind_eq_error.mpr (.inr ⟨(a, _), hreads.complete hu hF, he⟩), hbad⟩

/-- Two decoders in a row raise nothing of interest when neither does. -/
theorem seq_never (hfirst : Faults Bad first fun _ => False)
    (hsecond : ∀ a, Faults Bad (second a) fun _ => False) :
    Faults Bad (first.seq second) fun _ => False := by
  refine never fun {buffer offset e} he hbad => ?_
  rcases bind_eq_error.mp he with he | ⟨⟨a, next⟩, -, he⟩
  · exact (hfirst buffer offset).mp ⟨e, he, hbad⟩
  · exact (hsecond a buffer next).mp ⟨e, he, hbad⟩

theorem times_never (h : Faults Bad decode fun _ => False) (n : ℕ) :
    Faults Bad (decode.times n) fun _ => False := by
  induction n with
  | zero => exact done []
  | succ n ih => exact seq_never h fun a => seq_never ih fun as => done (a :: as)

theorem congr {fault' : List σ → Prop} (h : Faults Bad decode fault)
    (hsame : ∀ rest, fault rest ↔ fault' rest) : Faults Bad decode fault' :=
  fun buffer offset => (h buffer offset).trans (hsame _)

/-- Behind a decoder that raises nothing of interest. -/
theorem behind {fault : α → List σ → Prop} (hreads : Reads first F)
    (hfirst : Faults Bad first fun _ => False) (hsecond : ∀ a, Faults Bad (second a) (fault a)) :
    Faults Bad (first.seq second) (F.andThen fault) :=
  (seq hreads hfirst hsecond).congr fun _ => or_iff_right not_false

/-- Before a decoder that raises nothing of interest. -/
theorem before (hreads : Reads first F) (hfirst : Faults Bad first fault)
    (hsecond : ∀ a, Faults Bad (second a) fun _ => False) :
    Faults Bad (first.seq second) fault := by
  refine (seq hreads hfirst hsecond).congr fun rest => ?_
  rw [Format.andThen]
  simp

theorem times (hreads : Reads decode format) (h : Faults Bad decode fault) (n : ℕ) :
    Faults Bad (decode.times n) (format.faultAmong fault n) := by
  induction n with
  | zero => exact done []
  | succ n ih =>
    exact seq hreads h fun a => before (hreads.times n) ih fun as => done (a :: as)

end Faults

/-! ### Checks between reads -/

/-- A check that raises before anything is read. -/
def Decoder.guard (c : Prop) [Decidable c] (e : ε) (decode : Decoder ε σ α) : Decoder ε σ α :=
  fun buffer offset => do
    raiseIf c e
    decode buffer offset

theorem Faults.guard {Bad : ε → Prop} {c : Prop} [Decidable c] {e : ε} (h : Faults Bad decode fault)
    (he : ¬ Bad e) : Faults Bad (decode.guard c e) fun rest => ¬ c ∧ fault rest := by
  intro buffer offset
  show _ ↔ ¬ c ∧ fault (buffer.drop offset)
  rw [← h buffer offset]
  constructor
  · rintro ⟨e', he', hbad⟩
    rcases bind_eq_error.mp he' with hraise | ⟨⟨⟩, hpass, hdecode⟩
    · obtain ⟨-, rfl⟩ := raiseIf_eq_error.mp hraise
      exact absurd hbad he
    · exact ⟨raiseIf_eq_ok.mp hpass, e', hdecode, hbad⟩
  · rintro ⟨hc, e', hdecode, hbad⟩
    exact ⟨e', bind_eq_error.mpr (.inr ⟨(), raiseIf_eq_ok.mpr hc, hdecode⟩), hbad⟩

end Decoding
