import Chipcoin.Lib.Decoding

/-!
# Encoders, decoders and the words in between

An encoder writes one word for a value, while a format may have several words for it. `Codes` says
how the two fit: a well-formed value is written as one of its words, only well-formed values have
words, and what the encoder writes is no longer than any of them.

With a decoder that `Reads` the format this gives both directions of a round trip: what is written
is read back whatever follows (`Codes.decode_encode`), and what is read can be written, no longer
than it was, and is then read as the same value (`Codes.encode_decode`).
-/

namespace Decoding

open Checked List

variable {ε ε' σ α β : Type}

/-! ### Reading one word -/

/-- Wherever the word stands, the decoder reads the value and goes past it. -/
def ReadsAt (decode : Decoder ε σ α) (word : List σ) (a : α) : Prop :=
  ∀ buffer offset, word <+: buffer.drop offset →
    decode buffer offset = .ok (a, offset + word.length)

variable {a : α} {n : ℕ} {as : List α} {word : List σ} {decode : Decoder ε σ α}
  {words : List (List σ)}

namespace ReadsAt

theorem of_reads {format : Format σ α} (h : Reads decode format) (hformat : format word a) :
    ReadsAt decode word a :=
  fun _ _ hword => h.complete hword hformat

theorem seq {first : Decoder ε σ α} {second : α → Decoder ε σ β} {u v : List σ} {b : β}
    (hfirst : ReadsAt first u a) (hsecond : ReadsAt (second a) v b) :
    ReadsAt (first.seq second) (u ++ v) b := by
  intro buffer offset hword
  obtain ⟨hu, hv⟩ := append_prefix_drop.mp hword
  refine bind_eq_ok.mpr ⟨(a, offset + u.length), hfirst buffer offset hu, ?_⟩
  rw [length_append, ← Nat.add_assoc]
  exact hsecond buffer _ hv

private theorem done (a : α) : ReadsAt (Decoder.done a : Decoder ε σ α) [] a := fun _ _ _ => rfl

/-- The last of several decoders. -/
theorem last {f : α → β} (h : ReadsAt decode word a) :
    ReadsAt (decode.seq fun a => .done (f a)) word (f a) := by
  have hseq : ReadsAt (decode.seq fun a => .done (f a)) (word ++ []) (f a) := h.seq (done (f a))
  rwa [append_nil] at hseq

theorem times (h : List.Forall₂ (ReadsAt decode) words as) :
    ReadsAt (decode.times as.length) words.flatten as := by
  induction h with
  | nil => exact done []
  | cons hfirst _ ih => exact hfirst.seq ih.last

theorem guard {c : Prop} [Decidable c] {e : ε} (hc : ¬ c) (h : ReadsAt decode word a) :
    ReadsAt (decode.guard c e) word a :=
  fun buffer offset hword => bind_eq_ok.mpr ⟨(), raiseIf_eq_ok.mpr hc, h buffer offset hword⟩

/-- A buffer that is the word and nothing else. -/
theorem whole (h : ReadsAt decode word a) : decode word 0 = .ok (a, word.length) := by
  have hwhole := h word 0 (prefix_refl word)
  rwa [Nat.zero_add] at hwhole

end ReadsAt

/-! ### Encoders and formats -/

/-- The encoder writes words of the format: for well-formed values, and shortest ones. -/
structure Codes (P : α → Prop) (encode : α → Except ε (List σ)) (format : Format σ α) : Prop where
  writes : ∀ {a}, P a → ∃ word, encode a = .ok word ∧ format word a
  wellFormed : ∀ {word a}, format word a → P a
  shortest : ∀ {word word' a}, format word a → encode a = .ok word' → word'.length ≤ word.length

namespace Codes

variable {P : α → Prop} {encode : α → Except ε (List σ)} {format : Format σ α}

section

variable {decode : Decoder ε' σ α} (hreads : Reads decode format) (h : Codes P encode format)
include hreads h

/-- What is written for a well-formed value is read wherever it stands. -/
theorem readsAt (ha : P a) : ∃ word, encode a = .ok word ∧ ReadsAt decode word a := by
  obtain ⟨word, hword, hformat⟩ := h.writes ha
  exact ⟨word, hword, .of_reads hreads hformat⟩

/-- **What is written is read back**, and the decoder stops behind it. -/
theorem decode_encode (ha : P a) :
    ∃ word, encode a = .ok word ∧ ∀ rest, decode (word ++ rest) 0 = .ok (a, word.length) := by
  obtain ⟨word, hword, hreadsAt⟩ := h.readsAt hreads ha
  refine ⟨word, hword, fun rest => ?_⟩
  have hdecode := hreadsAt (word ++ rest) 0 (prefix_append word rest)
  rwa [Nat.zero_add] at hdecode

/-- **What is read can be written**, no longer than it was, and is then read as the same value. -/
theorem encode_decode {buffer : List σ} (hdecode : decode buffer 0 = .ok (a, buffer.length)) :
    ∃ word, encode a = .ok word ∧ word.length ≤ buffer.length ∧
      decode word 0 = .ok (a, word.length) := by
  obtain ⟨read, hread, hlength, hformat⟩ := hreads.sound hdecode
  obtain ⟨word, hword, hround⟩ := h.decode_encode hreads (h.wellFormed hformat)
  refine ⟨word, hword, ?_, ?_⟩
  · rw [hlength, Nat.zero_add]
    exact h.shortest hformat hword
  · have hsame := hround []
    rwa [append_nil] at hsame

end

/-! ### Lists -/

theorem writes_list (h : Codes P encode format) (has : ∀ a ∈ as, P a) :
    ∃ words, as.mapM encode = .ok words ∧ format.times as.length words.flatten as := by
  induction as with
  | nil => exact ⟨[], rfl, rfl, rfl⟩
  | cons a rest ih =>
    obtain ⟨word, hword, hformat⟩ := h.writes (has a mem_cons_self)
    obtain ⟨words, hwords, htimes⟩ := ih fun b hb => has b (mem_cons_of_mem a hb)
    refine ⟨word :: words, mapM_cons_eq_ok.mpr ⟨word, words, hword, hwords, rfl⟩, ?_⟩
    refine ⟨word, words.flatten, a, rfl, hformat, words.flatten, [], rest, ?_, htimes, rfl, rfl⟩
    rw [append_nil]

theorem wellFormed_list (h : Codes P encode format) (htimes : format.times n word as) :
    ∀ a ∈ as, P a := by
  induction n generalizing word as with
  | zero =>
    rw [htimes.2]
    exact forall_mem_nil P
  | succ n ih =>
    obtain ⟨_, _, a, -, ha, _, _, rest, -, hrest, -, rfl⟩ := htimes
    exact List.forall_mem_cons.mpr ⟨h.wellFormed ha, ih hrest⟩

theorem shortest_list (h : Codes P encode format) (htimes : format.times n word as)
    (hwords : as.mapM encode = .ok words) : words.flatten.length ≤ word.length := by
  induction n generalizing word as words with
  | zero =>
    rw [htimes.2] at hwords
    obtain rfl := pure_eq_ok.mp hwords
    exact Nat.zero_le _
  | succ n ih =>
    obtain ⟨first, _, a, rfl, ha, later, _, rest, rfl, hrest, rfl, rfl⟩ := htimes
    obtain ⟨word', words', hword', hwords', rfl⟩ := mapM_cons_eq_ok.mp hwords
    rw [flatten_cons, length_append, length_append, append_nil]
    exact Nat.add_le_add (h.shortest ha hword') (ih hrest hwords')

end Codes

end Decoding
