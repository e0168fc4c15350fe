import Mathlib

/-!
# Entries and what is before them

A trace is a list with its oldest entry first. `Before R trace` says that every entry stands in the
relation `R` to the entries before it, and `before_concat` is its induction step: a trace that grows
at the end has one more entry to look at.
-/

namespace Trace

variable {α : Type} {R : List α → α → Prop} {entries : List α} {last : α}

/-- Every entry of a list stands in a relation to the entries before it. -/
def Before (R : List α → α → Prop) (entries : List α) : Prop :=
  ∀ before entry after, entries = before ++ entry :: after → R before entry

theorem before_nil (R : List α → α → Prop) : Before R [] := by
  intro before entry after heq
  exact absurd heq (by simp)

theorem before_concat : Before R (entries ++ [last]) ↔ Before R entries ∧ R entries last := by
  constructor
  · intro h
    refine ⟨?_, h entries last [] rfl⟩
    intro before entry after heq
    refine h before entry (after ++ [last]) ?_
    rw [heq, List.append_assoc, List.cons_append]
  · rintro ⟨hentries, hlast⟩ before entry after heq
    -- The entry is the last one, or the last one is the end of what comes after it.
    rcases List.eq_nil_or_concat after with rfl | ⟨rest, other, rfl⟩
    · obtain ⟨rfl, hsame⟩ := List.append_inj' heq rfl
      rw [List.cons.injEq] at hsame
      exact hsame.1 ▸ hlast
    · rw [List.concat_eq_append, ← List.cons_append, ← List.append_assoc] at heq
      obtain ⟨rfl, -⟩ := List.append_inj' heq rfl
      exact hentries before entry rest rfl

end Trace
