import Chipcoin.Storage.Store

/-!
# Header paths

What `path_to_root` returns: the hashes from a root down to the given one, each the parent of the
next.
-/

namespace Chipcoin

namespace Store

private theorem pathLoop_suffix {db : Store} {fuel : ℕ} {currentHash : PyStr}
    {path result : List PyStr}
    (h : db.pathLoop fuel currentHash path = .ok result) (hne : currentHash ≠ []) :
    currentHash :: path <:+ result := by
  induction fuel generalizing currentHash path with
  | zero => cases h
  | succ fuel ih =>
    rw [pathLoop, if_neg (by simpa using hne)] at h
    cases hrow : db.headers[currentHash]? with
    | none => simp [hrow] at h
    | some row =>
      simp only [hrow] at h
      split_ifs at h with hroot
      · cases h
        exact List.suffix_rfl
      · by_cases hprevious : row.header.previousBlockHash = []
        · -- An empty parent ends the walk as a root does.
          cases fuel with
          | zero => cases h
          | succ fuel =>
            rw [pathLoop, hprevious] at h
            cases h
            exact List.suffix_rfl
        · exact (List.suffix_cons _ _).trans (ih h hprevious)

/-- A path ends at the hash it was asked for. -/
theorem getLast?_pathToRoot {db : Store} {blockHash : PyStr} {path : List PyStr}
    (h : db.pathToRoot blockHash = .ok path) (hne : blockHash ≠ []) :
    path.getLast? = some blockHash := by
  obtain ⟨front, rfl⟩ := pathLoop_suffix h hne
  simp

end Store

end Chipcoin
