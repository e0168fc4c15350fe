import Chipcoin.Lib.Transaction

/-!
# Faults and atomicity

A faulted run and the completed run of a program agree up to the fault, and the stores that faults
expose are exactly the stores that the completed run commits on its way (`exec_faulted`). So a call
is atomic if and only if every store it commits is the first or the last one (`atomic_iff`).
-/

namespace Database

open List

variable {σ ε α β : Type} {fault : Fault}

/-! ### Faulted runs -/

/-- The same connection with a fault to come. -/
def Connection.withFault (conn : Connection σ) (n : ℕ) (fault : Fault) : Connection σ :=
  { conn with fault := some (n, fault) }

/-- The outcome is that of a fault. -/
def Outcome.IsFault : Outcome ε α → Prop
  | .returned _ | .raised _ => False
  | .interrupted | .stopped => True

private theorem Connection.withFault_leave (conn : Connection σ) (n : ℕ) (fault : Fault)
    (outcome : Outcome ε α) :
    (conn.withFault n fault).leave outcome =
      (conn.leave outcome).withFault n fault := by
  cases outcome with
  | returned value =>
    simp only [Connection.leave, Connection.commit, Connection.withFault]
    split <;> rfl
  | raised error => rfl
  | interrupted => rfl
  | stopped => rfl

private theorem Connection.leave_fault (conn : Connection σ) (outcome : Outcome ε α) :
    (conn.leave outcome).fault = conn.fault := by
  cases outcome with
  | returned value =>
    simp only [Connection.leave, Connection.commit]
    split <;> rfl
  | raised error => rfl
  | interrupted => rfl
  | stopped => rfl

variable {outcome : Outcome ε α} {conn : Connection σ} {next program : Program σ ε α}
  {body : Program σ ε Unit}

/-- A block that ends without a fault leaves no transaction open. -/
theorem Connection.leave_pending (conn : Connection σ) (h : ¬ outcome.IsFault) :
    (conn.leave outcome).pending = none := by
  cases outcome with
  | returned value => exact conn.commit_pending
  | raised error => rfl
  | interrupted => exact absurd trivial h
  | stopped => exact absurd trivial h

/-- An earlier history than that after the block is one of the body, and not its last one unless the
body has left a transaction open. -/
theorem Connection.before_leave {history : List σ} (h : history <:+ (conn.leave outcome).history)
    (hne : history ≠ (conn.leave outcome).history) :
    history <:+ conn.history ∧
      (history ≠ conn.history ∨ conn.pending ≠ none) := by
  cases outcome with
  | returned value =>
    rw [Connection.leave, Connection.commit] at h hne
    cases hpending : conn.pending with
    | none =>
      rw [hpending] at h hne
      exact ⟨h, .inl hne⟩
    | some store =>
      rw [hpending] at h hne
      exact ⟨(List.suffix_cons_iff.mp h).resolve_left hne, .inr (by simp)⟩
  | raised error => exact ⟨h, .inl hne⟩
  | interrupted => exact ⟨h, .inl hne⟩
  | stopped => exact ⟨h, .inl hne⟩

private theorem Outcome.IsFault.history_leave (h : outcome.IsFault) (conn : Connection σ) :
    (conn.leave outcome).history = conn.history := by
  cases outcome with
  | returned value => exact h.elim
  | raised error => exact h.elim
  | interrupted => rfl
  | stopped => rfl

private theorem Outcome.IsFault.andThen (h : outcome.IsFault) (conn : Connection σ)
    (next : α → Outcome ε β × Connection σ) :
    (outcome.andThen conn next).1.IsFault ∧
      (outcome.andThen conn next).2 = conn := by
  cases outcome with
  | returned value => exact h.elim
  | raised error => exact h.elim
  | interrupted => exact ⟨trivial, rfl⟩
  | stopped => exact ⟨trivial, rfl⟩

/-- How the faulted runs of a program compare with its completed run, which executes a given number
of statements. -/
structure FaultReport (fault : Fault) (program : Program σ ε α) (conn : Connection σ)
    (statements : ℕ) : Prop where
  unfaulted : (exec program conn).2.fault = none
  plain : ¬ (exec program conn).1.IsFault
  grows : conn.history <:+ (exec program conn).2.history
  /-- A fault that is due later changes nothing. -/
  late : ∀ n, statements ≤ n → exec program (conn.withFault n fault) =
    ((exec program conn).1, (exec program conn).2.withFault (n - statements) fault)
  /-- A fault that strikes exposes a store committed on the way. -/
  early : ∀ n < statements, (exec program (conn.withFault n fault)).1.IsFault ∧
    conn.history <:+ (exec program (conn.withFault n fault)).2.history ∧
    (exec program (conn.withFault n fault)).2.history <:+ (exec program conn).2.history
  /-- Every store committed on the way is exposed by some fault, and so is the last one while the
  program has left a transaction open that it opened itself. -/
  reached : ∀ history, conn.history <:+ history →
    history <:+ (exec program conn).2.history →
    (history ≠ (exec program conn).2.history ∨
      (conn.pending = none ∧ (exec program conn).2.pending ≠ none)) →
    ∃ n < statements, (exec program (conn.withFault n fault)).2.history = history

/-- A program that stops at once. -/
theorem FaultReport.of_immediate (hfault : conn.fault = none) (hplain : ¬ outcome.IsFault)
    (h : ∀ conn : Connection σ, exec program conn = (outcome, conn)) :
    FaultReport fault program conn 0 where
  unfaulted := by rw [h]; exact hfault
  plain := by rw [h]; exact hplain
  grows := by rw [h]
  late n _ := by rw [h, h]; rfl
  early n hn := absurd hn (Nat.not_lt_zero n)
  reached history hlow hhigh hcase := by
    rw [h] at hhigh hcase
    have hsame : history = conn.history := hhigh.eq_of_length_le hlow.length_le
    rcases hcase with hne | ⟨hnone, hsome⟩
    · exact absurd hsame hne
    · exact absurd hnone hsome

/-- A statement before the one at which the fault is due. -/
theorem exec_write_withFault_succ (statement : σ → Except ε σ) (next : Program σ ε α)
    (conn : Connection σ) (n : ℕ) (fault : Fault) :
    exec (.write statement next) (conn.withFault (n + 1) fault) =
      match statement conn.view with
      | .ok store =>
        exec next (({ conn with pending := some store } : Connection σ).withFault n fault)
      | .error error => (.raised error,
          ({ conn with pending := some conn.view } : Connection σ).withFault n
            fault) := by
  rw [exec_write_run _ (by simp [Connection.withFault])]
  rfl

/-- A statement that writes or fails. The rest of its transaction commits nothing, so the faults at
the statement itself are the ones that count. -/
theorem FaultReport.write {statement : σ → Except ε σ} (hfault : conn.fault = none)
    (ih : ∀ store, ∃ statements, FaultReport fault next
      { conn with pending := some store } statements) :
    ∃ statements, FaultReport fault (.write statement next) conn statements := by
  have hrun : ∀ fault, conn.fault ≠ some (0, fault) := by simp [hfault]
  have hcharge : conn.charge = conn := by
    cases conn
    subst hfault
    rfl
  -- The run of the first statement under a fault that is due at once, and under a later one.
  have hzero : (exec (.write statement next) (conn.withFault 0 fault)).1.IsFault ∧
      (exec (.write statement next) (conn.withFault 0 fault)).2.history =
        conn.history := by
    cases fault with
    | exception =>
      rw [exec_write_exception _ rfl]
      exact ⟨trivial, rfl⟩
    | stop =>
      rw [exec_write_stop _ rfl]
      exact ⟨trivial, rfl⟩
  have hsucc := fun n => exec_write_withFault_succ statement next conn n fault
  cases hstatement : statement conn.view with
  | error error =>
    have hexec : exec (.write statement next) conn =
        (.raised error, { conn with pending := some conn.view }) := by
      rw [exec_write_run _ hrun, hstatement, hcharge]
    refine ⟨1, ⟨by rw [hexec]; exact hfault, by rw [hexec]; exact id,
      by rw [hexec]; exact suffix_rfl, fun n hn => ?_, fun n hn => ?_,
      fun history hlow hhigh _ => ⟨0, one_pos, ?_⟩⟩⟩
    · obtain ⟨m, rfl⟩ := Nat.exists_eq_add_of_le' hn
      rw [hsucc, hstatement, hexec]
      rfl
    · obtain rfl : n = 0 := by omega
      rw [hzero.2, hexec]
      exact ⟨hzero.1, suffix_rfl, suffix_rfl⟩
    · rw [hexec] at hhigh
      rw [hzero.2]
      exact hlow.eq_of_length_le hhigh.length_le
  | ok store =>
    obtain ⟨statements, report⟩ := ih store
    have hexec : exec (.write statement next) conn =
        exec next { conn with pending := some store } := by
      rw [exec_write_run _ hrun, hstatement, hcharge]
    have hconstant : (exec next { conn with pending := some store }).2.history =
        conn.history :=
      (exec_of_pending next { conn with pending := some store } rfl).1
    refine ⟨statements + 1, ⟨by rw [hexec]; exact report.unfaulted,
      by rw [hexec]; exact report.plain, by rw [hexec]; exact report.grows, fun n hn => ?_,
      fun n hn => ?_, fun history hlow hhigh _ => ⟨0, Nat.succ_pos _, ?_⟩⟩⟩
    · obtain ⟨m, rfl⟩ := Nat.exists_eq_add_of_le' hn
      rw [← Nat.add_assoc, hsucc, hstatement, hexec]
      dsimp only
      rw [report.late (m + statements) (Nat.le_add_left _ _)]
      congr 2
      omega
    · cases n with
      | zero =>
        rw [hzero.2, hexec, hconstant]
        exact ⟨hzero.1, suffix_rfl, suffix_rfl⟩
      | succ n =>
        rw [hsucc, hstatement, hexec]
        exact report.early n (by omega)
    · rw [hexec, hconstant] at hhigh
      rw [hzero.2]
      exact hlow.eq_of_length_le hhigh.length_le

/-- The connection after a transaction block that was entered on `entered`. -/
def Connection.exit (left entered : Connection σ) (outcome : Outcome ε α) : Connection σ :=
  if entered.pending.isSome then left else left.leave outcome

private theorem Connection.history_suffix_exit (left entered : Connection σ)
    (outcome : Outcome ε α) :
    left.history <:+ (left.exit entered outcome).history := by
  rw [Connection.exit]
  split
  · exact suffix_rfl
  · exact left.history_suffix_leave outcome

private theorem Connection.exit_fault (left entered : Connection σ) (outcome : Outcome ε α) :
    (left.exit entered outcome).fault = left.fault := by
  rw [Connection.exit]
  split
  · rfl
  · exact left.leave_fault outcome

private theorem Connection.withFault_exit (left entered : Connection σ) (n m : ℕ) (fault : Fault)
    (outcome : Outcome ε α) :
    (left.withFault n fault).exit (entered.withFault m fault) outcome =
      (left.exit entered outcome).withFault n fault := by
  rw [Connection.exit, Connection.exit]
  change (if entered.pending.isSome then _ else _) = _
  split
  · rfl
  · exact left.withFault_leave n fault outcome

private theorem Outcome.IsFault.history_exit (h : outcome.IsFault) (left entered : Connection σ) :
    (left.exit entered outcome).history = left.history := by
  rw [Connection.exit]
  split
  · rfl
  · exact h.history_leave left

/-- A fault in the body ends the block and commits nothing more. -/
theorem exec_transaction_of_isFault (next : Program σ ε α) (h : (exec body conn).1.IsFault) :
    (exec (.transaction body next) conn).1.IsFault ∧
      (exec (.transaction body next) conn).2.history =
        (exec body conn).2.history := by
  obtain ⟨hstill, hconnection⟩ := h.andThen
    ((exec body conn).2.exit conn (exec body conn).1)
    fun _ => exec next ((exec body conn).2.exit conn (exec body conn).1)
  rw [exec_transaction]
  refine ⟨hstill, ?_⟩
  rw [← h.history_exit (exec body conn).2 conn]
  exact congrArg Connection.history hconnection

/-- A block that goes on with `rest` once its body has ended. -/
theorem FaultReport.transaction {first second : ℕ}
    (report : FaultReport fault body conn first) (rest : Program σ ε α)
    (hrest : ∀ left : Connection σ, (exec body conn).1.andThen left
      (fun _ => exec next left) =
      exec rest left)
    (reportRest : FaultReport fault rest
      ((exec body conn).2.exit conn (exec body conn).1) second) :
    FaultReport fault (.transaction body next) conn (first + second) := by
  set left := (exec body conn).2.exit conn (exec body conn).1 with hleft
  have hexec : exec (.transaction body next) conn = exec rest left := hrest left
  have hpass : ∀ n, first ≤ n → exec (.transaction body next) (conn.withFault n fault) =
      exec rest (left.withFault (n - first) fault) := by
    intro n hn
    rw [exec_transaction, report.late n hn, hleft, ← Connection.withFault_exit _ _ _ n]
    exact hrest _
  have hbody : (exec body conn).2.history <:+ left.history :=
    Connection.history_suffix_exit _ _ _
  refine ⟨?_, ?_, ?_, fun n hn => ?_, fun n hn => ?_, fun history hlow hhigh hcase => ?_⟩
  · rw [hexec]
    exact reportRest.unfaulted
  · rw [hexec]
    exact reportRest.plain
  · rw [hexec]
    exact (report.grows.trans hbody).trans reportRest.grows
  · rw [hpass n (by omega), hexec, reportRest.late (n - first) (by omega), Nat.sub_sub]
  · by_cases hfirst : n < first
    · obtain ⟨hfaulted, hgrows, hbelow⟩ := report.early n hfirst
      obtain ⟨hstill, hhistory⟩ := exec_transaction_of_isFault next hfaulted
      rw [hhistory, hexec]
      exact ⟨hstill, hgrows, (hbelow.trans hbody).trans reportRest.grows⟩
    · rw [hpass n (by omega), hexec]
      obtain ⟨hfaulted, hgrows, hbelow⟩ := reportRest.early (n - first) (by omega)
      exact ⟨hfaulted, (report.grows.trans hbody).trans hgrows, hbelow⟩
  · rw [hexec] at hhigh hcase
    by_cases hopen : conn.pending.isSome
    · -- Inside an open transaction there is nothing between the first and the last history.
      have hsame := (exec_of_pending (.transaction body next) conn hopen).1
      rw [hexec] at hsame
      rw [hsame] at hhigh hcase
      rcases hcase with hne | ⟨hnone, -⟩
      · exact absurd (hhigh.eq_of_length_le hlow.length_le) hne
      · rw [hnone] at hopen
        exact absurd hopen (by simp)
    rw [Option.not_isSome_iff_eq_none] at hopen
    have hended : left = (exec body conn).2.leave (exec body conn).1 := by
      rw [hleft, Connection.exit, hopen]
      rfl
    by_cases hlate : left.history <:+ history
    · -- The history has been reached after the block.
      have hcase' : history ≠ (exec rest left).2.history ∨
          (left.pending = none ∧ (exec rest left).2.pending ≠ none) :=
        hcase.imp_right fun h => ⟨hended ▸ Connection.leave_pending _ report.plain, h.2⟩
      obtain ⟨n, hn, hreached⟩ := reportRest.reached history hlate hhigh hcase'
      refine ⟨first + n, by omega, ?_⟩
      rw [hpass _ (Nat.le_add_right _ _), Nat.add_sub_cancel_left]
      exact hreached
    · -- It has been reached in the body, at the latest by what the body then had still open.
      have hsoon : history <:+ left.history :=
        (suffix_or_suffix_of_suffix reportRest.grows hhigh).resolve_left hlate
      have hne : history ≠ left.history := fun h => hlate (h ▸ suffix_rfl)
      obtain ⟨hhigh', hopened⟩ := Connection.before_leave (hended ▸ hsoon) (hended ▸ hne)
      obtain ⟨n, hn, hreached⟩ := report.reached history hlow hhigh'
        (hopened.imp_right fun h => ⟨hopen, h⟩)
      exact ⟨n, by omega, (exec_transaction_of_isFault next (report.early n hn).1).2.trans hreached⟩

/-- **Faults expose what is committed on the way.** By induction on the program. -/
theorem exec_faulted (fault : Fault) (program : Program σ ε α) (conn : Connection σ)
    (hfault : conn.fault = none) :
    ∃ statements, FaultReport fault program conn statements := by
  induction program generalizing conn with
  | done value => exact ⟨0, .of_immediate hfault id fun _ => rfl⟩
  | raise error => exact ⟨0, .of_immediate hfault id fun _ => rfl⟩
  | read next ih =>
    obtain ⟨statements, report⟩ := ih conn.view conn hfault
    exact ⟨statements, ⟨report.unfaulted, report.plain, report.grows, report.late, report.early,
      report.reached⟩⟩
  | write statement next ih => exact FaultReport.write hfault fun store => ih _ hfault
  | transaction body next ihBody ihNext =>
    -- The statements of the block come first, then those after it; a failed block has none.
    obtain ⟨first, report⟩ := ihBody conn hfault
    cases houtcome : (exec body conn).1 with
    | returned value =>
      obtain ⟨second, reportNext⟩ :=
        ihNext ((exec body conn).2.exit conn (exec body conn).1)
          (by rw [Connection.exit_fault]; exact report.unfaulted)
      exact ⟨first + second, report.transaction next (fun _ => by rw [houtcome]; rfl) reportNext⟩
    | raised error =>
      exact ⟨first + 0, report.transaction (.raise error) (fun _ => by rw [houtcome]; rfl)
        (.of_immediate (by rw [Connection.exit_fault]; exact report.unfaulted) id fun _ => rfl)⟩
    | interrupted =>
      exact absurd (show (exec body conn).1.IsFault from houtcome ▸ trivial) report.plain
    | stopped =>
      exact absurd (show (exec body conn).1.IsFault from houtcome ▸ trivial) report.plain

/-! ### Atomic calls -/

/-- The run has returned a value. -/
def Outcome.IsReturned : Outcome ε α → Prop
  | .returned _ => True
  | .raised _ | .interrupted | .stopped => False

instance (outcome : Outcome ε α) : Decidable outcome.IsReturned :=
  match outcome with
  | .returned _ => .isTrue trivial
  | .raised _ | .interrupted | .stopped => .isFalse id

/-- Whatever fault strikes at whatever statement, the committed store is afterwards the one before
the call or, if the call can complete, the one of the completed call. -/
def Atomic (program : Program σ ε α) (conn : Connection σ) : Prop :=
  ∀ n fault,
    (exec program (conn.withFault n fault)).2.committed = conn.committed ∨
      ((exec program conn).1.IsReturned ∧
        (exec program (conn.withFault n fault)).2.committed =
          (exec program conn).2.committed)

theorem atomic_of_pending (program : Program σ ε α) (hopen : conn.pending.isSome) :
    Atomic program conn := by
  intro n fault
  left
  have hhistory := (exec_of_pending program (conn.withFault n fault) hopen).1
  exact (List.cons.inj hhistory).1

/-- One fault that exposes a third store refutes atomicity. -/
theorem not_atomic_of_fault (n : ℕ) (fault : Fault)
    (hbefore : (exec program (conn.withFault n fault)).2.committed ≠ conn.committed)
    (hafter : (exec program (conn.withFault n fault)).2.committed ≠
      (exec program conn).2.committed) :
    ¬ Atomic program conn := by
  intro hatomic
  rcases hatomic n fault with h | ⟨-, h⟩
  · exact hbefore h
  · exact hafter h

/-- Every store of the history of an unfaulted run is exposed by some fault. -/
theorem exists_fault_of_mem_history (hfault : conn.fault = none)
    (hfresh : conn.earlier = []) {store : σ} (hmem : store ∈ (exec program conn).2.history) :
    ∃ n, (exec program (conn.withFault n .stop)).2.committed = store := by
  obtain ⟨statements, report⟩ := exec_faulted .stop program conn hfault
  rcases List.mem_cons.mp hmem with rfl | hmem
  · exact ⟨statements, by rw [report.late statements le_rfl]; rfl⟩
  -- The store heads a proper end of the history, which some fault exposes.
  obtain ⟨later, before, hsplit⟩ := append_of_mem hmem
  have hhigh : store :: before <:+ (exec program conn).2.history := by
    rw [Connection.history, hsplit]
    exact (suffix_append later _).trans (suffix_cons _ _)
  have hlow : conn.history <:+ store :: before := by
    have hgrows := report.grows
    rw [Connection.history, hfresh] at hgrows ⊢
    rcases suffix_or_suffix_of_suffix hgrows hhigh with h | h
    · exact h
    · have hlen := h.length_le
      simp only [length_cons, length_nil] at hlen
      have hnil : before = [] := List.length_eq_zero_iff.mp (by omega)
      rw [h.eq_of_length (by simp [hnil])]
  have hne : store :: before ≠ (exec program conn).2.history := by
    intro h
    have hlen := congrArg List.length h
    rw [Connection.history, hsplit] at hlen
    simp only [length_cons, length_append] at hlen
    omega
  obtain ⟨n, -, hreached⟩ := report.reached _ hlow hhigh (.inl hne)
  exact ⟨n, (List.cons.inj hreached).1⟩

/-- **Atomicity.** A call on an idle connection is atomic exactly when each store it commits is the
one before the call or, if it returns, the last one. -/
theorem atomic_iff (program : Program σ ε α) (hfault : conn.fault = none)
    (hfresh : conn.earlier = []) :
    Atomic program conn ↔
      ∀ store ∈ (exec program conn).2.history, store = conn.committed ∨
        ((exec program conn).1.IsReturned ∧
          store = (exec program conn).2.committed) := by
  constructor
  · intro hatomic store hmem
    obtain ⟨n, rfl⟩ := exists_fault_of_mem_history hfault hfresh hmem
    exact hatomic n .stop
  · intro hstores n fault
    obtain ⟨statements, report⟩ := exec_faulted fault program conn hfault
    by_cases hn : n < statements
    · obtain ⟨-, -, hbelow⟩ := report.early n hn
      exact hstores _ (hbelow.subset mem_cons_self)
    · rw [report.late n (by omega)]
      exact hstores _ mem_cons_self

end Database
