import Mathlib

/-!
# Programs over a connection with implicit transactions

A connection holds a committed store and, while a transaction is open, the store that the
transaction has written so far. Entering a transaction block opens nothing: the first statement
that writes does. A block that was entered with no transaction open ends what was opened inside
it, by committing when it is left normally and by rolling back when it is left by an error; a block
entered inside an open transaction leaves it alone.

`Program` is the syntax of such code and `exec` its meaning, with a fault that strikes at a given
statement: an exception that propagates to the caller, or the end of the process. The connection
remembers the stores that were committed before (`Connection.history`), which no program can read.
Inside an open transaction nothing is committed (`exec_of_pending`).
-/

namespace Database

variable {σ ε α β : Type}

/-! ### Syntax -/

/-- Code that reads and writes a store. -/
inductive Program (σ ε : Type) : Type → Type 1
  | done {α : Type} (value : α) : Program σ ε α
  | raise {α : Type} (error : ε) : Program σ ε α
  | read {α : Type} (next : σ → Program σ ε α) : Program σ ε α
  /-- A statement that writes, or fails. -/
  | write {α : Type} (statement : σ → Except ε σ) (next : Program σ ε α) : Program σ ε α
  /-- A transaction block. -/
  | transaction {α : Type} (body : Program σ ε Unit) (next : Program σ ε α) : Program σ ε α

namespace Program

/-- Sequential composition. -/
def bind : Program σ ε α → (α → Program σ ε β) → Program σ ε β
  | done value, k => k value
  | raise error, _ => raise error
  | read next, k => read fun store => (next store).bind k
  | write statement next, k => write statement (next.bind k)
  | transaction body next, k => transaction body (next.bind k)

instance : Monad (Program σ ε) where
  pure := done
  bind := bind

/-- The result of a computation that does not touch the store. -/
def ofExcept : Except ε α → Program σ ε α
  | .ok value => done value
  | .error error => raise error

/-- The store as the connection sees it. -/
def get : Program σ ε σ := read done

/-- One writing statement. -/
def statement (f : σ → Except ε σ) : Program σ ε Unit := write f (done ())

/-- A transaction block on its own. -/
def transact (body : Program σ ε Unit) : Program σ ε Unit := transaction body (done ())

end Program

/-! ### Connections and faults -/

/-- What strikes at a statement. -/
inductive Fault
  /-- The statement raises an error that nothing handles. -/
  | exception
  /-- The process ends. -/
  | stop
deriving DecidableEq

/-- A connection to a store. -/
structure Connection (σ : Type) where
  committed : σ
  /-- The store as written by the open transaction. -/
  pending : Option σ := none
  /-- The stores committed before, latest first. -/
  earlier : List σ := []
  /-- The fault to come, and the number of statements before it. -/
  fault : Option (ℕ × Fault) := none

namespace Connection

/-- What a read sees. -/
def view (conn : Connection σ) : σ := conn.pending.getD conn.committed

/-- All committed stores, latest first. -/
def history (conn : Connection σ) : List σ := conn.committed :: conn.earlier

/-- End the open transaction, if any, and keep its writes. -/
def commit (conn : Connection σ) : Connection σ :=
  match conn.pending with
  | none => conn
  | some store =>
    { conn with
      committed := store
      pending := none
      earlier := conn.committed :: conn.earlier }

/-- End the open transaction, if any, and drop its writes. -/
def rollback (conn : Connection σ) : Connection σ := { conn with pending := none }

/-- One statement less before the fault. -/
def charge (conn : Connection σ) : Connection σ :=
  { conn with fault := conn.fault.map fun fault => (fault.1 - 1, fault.2) }

end Connection

/-- How a run ends. -/
inductive Outcome (ε α : Type)
  | returned (value : α)
  | raised (error : ε)
  /-- The injected exception reached the caller. -/
  | interrupted
  /-- The process has ended. -/
  | stopped

/-- What a transaction block that was entered with no transaction open does when it is left. -/
def Connection.leave (conn : Connection σ) : Outcome ε α → Connection σ
  | .returned _ => conn.commit
  | .raised _ | .interrupted => conn.rollback
  | .stopped => conn

/-- Continue after a run that has returned. -/
def Outcome.andThen (outcome : Outcome ε α) (conn : Connection σ)
    (next : α → Outcome ε β × Connection σ) : Outcome ε β × Connection σ :=
  match outcome with
  | .returned value => next value
  | .raised error => (.raised error, conn)
  | .interrupted => (.interrupted, conn)
  | .stopped => (.stopped, conn)

/-- **Execution.** -/
def exec : {α : Type} → Program σ ε α → Connection σ → Outcome ε α × Connection σ
  | _, .done value, conn => (.returned value, conn)
  | _, .raise error, conn => (.raised error, conn)
  | _, .read next, conn => exec (next conn.view) conn
  | _, .write statement next, conn =>
    match conn.fault with
    | some (0, .exception) => (.interrupted, conn)
    -- The operating system drops what was not committed.
    | some (0, .stop) => (.stopped, conn.rollback)
    | _ =>
      match statement conn.view with
      | .ok store => exec next { conn.charge with pending := some store }
      -- The transaction is already open when the statement fails.
      | .error error => (.raised error, { conn.charge with pending := some conn.view })
  | _, .transaction body next, conn =>
    let (outcome, left) := exec body conn
    let left := if conn.pending.isSome then left else left.leave outcome
    outcome.andThen left fun _ => exec next left

/-! ### Small steps of the meaning -/

variable {next : Program σ ε α} {statement : σ → Except ε σ}

section Steps

variable (conn : Connection σ)

theorem exec_write_exception (h : conn.fault = some (0, .exception)) :
    exec (.write statement next) conn = (.interrupted, conn) := by
  simp only [exec, h]

theorem exec_write_stop (h : conn.fault = some (0, .stop)) :
    exec (.write statement next) conn = (.stopped, conn.rollback) := by
  simp only [exec, h]

/-- A statement at which no fault strikes. -/
theorem exec_write_run (h : ∀ fault, conn.fault ≠ some (0, fault)) :
    exec (.write statement next) conn =
      match statement conn.view with
      | .ok store => exec next { conn.charge with pending := some store }
      | .error error =>
        (.raised error, { conn.charge with pending := some conn.view }) := by
  rw [exec]
  split
  · next hfault => exact absurd hfault (h _)
  · next hfault => exact absurd hfault (h _)
  · rfl

theorem exec_transaction (body : Program σ ε Unit) (next : Program σ ε α) :
    exec (.transaction body next) conn =
      (exec body conn).1.andThen
        (if conn.pending.isSome then (exec body conn).2
          else (exec body conn).2.leave (exec body conn).1)
        fun _ => exec next
          (if conn.pending.isSome then (exec body conn).2
            else (exec body conn).2.leave (exec body conn).1) := rfl

theorem Connection.commit_pending : conn.commit.pending = none := by
  rw [Connection.commit]
  split
  · next h => exact h
  · rfl

private theorem Connection.history_suffix_commit : conn.history <:+ conn.commit.history := by
  rw [Connection.commit]
  split
  · exact List.suffix_rfl
  · exact List.suffix_cons _ _

theorem Connection.history_suffix_leave (outcome : Outcome ε α) :
    conn.history <:+ (conn.leave outcome).history := by
  cases outcome with
  | returned value => exact conn.history_suffix_commit
  | raised error => exact List.suffix_rfl
  | interrupted => exact List.suffix_rfl
  | stopped => exact List.suffix_rfl

end Steps

/-- The meaning of a composition. -/
theorem exec_bind (program : Program σ ε α) (k : α → Program σ ε β) (conn : Connection σ) :
    exec (program.bind k) conn =
      (exec program conn).1.andThen (exec program conn).2 fun value =>
        exec (k value) (exec program conn).2 := by
  induction program generalizing conn with
  | done value => rfl
  | raise error => rfl
  | read next ih => exact ih conn.view k conn
  | write statement next ih =>
    -- A fault strikes the statement, whatever follows it.
    by_cases hfault : ∃ fault, conn.fault = some (0, fault)
    · obtain ⟨fault, hfault⟩ := hfault
      cases fault with
      | exception =>
        rw [Program.bind, exec_write_exception _ hfault, exec_write_exception _ hfault]
        rfl
      | stop =>
        rw [Program.bind, exec_write_stop _ hfault, exec_write_stop _ hfault]
        rfl
    · rw [Program.bind, exec_write_run _ (by simpa using hfault),
        exec_write_run _ (by simpa using hfault)]
      cases statement conn.view with
      | ok store => exact ih k _
      | error error => rfl
  | transaction body next _ ih =>
    rw [Program.bind, exec_transaction, exec_transaction]
    cases (exec body conn).1 with
    | returned value => exact ih k _
    | raised error => rfl
    | interrupted => rfl
    | stopped => rfl

/-! ### Inside an open transaction -/

/-- **Nothing is committed inside an open transaction**, and it stays open. -/
theorem exec_of_pending (program : Program σ ε α) (conn : Connection σ)
    (hopen : conn.pending.isSome) :
    (exec program conn).2.history = conn.history ∧
      ∀ value, (exec program conn).1 = .returned value →
        (exec program conn).2.pending.isSome := by
  induction program generalizing conn with
  | done value => exact ⟨rfl, fun _ _ => hopen⟩
  | raise error => exact ⟨rfl, fun _ _ => hopen⟩
  | read next ih => exact ih conn.view conn hopen
  | write statement next ih =>
    by_cases hfault : ∃ fault, conn.fault = some (0, fault)
    · obtain ⟨fault, hfault⟩ := hfault
      cases fault with
      | exception =>
        rw [exec_write_exception _ hfault]
        exact ⟨rfl, fun _ _ => hopen⟩
      | stop =>
        rw [exec_write_stop _ hfault]
        exact ⟨rfl, fun _ hreturned => by cases hreturned⟩
    · rw [exec_write_run _ (by simpa using hfault)]
      cases statement conn.view with
      | ok store => exact ih _ rfl
      | error error => exact ⟨rfl, fun _ _ => rfl⟩
  | transaction body next ihBody ihNext =>
    obtain ⟨hhistory, hstays⟩ := ihBody conn hopen
    -- A block inside an open transaction leaves the commit to the outer one.
    rw [exec_transaction, if_pos hopen]
    cases houtcome : (exec body conn).1 with
    | returned value =>
      obtain ⟨hnext, hnextOpen⟩ := ihNext _ (hstays value houtcome)
      exact ⟨hnext.trans hhistory, hnextOpen⟩
    | raised error => exact ⟨hhistory, fun _ hreturned => by cases hreturned⟩
    | interrupted => exact ⟨hhistory, fun _ hreturned => by cases hreturned⟩
    | stopped => exact ⟨hhistory, fun _ hreturned => by cases hreturned⟩

end Database
