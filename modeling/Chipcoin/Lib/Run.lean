import Chipcoin.Lib.Fault

/-!
# Runs on an idle connection

A program all of whose statements stand in transaction blocks leaves an idle connection idle, so
its run is described by its result and the list of stores it commits (`Commits`). The rules follow
the syntax: composition appends the lists, a block around such programs adds nothing, and a block
that starts with a statement is one transaction (`commits_transact_write`).

* `Commits.atomic_iff`: the run is atomic when each committed store is the first or the last.
* `Still`: the run commits nothing new.
* `Program.Preserves`: what every statement keeps holds of every committed store.
* `atomic_marked_iff`: when a program that moves a mark between two groups of writes is atomic.
-/

namespace Database

open List

variable {σ ε α β : Type} {store store' : σ} {log log' : List σ} {Inv : σ → Prop}
  {start value : α} {items : List β} {computed result : Except ε α} {program : Program σ ε α}
  {body : Program σ ε Unit} {k : α → Program σ ε β} {f : α → β → Program σ ε α}

/-! ### Closed programs -/

namespace Program

/-- Every statement stands in a transaction block. -/
def Closed : {α : Type} → Program σ ε α → Prop
  | _, done _ => True
  | _, raise _ => True
  | _, read next => ∀ store, (next store).Closed
  | _, write _ _ => False
  | _, transaction _ next => next.Closed

theorem Closed.bind (h : program.Closed) (hk : ∀ value, (k value).Closed) :
    (program.bind k).Closed := by
  induction program with
  | done value => exact hk value
  | raise error => trivial
  | read next ih => exact fun store => ih store (h store) hk
  | write statement next ih => exact h.elim
  | transaction body next _ ih => exact ih h hk

private theorem closed_pure (value : α) : (pure value : Program σ ε α).Closed := trivial

theorem closed_ofExcept (result : Except ε α) : (ofExcept result : Program σ ε α).Closed := by
  cases result <;> trivial

theorem closed_get : (get : Program σ ε σ).Closed := fun _ => trivial

theorem closed_transact (body : Program σ ε Unit) : (transact body).Closed := trivial

theorem closed_forM {f : β → Program σ ε Unit} (h : ∀ item ∈ items, (f item).Closed) :
    (items.forM f).Closed := by
  induction items with
  | nil => trivial
  | cons item rest ih =>
    exact (h item mem_cons_self).bind fun _ => ih fun item hmem =>
      h item (mem_cons_of_mem _ hmem)

theorem closed_foldlM (h : ∀ value, ∀ item ∈ items, (f value item).Closed) :
    (items.foldlM f start).Closed := by
  induction items generalizing start with
  | nil => trivial
  | cons item rest ih =>
    exact (h start item mem_cons_self).bind fun _ => ih fun value item hmem =>
      h value item (mem_cons_of_mem _ hmem)

end Program

/-- An idle connection that has committed a list of stores, latest first, after a first one. -/
def Connection.advance (store : σ) (log earlier : List σ) : Connection σ :=
  match log with
  | [] => { committed := store, earlier := earlier }
  | last :: before => { committed := last, earlier := before ++ store :: earlier }

private theorem Connection.history_advance (store : σ) (log earlier : List σ) :
    (Connection.advance store log earlier).history = log ++ store :: earlier := by
  cases log <;> rfl

theorem Connection.committed_advance (store : σ) (log earlier : List σ) :
    (Connection.advance store log earlier).committed = log.headD store := by
  cases log <;> rfl

private theorem Connection.advance_advance (store : σ) (log log' earlier : List σ) :
    Connection.advance (log.headD store) log' (Connection.advance store log earlier).earlier =
      Connection.advance store (log' ++ log) earlier := by
  cases log with
  | nil => rw [append_nil]; rfl
  | cons last before =>
    cases log' with
    | nil => rfl
    | cons last' before' =>
      simp [Connection.advance]

/-- The outcome of an unfaulted run. -/
def Outcome.ofExcept : Except ε α → Outcome ε α
  | .ok value => .returned value
  | .error error => .raised error

/-- On an idle connection the program ends with a result, and commits a list of stores on the way,
latest first. -/
def Commits (program : Program σ ε α) (store : σ) (result : Except ε α) (log : List σ) : Prop :=
  ∀ earlier, exec program { committed := store, earlier := earlier } =
    (.ofExcept result, .advance store log earlier)

namespace Commits

private theorem pure (value : α) : Commits (Pure.pure value : Program σ ε α) store (.ok value) [] :=
  fun _ => rfl

theorem raise (error : ε) : Commits (.raise error : Program σ ε α) store (.error error) [] :=
  fun _ => rfl

private theorem ofExcept (result : Except ε α) :
    Commits (.ofExcept result : Program σ ε α) store result [] := by
  cases result <;> exact fun _ => rfl

/-- A composition whose first part returns. -/
theorem bind {result : Except ε β} (h : Commits program store (.ok value) log)
    (hk : Commits (k value) (log.headD store) result log') :
    Commits (program >>= k) store result (log' ++ log) := by
  intro earlier
  change exec (program.bind k) _ = _
  have hstart : Connection.advance store log earlier =
      { committed := log.headD store, earlier := (Connection.advance store log earlier).earlier
        } := by
    cases log <;> rfl
  rw [exec_bind, h earlier]
  change exec (k value) (Connection.advance store log earlier) = _
  rw [hstart, hk, Connection.advance_advance]

/-- A composition whose first part raises. -/
theorem bind_error {error : ε} (h : Commits program store (.error error) log) :
    Commits (program >>= k) store (.error error) log := by
  intro earlier
  change exec (program.bind k) _ = _
  rw [exec_bind, h earlier]
  rfl

/-- A transaction block around code that manages its own transactions adds nothing. -/
theorem transact {result : Except ε Unit} (h : Commits body store result log) :
    Commits (.transact body) store result log := by
  intro earlier
  have hidle : (Connection.advance store log earlier).pending = none := by cases log <;> rfl
  have hleave : (Connection.advance store log earlier).leave (Outcome.ofExcept result) =
      Connection.advance store log earlier := by
    cases log <;> cases result <;> rfl
  rw [Program.transact, exec_transaction, h earlier]
  cases result with
  | ok value => exact congrArg (exec (.done ())) hleave
  | error error => exact congrArg (Prod.mk _) hleave

/-- Runs are deterministic. -/
theorem unique {result' : Except ε α} (h : Commits program store result log)
    (h' : Commits program store result' log') : result = result' ∧ log = log' := by
  have hsame := (h []).symm.trans (h' [])
  obtain ⟨houtcome, hconnection⟩ := Prod.mk.inj hsame
  refine ⟨?_, ?_⟩
  · cases result <;> cases result' <;> simp_all [Outcome.ofExcept]
  · have hhistory := congrArg Connection.history hconnection
    rw [Connection.history_advance, Connection.history_advance] at hhistory
    exact append_cancel_right hhistory

end Commits

/-! ### Every closed program has a run -/

private theorem Connection.exit_advance (store : σ) (entered left : Option σ) (log earlier : List σ)
    (fresh : List σ) (value : α) :
    Connection.exit { Connection.advance store log earlier with pending := left }
        { committed := store, pending := entered, earlier := fresh }
        (.returned value : Outcome ε α) =
      { Connection.advance store (if entered.isSome then log else left.toList ++ log) earlier with
        pending := if entered.isSome then left else none } := by
  cases entered with
  | some _ => rfl
  | none => cases left <;> cases log <;> rfl

private theorem Connection.advance_eq (store : σ) (log earlier : List σ) (pending : Option σ) :
    { Connection.advance store log earlier with pending := pending } =
      ({ committed := log.headD store, pending := pending,
         earlier := (Connection.advance store log earlier).earlier } : Connection σ) := by
  cases log <;> rfl

/-- An unfaulted run does not depend on the stores committed before it. -/
theorem exec_uniform (program : Program σ ε α) (store : σ) (pending : Option σ) :
    ∃ result log left, ∀ earlier,
      exec program { committed := store, pending := pending, earlier := earlier } =
        (.ofExcept result, { Connection.advance store log earlier with pending := left }) := by
  induction program generalizing store pending with
  | done value => exact ⟨.ok value, [], pending, fun _ => rfl⟩
  | raise error => exact ⟨.error error, [], pending, fun _ => rfl⟩
  | read next ih => exact ih (pending.getD store) store pending
  | write statement next ih =>
    cases hstatement : statement (pending.getD store) with
    | ok written =>
      obtain ⟨result, log, left, h⟩ := ih store (some written)
      refine ⟨result, log, left, fun earlier => ?_⟩
      rw [exec_write_run _ (by simp), Connection.view, hstatement]
      exact h earlier
    | error error =>
      refine ⟨.error error, [], some (pending.getD store), fun earlier => ?_⟩
      rw [exec_write_run _ (by simp), Connection.view, hstatement]
      rfl
  | transaction body next ihBody ihNext =>
    obtain ⟨result, log, left, hbody⟩ := ihBody store pending
    cases result with
    | error error =>
      refine ⟨.error error, log, if pending.isSome then left else none, fun earlier => ?_⟩
      rw [exec_transaction, hbody earlier]
      cases pending <;> rfl
    | ok value =>
      -- Leaving the block commits what is pending, unless an outer transaction is open.
      set log' := if pending.isSome then log else left.toList ++ log with hlog
      obtain ⟨result, log'', left', hnext⟩ :=
        ihNext (log'.headD store) (if pending.isSome then left else none)
      refine ⟨result, log'' ++ log', left', fun earlier => ?_⟩
      have hexec : exec (.transaction body next)
          { committed := store, pending := pending, earlier := earlier } =
          exec next (Connection.exit { Connection.advance store log earlier with pending := left }
            { committed := store, pending := pending, earlier := earlier }
            (.returned value : Outcome ε Unit)) := by
        rw [exec_transaction, hbody earlier]
        rfl
      rw [hexec, Connection.exit_advance, ← hlog, Connection.advance_eq, hnext,
        Connection.advance_advance]

/-- A transaction block leaves an idle connection idle. -/
theorem commits_transact (body : Program σ ε Unit) (store : σ) :
    ∃ result log, Commits (.transact body) store result log := by
  obtain ⟨result, log, left, hbody⟩ := exec_uniform body store none
  cases result with
  | error error =>
    refine ⟨.error error, log, fun earlier => ?_⟩
    rw [Program.transact, exec_transaction, hbody earlier]
    cases log <;> rfl
  | ok value =>
    refine ⟨.ok (), left.toList ++ log, fun earlier => ?_⟩
    rw [Program.transact, exec_transaction, hbody earlier]
    cases left <;> cases log <;> rfl

/-- **Closed programs leave an idle connection idle.** -/
theorem Program.Closed.commits (h : program.Closed) (store : σ) :
    ∃ result log, Commits program store result log := by
  induction program generalizing store with
  | done value => exact ⟨.ok value, [], fun _ => rfl⟩
  | raise error => exact ⟨.error error, [], fun _ => rfl⟩
  | read next ih => exact ih store (h store) store
  | write statement next ih => exact h.elim
  | transaction body next _ ih =>
    have hsplit : Program.transaction body next = (.transact body >>= fun _ => next) := rfl
    obtain ⟨result, log, hblock⟩ := commits_transact body store
    rw [hsplit]
    cases result with
    | error error => exact ⟨.error error, log, hblock.bind_error⟩
    | ok value =>
      obtain ⟨result, log', hnext⟩ := ih h (log.headD store)
      exact ⟨result, log' ++ log, hblock.bind hnext⟩

/-- The two ways in which a composition of closed programs runs. -/
theorem Commits.bind_inv {result : Except ε β} (hclosed : program.Closed)
    (hk : ∀ value, (k value).Closed) (h : Commits (program >>= k) store result log) :
    (∃ value first second, Commits program store (.ok value) first ∧
        Commits (k value) (first.headD store) result second ∧ log = second ++ first) ∨
      ∃ error, Commits program store (.error error) log ∧ result = .error error := by
  obtain ⟨result', first, hfirst⟩ := hclosed.commits store
  cases result' with
  | error error =>
    obtain ⟨hresult, rfl⟩ := h.unique hfirst.bind_error
    exact .inr ⟨error, hfirst, hresult⟩
  | ok value =>
    obtain ⟨result'', second, hsecond⟩ := (hk value).commits (first.headD store)
    obtain ⟨rfl, rfl⟩ := h.unique (hfirst.bind hsecond)
    exact .inl ⟨value, first, second, hfirst, hsecond, rfl⟩

/-! ### Inside a block -/

namespace Program

/-- The effect of a program inside an open transaction. -/
def eval : {α : Type} → Program σ ε α → σ → Except ε (α × σ)
  | _, done value, store => .ok (value, store)
  | _, raise error, _ => .error error
  | _, read next, store => (next store).eval store
  | _, write statement next, store =>
    match statement store with
    | .ok written => next.eval written
    | .error error => .error error
  | _, transaction body next, store =>
    match body.eval store with
    | .ok result => next.eval result.2
    | .error error => .error error

theorem eval_done (value : α) (store : σ) :
    (done value : Program σ ε α).eval store = .ok (value, store) := rfl

theorem eval_raise (error : ε) (store : σ) :
    (raise error : Program σ ε α).eval store = .error error := rfl

private theorem eval_write (statement : σ → Except ε σ) (next : Program σ ε α) (store : σ) :
    (write statement next).eval store =
      match statement store with
      | .ok written => next.eval written
      | .error error => .error error := rfl

private theorem eval_transaction (body : Program σ ε Unit) (next : Program σ ε α) (store : σ) :
    (transaction body next).eval store =
      match body.eval store with
      | .ok result => next.eval result.2
      | .error error => .error error := rfl

theorem eval_write_eq_ok {statement : σ → Except ε σ} {result : α × σ} :
    (write statement program).eval store = .ok result ↔
      ∃ written, statement store = .ok written ∧ program.eval written = .ok result := by
  rw [eval_write]
  cases statement store <;> simp

theorem eval_transaction_eq_ok {result : α × σ} :
    (transaction body program).eval store = .ok result ↔
      ∃ middle, body.eval store = .ok middle ∧ program.eval middle.2 = .ok result := by
  rw [eval_transaction]
  cases body.eval store <;> simp

private theorem eval_bind (program : Program σ ε α) (k : α → Program σ ε β) (store : σ) :
    (program.bind k).eval store =
      match program.eval store with
      | .ok result => (k result.1).eval result.2
      | .error error => .error error := by
  induction program generalizing store with
  | done value => rfl
  | raise error => rfl
  | read next ih => exact ih store k store
  | write statement next ih =>
    simp only [bind, eval_write]
    cases statement store with
    | ok written => exact ih k written
    | error error => rfl
  | transaction body next _ ih =>
    simp only [bind, eval_transaction]
    cases body.eval store with
    | ok result => exact ih k result.2
    | error error => rfl

theorem eval_andThen_eq_ok {result : β × σ} :
    (program >>= k).eval store = .ok result ↔
      ∃ middle, program.eval store = .ok middle ∧ (k middle.1).eval middle.2 = .ok result := by
  change (program.bind k).eval store = _ ↔ _
  rw [eval_bind]
  cases program.eval store with
  | ok middle => exact ⟨fun h => ⟨middle, rfl, h⟩, fun ⟨_, hmiddle, h⟩ => by cases hmiddle; exact h⟩
  | error error => exact ⟨fun h => (nomatch h), fun ⟨_, hmiddle, _⟩ => (nomatch hmiddle)⟩

theorem eval_forM_append_eq_ok {f : β → Program σ ε Unit} {items' : List β} {result : Unit × σ} :
    ((items ++ items').forM f).eval store = .ok result ↔
      ∃ middle, (items.forM f).eval store = .ok ((), middle) ∧
        (items'.forM f).eval middle = .ok result := by
  induction items generalizing store with
  | nil =>
    refine ⟨fun h => ⟨store, rfl, h⟩, ?_⟩
    rintro ⟨middle, hmiddle, h⟩
    cases hmiddle
    exact h
  | cons item rest ih =>
    change (f item >>= fun _ => (rest ++ items').forM f).eval store = _ ↔
      ∃ middle, (f item >>= fun _ => rest.forM f).eval store = .ok ((), middle) ∧ _
    simp only [eval_andThen_eq_ok, ih]
    constructor
    · rintro ⟨first, hfirst, middle, hrest, h⟩
      exact ⟨middle, ⟨first, hfirst, hrest⟩, h⟩
    · rintro ⟨middle, ⟨first, hfirst, hrest⟩, h⟩
      exact ⟨first, hfirst, middle, hrest, h⟩

theorem eval_get (store : σ) : (get : Program σ ε σ).eval store = .ok (store, store) := rfl

theorem eval_ofExcept_eq_ok {result : α × σ} :
    (ofExcept computed : Program σ ε α).eval store = .ok result ↔
      computed = .ok result.1 ∧ result.2 = store := by
  obtain ⟨value, store'⟩ := result
  cases computed with
  | ok found => simp [ofExcept, eval_done, eq_comm]
  | error error => simp [ofExcept, eval_raise]

theorem eval_ofExcept_andThen_eq_ok {result : β × σ} :
    (ofExcept computed >>= k).eval store = .ok result ↔
      ∃ value, computed = .ok value ∧ (k value).eval store = .ok result := by
  cases computed with
  | ok found => exact ⟨fun h => ⟨found, rfl, h⟩, fun ⟨_, hvalue, h⟩ => by cases hvalue; exact h⟩
  | error error => exact ⟨fun h => (nomatch h), fun ⟨_, hvalue, _⟩ => (nomatch hvalue)⟩

theorem eval_get_andThen (k : σ → Program σ ε β) (store : σ) :
    (get >>= k).eval store = (k store).eval store := rfl

end Program

/-- **A run that does not raise** ends with the store that its writes, one after the other, give. -/
theorem exec_of_eval_ok {conn : Connection σ} (hfault : conn.fault = none)
    (h : program.eval conn.view = .ok (value, store)) :
    ∃ left, exec program conn = (.returned value, left) ∧ left.view = store ∧
      left.fault = none := by
  induction program generalizing conn store with
  | done found =>
    cases h
    exact ⟨conn, rfl, rfl, hfault⟩
  | raise error => cases h
  | read next ih => exact ih conn.view hfault h
  | write statement next ih =>
    obtain ⟨written, hwritten, h⟩ := Program.eval_write_eq_ok.mp h
    rw [exec_write_run _ (by simp [hfault]), hwritten]
    exact ih (by simp [Connection.charge, hfault]) h
  | transaction body next ihBody ihNext =>
    obtain ⟨result, hbody, h⟩ := Program.eval_transaction_eq_ok.mp h
    obtain ⟨left, hexec, hview, hleft⟩ := ihBody hfault hbody
    -- Leaving the block commits what was written and shows the same tables.
    set closed := if conn.pending.isSome then left
      else left.leave (.returned result.1 : Outcome ε Unit) with hclosed
    have hsame : closed.view = result.2 ∧ closed.fault = none := by
      rw [hclosed]
      split_ifs
      · exact ⟨hview, hleft⟩
      · rw [Connection.leave, Connection.commit]
        cases hpending : left.pending with
        | none => exact ⟨hview, hleft⟩
        | some pending =>
          rw [Connection.view, hpending] at hview
          exact ⟨hview, hleft⟩
    obtain ⟨final, hfinal, hstore, hnone⟩ := ihNext hsame.2 (hsame.1 ▸ h)
    refine ⟨final, ?_, hstore, hnone⟩
    rw [exec_transaction, hexec]
    exact hfinal

theorem Program.Closed.commits_of_eval (hclosed : program.Closed)
    (h : program.eval store = .ok (value, store')) :
    ∃ log, Commits program store (.ok value) log ∧ log.headD store = store' := by
  obtain ⟨result, log, hrun⟩ := hclosed.commits store
  obtain ⟨left, hexec, hview, -⟩ :=
    exec_of_eval_ok (show ({ committed := store } : Connection σ).fault = none from rfl) h
  obtain ⟨houtcome, hleft⟩ := Prod.mk.inj ((hrun []).symm.trans hexec)
  have hidle : (Connection.advance store log []).view = log.headD store := by cases log <;> rfl
  refine ⟨log, ?_, ?_⟩
  · cases result with
    | ok found => cases houtcome; exact hrun
    | error error => cases houtcome
  · rw [← hidle, hleft, hview]

/-- The meaning inside an open transaction. -/
theorem exec_eval (program : Program σ ε α) (committed store : σ) (earlier : List σ) :
    match program.eval store with
    | .ok result =>
      exec program { committed := committed, pending := some store, earlier := earlier } =
        (.returned result.1,
          { committed := committed, pending := some result.2, earlier := earlier })
    | .error error => ∃ left,
      exec program { committed := committed, pending := some store, earlier := earlier } =
        (.raised error, { committed := committed, pending := some left, earlier := earlier }) := by
  induction program generalizing store with
  | done value => rfl
  | raise error => exact ⟨store, rfl⟩
  | read next ih => exact ih store store
  | write statement next ih =>
    rw [exec_write_run _ (by simp), Program.eval_write, Connection.view, Option.getD_some]
    cases statement store with
    | ok written => exact ih written
    | error error => exact ⟨store, rfl⟩
  | transaction body next ihBody ihNext =>
    -- An inner block neither commits nor rolls back.
    have hbody := ihBody store
    simp only [exec_transaction, Option.isSome_some, if_true, Program.eval_transaction]
    cases hresult : body.eval store with
    | ok result =>
      rw [hresult] at hbody
      rw [hbody]
      exact ihNext result.2
    | error error =>
      rw [hresult] at hbody
      obtain ⟨left, hleft⟩ := hbody
      exact ⟨left, by rw [hleft]; rfl⟩

/-- **A block that starts with a statement is one transaction.** -/
theorem commits_transact_write (statement : σ → Except ε σ) (rest : Program σ ε Unit) (store : σ) :
    match (Program.write statement rest).eval store with
    | .ok result => Commits (.transact (.write statement rest)) store (.ok ()) [result.2]
    | .error error => Commits (.transact (.write statement rest)) store (.error error) [] := by
  rw [Program.eval_write]
  cases hstatement : statement store with
  | error error =>
    intro earlier
    rw [Program.transact, exec_transaction, exec_write_run _ (by simp),
      show Connection.view { committed := store, earlier := earlier } = store from rfl, hstatement]
    rfl
  | ok written =>
    -- The first statement opens the transaction, and the rest runs inside it.
    have hrun : ∀ earlier, exec (.write statement rest)
        { committed := store, earlier := earlier } =
        exec rest { committed := store, pending := some written, earlier := earlier } := by
      intro earlier
      rw [exec_write_run _ (by simp),
        show Connection.view { committed := store, earlier := earlier } = store from rfl,
        hstatement]
      rfl
    have hrest := exec_eval rest store written
    dsimp only
    cases hresult : rest.eval written with
    | ok result =>
      rw [hresult] at hrest
      intro earlier
      rw [Program.transact, exec_transaction, hrun, hrest earlier]
      rfl
    | error error =>
      rw [hresult] at hrest
      intro earlier
      obtain ⟨left, hleft⟩ := hrest earlier
      rw [Program.transact, exec_transaction, hrun, hleft]
      rfl

/-- One statement in its own block. -/
theorem commits_statement {statement : σ → Except ε σ} {written : σ}
    (h : statement store = .ok written) :
    Commits (.transact (.statement statement)) store (.ok ()) [written] := by
  have hblock := commits_transact_write statement (.done ()) store
  simp only [Program.eval_write, Program.eval_done, h] at hblock
  exact hblock

/-! ### Atomic runs on an idle connection -/

/-- **Atomicity of a run.** -/
theorem Commits.atomic_iff (h : Commits program store result log) :
    Atomic program { committed := store } ↔
      ∀ written ∈ log, written = store ∨ (result.isOk ∧ written = log.headD store) := by
  have hreturned : (Outcome.ofExcept result).IsReturned ↔ result.isOk := by
    cases result <;> simp [Outcome.ofExcept, Outcome.IsReturned, Except.isOk, Except.toBool]
  rw [Database.atomic_iff program rfl rfl, h [], Connection.history_advance,
    Connection.committed_advance]
  simp only [hreturned, mem_append, mem_singleton]
  constructor
  · exact fun hall written hmem => hall written (.inl hmem)
  · rintro hall written (hmem | rfl)
    · exact hall written hmem
    · exact .inl rfl

theorem atomic_get_bind {k : σ → Program σ ε α} :
    Atomic (.get >>= k) { committed := store } ↔ Atomic (k store) { committed := store } := Iff.rfl

theorem atomic_ofExcept_bind {result : Except ε β} {k : β → Program σ ε α} :
    Atomic (.ofExcept result >>= k) { committed := store } ↔
      ∀ value, result = .ok value → Atomic (k value) { committed := store } := by
  cases result with
  | error error =>
    have hatomic : Atomic (.ofExcept (.error error) >>= k) { committed := store } :=
      (Commits.bind_error (Commits.ofExcept (.error error))).atomic_iff.mpr (by simp)
    exact ⟨fun _ _ h => (nomatch h), fun _ => hatomic⟩
  | ok value => exact ⟨fun h _ hvalue => Except.ok.inj hvalue ▸ h, fun h => h value rfl⟩

/-- A block around a closed program adds no protection. -/
theorem atomic_transact_iff (hclosed : body.Closed) :
    Atomic (.transact body) { committed := store } ↔ Atomic body { committed := store } := by
  obtain ⟨result, log, h⟩ := hclosed.commits store
  rw [h.atomic_iff, h.transact.atomic_iff]

theorem atomic_bind_pure {program : Program σ ε β} (hclosed : program.Closed) (value : α) :
    Atomic (program >>= fun _ => pure value) { committed := store } ↔
      Atomic program { committed := store } := by
  obtain ⟨result, log, h⟩ := hclosed.commits store
  rw [h.atomic_iff]
  cases result with
  | error error => rw [h.bind_error.atomic_iff]; rfl
  | ok _ => rw [(h.bind (Commits.pure value)).atomic_iff]; rfl

/-- Every store that the program commits is the one it started from. -/
def Quiet (program : Program σ ε α) (store : σ) : Prop :=
  ∃ result log, Commits program store result log ∧ ∀ written ∈ log, written = store

private theorem Quiet.iff_of_commits (h : Commits program store result log) :
    Quiet program store ↔ ∀ written ∈ log, written = store := by
  constructor
  · rintro ⟨result', log', h', hall⟩
    obtain ⟨-, rfl⟩ := h.unique h'
    exact hall
  · exact fun hall => ⟨result, log, h, hall⟩

/-- The program returns and every store it commits is the one it started from. -/
def Still (program : Program σ ε Unit) (store : σ) : Prop :=
  ∃ log, Commits program store (.ok ()) log ∧ ∀ written ∈ log, written = store

/-- Both notions can be read off an execution. -/
theorem quiet_of_exec (hclosed : program.Closed)
    (hall : ∀ written ∈ (exec program { committed := store }).2.history, written = store) :
    Quiet program store := by
  obtain ⟨result, log, h⟩ := hclosed.commits store
  rw [h [], Connection.history_advance] at hall
  exact ⟨result, log, h, fun written hmem => hall written (mem_append_left _ hmem)⟩

theorem still_of_exec {program : Program σ ε Unit} (hclosed : program.Closed)
    (hreturned : (exec program { committed := store }).1.IsReturned)
    (hall : ∀ written ∈ (exec program { committed := store }).2.history, written = store) :
    Still program store := by
  obtain ⟨result, log, h, hlog⟩ := quiet_of_exec hclosed hall
  rw [h []] at hreturned
  cases result with
  | error error => exact hreturned.elim
  | ok value => exact ⟨log, h, hlog⟩

private theorem headD_of_forall_eq (h : ∀ written ∈ log, written = store) :
    log.headD store = store := by
  cases log with
  | nil => rfl
  | cons last before => exact h last mem_cons_self

namespace Still

private theorem iff_of_commits {program : Program σ ε Unit}
    (h : Commits program store (.ok ()) log) :
    Still program store ↔ ∀ written ∈ log, written = store := by
  constructor
  · rintro ⟨log', h', hall⟩
    obtain ⟨-, rfl⟩ := h.unique h'
    exact hall
  · exact fun hall => ⟨log, h, hall⟩

end Still

/-! ### Invariants of programs -/

namespace Program

/-- Every statement of the program keeps the invariant, whatever it has read. -/
def Preserves (Inv : σ → Prop) : {α : Type} → Program σ ε α → Prop
  | _, done _ => True
  | _, raise _ => True
  | _, read next => ∀ store, Inv store → (next store).Preserves Inv
  | _, write statement next =>
    (∀ store written, Inv store → statement store = .ok written → Inv written) ∧
      next.Preserves Inv
  | _, transaction body next => body.Preserves Inv ∧ next.Preserves Inv

theorem Preserves.bind (h : program.Preserves Inv) (hk : ∀ value, (k value).Preserves Inv) :
    (program.bind k).Preserves Inv := by
  induction program with
  | done value => exact hk value
  | raise error => trivial
  | read next ih => exact fun store hstore => ih store (h store hstore) hk
  | write statement next ih => exact ⟨h.1, ih h.2 hk⟩
  | transaction body next _ ih => exact ⟨h.1, ih h.2 hk⟩

theorem preserves_ofExcept (Inv : σ → Prop) (result : Except ε α) :
    (ofExcept result : Program σ ε α).Preserves Inv := by
  cases result <;> trivial

theorem preserves_get (Inv : σ → Prop) : (get : Program σ ε σ).Preserves Inv :=
  fun _ _ => trivial

theorem preserves_foldlM (h : ∀ value item, (f value item).Preserves Inv) :
    (items.foldlM f start).Preserves Inv := by
  induction items generalizing start with
  | nil => trivial
  | cons item rest ih => exact (h start item).bind fun _ => ih

theorem preserves_forM {f : β → Program σ ε Unit} (h : ∀ item, (f item).Preserves Inv) :
    (items.forM f).Preserves Inv := by
  induction items with
  | nil => trivial
  | cons item rest ih => exact (h item).bind fun _ => ih

/-- **Loops.** What each round keeps, about the items done so far, the variable and the store, the
loop keeps. -/
theorem eval_foldlM_done (Inv : List β → α → σ → Prop)
    (hstep : ∀ done item rest value store value' store', items = done ++ item :: rest →
      (f value item).eval store = .ok (value', store') → Inv done value store →
        Inv (done ++ [item]) value' store')
    (h : (items.foldlM f start).eval store = .ok (value, store')) (hstart : Inv [] start store) :
    Inv items value store' := by
  -- The induction is on what is left, with the items done as a parameter.
  have hrest : ∀ rest done start store, items = done ++ rest →
      (rest.foldlM f start).eval store = .ok (value, store') → Inv done start store →
        Inv items value store' := by
    intro rest
    induction rest with
    | nil =>
      intro done start store hitems h hinv
      cases h
      rw [hitems, append_nil]
      exact hinv
    | cons item rest ih =>
      intro done start store hitems h hinv
      obtain ⟨⟨middle, written⟩, hitem, hlater⟩ := eval_andThen_eq_ok.mp h
      refine ih (done ++ [item]) middle written ?_ hlater
        (hstep done item rest start store middle written hitems hitem hinv)
      rw [hitems, append_assoc, singleton_append]
  exact hrest items [] start store rfl h hstart

theorem eval_foldlM_invariant (Inv : α → σ → Prop)
    (hstep : ∀ value store item value' store', item ∈ items →
      (f value item).eval store = .ok (value', store') → Inv value store → Inv value' store')
    (h : (items.foldlM f start).eval store = .ok (value, store')) (hstart : Inv start store) :
    Inv value store' := by
  refine eval_foldlM_done (fun _ => Inv) ?_ h hstart
  intro done item rest value store value' store' hitems hround hinv
  refine hstep value store item value' store' ?_ hround hinv
  rw [hitems]
  exact mem_append_right _ mem_cons_self

/-- **Loops that return.** When each round returns and keeps the invariant, so does the loop. -/
theorem eval_foldlM_returns (Inv : List β → α → σ → Prop)
    (hstep : ∀ done item rest value store, items = done ++ item :: rest → Inv done value store →
      ∃ value' store', (f value item).eval store = .ok (value', store') ∧
        Inv (done ++ [item]) value' store')
    (hstart : Inv [] start store) :
    ∃ value store', (items.foldlM f start).eval store = .ok (value, store') ∧
      Inv items value store' := by
  have hrest : ∀ rest done start store, items = done ++ rest → Inv done start store →
      ∃ value store', (rest.foldlM f start).eval store = .ok (value, store') ∧
        Inv items value store' := by
    intro rest
    induction rest with
    | nil =>
      intro done start store hitems hinv
      rw [hitems, append_nil]
      exact ⟨start, store, rfl, hinv⟩
    | cons item rest ih =>
      intro done start store hitems hinv
      obtain ⟨middle, written, hitem, hkept⟩ := hstep done item rest start store hitems hinv
      obtain ⟨value, store', hlater, hfinal⟩ := ih (done ++ [item]) middle written
        (by rw [hitems, append_assoc, singleton_append]) hkept
      exact ⟨value, store', eval_andThen_eq_ok.mpr ⟨(middle, written), hitem, hlater⟩, hfinal⟩
  exact hrest items [] start store rfl hstart

end Program

/-- **Invariants.** What every statement keeps holds of all stores committed before and after, and
of the open transaction. -/
theorem exec_preserves (program : Program σ ε α) (conn : Connection σ)
    (h : program.Preserves Inv) (hhistory : ∀ store ∈ conn.history, Inv store)
    (hpending : ∀ store, conn.pending = some store → Inv store) :
    (∀ store ∈ (exec program conn).2.history, Inv store) ∧
      ∀ store, (exec program conn).2.pending = some store → Inv store := by
  have hview : Inv conn.view := by
    rw [Connection.view]
    cases hcase : conn.pending with
    | none => exact hhistory _ mem_cons_self
    | some store => exact hpending store hcase
  induction program generalizing conn with
  | done value => exact ⟨hhistory, hpending⟩
  | raise error => exact ⟨hhistory, hpending⟩
  | read next ih => exact ih conn.view conn (h _ hview) hhistory hpending hview
  | write statement next ih =>
    by_cases hfault : ∃ fault, conn.fault = some (0, fault)
    · obtain ⟨fault, hfault⟩ := hfault
      cases fault with
      | exception =>
        rw [exec_write_exception _ hfault]
        exact ⟨hhistory, hpending⟩
      | stop =>
        rw [exec_write_stop _ hfault]
        exact ⟨hhistory, fun _ hnone => by cases hnone⟩
    · rw [exec_write_run _ (by simpa using hfault)]
      cases hstatement : statement conn.view with
      | ok written =>
        have hwritten := h.1 _ _ hview hstatement
        exact ih _ h.2 hhistory (fun store hstore => Option.some.inj hstore ▸ hwritten) hwritten
      | error error => exact ⟨hhistory, fun store hstore => Option.some.inj hstore ▸ hview⟩
  | transaction body next ihBody ihNext =>
    obtain ⟨hbody, hbodyPending⟩ := ihBody conn h.1 hhistory hpending hview
    -- Leaving the block at most moves the open transaction to the history.
    have hexit : ∀ outcome : Outcome ε Unit,
        (∀ store ∈ ((exec body conn).2.exit conn outcome).history, Inv store) ∧
        ∀ store, ((exec body conn).2.exit conn outcome).pending = some store →
          Inv store := by
      intro outcome
      rw [Connection.exit]
      split
      · exact ⟨hbody, hbodyPending⟩
      · cases outcome with
        | returned value =>
          refine ⟨?_, fun store hstore => ?_⟩
          · rw [Connection.leave, Connection.commit]
            cases hleft : (exec body conn).2.pending with
            | none => exact hbody
            | some left =>
              intro store hmem
              rcases List.mem_cons.mp hmem with rfl | hmem
              · exact hbodyPending _ hleft
              · exact hbody store hmem
          · rw [Connection.leave, Connection.commit_pending] at hstore
            cases hstore
        | raised error => exact ⟨hbody, fun _ hnone => by cases hnone⟩
        | interrupted => exact ⟨hbody, fun _ hnone => by cases hnone⟩
        | stopped => exact ⟨hbody, hbodyPending⟩
    rw [exec_transaction]
    cases houtcome : (exec body conn).1 with
    | returned value =>
      obtain ⟨hleft, hleftPending⟩ := hexit (.returned value)
      refine ihNext _ h.2 hleft hleftPending ?_
      rw [Connection.view]
      cases hcase : Connection.pending _ with
      | none => exact hleft _ mem_cons_self
      | some store => exact hleftPending store hcase
    | raised error => exact hexit _
    | interrupted => exact hexit _
    | stopped => exact hexit _

/-- The same for a run on an idle connection. -/
theorem Commits.forall_of_preserves (h : Commits program store result log)
    (hpreserves : program.Preserves Inv) (hstore : Inv store) : ∀ written ∈ log, Inv written := by
  have hhistory := (exec_preserves program { committed := store } hpreserves
    (fun other hmem => List.mem_singleton.mp hmem ▸ hstore) (fun _ hnone => by cases hnone)).1
  rw [h [], Connection.history_advance] at hhistory
  exact fun written hmem => hhistory written (mem_append_left _ hmem)

/-- Every store that the program commits has the property. -/
def Within (P : σ → Prop) (program : Program σ ε α) (store : σ) : Prop :=
  ∀ result log, Commits program store result log → ∀ written ∈ log, P written

namespace Within

variable {P : σ → Prop}

theorem of_preserves (h : program.Preserves P) (hstore : P store) : Within P program store :=
  fun _ _ hrun => hrun.forall_of_preserves h hstore

/-- The store at the end of a run that returns. -/
theorem ended (h : Within P program store) (hclosed : program.Closed) (hstore : P store)
    (heval : program.eval store = .ok (value, store')) : P store' := by
  obtain ⟨log, hcommits, rfl⟩ := hclosed.commits_of_eval heval
  cases log with
  | nil => exact hstore
  | cons written _ => exact h _ _ hcommits written mem_cons_self

theorem pure (value : α) : Within P (Pure.pure value : Program σ ε α) store := by
  intro result log hrun
  obtain ⟨-, rfl⟩ := hrun.unique (Commits.pure value)
  simp

theorem get_bind {k : σ → Program σ ε α} (h : Within P (k store) store) :
    Within P (.get >>= k) store := h

theorem ofExcept_bind {result : Except ε β} {k : β → Program σ ε α}
    (h : ∀ value, result = .ok value → Within P (k value) store) :
    Within P (.ofExcept result >>= k) store := by
  cases result with
  | ok value => exact h value rfl
  | error error =>
    intro result log hrun
    obtain ⟨-, rfl⟩ := hrun.unique (Commits.raise error)
    simp

theorem bind_pure {program : Program σ ε β} (hclosed : program.Closed)
    (h : Within P program store) :
    Within P (program >>= fun _ => Pure.pure value) store := by
  intro result log hrun
  rcases hrun.bind_inv hclosed (fun _ => Program.closed_pure value) with
    ⟨_, first, second, hfirst, hsecond, rfl⟩ | ⟨error, hfirst, -⟩
  · obtain ⟨-, rfl⟩ := hsecond.unique (Commits.pure value)
    exact h _ _ hfirst
  · exact h _ _ hfirst

/-- The last store committed, or the one before the run, has the property. -/
theorem headD (h : Within P program store) (hstore : P store)
    (hrun : Commits program store result log) : P (log.headD store) := by
  cases log with
  | nil => exact hstore
  | cons last before => exact h _ _ hrun last mem_cons_self

end Within

/-! ### Marked runs -/

/-- **Atomicity of a marked run**, where only the second part of the program touches the mark. -/
theorem atomic_marked_iff {τ : Type} {mark : σ → τ} {move : σ → σ}
    {rows tip rest : Program σ ε Unit} {moved : τ} (hrows : rows.Closed) (hrest : rest.Closed)
    (htip : ∀ start, Commits tip start (.ok ()) [move start])
    (hmove : ∀ start, mark (move start) = moved)
    (hrowsMark : rows.Preserves fun other => mark other = mark store)
    (hrestMark : rest.Preserves fun other => mark other = moved) (hnew : mark store ≠ moved) :
    Atomic (rows >>= fun _ => tip >>= fun _ => rest) { committed := store } ↔
      Quiet rows store ∧ (Still rows store → Still rest (move store)) := by
  obtain ⟨result, first, hfirst⟩ := hrows.commits store
  have hfirstMark := hfirst.forall_of_preserves hrowsMark rfl
  have hquiet := Quiet.iff_of_commits hfirst
  cases result with
  | error error =>
    -- The rows fail: the call has to leave the store as it was.
    have hstill : ¬ Still rows store := by
      rintro ⟨log, h, -⟩
      cases (hfirst.unique h).1
    rw [(hfirst.bind_error (k := fun _ => tip >>= fun _ => rest)).atomic_iff, hquiet]
    constructor
    · intro hall
      refine ⟨fun written hmem => ?_, fun h => (hstill h).elim⟩
      rcases hall written hmem with h | ⟨hok, -⟩
      · exact h
      · cases hok
    · exact fun h written hmem => .inl (h.1 written hmem)
  | ok value =>
    cases value
    set between := move (first.headD store) with hbetween
    obtain ⟨result, last, hlast⟩ := hrest.commits between
    have hbetweenMark : mark between = moved := hmove _
    have hlastMark := hlast.forall_of_preserves hrestMark hbetweenMark
    have hrun : Commits (rows >>= fun _ => tip >>= fun _ => rest) store result
        ((last ++ [between]) ++ first) := hfirst.bind ((htip _).bind hlast)
    have hhead : ((last ++ [between]) ++ first).headD store = last.headD between := by
      cases last <;> rfl
    have hfinalMark : mark (last.headD between) = moved := by
      cases hcase : last with
      | nil => exact hbetweenMark
      | cons final before => exact hlastMark final (hcase ▸ mem_cons_self)
    rw [hrun.atomic_iff, hhead, Still.iff_of_commits hfirst, hquiet]
    constructor
    · intro hall
      -- A store with the old mark is the one before, a store with the new mark the last one.
      have hold : ∀ written ∈ first, written = store := by
        intro written hmem
        rcases hall written (mem_append_right _ hmem) with h | ⟨-, h⟩
        · exact h
        · exact (hnew ((hfirstMark written hmem).symm.trans (h ▸ hfinalMark))).elim
      have hafter : ∀ written ∈ last ++ [between],
          result.isOk ∧ written = last.headD between := by
        intro written hmem
        have hmark : mark written = moved := by
          rcases List.mem_append.mp hmem with h | h
          · exact hlastMark written h
          · exact List.mem_singleton.mp h ▸ hbetweenMark
        rcases hall written (mem_append_left _ hmem) with h | h
        · exact (hnew (h ▸ hmark)).elim
        · exact h
      obtain ⟨hok, hfinal⟩ := hafter between (by simp)
      refine ⟨hold, fun _ => ?_⟩
      rw [show move store = between by rw [hbetween, headD_of_forall_eq hold]]
      cases result with
      | error error => cases hok
      | ok value =>
        refine ⟨last, hlast, fun written hmem => ?_⟩
        rw [(hafter written (mem_append_left _ hmem)).2, ← hfinal]
    · rintro ⟨hold, hstill⟩ written hmem
      rcases List.mem_append.mp hmem with hmem | hmem
      · have hstart : move store = between := by rw [hbetween, headD_of_forall_eq hold]
        obtain ⟨log, hlog, hall⟩ := hstart ▸ hstill hold
        obtain ⟨rfl, rfl⟩ := hlast.unique hlog
        rw [headD_of_forall_eq hall]
        refine .inr ⟨rfl, ?_⟩
        rcases List.mem_append.mp hmem with hmem | hmem
        · exact hall written hmem
        · exact List.mem_singleton.mp hmem
      · exact .inl (hold written hmem)

end Database
