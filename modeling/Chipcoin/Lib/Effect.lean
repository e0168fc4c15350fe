import Mathlib

/-!
# Programs that raise and keep their state

`EStateM ε σ` is the monad of methods on an object: a program returns or raises, and the changes it
has made to the state stay in both cases. `Returns` says that it returns, and with what; `after` is
the state that it leaves in either case. The rules follow the syntax of programs.
-/

namespace Effect

variable {ε σ α β : Type}

/-- The state that a program leaves, whether it returns or raises. -/
def after (program : EStateM ε σ α) (state : σ) : σ :=
  match program state with
  | .ok _ state' => state'
  | .error _ state' => state'

/-- A pure computation that may raise. -/
def check : Except ε α → EStateM ε σ α
  | .ok value => pure value
  | .error error => throw error

/-! ### Programs that return -/

/-- From a state the program returns, with a condition on the value and the state. -/
def Returns (program : EStateM ε σ α) (state : σ) (Q : α → σ → Prop) : Prop :=
  ∃ value state', program state = .ok value state' ∧ Q value state'

variable {state' : σ} {value : α} {result : Except ε β} {program : EStateM ε σ β}
  {k : β → EStateM ε σ α}

namespace Returns

variable {state : σ} {Q : α → σ → Prop}

theorem pure (h : Q value state) : Returns (Pure.pure value : EStateM ε σ α) state Q :=
  ⟨value, state, rfl, h⟩

theorem mono {R : α → σ → Prop} {program : EStateM ε σ α} (h : Returns program state R)
    (hQ : ∀ value state', R value state' → Q value state') : Returns program state Q := by
  obtain ⟨value, state', hrun, hR⟩ := h
  exact ⟨value, state', hrun, hQ value state' hR⟩

theorem bind {R : β → σ → Prop} (h : Returns program state R)
    (hk : ∀ value state', R value state' → Returns (k value) state' Q) :
    Returns (program >>= k) state Q := by
  obtain ⟨value, state', hrun, hR⟩ := h
  obtain ⟨result, final, hrest, hQ⟩ := hk value state' hR
  refine ⟨result, final, ?_, hQ⟩
  change EStateM.bind program k state = _
  rw [EStateM.bind, hrun]
  exact hrest

theorem get_bind {k : σ → EStateM ε σ α} (h : Returns (k state) state Q) :
    Returns (MonadState.get >>= k) state Q := h

theorem check_bind {found : β} (hfound : result = .ok found) (h : Returns (k found) state Q) :
    Returns (check result >>= k) state Q := by
  rw [hfound]
  exact h

end Returns

/-! ### Following a program -/

theorem bind_of_ok {state : σ} {value : β} (h : program state = .ok value state') :
    (program >>= k) state = k value state' := by
  change EStateM.bind program k state = _
  rw [EStateM.bind, h]

theorem bind_of_error {state : σ} {error : ε} (h : program state = .error error state') :
    (program >>= k) state = .error error state' := by
  change EStateM.bind program k state = _
  rw [EStateM.bind, h]

theorem run_bind_eq_ok {state : σ} : (program >>= k) state = .ok value state' ↔
      ∃ found middle, program state = .ok found middle ∧ k found middle = .ok value state' := by
  change EStateM.bind program k state = _ ↔ _
  unfold EStateM.bind
  cases program state with
  | ok found middle => simp
  | error error middle => simp

theorem check_bind_eq_ok {state : σ} : (check result >>= k) state = .ok value state' ↔
      ∃ found, result = .ok found ∧ k found state = .ok value state' := by
  cases result with
  | ok found =>
    refine ⟨fun h => ⟨found, rfl, h⟩, ?_⟩
    rintro ⟨_, hfound, h⟩
    obtain rfl := Except.ok.inj hfound
    exact h
  | error error =>
    constructor
    · intro h
      cases h
    · rintro ⟨_, hfound, -⟩
      cases hfound

theorem check_ok_bind (value : β) (k : β → EStateM ε σ α) :
    (check (.ok value) >>= k) = k value := rfl

theorem get_bind_apply (k : σ → EStateM ε σ α) (state : σ) :
    (get >>= k) state = k state state := rfl

theorem set_bind_apply (state' : σ) (k : PUnit → EStateM ε σ α) (state : σ) :
    (set state' >>= k) state = k ⟨⟩ state' := rfl

theorem after_tryCatch (program : EStateM ε σ α) (handler : ε → EStateM ε σ α) (state : σ) :
    after (tryCatch program handler) state =
      match program state with
      | .ok _ state' => state'
      | .error error state' => after (handler error) state' := by
  change (match EStateM.tryCatch program handler state with
    | .ok _ state' => state'
    | .error _ state' => state') = _
  rw [EStateM.tryCatch]
  cases program state <;> rfl

theorem after_bind (program : EStateM ε σ β) (k : β → EStateM ε σ α) (state : σ) :
    after (program >>= k) state =
      match program state with
      | .ok value state' => after (k value) state'
      | .error _ state' => state' := by
  change (match EStateM.bind program k state with
    | .ok _ state' => state'
    | .error _ state' => state') = _
  rw [EStateM.bind]
  cases program state <;> rfl

theorem after_get_bind (k : σ → EStateM ε σ α) (state : σ) :
    after (get >>= k) state = after (k state) state := rfl

section

variable {R : σ → σ → Prop}

/-- A relation that the parts of a program respect is respected by the program. -/
theorem relates_bind (htrans : ∀ a b c, R a b → R b c → R a c) {state : σ}
    (h : R state (after program state))
    (hk : ∀ value state', program state = .ok value state' → R state' (after (k value) state')) :
    R state (after (program >>= k) state) := by
  rw [after_bind]
  rw [after] at h
  cases hrun : program state with
  | ok value state' =>
    rw [hrun] at h
    exact htrans _ _ _ h (hk value state' hrun)
  | error error state' =>
    rw [hrun] at h
    exact h

theorem relates_check_bind (hrefl : ∀ a, R a a) {state : σ}
    (hk : ∀ value, result = .ok value → R state (after (k value) state)) :
    R state (after (check result >>= k) state) := by
  cases result with
  | ok value => exact hk value rfl
  | error error => exact hrefl state

theorem relates_forM (hrefl : ∀ a, R a a) (htrans : ∀ a b c, R a b → R b c → R a c)
    {f : β → EStateM ε σ PUnit} {items : List β}
    (h : ∀ item ∈ items, ∀ state, R state (after (f item) state)) (state : σ) :
    R state (after (forM items f) state) := by
  induction items generalizing state with
  | nil => exact hrefl state
  | cons item rest ih =>
    rw [List.forM_cons]
    exact relates_bind htrans (h item List.mem_cons_self state) fun _ state' _ =>
      ih (List.forall_mem_of_forall_mem_cons h) state'

theorem relates_foldlM (hrefl : ∀ a, R a a) (htrans : ∀ a b c, R a b → R b c → R a c)
    {f : β → α → EStateM ε σ β} {items : List α}
    (h : ∀ item ∈ items, ∀ value state, R state (after (f value item) state)) (start : β)
    (state : σ) : R state (after (items.foldlM f start) state) := by
  induction items generalizing start state with
  | nil => exact hrefl state
  | cons item rest ih =>
    rw [List.foldlM_cons]
    exact relates_bind htrans (h item List.mem_cons_self start state) fun value state' _ =>
      ih (List.forall_mem_of_forall_mem_cons h) value state'

end

end Effect
