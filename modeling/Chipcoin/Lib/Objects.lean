import Chipcoin.Lib.Effect

/-!
# Objects with private state

A client holds objects whose state lives in a heap that they share. It calls methods on them, copies
them and asks them questions. `Implements` says that a class of objects behaves as if each object
held a value of its own:

* `Follows`: a method on the heap returns or raises as its model on the value does;
* a method leaves apart objects as they are, and a copy starts with the value of the original and
  is apart from every object.

From this every sequence of commands gets the answers that independent values give
(`Implements.run`), whatever the layout of the objects, so two implementations of one model cannot
be told apart; and a command leaves what the other objects answer as it was
(`Implements.ask_other`).
-/

namespace Effect

variable {ε σ τ α β : Type}

/-- Two results agree: the same value or the same error, and related states. -/
inductive Agree (R : σ → τ → Prop) : EStateM.Result ε σ α → EStateM.Result ε τ α → Prop
  | ok {value : α} {state : σ} {model : τ} (h : R state model) :
      Agree R (.ok value state) (.ok value model)
  | error {error : ε} {state : σ} {model : τ} (h : R state model) :
      Agree R (.error error state) (.error error model)

/-- From related states a program and its model give results that agree. -/
def Follows (R : σ → τ → Prop) (program : EStateM ε σ α) (model : EStateM ε τ α) : Prop :=
  ∀ state value, R state value → Agree R (program state) (model value)

namespace Follows

variable {R : σ → τ → Prop}

private theorem pure (value : α) :
    Follows R (Pure.pure value : EStateM ε σ α) (Pure.pure value : EStateM ε τ α) :=
  fun _ _ h => .ok h

theorem modify {f : σ → σ} {g : τ → τ} (h : ∀ state value, R state value → R (f state) (g value)) :
    Follows R (modify f : EStateM ε σ PUnit) (modify g : EStateM ε τ PUnit) :=
  fun state value hR => .ok (h state value hR)

theorem check_bind {result : Except ε β} {k : β → EStateM ε σ α} {l : β → EStateM ε τ α}
    (hk : ∀ value, result = .ok value → Follows R (k value) (l value)) :
    Follows R (Effect.check result >>= k) (Effect.check result >>= l) := by
  intro state value hR
  cases result with
  | ok found => exact hk found rfl state value hR
  | error raised => exact .error hR

theorem bind {program : EStateM ε σ β} {model : EStateM ε τ β} {k : β → EStateM ε σ α}
    {l : β → EStateM ε τ α} (h : Follows R program model)
    (hk : ∀ value, Follows R (k value) (l value)) : Follows R (program >>= k) (model >>= l) := by
  intro state value hR
  change Agree R (EStateM.bind program k state) (EStateM.bind model l value)
  rw [EStateM.bind, EStateM.bind]
  have hfirst := h state value hR
  generalize program state = left at hfirst
  generalize model value = right at hfirst
  cases hfirst with
  | ok hrelated => exact hk _ _ _ hrelated
  | error hrelated => exact .error hrelated

theorem forM_list {items : List β} {f : β → EStateM ε σ PUnit} {g : β → EStateM ε τ PUnit}
    (h : ∀ item ∈ items, Follows R (f item) (g item)) :
    Follows R (forM items f) (forM items g) := by
  induction items with
  | nil => exact pure _
  | cons first rest ih =>
    rw [List.forM_cons, List.forM_cons]
    exact bind (h first List.mem_cons_self)
      fun _ => ih (List.forall_mem_of_forall_mem_cons h)

end Follows

end Effect

namespace Objects

variable {ε H O A Op Q V : Type}

/-- What a client does with the object behind a handle. -/
inductive Command (Op Q : Type)
  | call (handle : ℕ) (op : Op)
  | clone (handle : ℕ)
  | ask (handle : ℕ) (question : Q)

/-- What the client sees of it. -/
inductive Answer (ε V : Type)
  | done
  | value (v : V)
  | raised (error : ε)
deriving DecidableEq

/-- The methods of a class of objects over a heap. -/
structure Methods (ε H O Op Q V : Type) where
  call : O → Op → EStateM ε H PUnit
  clone : O → EStateM ε H O
  ask : H → O → Q → Except ε V

/-- The client's world: the heap, and the objects by handle. -/
structure World (H O : Type) where
  heap : H
  handles : List O

/-- What the end of a program shows, with the world it leaves. -/
def World.close {α : Type} (next : α → H → World H O) (raised : H → World H O) :
    EStateM.Result ε H α → Answer ε V × World H O
  | .ok value heap => (.done, next value heap)
  | .error error heap => (.raised error, raised heap)

/-- One command. A handle that the client does not have does nothing. -/
def Methods.step (methods : Methods ε H O Op Q V) (world : World H O) :
    Command Op Q → Answer ε V × World H O
  | .call handle op =>
    match world.handles[handle]? with
    | none => (.done, world)
    | some object =>
      World.close (fun _ heap => ⟨heap, world.handles⟩) (fun heap => ⟨heap, world.handles⟩)
        (methods.call object op world.heap)
  | .clone handle =>
    match world.handles[handle]? with
    | none => (.done, world)
    | some object =>
      World.close (fun copy heap => ⟨heap, world.handles ++ [copy]⟩)
        (fun heap => ⟨heap, world.handles⟩) (methods.clone object world.heap)
  | .ask handle question =>
    match world.handles[handle]? with
    | none => (.done, world)
    | some object =>
      match methods.ask world.heap object question with
      | .ok v => (.value v, world)
      | .error error => (.raised error, world)

/-- A sequence of commands: the answers in order, and the world at the end. A command that raises is
followed by the next one, as for a client that catches the exception. -/
def Methods.run (methods : Methods ε H O Op Q V) :
    World H O → List (Command Op Q) → List (Answer ε V) × World H O
  | world, [] => ([], world)
  | world, command :: rest =>
    let shown := methods.step world command
    let later := methods.run shown.2 rest
    (shown.1 :: later.1, later.2)

/-- The value that an object stands for: how a method changes it and how it answers. -/
structure Model (ε A Op Q V : Type) where
  call : Op → EStateM ε A PUnit
  ask : A → Q → V

/-- One command on independent values. -/
def Model.step (model : Model ε A Op Q V) (values : List A) :
    Command Op Q → Answer ε V × List A
  | .call handle op =>
    match values[handle]? with
    | none => (.done, values)
    | some value =>
      match model.call op value with
      | .ok _ value' => (.done, values.set handle value')
      | .error error value' => (.raised error, values.set handle value')
  | .clone handle =>
    match values[handle]? with
    | none => (.done, values)
    | some value => (.done, values ++ [value])
  | .ask handle question =>
    match values[handle]? with
    | none => (.done, values)
    | some value => (.value (model.ask value question), values)

/-- A sequence of commands on independent values. -/
def Model.run (model : Model ε A Op Q V) :
    List A → List (Command Op Q) → List (Answer ε V) × List A
  | values, [] => ([], values)
  | values, command :: rest =>
    let shown := model.step values command
    let later := model.run shown.2 rest
    (shown.1 :: later.1, later.2)

private theorem Model.length_le_step (model : Model ε A Op Q V) (values : List A)
    (command : Command Op Q) : values.length ≤ (model.step values command).2.length := by
  cases command with
  | call handle op =>
    rw [Model.step]
    cases values[handle]? with
    | none => exact le_rfl
    | some value =>
      dsimp only
      cases model.call op value <;> exact (List.length_set ..).ge
  | clone handle =>
    rw [Model.step]
    cases values[handle]? with
    | none => exact le_rfl
    | some value => simp
  | ask handle question =>
    rw [Model.step]
    cases values[handle]? <;> exact le_rfl

/-- Objects are never given up. -/
theorem Model.length_le_run (model : Model ε A Op Q V) (values : List A)
    (commands : List (Command Op Q)) : values.length ≤ (model.run values commands).2.length := by
  induction commands generalizing values with
  | nil => exact le_rfl
  | cons command rest ih => exact (model.length_le_step values command).trans (ih _)

/-- The commands that a class takes: calls and questions of some kind, and copies if it has any. -/
structure Domain (Op Q : Type) where
  calls : Op → Prop
  clones : Prop
  questions : Q → Prop

/-- A command is one that the class takes. -/
def Domain.Takes (domain : Domain Op Q) : Command Op Q → Prop
  | .call _ op => domain.calls op
  | .clone _ => domain.clones
  | .ask _ question => domain.questions question

/-- Each object of the class stands for a value of its own. -/
structure Implements (methods : Methods ε H O Op Q V) (model : Model ε A Op Q V)
    (domain : Domain Op Q) (Rep : H → O → A → Prop) (Apart : O → O → Prop) : Prop where
  call : ∀ op, domain.calls op → ∀ object,
    Effect.Follows (fun heap value => Rep heap object value) (methods.call object op)
      (model.call op)
  frame : ∀ op object other heap value owned, Rep heap object value → Apart object other →
    Rep heap other owned → Rep (Effect.after (methods.call object op) heap) other owned
  clone : domain.clones → ∀ heap object value, Rep heap object value →
    ∃ copy heap', methods.clone object heap = .ok copy heap' ∧ Rep heap' copy value ∧
      ∀ other owned, Rep heap other owned →
        Rep heap' other owned ∧ Apart copy other ∧ Apart other copy
  ask : ∀ question, domain.questions question → ∀ heap object value, Rep heap object value →
    methods.ask heap object question = .ok (model.ask value question)

/-- The objects of a world stand for values, handle by handle, and are apart from each other. -/
structure Represents (Rep : H → O → A → Prop) (Apart : O → O → Prop) (world : World H O)
    (values : List A) : Prop where
  length_eq : world.handles.length = values.length
  rep : ∀ (handle : ℕ) object value, world.handles[handle]? = some object →
    values[handle]? = some value → Rep world.heap object value
  apart : ∀ (handle other : ℕ) object object', world.handles[handle]? = some object →
    world.handles[other]? = some object' → handle ≠ other → Apart object object'

section

variable {methods : Methods ε H O Op Q V} {model : Model ε A Op Q V} {domain : Domain Op Q}
  {Rep : H → O → A → Prop} {Apart : O → O → Prop} {world : World H O} {values : List A}

/-- A world with one object. -/
theorem Represents.singleton (h : Rep heap object value) :
    Represents Rep Apart ⟨heap, [object]⟩ [value] := by
  refine ⟨rfl, ?_, ?_⟩
  · intro handle found owned hfound howned
    obtain ⟨hlt, -⟩ := List.getElem?_eq_some_iff.mp hfound
    obtain rfl : handle = 0 := Nat.lt_one_iff.mp hlt
    obtain rfl := Option.some.inj hfound
    obtain rfl := Option.some.inj howned
    exact h
  · intro handle other found found' hfound hfound' hne
    obtain ⟨hlt, -⟩ := List.getElem?_eq_some_iff.mp hfound
    obtain ⟨hlt', -⟩ := List.getElem?_eq_some_iff.mp hfound'
    exact absurd ((Nat.lt_one_iff.mp hlt).trans (Nat.lt_one_iff.mp hlt').symm) hne

/-- A handle names an object exactly when it names a value. -/
theorem Represents.lookup (h : Represents Rep Apart world values) (handle : ℕ) :
    world.handles[handle]? = none ∧ values[handle]? = none ∨
      ∃ object value, world.handles[handle]? = some object ∧ values[handle]? = some value ∧
        Rep world.heap object value := by
  by_cases hlt : handle < world.handles.length
  · have hlt' : handle < values.length := h.length_eq ▸ hlt
    have hobject := List.getElem?_eq_getElem hlt
    have hvalue := List.getElem?_eq_getElem hlt'
    exact .inr ⟨_, _, hobject, hvalue, h.rep handle _ _ hobject hvalue⟩
  · rw [not_lt] at hlt
    exact .inl ⟨List.getElem?_eq_none hlt, List.getElem?_eq_none (h.length_eq ▸ hlt)⟩

/-- An object that has a handle stands for a value. -/
theorem Represents.exists_rep (h : Represents Rep Apart world values) {handle : ℕ}
    (hobject : world.handles[handle]? = some object) : ∃ value, Rep world.heap object value := by
  rcases h.lookup handle with ⟨hnone, -⟩ | ⟨found, value, hfound, -, hrep⟩
  · rw [hnone] at hobject
    cases hobject
  · obtain rfl := Option.mem_unique hobject hfound
    exact ⟨value, hrep⟩

private theorem Represents.update (h : Represents Rep Apart world values) {handle : ℕ}
    (hobject : world.handles[handle]? = some object) (hnew : Rep heap object value)
    (hframe : ∀ other owned, Apart object other → Rep world.heap other owned →
      Rep heap other owned) :
    Represents Rep Apart ⟨heap, world.handles⟩ (values.set handle value) := by
  refine ⟨h.length_eq.trans (List.length_set ..).symm, ?_, h.apart⟩
  intro other found owned hfound howned
  rw [List.getElem?_set] at howned
  split_ifs at howned with heq hlt
  · subst heq
    obtain rfl := Option.mem_unique hobject hfound
    obtain rfl := Option.some.inj howned
    exact hnew
  · exact hframe found owned (h.apart handle other object found hobject hfound heq)
      (h.rep other found owned hfound howned)

/-- An entry of a list with one more item is an earlier one or the new one. -/
theorem getElem?_concat_cases {T : Type} {items : List T} {last item : T} {n : ℕ}
    (h : (items ++ [last])[n]? = some item) :
    items[n]? = some item ∧ n < items.length ∨ n = items.length ∧ item = last := by
  by_cases hlt : n < items.length
  · rw [List.getElem?_append_left hlt] at h
    exact .inl ⟨h, hlt⟩
  · obtain ⟨hle, -⟩ := List.getElem?_eq_some_iff.mp h
    rw [List.length_append, List.length_singleton] at hle
    obtain rfl : n = items.length := by omega
    rw [List.getElem?_concat_length] at h
    exact .inr ⟨rfl, (Option.some.inj h).symm⟩

/-- The world after a copy. -/
theorem Represents.extend (h : Represents Rep Apart world values) {copy : O}
    (hcopy : Rep heap copy value) (hothers : ∀ other owned, Rep world.heap other owned →
      Rep heap other owned ∧ Apart copy other ∧ Apart other copy) :
    Represents Rep Apart ⟨heap, world.handles ++ [copy]⟩ (values ++ [value]) := by
  refine ⟨by simp [h.length_eq], ?_, ?_⟩
  · intro handle object owned hobject howned
    rcases getElem?_concat_cases hobject with ⟨hobject, hlt⟩ | ⟨rfl, rfl⟩
    · rw [List.getElem?_append_left (h.length_eq ▸ hlt)] at howned
      exact (hothers object owned (h.rep handle object owned hobject howned)).1
    · rw [h.length_eq, List.getElem?_concat_length] at howned
      obtain rfl := Option.some.inj howned
      exact hcopy
  · intro handle other object object' hobject hobject' hne
    rcases getElem?_concat_cases hobject with ⟨hold, -⟩ | ⟨rfl, rfl⟩ <;>
      rcases getElem?_concat_cases hobject' with ⟨hold', -⟩ | ⟨rfl, rfl⟩
    · exact h.apart handle other object object' hold hold' hne
    · obtain ⟨owned, howned⟩ := h.exists_rep hold
      exact (hothers object owned howned).2.2
    · obtain ⟨owned, howned⟩ := h.exists_rep hold'
      exact (hothers object' owned howned).2.1
    · exact absurd rfl hne

namespace Implements

section

variable (himp : Implements methods model domain Rep Apart) (h : Represents Rep Apart world values)
include himp h

/-- **One command.** It is answered as on independent values, and the objects keep standing for
them. -/
theorem step {command : Command Op Q} (htakes : domain.Takes command) :
    (methods.step world command).1 = (model.step values command).1 ∧
      Represents Rep Apart (methods.step world command).2 (model.step values command).2 := by
  cases command with
  | call handle op =>
    rw [Methods.step, Model.step]
    rcases h.lookup handle with ⟨hobject, hvalue⟩ | ⟨object, value, hobject, hvalue, hrep⟩
    · -- A handle that names no object: nothing happens on either side.
      rw [hobject, hvalue]
      exact ⟨rfl, h⟩
    · rw [hobject, hvalue]
      dsimp only
      -- The called object follows the model, and the others are framed.
      have hagree := himp.call op htakes object world.heap value hrep
      have hframe := fun other owned hapart hother =>
        himp.frame op object other world.heap value owned hrep hapart hother
      rw [Effect.after] at hframe
      generalize methods.call object op world.heap = left at hagree hframe
      generalize model.call op value = right at hagree
      cases hagree with
      | ok hnew => exact ⟨rfl, h.update hobject hnew hframe⟩
      | error hnew => exact ⟨rfl, h.update hobject hnew hframe⟩
  | clone handle =>
    rw [Methods.step, Model.step]
    rcases h.lookup handle with ⟨hobject, hvalue⟩ | ⟨object, value, hobject, hvalue, hrep⟩
    · rw [hobject, hvalue]
      exact ⟨rfl, h⟩
    · obtain ⟨copy, heap, hclone, hcopy, hothers⟩ :=
        himp.clone htakes world.heap object value hrep
      rw [hobject, hvalue]
      dsimp only
      rw [hclone]
      exact ⟨rfl, h.extend hcopy hothers⟩
  | ask handle question =>
    rw [Methods.step, Model.step]
    rcases h.lookup handle with ⟨hobject, hvalue⟩ | ⟨object, value, hobject, hvalue, hrep⟩
    · rw [hobject, hvalue]
      exact ⟨rfl, h⟩
    · rw [hobject, hvalue]
      dsimp only
      rw [himp.ask question htakes world.heap object value hrep]
      exact ⟨rfl, h⟩

/-- **Every sequence of commands** is answered as on independent values. -/
theorem run {commands : List (Command Op Q)} (htakes : ∀ command ∈ commands, domain.Takes command) :
    (methods.run world commands).1 = (model.run values commands).1 ∧
      Represents Rep Apart (methods.run world commands).2 (model.run values commands).2 := by
  induction commands generalizing world values with
  | nil => exact ⟨rfl, h⟩
  | cons command rest ih =>
    obtain ⟨hanswer, hnext⟩ := himp.step h (htakes command List.mem_cons_self)
    obtain ⟨hanswers, hfinal⟩ :=
      ih hnext (List.forall_mem_of_forall_mem_cons htakes)
    exact ⟨congrArg₂ List.cons hanswer hanswers, hfinal⟩

/-- **A command leaves the other objects alone.** -/
theorem ask_other {command : Command Op Q} (htakes : domain.Takes command) {other : ℕ}
    (hother : ∀ op, command ≠ .call other op) (hobject : world.handles[other]? = some object)
    {question : Q} (hquestion : domain.questions question) :
    methods.ask (methods.step world command).2.heap object question =
      methods.ask world.heap object question := by
  obtain ⟨value, hrep⟩ := h.exists_rep hobject
  rw [himp.ask question hquestion world.heap object value hrep]
  apply himp.ask question hquestion
  cases command with
  | call handle op =>
    rw [Methods.step]
    cases hcalled : world.handles[handle]? with
    | none => exact hrep
    | some called =>
      obtain ⟨state, hstate⟩ := h.exists_rep hcalled
      -- Another object is called, and the two are apart.
      have hne : handle ≠ other := fun heq => hother op (heq ▸ rfl)
      have hafter := himp.frame op called object world.heap state value hstate
        (h.apart handle other called object hcalled hobject hne) hrep
      rw [Effect.after] at hafter
      dsimp only
      generalize methods.call called op world.heap = result at hafter
      cases result with
      | ok _ heap => exact hafter
      | error _ heap => exact hafter
  | clone handle =>
    rw [Methods.step]
    cases hcopied : world.handles[handle]? with
    | none => exact hrep
    | some original =>
      obtain ⟨state, hstate⟩ := h.exists_rep hcopied
      obtain ⟨copy, heap, hclone, -, hothers⟩ := himp.clone htakes world.heap original state hstate
      dsimp only
      rw [hclone]
      exact (hothers object value hrep).1
  | ask handle asked =>
    have hsame : (methods.step world (.ask handle asked)).2 = world := by
      rw [Methods.step]
      cases world.handles[handle]? with
      | none => rfl
      | some found =>
        dsimp only
        cases methods.ask world.heap found asked <;> rfl
    rw [hsame]
    exact hrep

end

end Implements

end

end Objects
