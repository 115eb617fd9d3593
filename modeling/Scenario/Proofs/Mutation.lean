import Mathlib.Logic.Relation
import Scenario.Pass
import Scenario.Proofs.Registry

/-!
The ways in which a running game changes its state. What holds of each single mutation holds of any
row of them.
-/

namespace Scenario

inductive Mutation
  | setVariable (id : String) (x : Float)
  | setBounds (id : String) (min max : Option Float)
  | giveItem (id : String) (amount : Float)
  | setStatus (id : String) (duration : Float)
  | request (trigger : String) (priority : Option Int) (probability : Float)
  | toggle (id : String) (enabled : Bool)
  | endGame (outcome : Option String)
  | draw
  | fire (id trigger : String)
  | tick
  | pop

def Mutation.OfAction : Mutation → Prop
  | .fire _ _ | .tick | .pop => False
  | _ => True

def Mutation.Fires : Mutation → Prop
  | .fire _ _ => True
  | _ => False

theorem Mutation.OfAction.not_fires {m : Mutation} (h : m.OfAction) : ¬ m.Fires := by
  cases m with
  | fire id trigger => exact h.elim
  | _ => exact id

def Mutation.Ends : Mutation → Prop
  | .endGame _ => True
  | _ => False

/-- The mutations that do something to the queue. -/
def Mutation.Queues : Mutation → Prop
  | .request _ _ _ | .pop => True
  | _ => False

def Mutation.variable? : Mutation → Option String
  | .setVariable id _ | .setBounds id _ _ => some id
  | _ => none

/-- What a mutation takes for numbers are numbers. -/
def Mutation.Numeric : Mutation → Prop
  | .setVariable _ x | .giveItem _ x | .setStatus _ x | .request _ _ x => x.isNaN = false
  | .setBounds _ min max => (∀ x ∈ min, x.isNaN = false) ∧ ∀ x ∈ max, x.isNaN = false
  | _ => True

/-- The mutations of a pass. -/
def Mutation.OfPass (m : Mutation) : Prop := m.Numeric ∧ (m.OfAction ∨ m.Fires)

namespace State

variable {s s' : State}

def mutate (s : State) : Mutation → Except EvaluationError State
  | .setVariable id x => s.setVariable id x
  | .setBounds id min max => s.setVariableBounds id min max
  | .giveItem id amount => s.giveItem id amount
  | .setStatus id duration => s.setStatus id duration
  | .request trigger priority probability =>
    .ok (s.enqueue trigger (priority.getD s.config.defaultTriggerPriority) probability)
  | .toggle id enabled => s.setEventEnabled id enabled
  | .endGame outcome => .ok (s.endGame outcome)
  | .draw => .ok { s with random := s.random.next.2 }
  | .fire id trigger => s.fireEvent id trigger
  | .tick => .ok s.tick.2
  | .pop => .ok { s with queue := { s.queue with pending := s.queue.pending.tail } }

/-! ### What a single mutation does -/

def valueChange (id : String) (old new : Float) : List Notification :=
  if old == new then [] else [.variableChanged id old new]

theorem notifyValue_eq (id : String) (old new : Float) :
    s.notifyValue id old new =
      { s with notifications := valueChange id old new ++ s.notifications } := by
  unfold notifyValue valueChange
  split <;> rfl

def countChange (id : String) (old new : Nat) : List Notification :=
  if old = new then [] else [.itemChanged id old new]

def statusChange (id : String) (before : Bool) (remaining : Option Float) : List Notification :=
  if remaining.isSome || before then [.statusChanged id remaining] else []

def toggleChange (id : String) (previous enabled : Bool) : List Notification :=
  if previous = enabled then [] else [.eventToggled id enabled]

theorem setVariable_eq (id : String) (x : Float) :
    s.setVariable id x =
      match s.vars[id]? with
      | none => .error (.unknown .variable id)
      | some v => .ok { s with
          vars := s.vars.insert id (v.set x)
          notifications := valueChange id v.value (v.set x).value ++ s.notifications } := by
  unfold setVariable Variables.set Variables.find
  cases s.vars[id]? with
  | none => rfl
  | some v => exact congrArg Except.ok (notifyValue_eq _ _ _)

theorem setVariable_eq_ok {id : String} {x : Float} :
    s.setVariable id x = .ok s' ↔ ∃ v, s.vars[id]? = some v ∧
      s' = { s with
        vars := s.vars.insert id (v.set x)
        notifications := valueChange id v.value (v.set x).value ++ s.notifications } := by
  rw [setVariable_eq]
  cases s.vars[id]? with
  | none => simp
  | some v => simp [eq_comm]

theorem setVariableBounds_eq (id : String) (min max : Option Float) :
    s.setVariableBounds id min max =
      match s.vars[id]? with
      | none => .error (.unknown .variable id)
      | some v =>
        let min := min.getD v.min
        let max := max.getD v.max
        let w := v.setBounds min max
        if validBounds min max then .ok { s with
          vars := s.vars.insert id w
          notifications := valueChange id v.value w.value ++
            .variableLimitsChanged id w.min w.max :: s.notifications }
        else .error (.invalidBounds id min max) := by
  have hagain : ∀ w : Variable, (s.vars.insert id w)[id]? = some w := fun w =>
    Std.ExtTreeMap.getElem?_insert_self
  unfold setVariableBounds Variables.setBounds Variables.find
  cases s.vars[id]? with
  | none => rfl
  | some v =>
    simp only [Except.bind, bind, pure, Except.pure]
    by_cases hbounds : validBounds (min.getD v.min) (max.getD v.max)
    · simp only [hbounds, ↓reduceIte, hagain, notifyValue_eq]
      rfl
    · simp only [hbounds]
      rfl

theorem setVariableBounds_eq_ok {id : String} {min max : Option Float} :
    s.setVariableBounds id min max = .ok s' ↔ ∃ v w, s.vars[id]? = some v ∧
      validBounds (min.getD v.min) (max.getD v.max) ∧
      w = v.setBounds (min.getD v.min) (max.getD v.max) ∧
      s' = { s with
        vars := s.vars.insert id w
        notifications := valueChange id v.value w.value ++
          .variableLimitsChanged id w.min w.max :: s.notifications } := by
  rw [setVariableBounds_eq]
  cases s.vars[id]? with
  | none => simp
  | some v =>
    by_cases hbounds : validBounds (min.getD v.min) (max.getD v.max)
    · simp only [hbounds, ↓reduceIte]
      constructor
      · rintro ⟨⟩
        exact ⟨v, _, rfl, hbounds, rfl, rfl⟩
      · rintro ⟨_, _, ⟨⟩, -, rfl, rfl⟩
        rfl
    · simp [hbounds]

theorem giveItem_eq (id : String) (amount : Float) :
    s.giveItem id amount =
      match s.items[id]? with
      | none => .error (.unknown .item id)
      | some provider =>
        let inventory := s.inventory.add provider (wholePart amount)
        .ok { s with
          inventory
          notifications := countChange id (s.inventory.count id) (inventory.count id) ++
            s.notifications } := by
  unfold giveItem countChange
  cases s.items[id]? with
  | none => rfl
  | some provider =>
    dsimp only
    split <;> rfl

theorem giveItem_eq_ok {id : String} {amount : Float} :
    s.giveItem id amount = .ok s' ↔ ∃ provider inventory, s.items[id]? = some provider ∧
      inventory = s.inventory.add provider (wholePart amount) ∧
      s' = { s with
        inventory
        notifications := countChange id (s.inventory.count id) (inventory.count id) ++
          s.notifications } := by
  rw [giveItem_eq]
  cases s.items[id]? with
  | none => simp
  | some provider => simp [eq_comm]

theorem setStatus_eq (id : String) (duration : Float) :
    s.setStatus id duration =
      match s.statusKinds[id]? with
      | none => .error (.unknown .status id)
      | some provider =>
        let statuses := s.statuses.set provider duration
        .ok { s with
          statuses
          notifications := statusChange id (s.statuses.contains id) (statuses.remaining? id) ++
            s.notifications } := by
  unfold setStatus statusChange
  cases s.statusKinds[id]? with
  | none => rfl
  | some provider =>
    dsimp only
    split <;> rfl

theorem setStatus_eq_ok {id : String} {duration : Float} :
    s.setStatus id duration = .ok s' ↔ ∃ provider statuses, s.statusKinds[id]? = some provider ∧
      statuses = s.statuses.set provider duration ∧
      s' = { s with
        statuses
        notifications := statusChange id (s.statuses.contains id) (statuses.remaining? id) ++
          s.notifications } := by
  rw [setStatus_eq]
  cases s.statusKinds[id]? with
  | none => simp
  | some provider => simp [eq_comm]

theorem setEventEnabled_eq (id : String) (enabled : Bool) :
    s.setEventEnabled id enabled =
      match s.registry.flags? id with
      | none => .error (.unknown .event id)
      | some flags => .ok { s with
          registry := s.registry.update id fun flags => { flags with disabled := !enabled }
          notifications := toggleChange id (!flags.disabled) enabled ++ s.notifications } := by
  unfold setEventEnabled Registry.isEnabled Registry.setEnabled Registry.find toggleChange
  cases s.registry.flags? id with
  | none => rfl
  | some flags =>
    simp only [Except.bind, bind, pure, Except.pure]
    split <;> rfl

theorem setEventEnabled_eq_ok {id : String} {enabled : Bool} :
    s.setEventEnabled id enabled = .ok s' ↔ ∃ flags, s.registry.flags? id = some flags ∧
      s' = { s with
        registry := s.registry.update id fun flags => { flags with disabled := !enabled }
        notifications := toggleChange id (!flags.disabled) enabled ++ s.notifications } := by
  rw [setEventEnabled_eq]
  cases s.registry.flags? id with
  | none => simp
  | some flags => simp [eq_comm]

theorem fireEvent_eq (id trigger : String) :
    s.fireEvent id trigger =
      match s.registry.flags? id with
      | none => .error (.unknown .event id)
      | some _ => .ok { s with
          registry := s.registry.update id .record
          notifications := .eventFired id trigger :: s.notifications } := by
  unfold fireEvent Registry.record Registry.find
  cases s.registry.flags? id <;> rfl

theorem fireEvent_eq_ok {id trigger : String} :
    s.fireEvent id trigger = .ok s' ↔ (∃ flags, s.registry.flags? id = some flags) ∧
      s' = { s with
        registry := s.registry.update id .record
        notifications := .eventFired id trigger :: s.notifications } := by
  rw [fireEvent_eq]
  cases s.registry.flags? id with
  | none => simp
  | some flags => simp [eq_comm]

theorem foldl_notify_expired (ids : List String) (s : State) :
    ids.foldl (fun s id => s.notify (.statusChanged id none)) s =
      { s with
        notifications :=
          (ids.map fun id => .statusChanged id none).reverse ++ s.notifications } := by
  induction ids generalizing s with
  | nil => rfl
  | cons id ids ih =>
    rw [List.foldl_cons, ih]
    simp [notify]

theorem tick_eq :
    s.tick = (s.statuses.tick.1, { s with
      statuses := s.statuses.tick.2
      notifications := (s.statuses.tick.1.map fun id => .statusChanged id none).reverse ++
        s.notifications }) := by
  unfold tick
  dsimp only
  rw [foldl_notify_expired]

theorem vars_of_mutate {m : Mutation} (hid : m.variable? = none) (h : s.mutate m = .ok s') :
    s'.vars = s.vars := by
  cases m with
  | setVariable id x => cases hid
  | setBounds id min max => cases hid
  | giveItem id amount =>
    obtain ⟨provider, inventory, -, rfl, rfl⟩ := giveItem_eq_ok.1 h
    rfl
  | setStatus id duration =>
    obtain ⟨provider, statuses, -, rfl, rfl⟩ := setStatus_eq_ok.1 h
    rfl
  | toggle id enabled =>
    obtain ⟨flags, -, rfl⟩ := setEventEnabled_eq_ok.1 h
    rfl
  | fire id trigger =>
    obtain ⟨-, rfl⟩ := fireEvent_eq_ok.1 h
    rfl
  | tick =>
    simp only [State.mutate, tick_eq] at h
    cases h
    rfl
  | request _ _ _ | endGame _ | draw | pop =>
    cases h
    rfl

theorem events_of_mutate {m : Mutation} (h : s.mutate m = .ok s') :
    s'.registry.events = s.registry.events := by
  cases m with
  | setVariable id x =>
    obtain ⟨v, -, rfl⟩ := setVariable_eq_ok.1 h
    rfl
  | setBounds id min max =>
    obtain ⟨v, w, -, -, -, rfl⟩ := setVariableBounds_eq_ok.1 h
    rfl
  | giveItem id amount =>
    obtain ⟨provider, inventory, -, rfl, rfl⟩ := giveItem_eq_ok.1 h
    rfl
  | setStatus id duration =>
    obtain ⟨provider, statuses, -, rfl, rfl⟩ := setStatus_eq_ok.1 h
    rfl
  | toggle id enabled =>
    obtain ⟨flags, -, rfl⟩ := setEventEnabled_eq_ok.1 h
    exact Registry.update_events _ _
  | fire id trigger =>
    obtain ⟨-, rfl⟩ := fireEvent_eq_ok.1 h
    exact Registry.update_events _ _
  | tick =>
    simp only [State.mutate, tick_eq] at h
    cases h
    rfl
  | request _ _ _ | endGame _ | draw | pop =>
    cases h
    rfl

theorem definitions_of_mutate {m : Mutation} (h : s.mutate m = .ok s') :
    s'.attributes = s.attributes ∧ s'.items = s.items ∧ s'.statusKinds = s.statusKinds := by
  cases m with
  | setVariable id x =>
    obtain ⟨v, -, rfl⟩ := setVariable_eq_ok.1 h
    exact ⟨rfl, rfl, rfl⟩
  | setBounds id min max =>
    obtain ⟨v, w, -, -, -, rfl⟩ := setVariableBounds_eq_ok.1 h
    exact ⟨rfl, rfl, rfl⟩
  | giveItem id amount =>
    obtain ⟨provider, inventory, -, rfl, rfl⟩ := giveItem_eq_ok.1 h
    exact ⟨rfl, rfl, rfl⟩
  | setStatus id duration =>
    obtain ⟨provider, statuses, -, rfl, rfl⟩ := setStatus_eq_ok.1 h
    exact ⟨rfl, rfl, rfl⟩
  | toggle id enabled =>
    obtain ⟨flags, -, rfl⟩ := setEventEnabled_eq_ok.1 h
    exact ⟨rfl, rfl, rfl⟩
  | fire id trigger =>
    obtain ⟨-, rfl⟩ := fireEvent_eq_ok.1 h
    exact ⟨rfl, rfl, rfl⟩
  | tick =>
    simp only [State.mutate, tick_eq] at h
    cases h
    exact ⟨rfl, rfl, rfl⟩
  | request _ _ _ | endGame _ | draw | pop =>
    cases h
    exact ⟨rfl, rfl, rfl⟩

theorem queue_of_mutate {m : Mutation} (hm : ¬ m.Queues) (h : s.mutate m = .ok s') :
    s'.queue = s.queue := by
  cases m with
  | setVariable id x =>
    obtain ⟨v, -, rfl⟩ := setVariable_eq_ok.1 h
    rfl
  | setBounds id min max =>
    obtain ⟨v, w, -, -, -, rfl⟩ := setVariableBounds_eq_ok.1 h
    rfl
  | giveItem id amount =>
    obtain ⟨provider, inventory, -, rfl, rfl⟩ := giveItem_eq_ok.1 h
    rfl
  | setStatus id duration =>
    obtain ⟨provider, statuses, -, rfl, rfl⟩ := setStatus_eq_ok.1 h
    rfl
  | toggle id enabled =>
    obtain ⟨flags, -, rfl⟩ := setEventEnabled_eq_ok.1 h
    rfl
  | fire id trigger =>
    obtain ⟨-, rfl⟩ := fireEvent_eq_ok.1 h
    rfl
  | tick =>
    simp only [State.mutate, tick_eq] at h
    cases h
    rfl
  | endGame _ | draw =>
    cases h
    rfl
  | request _ _ _ | pop => exact absurd trivial hm

/-! ### Rows of mutations -/

/-- The state becomes another one by mutations of some sort. -/
def Becomes (sort : Mutation → Prop) : State → State → Prop :=
  Relation.ReflTransGen fun s s' => ∃ m, sort m ∧ s.mutate m = .ok s'

namespace Becomes

variable {sort sort' : Mutation → Prop} {s₁ s₂ s₃ : State}

theorem refl (s : State) : Becomes sort s s := Relation.ReflTransGen.refl

theorem single {m : Mutation} (hm : sort m) (h : s₁.mutate m = .ok s₂) : Becomes sort s₁ s₂ :=
  Relation.ReflTransGen.single ⟨m, hm, h⟩

theorem tail {m : Mutation} (h : Becomes sort s₁ s₂) (hm : sort m) (h' : s₂.mutate m = .ok s₃) :
    Becomes sort s₁ s₃ :=
  Relation.ReflTransGen.tail h ⟨m, hm, h'⟩

theorem trans (h : Becomes sort s₁ s₂) (h' : Becomes sort s₂ s₃) : Becomes sort s₁ s₃ :=
  Relation.ReflTransGen.trans h h'

theorem mono (h : Becomes sort s₁ s₂) (hsort : ∀ m, sort m → sort' m) : Becomes sort' s₁ s₂ :=
  Relation.ReflTransGen.mono (fun _ _ ⟨m, hm, h⟩ => ⟨m, hsort m hm, h⟩) _ _ h

theorem keeps {P : State → Prop} (h : Becomes sort s₁ s₂)
    (hkeep : ∀ s s' m, sort m → P s → s.mutate m = .ok s' → P s') (hs : P s₁) : P s₂ := by
  induction h with
  | refl => exact hs
  | tail _ hm ih =>
    obtain ⟨m, hsort, hm⟩ := hm
    exact hkeep _ _ m hsort ih hm

theorem events (h : Becomes sort s₁ s₂) : s₂.registry.events = s₁.registry.events :=
  h.keeps (P := fun s => s.registry.events = s₁.registry.events)
    (fun _ _ _ _ hs hm => (events_of_mutate hm).trans hs) rfl

end Becomes

end State

end Scenario
