import Scenario.Proofs.Compiling
import Scenario.Proofs.Numbers
import Scenario.Proofs.PassReports

/-!
Restoring in place. A save is put back part by part into a state that keeps every change made before
an error. Since it is checked as a whole first, it goes in whole or not at all.
-/

namespace Scenario

/-- Work on a state in place: what was changed before an error stays changed. -/
abbrev InPlace := ExceptT UsageError (StateM State)

namespace State

variable (s : State)

def putVariable (entry : String × SavedVariable) : State :=
  { s with vars := s.vars.insert entry.1 entry.2.toVariable }

def putItem (entry : String × Nat) : State :=
  { s with
    inventory :=
      match s.items[entry.1]? with
      | some provider => s.inventory.set provider entry.2
      | none => s.inventory }

def putStatus (entry : String × Float) : State :=
  { s with
    statuses :=
      match s.statusKinds[entry.1]? with
      | some provider => s.statuses.set provider entry.2
      | none => s.statuses }

end State

namespace Save

variable (save : Save)

def putEvents : InPlace Unit := fun s =>
  match s.registry.restore save.events with
  | .ok registry => (.ok (), { s with registry })
  | .error cause => (.error cause, s)

/-- Puts one part of a save after the other into a state. -/
def put : InPlace Unit := do
  save.vars.toList.forM fun entry => modify (·.putVariable entry)
  modify fun s => { s with inventory := s.inventory.clear }
  save.inventory.forM fun entry => modify (·.putItem entry)
  modify fun s => { s with statuses := {} }
  save.statuses.forM fun entry => modify (·.putStatus entry)
  save.putEvents
  modify fun s => { s with random := s.random.restore save.random, ending := save.ending }

def restoreInPlace : InPlace Unit := do
  match save.fault? (← get) with
  | some fault => throw (.incompatibleSave fault)
  | none => save.put
  modify fun s => { s with queue := {} }

end Save

def Engine.restoreInPlace (e : Engine) (save : Save) : Except Error Unit × Engine :=
  match e.requireIdle with
  | .error cause => (.error cause, e)
  | .ok () =>
    let (r, s) := save.restoreInPlace e.state
    (r.mapError .usage, e.setState s)

/-! ### What each part changes -/

namespace State

variable (s : State)

theorem foldl_putVariable (entries : List (String × SavedVariable)) :
    entries.foldl putVariable s =
      { s with
        vars := entries.foldl (fun vs entry => vs.insert entry.1 entry.2.toVariable) s.vars } :=
  List.foldl_hom (fun vars => { s with vars }) fun _ _ => rfl

theorem foldl_putItem (entries : List (String × Nat)) :
    entries.foldl putItem s =
      { s with
        inventory := entries.foldl
          (fun inventory entry =>
            match s.items[entry.1]? with
            | some provider => inventory.set provider entry.2
            | none => inventory) s.inventory } :=
  List.foldl_hom (fun inventory => { s with inventory }) fun _ _ => rfl

theorem foldl_putStatus (entries : List (String × Float)) :
    entries.foldl putStatus s =
      { s with
        statuses := entries.foldl
          (fun statuses entry =>
            match s.statusKinds[entry.1]? with
            | some provider => statuses.set provider entry.2
            | none => statuses) s.statuses } :=
  List.foldl_hom (fun statuses => { s with statuses }) fun _ _ => rfl

end State

namespace Save

variable {save : Save} {s : State}

/-- All that the parts of a save can run into is an event that is not registered, and then the parts
before it have been changed. -/
theorem put_eq : save.put s =
    match s.registry.restore save.events with
    | .ok registry => (.ok (), { s with
        vars := save.vars.foldl (fun vs id v => vs.insert id v.toVariable) s.vars
        inventory := save.inventoryIn s
        statuses := save.statusesIn s
        registry
        random := s.random.restore save.random
        ending := save.ending })
    | .error cause => (.error cause, { s with
        vars := save.vars.foldl (fun vs id v => vs.insert id v.toVariable) s.vars
        inventory := save.inventoryIn s
        statuses := save.statusesIn s }) := by
  unfold put
  simp only [bind_apply, modify_apply, forM_modify, State.foldl_putVariable, State.foldl_putItem,
    State.foldl_putStatus, Std.ExtTreeMap.foldl_eq_foldl_toList]
  unfold putEvents
  cases s.registry.restore save.events with
  | ok registry => rfl
  | error cause => rfl

/-- A save that fits names registered events only, so that its last part goes in as well. -/
theorem Fits.restore_events (h : save.Fits s) :
    ∃ registry, s.registry.restore save.events = .ok registry := by
  have hknown : ∀ entry ∈ save.events, ¬(!s.registry.index.contains entry.1) = true := by
    intro entry hentry
    simpa using h.events entry hentry
  unfold Registry.restore
  rw [List.find?_eq_none.2 hknown]
  exact ⟨_, rfl⟩

theorem Fits.put_ok (h : save.Fits s) : (save.put s).1 = .ok () := by
  obtain ⟨registry, hregistry⟩ := h.restore_events
  rw [put_eq, hregistry]

theorem restoreInPlace_eq : save.restoreInPlace s =
    match save.restore s with
    | .ok s' => (.ok (), s')
    | .error cause => (.error cause, s) := by
  unfold restoreInPlace restore
  rw [bind_apply, get_apply]
  dsimp only
  cases hfault : save.fault? s with
  | some fault => rfl
  | none =>
    obtain ⟨registry, hregistry⟩ := (fault?_eq_none.1 hfault).restore_events
    dsimp only
    rw [bind_apply, put_eq, hregistry]
    rfl

theorem restore_isOk_iff : (∃ s', save.restore s = .ok s') ↔ save.Fits s := by
  simp only [restore_eq_ok]
  constructor
  · rintro ⟨-, hfits, -⟩
    exact hfits
  · intro hfits
    obtain ⟨registry, hregistry⟩ := hfits.restore_events
    exact ⟨_, hfits, registry, hregistry, rfl⟩

end Save

theorem Save.fits_iff {save : Save} {s : State} (h : s.registry.Indexed) : save.Fits s ↔
    (∀ id, save.vars.contains id → s.vars.contains id) ∧
    (∀ (id : String) (x min max : Float),
      save.vars[id]? = some (SavedVariable.bounded x min max) → min ≤ max) ∧
    (∀ id count, (id, count) ∈ save.inventory → s.items.contains id) ∧
    (∀ id remaining, (id, remaining) ∈ save.statuses → s.statusKinds.contains id) ∧
    (∀ id flags, (id, flags) ∈ save.events → ∃ event ∈ s.registry.events, event.id = id) := by
  constructor
  · intro hfits
    refine ⟨hfits.vars, fun id x min max hsaved => ?_, fun id count => hfits.items (id, count),
      fun id remaining => hfits.statuses (id, remaining), fun id flags hentry => ?_⟩
    · exact validBounds_iff.1 (hfits.bounds id (.bounded x min max) hsaved)
    · exact h.contains_iff.1 (hfits.events (id, flags) hentry)
  · rintro ⟨hvars, hbounds, hitems, hstatuses, hevents⟩
    refine ⟨hvars, fun id saved hsaved => ?_, fun entry => hitems entry.1 entry.2,
      fun entry => hstatuses entry.1 entry.2, fun entry hentry => ?_⟩
    · cases saved with
      | value x => exact (by decide : validBounds (-infinity) infinity)
      | bounded x min max =>
        exact validBounds_iff.2 (hbounds id x min max hsaved)
    · exact h.contains_iff.2 (hevents entry.1 entry.2 hentry)

namespace Engine

variable {e : Engine} {save : Save}

theorem restoreInPlace_eq : e.restoreInPlace save =
    match e.restore save with
    | .ok e' => (.ok (), e')
    | .error cause => (.error cause, e) := by
  unfold restoreInPlace restore
  cases e.requireIdle with
  | error cause => rfl
  | ok =>
    dsimp only
    rw [Save.restoreInPlace_eq]
    cases save.restore e.state with
    | ok s => rfl
    | error cause => rfl

theorem restoreInPlace_isOk_iff :
    (e.restoreInPlace save).1 = .ok () ↔ e.inFlight = false ∧ save.Fits e.state := by
  rw [← Save.restore_isOk_iff, restoreInPlace_eq]
  unfold restore
  cases hidle : e.inFlight with
  | true =>
    rw [requireIdle_of_inFlight hidle]
    simp [bind, Except.bind]
  | false =>
    rw [requireIdle_of_idle hidle]
    cases save.restore e.state with
    | ok s => simp [bind, Except.bind, pure, Except.pure]
    | error cause => simp [bind, Except.bind]

/-- Restoring is all or nothing: it succeeds just if the engine is idle and the save names only what
is defined, with bounds in order; otherwise the engine is as it was, although the parts of a save go
in one after the other. Once the save has been checked no part can fail, so that the engine is the
one that the restore in one step makes. -/
theorem restore_all_or_nothing (he : e.Reachable) (save : Save) :
    ((e.restoreInPlace save).1 = .ok () ↔
      e.inFlight = false ∧
      (∀ id, save.vars.contains id → e.state.vars.contains id) ∧
      (∀ (id : String) (x min max : Float),
        save.vars[id]? = some (SavedVariable.bounded x min max) → min ≤ max) ∧
      (∀ id count, (id, count) ∈ save.inventory → e.state.items.contains id) ∧
      (∀ id remaining, (id, remaining) ∈ save.statuses → e.state.statusKinds.contains id) ∧
      (∀ id flags, (id, flags) ∈ save.events → ∃ event ∈ e.state.registry.events, event.id = id)) ∧
    (∀ cause, (e.restoreInPlace save).1 = .error cause → (e.restoreInPlace save).2 = e) ∧
    (save.fault? e.state = none → (save.put e.state).1 = .ok ()) ∧
    e.restoreInPlace save = match e.restore save with
      | .ok e' => (.ok (), e')
      | .error cause => (.error cause, e) := by
  refine ⟨?_, fun cause hfailed => ?_, fun hfault => (Save.fault?_eq_none.1 hfault).put_ok,
    restoreInPlace_eq⟩
  · rw [restoreInPlace_isOk_iff, Save.fits_iff he.wellFormed.indexed]
  · rw [restoreInPlace_eq] at hfailed ⊢
    split
    · rename_i e' hrestore
      rw [hrestore] at hfailed
      cases hfailed
    · rfl

end Engine

/-- A save that knows the bell, but also a sound that the belfry does not. -/
def strangeSave : Save :=
  { belfry.save with events := [("bell", ⟨true, 3⟩), ("drum", ⟨false, 1⟩)] }

theorem restore_all_or_nothing_strangeSave :
    (∃ cause, (belfry.restoreInPlace strangeSave).1 = .error cause) ∧
      (belfry.restoreInPlace strangeSave).2 = belfry ∧
      (belfry.restoreInPlace belfry.save).1 = .ok () := by
  obtain ⟨hok, hsame, -⟩ := Engine.restore_all_or_nothing belfry_reachable strangeSave
  have hfailed : (belfry.restoreInPlace strangeSave).1 =
      .error (.usage (.incompatibleSave (.unknown .event "drum"))) := rfl
  exact ⟨⟨_, hfailed⟩, hsame _ hfailed, rfl⟩

end Scenario
