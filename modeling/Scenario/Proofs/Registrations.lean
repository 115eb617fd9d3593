import Scenario.Proofs.Registry

/-!
Rows of operations on a registry. Whatever is registered, changed, reset or put back, and whatever
of it is refused, the indexes say what the events say. The flags of a snapshot come back whenever it
is restored, however many events have been registered since.
-/

namespace Scenario.Registry

/-- What can be done to a registry. -/
inductive Operation
  | register (event : Event Expression)
  | setEnabled (id : String) (enabled : Bool)
  | record (id : String)
  | reset
  | restore (saved : List (String × EventFlags))

/-- A registry after an operation. One that is refused leaves it as it was. -/
def perform (r : Registry) : Operation → Registry
  | .register event => (r.register event).toOption.getD r
  | .setEnabled id enabled => (r.setEnabled id enabled).toOption.getD r
  | .record id => (r.record id).toOption.getD r
  | .reset => r.reset
  | .restore saved => (r.restore saved).toOption.getD r

def performAll (r : Registry) (operations : List Operation) : Registry :=
  operations.foldl perform r

/-! ### In place -/

/-- Work on a registry in place: what was changed before an error stays changed. -/
abbrev Upkeep := ExceptT UsageError (StateM Registry)

def registerInPlace (event : Event Expression) : Upkeep Unit := do
  let r ← get
  if r.index.contains event.id then throw (.duplicate .event event.id)
  let position := r.events.size
  modify fun r => { r with index := r.index.insert event.id position }
  modify fun r =>
    { r with byTrigger :=
        r.byTrigger.insert event.trigger ((r.byTrigger[event.trigger]?).getD [] ++ [position]) }
  modify fun r => { r with flags := r.flags.push (.initial event) }
  modify fun r => { r with events := r.events.push event }

def putFlags (r : Registry) (entry : String × EventFlags) : Registry :=
  r.update entry.1 fun _ => entry.2

def restoreInPlace (saved : List (String × EventFlags)) : Upkeep Unit := do
  let r ← get
  match saved.find? fun (id, _) => !r.index.contains id with
  | some (id, _) => throw (.incompatibleSave (.unknown .event id))
  | none =>
    modify reset
    saved.forM fun entry => modify (·.putFlags entry)

variable {r r' : Registry}

theorem registerInPlace_eq (event : Event Expression) (r : Registry) :
    registerInPlace event r =
      match r.register event with
      | .ok r' => (.ok (), r')
      | .error cause => (.error cause, r) := by
  unfold registerInPlace register
  rw [bind_apply, get_apply]
  dsimp only
  cases r.index.contains event.id <;> rfl

theorem restoreInPlace_eq (saved : List (String × EventFlags)) (r : Registry) :
    restoreInPlace saved r =
      match r.restore saved with
      | .ok r' => (.ok (), r')
      | .error cause => (.error cause, r) := by
  unfold restoreInPlace restore
  rw [bind_apply, get_apply]
  dsimp only
  cases saved.find? fun (id, _) => !r.index.contains id with
  | some entry => rfl
  | none =>
    dsimp only
    rw [bind_apply, modify_apply]
    exact forM_modify putFlags saved r.reset

/-! ### Single operations -/

variable {id : String}

theorem setEnabled_eq_ok {enabled : Bool} : r.setEnabled id enabled = .ok r' ↔
    (r.flags? id).isSome ∧ r' = r.update id fun flags => { flags with disabled := !enabled } := by
  unfold setEnabled find
  cases r.flags? id with
  | none => simp [bind, Except.bind]
  | some flags => simp [bind, Except.bind, pure, Except.pure, eq_comm]

theorem record_eq_ok : r.record id = .ok r' ↔
    (r.flags? id).isSome ∧ r' = r.update id .record := by
  unfold record find
  cases r.flags? id with
  | none => simp [bind, Except.bind]
  | some flags => simp [bind, Except.bind, pure, Except.pure, eq_comm]

theorem Indexed.register_isError_iff (h : r.Indexed) (event : Event Expression) :
    (∃ cause, r.register event = .error cause) ↔ ∃ known ∈ r.events, known.id = event.id := by
  rw [← h.contains_iff]
  unfold Registry.register
  cases r.index.contains event.id <;> simp

theorem Indexed.restore_isError_iff (h : r.Indexed) (saved : List (String × EventFlags)) :
    (∃ cause, r.restore saved = .error cause) ↔
      ∃ entry ∈ saved, ∀ event ∈ r.events, event.id ≠ entry.1 := by
  have hunknown : ∀ entry : String × EventFlags,
      (!r.index.contains entry.1) = true ↔ ∀ event ∈ r.events, event.id ≠ entry.1 := by
    intro entry
    rw [Bool.not_eq_true', ← Bool.not_eq_true, h.contains_iff]
    simp
  simp only [← hunknown]
  unfold Registry.restore
  cases hfind : saved.find? fun (id, _) => !r.index.contains id with
  | some entry =>
    have hnew := List.find?_some hfind
    exact iff_of_true ⟨_, rfl⟩ ⟨entry, List.mem_of_find?_eq_some hfind, hnew⟩
  | none =>
    refine iff_of_false (by simp) ?_
    rintro ⟨entry, hentry, hnew⟩
    exact List.find?_eq_none.1 hfind entry hentry hnew

theorem getD_toOption {ε : Type} (x : Except ε Registry) (r : Registry) :
    x.toOption.getD r = r ∨ x = .ok (x.toOption.getD r) := by
  cases x with
  | error cause => exact .inl rfl
  | ok r' => exact .inr rfl

/-- All that an operation can do to a registry. -/
theorem perform_cases (r : Registry) (operation : Operation) :
    r.perform operation = r ∨
    (∃ event, r.register event = .ok (r.perform operation)) ∨
    (∃ id f, r.perform operation = r.update id f) ∨
    r.perform operation = r.reset ∨
    ∃ saved, r.restore saved = .ok (r.perform operation) := by
  cases operation with
  | register event =>
    rcases getD_toOption (r.register event) r with hsame | hr
    · exact .inl hsame
    · exact .inr (.inl ⟨event, hr⟩)
  | setEnabled id enabled =>
    rcases getD_toOption (r.setEnabled id enabled) r with hsame | hr
    · exact .inl hsame
    · exact .inr (.inr (.inl ⟨id, _, (setEnabled_eq_ok.1 hr).2⟩))
  | record id =>
    rcases getD_toOption (r.record id) r with hsame | hr
    · exact .inl hsame
    · exact .inr (.inr (.inl ⟨id, _, (record_eq_ok.1 hr).2⟩))
  | reset => exact .inr (.inr (.inr (.inl rfl)))
  | restore saved =>
    rcases getD_toOption (r.restore saved) r with hsame | hr
    · exact .inl hsame
    · exact .inr (.inr (.inr (.inr ⟨saved, hr⟩)))

/-- Whatever is done to a registry, its indexes stay exact and its events keep their places. -/
theorem Indexed.perform (h : r.Indexed) (operation : Operation) :
    (r.perform operation).Indexed ∧
      r.events.toList <+: (r.perform operation).events.toList := by
  rcases r.perform_cases operation with hsame | ⟨event, hr⟩ | ⟨id, f, hr⟩ | hr | ⟨saved, hr⟩
  · rw [hsame]
    exact ⟨h, List.prefix_refl _⟩
  · refine ⟨h.register hr, ?_⟩
    rw [(register_eq_ok hr).2, Array.toList_push]
    exact List.prefix_append _ _
  · rw [hr, update_events]
    exact ⟨h.update id f, List.prefix_refl _⟩
  · rw [hr]
    exact ⟨h.reset, List.prefix_refl _⟩
  · refine ⟨h.restore hr, ?_⟩
    rw [restore_eq_ok hr, foldl_update_events]
    exact List.prefix_refl _

/-! ### Rows of operations -/

theorem Indexed.performAll (h : r.Indexed) (operations : List Operation) :
    (r.performAll operations).Indexed ∧
      r.events.toList <+: (r.performAll operations).events.toList := by
  induction operations generalizing r with
  | nil => exact ⟨h, List.prefix_refl _⟩
  | cons operation operations ih =>
    obtain ⟨hnext, hfirst⟩ := h.perform operation
    obtain ⟨hlast, hrest⟩ := ih hnext
    exact ⟨hlast, hfirst.trans hrest⟩

theorem Indexed.flags?_reset (h : r.Indexed) {event : Event Expression}
    (hevent : event ∈ r.events) : r.reset.flags? event.id = some ⟨event.disabled, 0⟩ := by
  obtain ⟨i, hi⟩ := Array.getElem?_of_mem hevent
  unfold flags?
  rw [h.reset.index_of_event hi]
  simp [Registry.reset, hi, EventFlags.initial]

/-- A snapshot can be restored when more events have been registered, and gives the events that it
knows the flags that they had. -/
theorem Indexed.restore_earlier (h : r.Indexed) (h' : r'.Indexed)
    (hevents : r.events.toList <+: r'.events.toList) : ∃ r'', r'.restore r.snapshot = .ok r'' ∧
      r''.events = r'.events ∧
      ∀ event ∈ r'.events,
        r''.flags? event.id = some ((r.flags? event.id).getD ⟨event.disabled, 0⟩) := by
  have hknown : ∀ entry ∈ r.snapshot, ∃ event ∈ r'.events, event.id = entry.1 := by
    intro entry hentry
    obtain ⟨event, hevent, hid⟩ :=
      h.contains_iff.1 (h.mem_snapshot_keys.1 (List.mem_map_of_mem hentry))
    exact ⟨event, Array.mem_toList_iff.1 (hevents.subset (Array.mem_toList_iff.2 hevent)), hid⟩
  cases hr : r'.restore r.snapshot with
  | error cause =>
    obtain ⟨entry, hentry, hnone⟩ := (h'.restore_isError_iff r.snapshot).1 ⟨cause, hr⟩
    obtain ⟨event, hevent, hid⟩ := hknown entry hentry
    exact absurd hid (hnone event hevent)
  | ok r'' =>
    have hkeys : (r.snapshot.map Prod.fst).Nodup := h.snapshot_keys ▸ h.ids_nodup
    rw [restore_eq_ok hr]
    refine ⟨_, rfl, foldl_update_events _, fun event hevent => ?_⟩
    rw [h'.reset.flags?_foldl hkeys, h.find?_snapshot, h'.flags?_reset hevent, Option.map_some]

theorem mem_positions {trigger : String} {i : Nat} : i ∈ r.positions trigger ↔
    ∃ event : Event Expression, r.events[i]? = some event ∧ event.trigger = trigger := by
  unfold positions
  rw [List.mem_filter, List.mem_range, Option.any_eq_true]
  simp only [decide_eq_true_iff]
  refine ⟨fun h => h.2, fun h => ⟨?_, h⟩⟩
  obtain ⟨event, hevent, -⟩ := h
  exact (Array.getElem?_eq_some_iff.1 hevent).1

theorem positions_ascending (trigger : String) : (r.positions trigger).Pairwise (· < ·) :=
  List.pairwise_lt_range.filter _

/-- The indexes of a registry agree with its events after any row of operations. Each change of
flags is one of a single event, a snapshot comes back exactly, events that it does not know are as
they were declared and have not happened, and what is refused changes nothing, although registering
and restoring work on one part of the registry after the other. -/
theorem indexes_agree (operations : List Operation) :
    let r := ({} : Registry).performAll operations
    r.flags.size = r.events.size ∧
    (∀ (id : String) (i : Nat), r.index[id]? = some i ↔
      ∃ event : Event Expression, r.events[i]? = some event ∧ event.id = id) ∧
    (∀ trigger : String, ((r.byTrigger[trigger]?).getD []).Pairwise (· < ·) ∧
      ∀ i, i ∈ (r.byTrigger[trigger]?).getD [] ↔
        ∃ event : Event Expression, r.events[i]? = some event ∧ event.trigger = trigger) ∧
    (∀ (id : String) (i : Nat), r.index[id]? = some i → i < r.events.size ∧ i < r.flags.size) ∧
    (∀ trigger : String, ∀ i ∈ (r.byTrigger[trigger]?).getD [], i < r.events.size) ∧
    (∀ trigger, r.listeners trigger = r.events.toList.filter (·.trigger = trigger)) ∧
    (∀ id enabled r', r.setEnabled id enabled = .ok r' → r'.events = r.events ∧
      ∀ other, r'.flags? other =
        if id = other then (r.flags? other).map fun flags => { flags with disabled := !enabled }
        else r.flags? other) ∧
    (∀ id r', r.record id = .ok r' → r'.events = r.events ∧
      ∀ other, r'.flags? other =
        if id = other then
          (r.flags? other).map fun flags => ⟨flags.disabled, min (flags.occurrences + 1) 4294967295⟩
        else r.flags? other) ∧
    (∀ event r', r.register event = .ok r' → r'.events = r.events.push event ∧
      ∀ other, r'.flags? other =
        if event.id = other then some ⟨event.disabled, 0⟩ else r.flags? other) ∧
    (r.reset.events = r.events ∧
      ∀ event ∈ r.events, r.reset.flags? event.id = some ⟨event.disabled, 0⟩) ∧
    (∀ later, ∃ restored, (r.performAll later).restore r.snapshot = .ok restored ∧
      restored.events = (r.performAll later).events ∧
      (∀ event ∈ r.events, restored.flags? event.id = r.flags? event.id) ∧
      ∀ event ∈ (r.performAll later).events, event ∉ r.events →
        restored.flags? event.id = some ⟨event.disabled, 0⟩) ∧
    (∀ event,
      ((∃ cause, r.register event = .error cause) ↔ ∃ known ∈ r.events, known.id = event.id) ∧
      registerInPlace event r = match r.register event with
        | .ok r' => (.ok (), r')
        | .error cause => (.error cause, r)) ∧
    ∀ saved,
      ((∃ cause, r.restore saved = .error cause) ↔
        ∃ entry ∈ saved, ∀ event ∈ r.events, event.id ≠ entry.1) ∧
      restoreInPlace saved r = match r.restore saved with
        | .ok r' => (.ok (), r')
        | .error cause => (.error cause, r) := by
  intro r
  have h : r.Indexed := (indexed_empty.performAll operations).1
  have hinside : ∀ trigger : String, ∀ i ∈ (r.byTrigger[trigger]?).getD [], i < r.events.size := by
    intro trigger i hi
    rw [h.getD_byTrigger] at hi
    obtain ⟨event, hevent, -⟩ := mem_positions.1 hi
    exact (Array.getElem?_eq_some_iff.1 hevent).1
  refine ⟨h.size, h.index, fun trigger => ?_, fun id i hi => ?_, hinside, h.listeners_eq,
    fun id enabled r' hr => ?_, fun id r' hr => ?_, fun event r' hr => ?_,
    ⟨rfl, fun event hevent => h.flags?_reset hevent⟩, fun later => ?_, fun event => ?_,
    fun saved => ⟨h.restore_isError_iff saved, restoreInPlace_eq saved r⟩⟩
  · rw [h.getD_byTrigger]
    exact ⟨positions_ascending trigger, fun i => mem_positions⟩
  · obtain ⟨event, hevent, -⟩ := h.event_of_index hi
    have hlt := (Array.getElem?_eq_some_iff.1 hevent).1
    exact ⟨hlt, h.size ▸ hlt⟩
  · rw [(setEnabled_eq_ok.1 hr).2]
    exact ⟨update_events _ _, fun other => h.flags?_update id other _⟩
  · rw [(record_eq_ok.1 hr).2]
    exact ⟨update_events _ _, fun other => h.flags?_update id other _⟩
  · refine ⟨?_, fun other => h.flags?_register hr other⟩
    rw [(register_eq_ok hr).2]
  · obtain ⟨h', hgrown⟩ := h.performAll later
    obtain ⟨restored, hr, hevents, hflags⟩ := h.restore_earlier h' hgrown
    have hkept : ∀ event ∈ r.events, event ∈ (r.performAll later).events := fun event hevent =>
      Array.mem_toList_iff.1 (hgrown.subset (Array.mem_toList_iff.2 hevent))
    refine ⟨restored, hr, hevents, fun event hevent => ?_, fun event hevent hnew => ?_⟩
    · obtain ⟨flags, hsome⟩ := Option.isSome_iff_exists.1 (h.isSome_flags?.2 ⟨event, hevent, rfl⟩)
      rw [hflags event (hkept event hevent), hsome]
      rfl
    · have hnone : r.flags? event.id = none := by
        rw [← Option.not_isSome_iff_eq_none, h.isSome_flags?]
        rintro ⟨known, hknown, hid⟩
        have hsame := List.inj_on_of_nodup_map h'.ids_nodup
          (Array.mem_toList_iff.2 (hkept known hknown)) (Array.mem_toList_iff.2 hevent) hid
        exact hnew (hsame ▸ hknown)
      rw [hflags event hevent, hnone]
      rfl
  · exact ⟨h.register_isError_iff event, registerInPlace_eq event r⟩

end Scenario.Registry
