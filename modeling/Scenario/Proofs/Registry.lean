import Mathlib.Data.List.Induction
import Mathlib.Data.List.Nodup
import Scenario.Proofs.Tables
import Scenario.Registry

/-!
The indexes of a registry: ids and triggers lead to exactly the positions of their events, and each
change is one of the flags of an id.
-/

namespace Scenario

namespace Registry

def positions (r : Registry) (trigger : String) : List Nat :=
  (List.range r.events.size).filter fun i => (r.events[i]?).any (·.trigger = trigger)

/-- The indexes say what the events say. -/
structure Indexed (r : Registry) : Prop where
  size : r.flags.size = r.events.size
  index : ∀ id i, r.index[id]? = some i ↔ ∃ e : Event Expression, r.events[i]? = some e ∧ e.id = id
  byTrigger : ∀ t, r.byTrigger[t]? = if r.positions t = [] then none else some (r.positions t)

variable {r r' : Registry}

theorem indexed_empty : ({} : Registry).Indexed where
  size := rfl
  index id i := by
    constructor
    · intro h
      simp at h
    · rintro ⟨e, he, -⟩
      simp at he
  byTrigger t := rfl

theorem register_eq_ok {event : Event Expression} (h : r.register event = .ok r') :
    r.index.contains event.id = false ∧ r' =
      { events := r.events.push event
        flags := r.flags.push (.initial event)
        index := r.index.insert event.id r.events.size
        byTrigger := r.byTrigger.insert event.trigger
          ((r.byTrigger[event.trigger]?).getD [] ++ [r.events.size]) } := by
  unfold register at h
  split at h
  · cases h
  · rename_i hnew
    cases h
    exact ⟨by simpa only [Bool.not_eq_true] using hnew, rfl⟩

theorem positions_push (event : Event Expression) (t : String) (flags : Array EventFlags)
    (index : Std.ExtTreeMap String Nat) (byTrigger : Std.ExtTreeMap String (List Nat)) :
    positions ⟨r.events.push event, flags, index, byTrigger⟩ t =
      r.positions t ++ if event.trigger = t then [r.events.size] else [] := by
  unfold positions
  rw [Array.size_push, List.range_succ, List.filter_append]
  congr 1
  · apply List.filter_congr
    intro i hi
    have hlt := List.mem_range.1 hi
    simp [Array.getElem?_push, Nat.ne_of_lt hlt]
  · by_cases ht : event.trigger = t <;> simp [ht]

theorem Indexed.getD_byTrigger (h : r.Indexed) (t : String) :
    (r.byTrigger[t]?).getD [] = r.positions t := by
  rw [h.byTrigger t]
  split <;> simp_all

theorem Indexed.register (h : r.Indexed) {event : Event Expression}
    (hr : r.register event = .ok r') : r'.Indexed := by
  obtain ⟨hnew, rfl⟩ := register_eq_ok hr
  have hnone : r.index[event.id]? = none :=
    Std.ExtTreeMap.getElem?_eq_none_of_contains_eq_false hnew
  refine ⟨by simp [h.size], fun id i => ?_, fun t => ?_⟩
  · rw [getElem?_insert_id, Array.getElem?_push]
    by_cases hid : event.id = id
    · subst hid
      have hold : ∀ e, r.events[i]? = some e → e.id ≠ event.id := by
        intro e he hid
        rw [(h.index event.id i).2 ⟨e, he, hid⟩] at hnone
        cases hnone
      by_cases hi : i = r.events.size
      · simp [hi]
      · simp only [↓reduceIte, hi]
        constructor
        · intro hsome
          exact absurd (Option.some.inj hsome).symm hi
        · rintro ⟨e, he, hid⟩
          exact absurd hid (hold e he)
    · rw [if_neg hid, h.index id i]
      by_cases hi : i = r.events.size
      · subst hi
        simp [hid]
      · rw [if_neg hi]
  · rw [positions_push, getElem?_insert_id, h.getD_byTrigger]
    by_cases ht : event.trigger = t
    · subst ht
      simp
    · rw [if_neg ht, if_neg ht, List.append_nil, h.byTrigger t]

/-! ### Events -/

theorem Indexed.event_of_index (h : r.Indexed) {id : String} {i : Nat}
    (hi : r.index[id]? = some i) : ∃ e : Event Expression, r.events[i]? = some e ∧ e.id = id :=
  (h.index id i).1 hi

theorem Indexed.ids_nodup (h : r.Indexed) : (r.events.toList.map Event.id).Nodup := by
  rw [List.nodup_iff_getElem?_ne_getElem?]
  intro i j hij hj heq
  have hj' : j < r.events.size := by simpa using hj
  have hi' : i < r.events.size := Nat.lt_trans hij hj'
  have hids : r.events[i].id = r.events[j].id := by simpa [hi', hj'] using heq
  have hindex := (h.index r.events[j].id i).2 ⟨r.events[i], by simp [hi'], hids⟩
  rw [(h.index r.events[j].id j).2 ⟨r.events[j], by simp [hj'], rfl⟩] at hindex
  exact Nat.ne_of_lt hij (Option.some.inj hindex).symm

theorem filterMap_getElem?_range {α : Type} (l : List α) :
    (List.range l.length).filterMap (l[·]?) = l := by
  -- From the end of the list, since a range grows there.
  induction l using List.reverseRecOn with
  | nil => rfl
  | append_singleton l a ih =>
    rw [List.length_append, List.length_singleton, List.range_succ, List.filterMap_append]
    have hinit : (List.range l.length).filterMap ((l ++ [a])[·]?) = l := by
      refine Eq.trans (List.filterMap_congr fun i hi => ?_) ih
      exact List.getElem?_append_left (List.mem_range.1 hi)
    rw [hinit]
    simp

theorem Indexed.listeners_eq (h : r.Indexed) (t : String) :
    r.listeners t = r.events.toList.filter (·.trigger = t) := by
  have hall := filterMap_getElem?_range r.events.toList
  rw [listeners, h.getD_byTrigger, positions, List.filterMap_filter]
  conv_rhs => rw [← hall, List.filter_filterMap]
  simp only [Array.length_toList, Array.getElem?_toList]
  apply List.filterMap_congr
  intro i hi
  cases r.events[i]? with
  | none => rfl
  | some e => by_cases he : e.trigger = t <;> simp [Option.filter, he]

/-! ### Flags -/

theorem update_of_none {id : String} {f : EventFlags → EventFlags} (h : r.index[id]? = none) :
    r.update id f = r := by
  unfold update
  rw [h]

theorem update_of_some {id : String} {f : EventFlags → EventFlags} {i : Nat}
    (h : r.index[id]? = some i) : r.update id f = { r with flags := r.flags.modify i f } := by
  unfold update
  rw [h]

@[simp] theorem update_events (id : String) (f : EventFlags → EventFlags) :
    (r.update id f).events = r.events := by
  unfold update
  split <;> rfl

@[simp] theorem update_index (id : String) (f : EventFlags → EventFlags) :
    (r.update id f).index = r.index := by
  unfold update
  split <;> rfl

@[simp] theorem update_byTrigger (id : String) (f : EventFlags → EventFlags) :
    (r.update id f).byTrigger = r.byTrigger := by
  unfold update
  split <;> rfl

@[simp] theorem update_size (id : String) (f : EventFlags → EventFlags) :
    (r.update id f).flags.size = r.flags.size := by
  unfold update
  split <;> simp

theorem Indexed.of_same (h : r.Indexed) (hsize : r'.flags.size = r.flags.size)
    (hevents : r'.events = r.events) (hindex : r'.index = r.index)
    (hbyTrigger : r'.byTrigger = r.byTrigger) : r'.Indexed where
  size := by rw [hsize, h.size, hevents]
  index id i := by rw [hindex, hevents]; exact h.index id i
  byTrigger t := by
    unfold positions
    rw [hbyTrigger, hevents]
    exact h.byTrigger t

theorem Indexed.update (h : r.Indexed) (id : String) (f : EventFlags → EventFlags) :
    (r.update id f).Indexed :=
  h.of_same (update_size id f) (update_events id f) (update_index id f) (update_byTrigger id f)

theorem Indexed.reset (h : r.Indexed) : r.reset.Indexed :=
  h.of_same (by simp [Registry.reset, h.size]) rfl rfl rfl

theorem Indexed.foldl_update (h : r.Indexed) (saved : List (String × EventFlags)) :
    (saved.foldl (fun r (id, flags) => r.update id fun _ => flags) r).Indexed := by
  induction saved generalizing r with
  | nil => exact h
  | cons entry saved ih => exact ih (h.update entry.1 fun _ => entry.2)

theorem restore_eq_ok {saved : List (String × EventFlags)} (h : r.restore saved = .ok r') :
    r' = saved.foldl (fun r (id, flags) => r.update id fun _ => flags) r.reset := by
  unfold Registry.restore at h
  split at h
  · cases h
  · cases h
    rfl

theorem Indexed.restore (h : r.Indexed) {saved : List (String × EventFlags)}
    (hr : r.restore saved = .ok r') : r'.Indexed := by
  rw [restore_eq_ok hr]
  exact h.reset.foldl_update saved

theorem Indexed.flags?_update (h : r.Indexed) (id id' : String) (f : EventFlags → EventFlags) :
    (r.update id f).flags? id' = if id = id' then (r.flags? id').map f else r.flags? id' := by
  unfold flags?
  cases hi : r.index[id]? with
  | none =>
    rw [update_of_none hi]
    split
    · rename_i hid
      subst hid
      simp [hi]
    · rfl
  | some i =>
    rw [update_of_some hi]
    dsimp only
    cases hj : r.index[id']? with
    | none => split <;> rfl
    | some j =>
      change (r.flags.modify i f)[j]? = if id = id' then (r.flags[j]?).map f else r.flags[j]?
      rw [Array.getElem?_modify]
      -- The position says which event it is, so that no two ids share one.
      have hiff : i = j ↔ id = id' := by
        constructor
        · rintro rfl
          obtain ⟨e, he, rfl⟩ := h.event_of_index hi
          obtain ⟨e', he', rfl⟩ := h.event_of_index hj
          rw [he] at he'
          cases he'
          rfl
        · rintro rfl
          rw [hi] at hj
          exact Option.some.inj hj
      simp only [hiff]

theorem Indexed.flags?_register (h : r.Indexed) {event : Event Expression}
    (hr : r.register event = .ok r') (id : String) :
    r'.flags? id = if event.id = id then some (.initial event) else r.flags? id := by
  obtain ⟨-, rfl⟩ := register_eq_ok hr
  unfold flags?
  dsimp only
  rw [getElem?_insert_id]
  split
  · simp [← h.size]
  · cases hi : r.index[id]? with
    | none => rfl
    | some i =>
      obtain ⟨e, he, -⟩ := h.event_of_index hi
      obtain ⟨hlt, -⟩ := Array.getElem?_eq_some_iff.1 he
      have hlt' : i < r.flags.size := h.size ▸ hlt
      simp [Array.getElem?_push, Nat.ne_of_lt hlt']

/-! ### Snapshots -/

theorem Indexed.index_of_event (h : r.Indexed) {i : Nat} {e : Event Expression}
    (he : r.events[i]? = some e) : r.index[e.id]? = some i := (h.index e.id i).2 ⟨e, he, rfl⟩

theorem Indexed.isSome_flags? (h : r.Indexed) {id : String} :
    (r.flags? id).isSome ↔ ∃ e ∈ r.events, e.id = id := by
  constructor
  · intro hflags
    obtain ⟨flags, hflags⟩ := Option.isSome_iff_exists.1 hflags
    obtain ⟨i, hi, -⟩ := Option.bind_eq_some_iff.1 hflags
    obtain ⟨e, he, rfl⟩ := h.event_of_index hi
    exact ⟨e, Array.mem_of_getElem? he, rfl⟩
  · rintro ⟨e, he, rfl⟩
    obtain ⟨i, hi⟩ := Array.getElem?_of_mem he
    obtain ⟨hlt, -⟩ := Array.getElem?_eq_some_iff.1 hi
    have hlt' : i < r.flags.size := h.size ▸ hlt
    unfold flags?
    rw [h.index_of_event hi]
    simp [hlt']

theorem Indexed.index_eq (h : r.Indexed) (h' : r'.Indexed) (hevents : r.events = r'.events) :
    r.index = r'.index := by
  refine Std.ExtTreeMap.ext_getElem? fun id => Option.ext fun i => ?_
  rw [h.index, h'.index, hevents]

theorem Indexed.ext (h : r.Indexed) (h' : r'.Indexed) (hevents : r.events = r'.events)
    (hflags : ∀ id, r.flags? id = r'.flags? id) : r = r' := by
  have hindex := h.index_eq h' hevents
  have hbyTrigger : r.byTrigger = r'.byTrigger := by
    apply Std.ExtTreeMap.ext_getElem?
    intro t
    have hpositions : r.positions t = r'.positions t := by
      unfold positions
      rw [hevents]
    rw [h.byTrigger, h'.byTrigger, hpositions]
  have hsame : r.flags = r'.flags := by
    apply Array.ext (by rw [h.size, h'.size, hevents])
    intro i hi hi'
    have hlt : i < r.events.size := h.size ▸ hi
    have hevent : r.events[i]? = some r.events[i] := by simp [hlt]
    have hevent' : r'.events[i]? = some r.events[i] := by rw [← hevents, hevent]
    have hsome := hflags r.events[i].id
    simp only [flags?, h.index_of_event hevent, h'.index_of_event hevent'] at hsome
    simpa [hi, hi'] using hsome
  cases r
  cases r'
  simp_all

theorem Indexed.snapshot_keys (h : r.Indexed) :
    r.snapshot.map Prod.fst = r.events.toList.map Event.id :=
  List.map_fst_zip (by simp [h.size])

theorem Indexed.mem_snapshot_keys (h : r.Indexed) {id : String} :
    id ∈ r.snapshot.map Prod.fst ↔ r.index.contains id := by
  rw [h.snapshot_keys, contains_eq_isSome, Option.isSome_iff_exists]
  constructor
  · intro hid
    obtain ⟨e, he, rfl⟩ := List.mem_map.1 hid
    obtain ⟨i, hi⟩ := List.getElem?_of_mem he
    exact ⟨i, h.index_of_event (by simpa using hi)⟩
  · rintro ⟨i, hi⟩
    obtain ⟨e, he, rfl⟩ := h.event_of_index hi
    exact List.mem_map_of_mem (List.mem_of_getElem? (by simpa using he))

theorem Indexed.contains_iff (h : r.Indexed) {id : String} :
    r.index.contains id ↔ ∃ event ∈ r.events, event.id = id := by
  rw [← h.mem_snapshot_keys, h.snapshot_keys]
  simp

theorem Indexed.find?_snapshot (h : r.Indexed) (id : String) :
    (r.snapshot.find? (·.1 = id)).map Prod.snd = r.flags? id := by
  unfold flags?
  cases hi : r.index[id]? with
  | none =>
    have hnone : id ∉ r.snapshot.map Prod.fst := by
      rw [h.mem_snapshot_keys, contains_eq_isSome, hi]
      simp
    rw [find?_key_eq_none hnone]
    rfl
  | some i =>
    obtain ⟨e, he, rfl⟩ := h.event_of_index hi
    obtain ⟨hlt, -⟩ := Array.getElem?_eq_some_iff.1 he
    have hlt' : i < r.flags.size := h.size ▸ hlt
    have hentry : r.snapshot[i]? = some (e.id, r.flags[i]) := by
      refine List.getElem?_zip_eq_some.2 ⟨?_, ?_⟩
      · simp [he]
      · simp [hlt']
    have hkeys : (r.snapshot.map Prod.fst).Nodup := h.snapshot_keys ▸ h.ids_nodup
    rw [find?_key_of_mem hkeys (List.mem_of_getElem? hentry)]
    simp [hlt']

theorem Indexed.flags?_foldl (h : r.Indexed) {saved : List (String × EventFlags)}
    (hsaved : (saved.map Prod.fst).Nodup) (id : String) :
    (saved.foldl (fun r (id, flags) => r.update id fun _ => flags) r).flags? id =
      (r.flags? id).map fun flags => ((saved.find? (·.1 = id)).map Prod.snd).getD flags := by
  induction saved generalizing r with
  | nil => simp
  | cons entry saved ih =>
    rw [List.map_cons, List.nodup_cons] at hsaved
    rw [List.foldl_cons, ih (h.update _ _) hsaved.2, h.flags?_update]
    by_cases hid : entry.1 = id
    · have hgone : saved.find? (·.1 = id) = none := find?_key_eq_none (hid ▸ hsaved.1)
      rw [if_pos hid, hgone, List.find?_cons_of_pos (by simpa using hid), Option.map_map]
      rfl
    · rw [if_neg hid, List.find?_cons_of_neg (by simpa using hid)]

theorem foldl_update_events (saved : List (String × EventFlags)) :
    (saved.foldl (fun r (id, flags) => r.update id fun _ => flags) r).events = r.events := by
  induction saved generalizing r with
  | nil => rfl
  | cons entry saved ih => rw [List.foldl_cons, ih, update_events]

theorem Indexed.restore_snapshot (h : r.Indexed) (h' : r'.Indexed)
    (hevents : r.events = r'.events) : r'.restore r.snapshot = .ok r := by
  have hindex := h.index_eq h' hevents
  have hknown : ∀ entry ∈ r.snapshot, ¬(!r'.index.contains entry.1) = true := by
    intro entry hentry
    have hmem := h.mem_snapshot_keys.1 (List.mem_map_of_mem hentry)
    rw [hindex] at hmem
    simpa using hmem
  have hkeys : (r.snapshot.map Prod.fst).Nodup := h.snapshot_keys ▸ h.ids_nodup
  unfold Registry.restore
  rw [List.find?_eq_none.2 hknown]
  refine congrArg Except.ok ((h'.reset.foldl_update r.snapshot).ext h ?_ fun id => ?_)
  · rw [foldl_update_events]
    exact hevents.symm
  · rw [h'.reset.flags?_foldl hkeys, h.find?_snapshot]
    unfold flags?
    cases hi : r.index[id]? with
    | none =>
      have hi' : r'.reset.index[id]? = none := (congrArg (·[id]?) hindex).symm.trans hi
      rw [hi']
      rfl
    | some i =>
      have hi' : r'.reset.index[id]? = some i := (congrArg (·[id]?) hindex).symm.trans hi
      obtain ⟨e, he, -⟩ := h.event_of_index hi
      obtain ⟨hlt, -⟩ := Array.getElem?_eq_some_iff.1 he
      have hsize : i < r.flags.size := h.size ▸ hlt
      have hsize' : i < r'.reset.flags.size := by
        rw [h'.reset.size]
        exact hevents ▸ hlt
      rw [hi']
      simp [hsize, hsize']

end Registry

end Scenario
