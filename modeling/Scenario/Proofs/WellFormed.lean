import Scenario.Proofs.Holdings
import Scenario.Proofs.Session

/-!
What holds of the state of every engine that a host can get to: bounds are in order, definitions
stand under their own ids, what is held is defined and within its limits, the indexes of events are
right, and the random source stands where it can.
-/

namespace Scenario

theorem RandomSource.Placed.ofSeed (seed : String) : (RandomSource.ofSeed seed).Placed :=
  Nat.pow_pos (n := 17) (by decide : 0 < 16)

theorem RandomSource.Placed.next {source : RandomSource} (h : source.Placed) :
    source.next.2.Placed := by
  cases source with
  | seeded seed position => exact Nat.mod_lt _ (by decide)
  | scripted values cursor =>
    unfold RandomSource.next
    dsimp only
    split
    · exact Nat.mod_lt _ (by decide)
    · exact h

theorem RandomSource.Placed.restore {source : RandomSource} (p : RandomPosition) :
    (source.restore p).Placed := by
  cases source with
  | seeded seed position => exact Nat.mod_lt _ (by decide)
  | scripted values cursor => exact Nat.mod_lt _ (by decide)

namespace State

structure WellFormed (s : State) : Prop where
  bounds : ∀ (id : String) (v : Variable), s.vars[id]? = some v → validBounds v.min v.max
  items : ∀ (id : String) (p : Provider Expression), s.items[id]? = some p → p.id = id
  statusKinds : ∀ (id : String) (p : Provider Expression), s.statusKinds[id]? = some p → p.id = id
  maxStack : s.inventory.maxStack = s.config.maxItemStack
  stocked : s.inventory.Stocked s.items
  running : s.statuses.Running s.statusKinds
  indexed : s.registry.Indexed
  placed : s.random.Placed

namespace WellFormed

variable {s s' : State}

theorem initial (config : Config) {random : RandomSource} (h : random.Placed) :
    (State.initial config random).WellFormed where
  bounds id v hv := by
    simp [State.initial] at hv
  items id p hp := by
    simp [State.initial] at hp
  statusKinds id p hp := by
    simp [State.initial] at hp
  maxStack := rfl
  stocked := (Inventory.Stocked.clear : (State.initial config random).inventory.clear.Stocked _)
  running := .empty
  indexed := Registry.indexed_empty
  placed := h

theorem item_known (h : s.WellFormed) {id : String} {p : Provider Expression}
    (hp : s.items[id]? = some p) : s.items[p.id]? = some p := by
  rw [h.items id p hp]
  exact hp

theorem status_known (h : s.WellFormed) {id : String} {p : Provider Expression}
    (hp : s.statusKinds[id]? = some p) : s.statusKinds[p.id]? = some p := by
  rw [h.statusKinds id p hp]
  exact hp

/-! ### Mutations -/

theorem insert_var (h : s.WellFormed) {id : String} {v : Variable}
    (hv : validBounds v.min v.max) (notifications : List Notification) :
    { s with vars := s.vars.insert id v, notifications }.WellFormed :=
  { h with
    bounds := by
      intro id' w hw
      rw [getElem?_insert_id] at hw
      split at hw
      · cases hw
        exact hv
      · exact h.bounds id' w hw }

theorem update (h : s.WellFormed) (id : String) (f : EventFlags → EventFlags)
    (notifications : List Notification) :
    { s with registry := s.registry.update id f, notifications }.WellFormed :=
  { h with indexed := h.indexed.update id f }

theorem mutate (h : s.WellFormed) {m : Mutation} (hm : s.mutate m = .ok s') : s'.WellFormed := by
  cases m with
  | setVariable id x =>
    obtain ⟨v, hv, rfl⟩ := setVariable_eq_ok.1 hm
    have hvalid : validBounds (v.set x).min (v.set x).max := h.bounds id v hv
    exact h.insert_var hvalid _
  | setBounds id min max =>
    obtain ⟨v, w, -, hvalid, rfl, rfl⟩ := setVariableBounds_eq_ok.1 hm
    exact h.insert_var (v := v.setBounds _ _) hvalid _
  | giveItem id amount =>
    obtain ⟨provider, inventory, hp, rfl, rfl⟩ := giveItem_eq_ok.1 hm
    exact { h with stocked := h.stocked.set (h.item_known hp) _ }
  | setStatus id duration =>
    obtain ⟨provider, statuses, hp, rfl, rfl⟩ := setStatus_eq_ok.1 hm
    exact { h with running := h.running.set (h.status_known hp) _ }
  | request trigger priority probability =>
    cases hm
    exact { h with }
  | toggle id enabled =>
    obtain ⟨flags, -, rfl⟩ := setEventEnabled_eq_ok.1 hm
    exact h.update id _ _
  | endGame outcome =>
    cases hm
    exact { h with }
  | draw =>
    cases hm
    exact { h with placed := h.placed.next }
  | fire id trigger =>
    obtain ⟨-, rfl⟩ := fireEvent_eq_ok.1 hm
    exact h.update id _ _
  | tick =>
    simp only [State.mutate, tick_eq] at hm
    cases hm
    exact { h with running := h.running.tick }
  | pop =>
    cases hm
    exact { h with }

theorem becomes {sort : Mutation → Prop} (h : s.WellFormed) (hs : s.Becomes sort s') :
    s'.WellFormed :=
  hs.keeps (fun _ _ _ _ hs hm => hs.mutate hm) h

/-! ### Definitions -/

theorem insert_item (h : s.WellFormed) {p : Provider Expression}
    (hnew : s.items.contains p.id = false) :
    { s with items := s.items.insert p.id p }.WellFormed :=
  { h with
    items := by
      intro id q hq
      rw [getElem?_insert_id] at hq
      split at hq
      · rename_i hid
        cases hq
        exact hid
      · exact h.items id q hq
    stocked := h.stocked.mono fun _ _ => getElem?_insert_of_new hnew p }

theorem insert_statusKind (h : s.WellFormed) {p : Provider Expression}
    (hnew : s.statusKinds.contains p.id = false) :
    { s with statusKinds := s.statusKinds.insert p.id p }.WellFormed :=
  { h with
    statusKinds := by
      intro id q hq
      rw [getElem?_insert_id] at hq
      split at hq
      · rename_i hid
        cases hq
        exact hid
      · exact h.statusKinds id q hq
    running := h.running.mono fun _ _ => getElem?_insert_of_new hnew p }

/-! ### Resets and saves -/

theorem reset (h : s.WellFormed) :
    { s with queue := {}, registry := s.registry.reset, ending := none }.WellFormed :=
  { h with indexed := h.indexed.reset }

theorem inventoryIn (h : s.WellFormed) (save : Save) :
    (save.inventoryIn s).Stocked s.items ∧
      (save.inventoryIn s).maxStack = s.inventory.maxStack := by
  unfold Save.inventoryIn
  refine List.foldlRecOn (motive := fun inventory : Inventory =>
    inventory.Stocked s.items ∧ inventory.maxStack = s.inventory.maxStack)
    save.inventory _ ⟨.clear, rfl⟩ fun inventory hkept entry _ => ?_
  dsimp only
  split
  · rename_i provider hp
    exact ⟨hkept.1.set (h.item_known hp) entry.2, hkept.2⟩
  · exact hkept

theorem statusesIn (h : s.WellFormed) (save : Save) :
    (save.statusesIn s).Running s.statusKinds := by
  unfold Save.statusesIn
  refine List.foldlRecOn (motive := fun statuses : Statuses Float =>
    statuses.Running s.statusKinds) save.statuses _ .empty fun statuses hkept entry _ => ?_
  dsimp only
  split
  · rename_i provider hp
    exact hkept.set (h.status_known hp) entry.2
  · exact hkept

end WellFormed

end State

namespace Save

variable {save : Save} {s s' : State}

/-- The save names only what the state knows, and its bounds are in order. -/
structure Fits (save : Save) (s : State) : Prop where
  vars : ∀ id, save.vars.contains id → s.vars.contains id
  bounds : ∀ (id : String) (saved : SavedVariable), save.vars[id]? = some saved →
    validBounds saved.toVariable.min saved.toVariable.max
  items : ∀ entry ∈ save.inventory, s.items.contains entry.1
  statuses : ∀ entry ∈ save.statuses, s.statusKinds.contains entry.1
  events : ∀ entry ∈ save.events, s.registry.index.contains entry.1

theorem find?_unknown_eq_none {known : String → Bool} {ids : List String} {kind : Kind} :
    (ids.find? fun id => !known id).map (Incompatibility.unknown kind) = none ↔
      ∀ id ∈ ids, known id := by
  rw [Option.map_eq_none_iff, List.find?_eq_none]
  simp

theorem boundsFault?_eq_none {entry : String × SavedVariable} :
    boundsFault? entry = none ↔
      validBounds entry.2.toVariable.min entry.2.toVariable.max := by
  obtain ⟨id, saved⟩ := entry
  cases saved with
  | value x =>
    have hvalid : validBounds (-infinity) infinity := by decide
    exact ⟨fun _ => hvalid, fun _ => rfl⟩
  | bounded x min max =>
    unfold boundsFault?
    dsimp only [SavedVariable.toVariable]
    split <;> simp_all

theorem fault?_eq_none : save.fault? s = none ↔ save.Fits s := by
  have hkeys : (∀ id ∈ save.vars.keys, s.vars.contains id) ↔
      ∀ id, save.vars.contains id → s.vars.contains id := by
    simp
  have hbounds : (∀ entry ∈ save.vars.toList, boundsFault? entry = none) ↔
      ∀ (id : String) (saved : SavedVariable), save.vars[id]? = some saved →
        validBounds saved.toVariable.min saved.toVariable.max := by
    simp only [boundsFault?_eq_none]
    constructor
    · intro h id saved hsaved
      exact h (id, saved) (Std.ExtTreeMap.mem_toList_iff_getElem?_eq_some.2 hsaved)
    · intro h entry hentry
      exact h entry.1 entry.2 (Std.ExtTreeMap.mem_toList_iff_getElem?_eq_some.1 hentry)
  unfold fault?
  simp only [Option.orElse_eq_orElse, Option.orElse_eq_or, Option.or_eq_none_iff,
    find?_unknown_eq_none, List.findSome?_eq_none_iff, hkeys, hbounds, List.forall_mem_map]
  constructor
  · rintro ⟨hvars, hbounds, hitems, hstatuses, hevents⟩
    exact ⟨hvars, hbounds, hitems, hstatuses, hevents⟩
  · rintro ⟨hvars, hbounds, hitems, hstatuses, hevents⟩
    exact ⟨hvars, hbounds, hitems, hstatuses, hevents⟩

theorem restore_eq_ok : save.restore s = .ok s' ↔
    save.Fits s ∧ ∃ registry, s.registry.restore save.events = .ok registry ∧
      s' = { s with
        vars := save.vars.foldl (fun vs id v => vs.insert id v.toVariable) s.vars
        inventory := save.inventoryIn s
        statuses := save.statusesIn s
        registry
        random := s.random.restore save.random
        ending := save.ending
        queue := {} } := by
  rw [← fault?_eq_none]
  unfold restore
  cases save.fault? s with
  | some fault => simp
  | none =>
    cases s.registry.restore save.events with
    | error cause => simp [bind, Except.bind]
    | ok registry => simp [bind, Except.bind, pure, Except.pure, eq_comm]

end Save

namespace State.WellFormed

variable {s s' : State}

theorem restore (h : s.WellFormed) {save : Save} (hs : save.restore s = .ok s') :
    s'.WellFormed := by
  obtain ⟨hfits, registry, hr, rfl⟩ := Save.restore_eq_ok.1 hs
  refine
    { h with
      bounds := fun id v hv => ?_
      maxStack := (h.inventoryIn save).2.trans h.maxStack
      stocked := (h.inventoryIn save).1
      running := h.statusesIn save
      indexed := h.indexed.restore hr
      placed := .restore save.random }
  dsimp only at hv
  rw [foldl_insert SavedVariable.toVariable] at hv
  cases hsaved : save.vars[id]? with
  | none =>
    rw [hsaved] at hv
    exact h.bounds id v hv
  | some saved =>
    rw [hsaved] at hv
    cases hv
    exact hfits.bounds id saved hsaved

end State.WellFormed

/-! ### Reachable engines -/

namespace Engine

variable {e e' : Engine}

theorem defineVariable_wellFormed (h : e.state.WellFormed) {id : String} {v : Variable}
    (he : e.defineVariable id v = .ok e') : e'.state.WellFormed := by
  obtain ⟨-, hvalid, rfl⟩ := defineVariable_eq_ok he
  exact h.insert_var hvalid e.state.notifications

theorem registerAttribute_wellFormed (h : e.state.WellFormed) {a : Attribute}
    (he : e.registerAttribute a = .ok e') : e'.state.WellFormed := by
  obtain ⟨-, -, rfl⟩ := registerAttribute_eq_ok he
  exact { h with }

theorem registerItem_wellFormed (h : e.state.WellFormed) {p : Provider Expression}
    (he : e.registerItem p = .ok e') : e'.state.WellFormed := by
  obtain ⟨hnew, rfl⟩ := registerItem_eq_ok he
  exact h.insert_item hnew

theorem registerStatus_wellFormed (h : e.state.WellFormed) {p : Provider Expression}
    (he : e.registerStatus p = .ok e') : e'.state.WellFormed := by
  obtain ⟨hnew, rfl⟩ := registerStatus_eq_ok he
  exact h.insert_statusKind hnew

theorem registerEvent_wellFormed (h : e.state.WellFormed) {event : Event Expression}
    (he : e.registerEvent event = .ok e') : e'.state.WellFormed := by
  obtain ⟨registry, hr, rfl⟩ := registerEvent_eq_ok he
  exact { h with indexed := h.indexed.register hr }

theorem keptByDefining_wellFormed : KeptByDefining (·.state.WellFormed) where
  compiler _ h := h
  defineVariable h := defineVariable_wellFormed h
  registerAttribute h := registerAttribute_wellFormed h
  registerItem h := registerItem_wellFormed h
  registerStatus h := registerStatus_wellFormed h
  registerEvent h := registerEvent_wellFormed h

theorem attempt_wellFormed (h : e.state.WellFormed) {x : Except Error Engine}
    (hx : ∀ e', x = .ok e' → e'.state.WellFormed) : (e.attempt x).2.state.WellFormed :=
  attempt_keeps (Q := (·.state.WellFormed)) h hx

theorem perform_wellFormed (h : e.state.WellFormed) (screen : Screen) (call : Call) :
    (e.perform screen call).2.state.WellFormed := by
  cases call with
  | load _ | defineVariable _ _ | registerAttribute _ | registerItem _ | registerStatus _
  | registerEvent _ => exact keptByDefining_wellFormed.perform h screen trivial
  | registerFunction name arity => exact h
  | drain => exact { h with }
  | reset =>
    apply attempt_wellFormed h
    intro e' he
    rw [reset_eq_ok he]
    exact h.reset
  | restore save =>
    apply attempt_wellFormed h
    intro e' he
    obtain ⟨s, hs, rfl⟩ := restore_eq_ok he
    exact h.restore hs
  | _ => exact h.becomes (perform_becomes screen trivial)

/-! ### Registered events -/

theorem keptByDefining_event (event : Event Expression) :
    KeptByDefining fun e => event ∈ e.state.registry.events where
  compiler _ h := h
  defineVariable h hx := by
    obtain ⟨-, -, rfl⟩ := defineVariable_eq_ok hx
    exact h
  registerAttribute h hx := by
    obtain ⟨-, -, rfl⟩ := registerAttribute_eq_ok hx
    exact h
  registerItem h hx := by
    obtain ⟨-, rfl⟩ := registerItem_eq_ok hx
    exact h
  registerStatus h hx := by
    obtain ⟨-, rfl⟩ := registerStatus_eq_ok hx
    exact h
  registerEvent h hx := by
    obtain ⟨registry, hr, rfl⟩ := registerEvent_eq_ok hx
    obtain ⟨-, rfl⟩ := Registry.register_eq_ok hr
    exact Array.mem_push_of_mem _ h

/-- Events that are registered stay so. -/
theorem perform_events (screen : Screen) (call : Call) :
    ∀ event ∈ e.state.registry.events, event ∈ (e.perform screen call).2.state.registry.events := by
  intro event hevent
  have hattempt {x : Except Error Engine}
      (hx : ∀ e', x = .ok e' → event ∈ e'.state.registry.events) :
      event ∈ (e.attempt x).2.state.registry.events :=
    attempt_keeps (Q := fun e' => event ∈ e'.state.registry.events) hevent hx
  have hplays (hplays : call.Plays) : event ∈ (e.perform screen call).2.state.registry.events := by
    rw [(perform_becomes screen hplays).events]
    exact hevent
  cases call with
  | load _ | defineVariable _ _ | registerAttribute _ | registerItem _ | registerStatus _
  | registerEvent _ => exact (keptByDefining_event event).perform hevent screen trivial
  | registerFunction name arity => exact hevent
  | drain => exact hevent
  | reset =>
    apply hattempt
    intro e' hx
    rw [reset_eq_ok hx]
    exact hevent
  | restore save =>
    apply hattempt
    intro e' hx
    obtain ⟨s, hs, rfl⟩ := restore_eq_ok hx
    obtain ⟨-, registry, hr, rfl⟩ := Save.restore_eq_ok.1 hs
    change event ∈ registry.events
    rw [Registry.restore_eq_ok hr, Registry.foldl_update_events]
    exact hevent
  | _ => exact hplays trivial

theorem ReachableBy.wellFormed {sort : Call → Prop} (h : e.ReachableBy sort) :
    e.state.WellFormed := by
  induction h with
  | start config random hplaced => exact .initial config hplaced
  | perform _ screen call _ ih => exact perform_wellFormed ih screen call

end Engine

end Scenario
