import Scenario.Proofs.Bare
import Scenario.Proofs.CycleGuard
import Scenario.Proofs.Holdings
import Scenario.Proofs.Session

/-!
States that differ only in what no game can see: the places of expressions in a compiler, the
numbers of pending triggers, the seed of the configuration, and older notifications. They read alike
and change alike.
-/

namespace Scenario

/-! ### What is held -/

def Stack.bare (stack : Stack) : Stack := { stack with provider := stack.provider.bare }

namespace Inventory

variable (inventory : Inventory)

def bare : Inventory := { inventory with entries := inventory.entries.map Stack.bare }

theorem count_bare (id : String) : inventory.bare.count id = inventory.count id := by
  unfold count bare
  rw [List.find?_map, Option.map_map]
  rfl

theorem ids_bare : inventory.bare.ids = inventory.ids := by
  simp only [ids, bare, List.map_map]
  rfl

theorem set_bare (provider : Provider Expression) (n : Nat) :
    inventory.bare.set provider.bare n = (inventory.set provider n).bare := by
  have hcap : inventory.bare.cap provider.bare.maxStack = inventory.cap provider.maxStack := rfl
  have hentries : (inventory.bare.set provider.bare n).entries =
      (inventory.set provider n).entries.map Stack.bare := by
    by_cases hmem : provider.id ∈ inventory.ids
    · have hmem' : provider.bare.id ∈ inventory.bare.ids := by
        rw [ids_bare]
        exact hmem
      rw [set_of_mem hmem, set_of_mem hmem', hcap]
      exact updateFirst_map Stack.bare (fun _ => rfl) (fun _ => by split <;> rfl) inventory.entries
    · have hmem' : provider.bare.id ∉ inventory.bare.ids := by
        rw [ids_bare]
        exact hmem
      rw [set_of_not_mem hmem, set_of_not_mem hmem', hcap]
      split
      · rfl
      · rw [List.map_append]
        rfl
  exact congrArg (Inventory.mk · inventory.maxStack) hentries

theorem add_bare (provider : Provider Expression) (amount : Int) :
    inventory.bare.add provider.bare amount = (inventory.add provider amount).bare := by
  have hcap : inventory.bare.cap provider.maxStack = inventory.cap provider.maxStack := rfl
  unfold add
  simp only [Provider.bare_id, Provider.bare_maxStack, count_bare, hcap, set_bare]

theorem sources_bare :
    inventory.bare.sources = inventory.sources.map fun (p, n) => (p.bare, n) := by
  simp only [sources, bare, List.map_map]
  rfl

end Inventory

def ActiveStatus.bare (status : ActiveStatus Float) : ActiveStatus Float :=
  { status with provider := status.provider.bare }

namespace Statuses

variable (statuses : Statuses Float)

def bare : Statuses Float := ⟨statuses.entries.map ActiveStatus.bare⟩

theorem remaining?_bare (id : String) : statuses.bare.remaining? id = statuses.remaining? id := by
  unfold remaining? bare
  rw [List.find?_map, Option.map_map]
  rfl

theorem contains_bare (id : String) : statuses.bare.contains id = statuses.contains id := by
  rw [← isSome_remaining?, ← isSome_remaining?, remaining?_bare]

theorem set_bare (provider : Provider Expression) (duration : Float) :
    statuses.bare.set provider.bare duration = (statuses.set provider duration).bare := by
  unfold set
  simp only [Provider.bare_id, contains_bare]
  split
  · split
    · exact congrArg Statuses.mk
        (updateFirst_map ActiveStatus.bare (fun _ => rfl) (fun _ => rfl) statuses.entries)
    · unfold bare
      rw [List.map_append]
      rfl
  · exact congrArg Statuses.mk
      (updateFirst_map ActiveStatus.bare (fun _ => rfl) (fun _ => rfl) statuses.entries)

theorem tick_bare :
    statuses.bare.tick = (statuses.tick.1, statuses.tick.2.bare) := by
  simp only [tick, bare, List.map_map, List.filter_map]
  rfl

theorem sources_bare :
    statuses.bare.sources = statuses.sources.map fun (p, n) => (p.bare, n) := by
  simp only [sources, bare, List.map_map]
  rfl

end Statuses

/-! ### Events and triggers -/

namespace Registry

variable (r : Registry)

def bare : Registry := { r with events := r.events.map Event.bare }

theorem update_bare (id : String) (f : EventFlags → EventFlags) :
    r.bare.update id f = (r.update id f).bare := by
  have hindex : r.bare.index = r.index := rfl
  unfold update
  rw [hindex]
  split <;> rfl

theorem flags?_bare (id : String) : r.bare.flags? id = r.flags? id := rfl

theorem reset_bare : r.bare.reset = r.reset.bare := by
  simp only [reset, bare, Array.map_map]
  rfl

theorem foldl_update_bare (saved : List (String × EventFlags)) (r : Registry) :
    saved.foldl (fun r (id, flags) => r.update id fun _ => flags) r.bare =
      (saved.foldl (fun r (id, flags) => r.update id fun _ => flags) r).bare := by
  induction saved generalizing r with
  | nil => rfl
  | cons entry saved ih => simp only [List.foldl_cons, update_bare, ih]

theorem restore_bare (saved : List (String × EventFlags)) :
    r.bare.restore saved = (r.restore saved).map bare := by
  have hindex : r.bare.index = r.index := rfl
  unfold Registry.restore
  rw [hindex, reset_bare, foldl_update_bare]
  split <;> rfl

theorem Indexed.bare {r : Registry} (h : r.Indexed) : r.bare.Indexed where
  size := by simp [Registry.bare, h.size]
  index id i := by
    rw [show r.bare.index = r.index from rfl, h.index id i]
    simp only [Registry.bare, Array.getElem?_map]
    constructor
    · rintro ⟨e, he, rfl⟩
      exact ⟨e.bare, by rw [he]; rfl, rfl⟩
    · rintro ⟨e, he, rfl⟩
      obtain ⟨e', he', rfl⟩ := Option.map_eq_some_iff.1 he
      exact ⟨e', he', rfl⟩
  byTrigger t := by
    have hpositions : r.bare.positions t = r.positions t := by
      simp only [positions, Registry.bare, Array.size_map, Array.getElem?_map, Option.any_map]
      rfl
    rw [hpositions]
    exact h.byTrigger t

theorem listeners_bare (trigger : String) :
    r.bare.listeners trigger = (r.listeners trigger).map Event.bare := by
  simp only [listeners, bare, Array.getElem?_map, List.map_filterMap]

theorem snapshot_bare : r.bare.snapshot = r.snapshot := by
  simp only [snapshot, bare, Array.toList_map, List.map_map]
  rfl

end Registry

def PendingTrigger.unnumbered (p : PendingTrigger) : PendingTrigger := { p with number := 0 }

namespace TriggerQueue

def unnumbered (q : TriggerQueue) : TriggerQueue := ⟨q.pending.map PendingTrigger.unnumbered, 0⟩

theorem insert_unnumbered (p : PendingTrigger) (ps : List PendingTrigger) :
    (insert p ps).map PendingTrigger.unnumbered =
      insert p.unnumbered (ps.map PendingTrigger.unnumbered) := by
  induction ps with
  | nil => rfl
  | cons q qs ih =>
    have hpriority : (q.unnumbered.priority < p.unnumbered.priority) = (q.priority < p.priority) :=
      rfl
    simp only [insert, List.map_cons, hpriority]
    split
    · rfl
    · rw [List.map_cons, ih]

theorem push_unnumbered (q : TriggerQueue) (trigger : String) (priority : Int)
    (probability : Float) :
    (q.push trigger priority probability).unnumbered =
      ⟨insert ⟨trigger, priority, 0, probability⟩ q.unnumbered.pending, 0⟩ :=
  congrArg (TriggerQueue.mk · 0) (insert_unnumbered _ _)

theorem pop?_cases {q r : TriggerQueue} (h : q.unnumbered = r.unnumbered) :
    (q.pop? = none ∧ r.pop? = none) ∨ ∃ p ps p' ps', q.pop? = some (p, ps) ∧
      r.pop? = some (p', ps') ∧ p.unnumbered = p'.unnumbered := by
  have hpending := congrArg TriggerQueue.pending h
  unfold unnumbered at hpending
  unfold pop?
  cases hq : q.pending with
  | nil =>
    cases hr : r.pending with
    | nil => exact .inl ⟨rfl, rfl⟩
    | cons p' ps' => simp [hq, hr] at hpending
  | cons p ps =>
    cases hr : r.pending with
    | nil => simp [hq, hr] at hpending
    | cons p' ps' =>
      simp only [hq, hr, List.map_cons, List.cons.injEq] at hpending
      exact .inr ⟨p, _, p', _, rfl, rfl, hpending.1⟩

end TriggerQueue

/-! ### States -/

theorem lockstep_eq :
    Lockstep fun α (x y : Except EvaluationError α) => x = y where
  pure _ := rfl
  bind {_ _ x _ _ _} hx hf := by
    subst hx
    cases x with
    | ok a => exact hf a
    | error e => rfl
  throw _ _ := rfl

namespace State

variable (s : State)

/-- The state as a game sees it. -/
def bare : State :=
  { s with
    config := { s.config with seed := "" }
    items := s.items.map fun _ p => p.bare
    statusKinds := s.statusKinds.map fun _ p => p.bare
    inventory := s.inventory.bare
    statuses := s.statuses.bare
    registry := s.registry.bare
    queue := s.queue.unnumbered }

def withOlder (older : List Notification) : State :=
  { s with notifications := s.notifications ++ older }

section Reading

variable {s} {t : State}

theorem scope_congr
    (hwith : ∀ combined : String → Except EvaluationError (Combined Float),
      t.scopeWith combined = s.scopeWith combined)
    (hcollect : ∀ (scope : Expr.Scope (Except EvaluationError)) (target : String),
      Combined.collect (·.eval scope) target .neutral t.sources =
        Combined.collect (·.eval scope) target .neutral s.sources) :
    t.scope = s.scope := by
  -- The targets that are left to be opened become fewer from target to target.
  have hwithin : ∀ n opened, s.unopened opened = n →
      ∀ target, t.combinedWithin opened target = s.combinedWithin opened target := by
    intro n
    induction n using Nat.strongRecOn with
    | ind n ih =>
      intro opened hn target
      by_cases hopen : target ∈ opened
      · rw [combinedWithin_of_mem hopen, combinedWithin_of_mem hopen]
      · rw [combinedWithin_of_not_mem hopen, combinedWithin_of_not_mem hopen, hwith, hcollect]
        apply lockstep_eq.combine s _ _ target
        intro htarget other
        have hlt := unopened_cons_lt hopen htarget
        exact ih _ (hn ▸ hlt) _ rfl other
  have hcombined : t.combined = s.combined := funext fun target => hwithin _ [] rfl target
  unfold scope
  rw [hcombined, hwith]

end Reading

theorem scope_withOlder (older : List Notification) : (s.withOlder older).scope = s.scope :=
  scope_congr (fun _ => rfl) fun _ _ => rfl

theorem sources_bare : s.bare.sources = s.sources.map fun (p, n) => (p.bare, n) := by
  have hstacks : s.bare.inventory = s.inventory.bare := rfl
  have hstatuses : s.bare.statuses = s.statuses.bare := rfl
  simp only [sources, hstacks, hstatuses, Inventory.sources_bare, Statuses.sources_bare,
    List.map_append]

theorem scope_bare : s.bare.scope = s.scope := by
  refine scope_congr (fun combined => ?_) fun scope target => ?_
  · have hitems (id : String) : s.bare.items.contains id = s.items.contains id :=
      Std.ExtTreeMap.contains_map
    have hkinds (id : String) : s.bare.statusKinds.contains id = s.statusKinds.contains id :=
      Std.ExtTreeMap.contains_map
    have hcount (id : String) : s.bare.inventory.count id = s.inventory.count id :=
      s.inventory.count_bare id
    have hremaining (id : String) : s.bare.statuses.remaining? id = s.statuses.remaining? id :=
      s.statuses.remaining?_bare id
    have hactive (id : String) : s.bare.statuses.contains id = s.statuses.contains id :=
      s.statuses.contains_bare id
    simp only [scopeWith, hitems, hkinds, hcount, hremaining, hactive]
    rfl
  · rw [sources_bare, Combined.collect_bare]

theorem save_bare : Save.ofState s.bare = Save.ofState s := by
  have hevents : s.bare.registry.snapshot = s.registry.snapshot := s.registry.snapshot_bare
  simp only [Save.ofState, hevents]
  simp only [bare, Inventory.bare, Statuses.bare, List.map_map]
  rfl

/-! ### Changes -/

theorem mutate_withOlder (older : List Notification) (m : Mutation) :
    (s.withOlder older).mutate m = (s.mutate m).map (·.withOlder older) := by
  cases m with
  | setVariable id x =>
    have hvars : (s.withOlder older).vars = s.vars := rfl
    simp only [mutate, setVariable_eq, hvars]
    cases s.vars[id]? with
    | none => rfl
    | some v => simp [withOlder, Except.map]
  | setBounds id min max =>
    have hvars : (s.withOlder older).vars = s.vars := rfl
    simp only [mutate, setVariableBounds_eq, hvars]
    cases s.vars[id]? with
    | none => rfl
    | some v =>
      dsimp only
      split
      · simp [withOlder, Except.map]
      · rfl
  | giveItem id amount =>
    have hitems : (s.withOlder older).items = s.items := rfl
    simp only [mutate, giveItem_eq, hitems]
    cases s.items[id]? with
    | none => rfl
    | some provider => simp [withOlder, Except.map]
  | setStatus id duration =>
    have hkinds : (s.withOlder older).statusKinds = s.statusKinds := rfl
    simp only [mutate, setStatus_eq, hkinds]
    cases s.statusKinds[id]? with
    | none => rfl
    | some provider => simp [withOlder, Except.map]
  | request trigger priority probability => rfl
  | toggle id enabled =>
    have hregistry : (s.withOlder older).registry = s.registry := rfl
    simp only [mutate, setEventEnabled_eq, hregistry]
    cases s.registry.flags? id with
    | none => rfl
    | some flags => simp [withOlder, Except.map]
  | endGame outcome => rfl
  | draw => rfl
  | fire id trigger =>
    have hregistry : (s.withOlder older).registry = s.registry := rfl
    simp only [mutate, fireEvent_eq, hregistry]
    cases s.registry.flags? id with
    | none => rfl
    | some flags => rfl
  | tick => simp [mutate, tick_eq, withOlder, Except.map]
  | pop => rfl

theorem mutate_bare (m : Mutation) (hm : ∀ trigger priority probability,
    m ≠ .request trigger priority probability) : s.bare.mutate m = (s.mutate m).map bare := by
  cases m with
  | setVariable id x =>
    have hvars : s.bare.vars = s.vars := rfl
    simp only [mutate, setVariable_eq, hvars]
    cases s.vars[id]? with
    | none => rfl
    | some v => rfl
  | setBounds id min max =>
    have hvars : s.bare.vars = s.vars := rfl
    simp only [mutate, setVariableBounds_eq, hvars]
    cases s.vars[id]? with
    | none => rfl
    | some v =>
      dsimp only
      split <;> rfl
  | giveItem id amount =>
    have hitem : s.bare.items[id]? = (s.items[id]?).map Provider.bare :=
      Std.ExtTreeMap.getElem?_map
    have hinventory : s.bare.inventory = s.inventory.bare := rfl
    simp only [mutate, giveItem_eq, hitem, hinventory]
    cases s.items[id]? with
    | none => rfl
    | some provider =>
      simp only [Option.map_some, Inventory.add_bare, Inventory.count_bare]
      rfl
  | setStatus id duration =>
    have hkind : s.bare.statusKinds[id]? = (s.statusKinds[id]?).map Provider.bare :=
      Std.ExtTreeMap.getElem?_map
    have hstatuses : s.bare.statuses = s.statuses.bare := rfl
    simp only [mutate, setStatus_eq, hkind, hstatuses]
    cases s.statusKinds[id]? with
    | none => rfl
    | some provider =>
      simp only [Option.map_some, Statuses.set_bare, Statuses.contains_bare,
        Statuses.remaining?_bare]
      rfl
  | request trigger priority probability => exact absurd rfl (hm trigger priority probability)
  | toggle id enabled =>
    have hregistry : s.bare.registry = s.registry.bare := rfl
    simp only [mutate, setEventEnabled_eq, hregistry, Registry.flags?_bare, Registry.update_bare]
    cases s.registry.flags? id with
    | none => rfl
    | some flags => rfl
  | endGame outcome => rfl
  | draw => rfl
  | fire id trigger =>
    have hregistry : s.bare.registry = s.registry.bare := rfl
    simp only [mutate, fireEvent_eq, hregistry, Registry.flags?_bare, Registry.update_bare]
    cases s.registry.flags? id with
    | none => rfl
    | some flags => rfl
  | tick =>
    have hstatuses : s.bare.statuses = s.statuses.bare := rfl
    simp only [mutate, tick_eq, hstatuses, Statuses.tick_bare]
    rfl
  | pop =>
    have hpending : s.bare.queue.pending = s.queue.pending.map PendingTrigger.unnumbered := rfl
    simp only [mutate, hpending, ← List.map_tail]
    rfl

theorem bare_enqueue (trigger : String) (priority : Int) (probability : Float) :
    (s.enqueue trigger priority probability).bare =
      { s.bare with
        queue :=
          ⟨TriggerQueue.insert ⟨trigger, priority, 0, probability⟩ s.bare.queue.pending, 0⟩ } :=
  congrArg (fun queue => { s.bare with queue }) (TriggerQueue.push_unnumbered ..)

theorem mutate_congr {t : State} (h : s.bare = t.bare) (m : Mutation) :
    (s.mutate m).map bare = (t.mutate m).map bare := by
  by_cases hm : ∃ trigger priority probability, m = .request trigger priority probability
  · obtain ⟨trigger, priority, probability, rfl⟩ := hm
    have hpriority : s.config.defaultTriggerPriority = t.config.defaultTriggerPriority :=
      congrArg (·.config.defaultTriggerPriority) h
    simp only [mutate, Except.map, bare_enqueue, h, hpriority]
  · have hm' : ∀ trigger priority probability, m ≠ .request trigger priority probability :=
      fun trigger priority probability heq => hm ⟨trigger, priority, probability, heq⟩
    rw [← mutate_bare s m hm', ← mutate_bare t m hm', h]

end State

/-! ### Games -/

/-- Screens that answer alike to all that is shown after two games have come to `a` and `b`. -/
structure Screen.Alike (here there : Screen) (a b : World) : Prop where
  acknowledges : ∀ later,
    here.acknowledges (a.shown ++ later) = there.acknowledges (b.shown ++ later)
  chooses : ∀ later, here.chooses (a.shown ++ later) = there.chooses (b.shown ++ later)

/-- Two games that have gone on alike, with the same changes told and the same things shown, since
they came to `a` and `b`. -/
structure World.Together (a b v w : World) : Prop where
  state : ∃ s t : State, s.bare = t.bare ∧ v.state = s.withOlder a.state.notifications ∧
    w.state = t.withOlder b.state.notifications
  shown : ∃ later, v.shown = a.shown ++ later ∧ w.shown = b.shown ++ later

namespace World.Together

variable {a b v w : World}

theorem scope (h : Together a b v w) : v.state.scope = w.state.scope := by
  obtain ⟨s, t, hst, hv, hw⟩ := h.state
  rw [hv, hw, State.scope_withOlder, State.scope_withOlder, ← s.scope_bare, ← t.scope_bare, hst]

theorem reads {α : Type} (h : Together a b v w) (f g : State → α) (hbare : ∀ s, f s = g s.bare)
    (holder : ∀ (s : State) (older : List Notification), f (s.withOlder older) = f s) :
    f v.state = f w.state := by
  obtain ⟨s, t, hst, hv, hw⟩ := h.state
  rw [hv, hw, holder, holder, hbare s, hbare t, hst]

theorem mutate (h : Together a b v w) (m : Mutation) :
    (∃ s t, v.state.mutate m = .ok s ∧ w.state.mutate m = .ok t ∧
      Together a b { v with state := s } { w with state := t }) ∨
    ∃ e, v.state.mutate m = .error e ∧ w.state.mutate m = .error e := by
  obtain ⟨s, t, hst, hv, hw⟩ := h.state
  have hsame := State.mutate_congr s hst m
  rw [hv, hw, State.mutate_withOlder, State.mutate_withOlder]
  cases hs : s.mutate m with
  | error e =>
    cases ht : t.mutate m with
    | error e' =>
      rw [hs, ht] at hsame
      cases hsame
      exact .inr ⟨e, rfl, rfl⟩
    | ok t' =>
      rw [hs, ht] at hsame
      cases hsame
  | ok s' =>
    cases ht : t.mutate m with
    | error e =>
      rw [hs, ht] at hsame
      cases hsame
    | ok t' =>
      rw [hs, ht] at hsame
      exact .inl ⟨_, _, rfl, rfl, ⟨s', t', Except.ok.inj hsame, rfl, rfl⟩, h.shown⟩

theorem mutate_ok (h : Together a b v w) {m : Mutation} {s : State}
    (hs : v.state.mutate m = .ok s) :
    ∃ t, w.state.mutate m = .ok t ∧ Together a b { v with state := s } { w with state := t } := by
  rcases h.mutate m with ⟨s', t, hs', ht, htogether⟩ | ⟨e, he, -⟩
  · cases hs.symm.trans hs'
    exact ⟨t, ht, htogether⟩
  · cases hs.symm.trans he

theorem reset (h : Together a b v w) :
    Together a b
      { v with state :=
          { v.state with queue := {}, registry := v.state.registry.reset, ending := none } }
      { w with state :=
          { w.state with queue := {}, registry := w.state.registry.reset, ending := none } } := by
  obtain ⟨s, t, hst, hv, hw⟩ := h.state
  have hreset (s : State) :
      { s with queue := {}, registry := s.registry.reset, ending := none }.bare =
        { s.bare with queue := {}, registry := s.bare.registry.reset, ending := none } := by
    change _ = { s.bare with queue := {}, registry := s.registry.bare.reset, ending := none }
    rw [Registry.reset_bare]
    rfl
  refine ⟨⟨{ s with queue := {}, registry := s.registry.reset, ending := none },
    { t with queue := {}, registry := t.registry.reset, ending := none }, ?_, ?_, ?_⟩, h.shown⟩
  · rw [hreset, hreset, hst]
  · rw [hv]
    rfl
  · rw [hw]
    rfl

end World.Together

theorem simulation_together {here there : Screen} {a b : World} (h : here.Alike there a b) :
    Simulation here there (fun _ => True) (World.Together a b) where
  scope h := h.scope
  enabled h := h.reads (·.registry.isEnabled) (·.registry.isEnabled) (fun _ => rfl) fun _ _ => rfl
  random h := h.reads State.random State.random (fun _ => rfl) fun _ _ => rfl
  ending h := h.reads State.ending State.ending (fun _ => rfl) fun _ _ => rfl
  mutate h _ := h.mutate _
  shows := by
    rintro v w i ⟨hstate, later, hv, hw⟩
    refine ⟨hstate, later ++ [i], ?_, ?_⟩
    · rw [hv, List.append_assoc]
    · rw [hw, List.append_assoc]
  acknowledges := by
    rintro v w ⟨-, later, hv, hw⟩
    rw [hv, hw, h.acknowledges]
  chooses := by
    rintro v w ⟨-, later, hv, hw⟩
    rw [hv, hw, h.chooses]

theorem pass_together {here there : Screen} {a b : World} (h : here.Alike there a b)
    (patience : Nat) {p q : PendingTrigger} (hpq : p.unnumbered = q.unnumbered) :
    Agree (World.Together a b) (Play.pass here patience p) (Play.pass there patience q) := by
  have sim := simulation_together h
  have htrigger : p.unnumbered.trigger = q.unnumbered.trigger := by rw [hpq]
  have hprobability : p.unnumbered.probability = q.unnumbered.probability := by rw [hpq]
  change p.trigger = q.trigger at htrigger
  change p.probability = q.probability at hprobability
  unfold Play.pass
  rw [← htrigger, ← hprobability]
  apply (sim.chance (gate_source p.probability) trivial).bind
  intro passed
  split
  -- The listeners are the same only up to the places of their expressions.
  · intro v w hvw
    have hlisteners : (v.state.registry.listeners p.trigger).map Event.bare =
        (w.state.registry.listeners p.trigger).map Event.bare :=
      hvw.reads (fun s => (s.registry.listeners p.trigger).map Event.bare)
        (·.registry.listeners p.trigger) (fun s => (s.registry.listeners_bare p.trigger).symm)
        fun _ _ => rfl
    have hlisten := sim.listen (fun _ _ => trivial) patience p.trigger []
      ((v.state.registry.listeners p.trigger).map Event.bare)
    rw [Play.listen_bare, hlisteners, Play.listen_bare] at hlisten
    exact (hlisten.bind fun _ => Agree.pure _) v w hvw
  · exact Agree.pure _

end Scenario
