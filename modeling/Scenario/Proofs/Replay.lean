import Scenario.Proofs.Alike
import Scenario.Proofs.Compiling
import Scenario.Proofs.Numbers
import Scenario.Proofs.PassReports
import Scenario.Proofs.WellFormed

/-!
Restoring a save. An engine with the same content that is put back to the save of an idle engine
without pending triggers cannot be told from it by anything that the host does later.
-/

namespace Scenario

theorem foldl_carries {σ β : Type} (R : σ → List β → Prop) {step : σ → β → σ} {init : σ}
    {l : List β} (hinit : R init [])
    (hstep : ∀ acc before b after, l = before ++ b :: after → R acc before →
      R (step acc b) (before ++ [b])) : R (l.foldl step init) l := by
  have hgo : ∀ after before acc, l = before ++ after → R acc before →
      R (after.foldl step acc) l := by
    intro after
    induction after with
    | nil =>
      intro before acc hl hacc
      rw [hl, List.append_nil]
      exact hacc
    | cons b after ih =>
      intro before acc hl hacc
      refine ih (before ++ [b]) (step acc b) ?_ (hstep acc before b after hl hacc)
      rw [hl, List.append_assoc, List.singleton_append]
  exact hgo l [] init rfl hinit

/-! ### Content -/

def RandomSource.IsStream : RandomSource → Prop
  | .seeded _ _ => True
  | .scripted _ _ => False

theorem RandomSource.restore_snapshot {source target : RandomSource} (h : source.Placed)
    (hsource : source.IsStream) (htarget : target.IsStream) :
    target.restore source.snapshot = source := by
  cases source with
  | scripted values cursor => exact hsource.elim
  | seeded seed position =>
    cases target with
    | scripted values cursor => exact htarget.elim
    | seeded seed' position' => exact congrArg (RandomSource.seeded seed) (Nat.mod_eq_of_lt h)

namespace State

/-- States with the same settings and the same definitions, whatever has become of them. -/
structure SameContent (s t : State) : Prop where
  maxItemStack : s.config.maxItemStack = t.config.maxItemStack
  defaultTriggerPriority : s.config.defaultTriggerPriority = t.config.defaultTriggerPriority
  vars : ∀ id, s.vars.contains id = t.vars.contains id
  attributes : s.attributes = t.attributes
  items : (s.items.map fun _ p => p.bare) = t.items.map fun _ p => p.bare
  statusKinds : (s.statusKinds.map fun _ p => p.bare) = t.statusKinds.map fun _ p => p.bare
  events : s.registry.events.map Event.bare = t.registry.events.map Event.bare

namespace SameContent

variable {s t : State} (h : s.SameContent t)

include h

theorem contains_item (id : String) : s.items.contains id = t.items.contains id :=
  contains_of_map_eq (f := Provider.bare) h.items id

theorem contains_statusKind (id : String) :
    s.statusKinds.contains id = t.statusKinds.contains id :=
  contains_of_map_eq (f := Provider.bare) h.statusKinds id

theorem item {id : String} {p : Provider Expression} (hp : s.items[id]? = some p) :
    ∃ q : Provider Expression, t.items[id]? = some q ∧ q.bare = p.bare :=
  exists_of_map_eq (f := Provider.bare) h.items hp

theorem statusKind {id : String} {p : Provider Expression} (hp : s.statusKinds[id]? = some p) :
    ∃ q : Provider Expression, t.statusKinds[id]? = some q ∧ q.bare = p.bare :=
  exists_of_map_eq (f := Provider.bare) h.statusKinds hp

end SameContent

end State

/-! ### What is held -/

theorem Inventory.set_new (inventory : Inventory) {stack : Stack}
    (hnew : stack.provider.id ∉ inventory.ids) (hpos : 0 < stack.count)
    (hle : stack.count ≤ inventory.cap stack.provider.maxStack) :
    inventory.set stack.provider stack.count =
      { inventory with entries := inventory.entries ++ [stack] } := by
  have hentries : (inventory.set stack.provider stack.count).entries =
      inventory.entries ++ [stack] := by
    rw [set_of_not_mem hnew, Nat.min_eq_left hle, if_neg (Nat.ne_of_gt hpos)]
  exact congrArg (Inventory.mk · inventory.maxStack) hentries

theorem Statuses.set_new (statuses : Statuses Float) {status : ActiveStatus Float}
    (hnew : status.provider.id ∉ statuses.ids) (hpos : 0 < status.remaining) :
    statuses.set status.provider status.remaining = ⟨statuses.entries ++ [status]⟩ :=
  congrArg Statuses.mk (set_of_not_mem hpos hnew)

theorem not_mem_of_nodup_append {α : Type} (key : α → String) {before after : List α} {a : α}
    (h : ((before ++ a :: after).map key).Nodup) : key a ∉ before.map key := by
  rw [List.map_append, List.map_cons, List.nodup_append] at h
  intro hmem
  exact h.2.2 _ hmem _ List.mem_cons_self rfl

namespace State.SameContent

variable {s t : State}

theorem inventoryIn_bare (h : s.SameContent t) (hs : s.WellFormed) (ht : t.WellFormed) :
    ((Save.ofState s).inventoryIn t).bare = s.inventory.bare := by
  have hmax : t.inventory.maxStack = s.inventory.maxStack := by
    rw [ht.maxStack, hs.maxStack, h.maxItemStack]
  unfold Save.inventoryIn Save.ofState
  dsimp only
  rw [List.foldl_map]
  refine foldl_carries (fun (inventory : Inventory) before =>
    inventory.bare = Inventory.bare ⟨before, s.inventory.maxStack⟩) ?_ ?_
  · exact congrArg (Inventory.mk []) hmax
  · intro inventory before stack after hentries hinventory
    have hmem : stack ∈ s.inventory.entries := by simp [hentries]
    have hnodup := hs.stocked.nodup
    unfold Inventory.ids at hnodup
    rw [hentries] at hnodup
    obtain ⟨q, hq, hbare⟩ := h.item (hs.stocked.known stack hmem)
    have hset := Inventory.set_new ⟨before, s.inventory.maxStack⟩
      (not_mem_of_nodup_append _ hnodup) (hs.stocked.count_pos stack hmem)
      (hs.stocked.count_le stack hmem)
    simp only [hq]
    rw [← Inventory.set_bare, hinventory, hbare, Inventory.set_bare, hset]

theorem statusesIn_bare (h : s.SameContent t) (hs : s.WellFormed) :
    ((Save.ofState s).statusesIn t).bare = s.statuses.bare := by
  unfold Save.statusesIn Save.ofState
  dsimp only
  rw [List.foldl_map]
  refine foldl_carries (fun (statuses : Statuses Float) before =>
    statuses.bare = Statuses.bare ⟨before⟩) rfl ?_
  intro statuses before status after hentries hstatuses
  have hmem : status ∈ s.statuses.entries := by simp [hentries]
  have hnodup := hs.running.nodup
  unfold Statuses.ids at hnodup
  rw [hentries] at hnodup
  obtain ⟨q, hq, hbare⟩ := h.statusKind (hs.running.known status hmem)
  have hset := Statuses.set_new ⟨before⟩ (not_mem_of_nodup_append _ hnodup)
    (hs.running.remaining_pos status hmem)
  simp only [hq]
  rw [← Statuses.set_bare, hstatuses, hbare, Statuses.set_bare, hset]

end State.SameContent

/-! ### Restoring -/

theorem SavedVariable.toVariable_ofVariable (v : Variable) : (ofVariable v).toVariable = v := by
  unfold ofVariable
  split
  · rename_i hunbounded
    obtain ⟨hmin, hmax⟩ := bounds_of_isUnbounded hunbounded
    change (⟨v.value, -infinity, infinity⟩ : Variable) = v
    rw [← hmin, ← hmax]
  · rfl

namespace State.SameContent

variable {s t : State}

theorem vars_restored (h : s.SameContent t) :
    (Save.ofState s).vars.foldl (fun vs id v => vs.insert id v.toVariable) t.vars = s.vars := by
  apply Std.ExtTreeMap.ext_getElem?
  intro id
  have hcontains := h.vars id
  rw [contains_eq_isSome, contains_eq_isSome] at hcontains
  rw [foldl_insert SavedVariable.toVariable]
  simp only [Save.ofState, Std.ExtTreeMap.getElem?_map]
  cases hv : s.vars[id]? with
  | some v => simp [SavedVariable.toVariable_ofVariable]
  | none =>
    rw [hv] at hcontains
    exact Option.isSome_eq_false_iff.1 hcontains.symm |> Option.isNone_iff_eq_none.1

theorem registry_restored (h : s.SameContent t) (hs : s.WellFormed) (ht : t.WellFormed) :
    ∃ registry, t.registry.restore s.registry.snapshot = .ok registry ∧
      registry.bare = s.registry.bare := by
  have hrestore := hs.indexed.bare.restore_snapshot ht.indexed.bare h.events
  rw [Registry.snapshot_bare, Registry.restore_bare] at hrestore
  cases hr : t.registry.restore s.registry.snapshot with
  | error e =>
    rw [hr] at hrestore
    cases hrestore
  | ok registry =>
    rw [hr] at hrestore
    exact ⟨registry, rfl, Except.ok.inj hrestore⟩

theorem fits (h : s.SameContent t) (hs : s.WellFormed) (ht : t.WellFormed) :
    (Save.ofState s).Fits t where
  vars id hid := by
    rw [← h.vars]
    simpa [Save.ofState] using hid
  bounds id saved hsaved := by
    simp only [Save.ofState, Std.ExtTreeMap.getElem?_map] at hsaved
    obtain ⟨v, hv, rfl⟩ := Option.map_eq_some_iff.1 hsaved
    rw [SavedVariable.toVariable_ofVariable]
    exact hs.bounds id v hv
  items entry hentry := by
    obtain ⟨stack, hstack, rfl⟩ := List.mem_map.1 hentry
    rw [← h.contains_item, contains_eq_isSome, hs.stocked.known stack hstack]
    rfl
  statuses entry hentry := by
    obtain ⟨status, hstatus, rfl⟩ := List.mem_map.1 hentry
    rw [← h.contains_statusKind, contains_eq_isSome, hs.running.known status hstatus]
    rfl
  events entry hentry := by
    have hindex : s.registry.bare.index = t.registry.bare.index :=
      hs.indexed.bare.index_eq ht.indexed.bare h.events
    change t.registry.bare.index.contains entry.1
    rw [← hindex]
    exact hs.indexed.mem_snapshot_keys.1 (List.mem_map_of_mem hentry)

theorem restore_ofState (h : s.SameContent t) (hs : s.WellFormed) (ht : t.WellFormed)
    (hqueue : s.queue.pending = []) (hsource : s.random.IsStream) (htarget : t.random.IsStream) :
    ∃ t', (Save.ofState s).restore t = .ok t' ∧
      t'.bare = { s.bare with notifications := t.notifications } := by
  obtain ⟨registry, hregistry, hbare⟩ := h.registry_restored hs ht
  refine ⟨_, Save.restore_eq_ok.2 ⟨h.fits hs ht, registry, hregistry, rfl⟩, ?_⟩
  have hconfig : { t.config with seed := "" } = { s.config with seed := "" } := by
    dsimp only
    rw [h.maxItemStack, h.defaultTriggerPriority]
  have hempty : s.queue.unnumbered = ({} : TriggerQueue).unnumbered := by
    unfold TriggerQueue.unnumbered
    rw [hqueue]
  have hrandom : t.random.restore (Save.ofState s).random = s.random :=
    RandomSource.restore_snapshot hs.placed hsource htarget
  unfold State.bare
  dsimp only
  rw [h.vars_restored, h.inventoryIn_bare hs ht, h.statusesIn_bare hs, hbare, hconfig, hempty,
    hrandom, h.attributes, h.items, h.statusKinds]
  rfl

end State.SameContent

/-! ### Going on -/

/-- The operations by which a game goes on, is reset, and is looked at. -/
def Call.Replays : Call → Prop
  | .evaluate _ | .value _ | .setVariable _ _ | .giveItem _ _ | .setStatus _ _ | .tick
  | .trigger _ _ _ | .fire _ | .next _ | .run _ _ | .reset | .save => True
  | _ => False

theorem Call.Replays.keepsFunctions {call : Call} (h : call.Replays) : call.KeepsFunctions := by
  cases call with
  | registerFunction name arity => exact h.elim
  | _ => trivial

namespace Engine

/-- Two operations with the same answer, behind which the engines are still together. -/
structure Alike (a b : World) {α : Type} (x y : α × Engine) : Prop where
  answer : x.1 = y.1
  world : World.Together a b x.2.world y.2.world
  inFlight : x.2.inFlight = y.2.inFlight

variable {here there : Screen} {a b : World} {e e' : Engine}

theorem Alike.map {α β : Type} {x y : α × Engine} (h : Alike a b x y) (f : α → β) :
    Alike a b (f x.1, x.2) (f y.1, y.2) where
  answer := congrArg f h.answer
  world := h.world
  inFlight := h.inFlight

theorem inFlightDuring_alike {α : Type} {p q : Play α} (h : Agree (World.Together a b) p q)
    (hworld : World.Together a b e.world e'.world) (hflight : e.inFlight = e'.inFlight) :
    Alike a b (e.inFlightDuring p) (e'.inFlightDuring q) := by
  obtain ⟨houtcome, htogether⟩ := h e.world e'.world hworld
  unfold inFlightDuring
  rcases hp : p e.world with ⟨o, v⟩
  rcases hq : q e'.world with ⟨o', w⟩
  rw [hp, hq] at houtcome htogether
  dsimp only at houtcome htogether
  subst houtcome
  cases o with
  | done a => exact ⟨rfl, htogether, hflight⟩
  | failed cause => exact ⟨rfl, htogether, hflight⟩
  | suspended => exact ⟨rfl, htogether, rfl⟩
  | exhausted => exact ⟨rfl, htogether, rfl⟩

section Together

variable (hworld : World.Together a b e.world e'.world) (hflight : e.inFlight = e'.inFlight)

include hworld hflight

theorem attempt_alike (m : Mutation) :
    Alike a b (e.attempt (e.change (·.mutate m))) (e'.attempt (e'.change (·.mutate m))) := by
  cases hidle : e.inFlight with
  | true =>
    rw [change_of_inFlight hidle, change_of_inFlight (hflight ▸ hidle)]
    exact ⟨rfl, hworld, hflight⟩
  | false =>
    rw [change_of_idle hidle, change_of_idle (hflight ▸ hidle)]
    unfold state
    rcases hworld.mutate m with ⟨s, t, hs, ht, htogether⟩ | ⟨cause, hs, ht⟩
    · rw [hs, ht]
      exact ⟨rfl, htogether, hflight⟩
    · rw [hs, ht]
      exact ⟨rfl, hworld, hflight⟩

theorem tick_alike : Alike a b (e.perform here .tick) (e'.perform there .tick) := by
  unfold perform
  cases hidle : e.inFlight with
  | true =>
    have hflight' : e'.inFlight = true := hflight ▸ hidle
    unfold tick
    rw [requireIdle_of_inFlight hidle, requireIdle_of_inFlight hflight']
    exact ⟨rfl, hworld, hflight⟩
  | false =>
    have hids : e.state.tick.1 = e'.state.tick.1 :=
      hworld.reads (·.statuses.tick.1) (·.statuses.tick.1)
        (fun s => (congrArg Prod.fst s.statuses.tick_bare).symm) fun _ _ => rfl
    rw [tick_of_idle hidle, tick_of_idle (hflight ▸ hidle), hids]
    obtain ⟨t, ht, htogether⟩ := hworld.mutate_ok (m := .tick) rfl
    cases ht
    exact ⟨rfl, htogether, hflight⟩

omit hflight in
theorem trigger_together (trigger : String) (priority : Option Int) (probability : Float) :
    World.Together a b
      (e.trigger trigger probability (priority.getD e.state.config.defaultTriggerPriority)).world
      (e'.trigger trigger probability
        (priority.getD e'.state.config.defaultTriggerPriority)).world := by
  obtain ⟨t, ht, htogether⟩ := hworld.mutate_ok (m := .request trigger priority probability) rfl
  cases ht
  exact htogether

theorem reset_alike : Alike a b (e.attempt e.reset) (e'.attempt e'.reset) := by
  unfold reset
  cases hidle : e.inFlight with
  | true =>
    have hflight' : e'.inFlight = true := hflight ▸ hidle
    rw [requireIdle_of_inFlight hidle, requireIdle_of_inFlight hflight']
    exact ⟨rfl, hworld, hflight⟩
  | false =>
    have hflight' : e'.inFlight = false := hflight ▸ hidle
    rw [requireIdle_of_idle hidle, requireIdle_of_idle hflight']
    exact ⟨rfl, hworld.reset, hflight⟩

theorem processNext_alike (h : here.Alike there a b) (patience : Nat) :
    Alike a b (e.processNext here patience) (e'.processNext there patience) := by
  unfold processNext
  cases hidle : e.inFlight with
  | true =>
    have hflight' : e'.inFlight = true := hflight ▸ hidle
    rw [requireIdle_of_inFlight hidle, requireIdle_of_inFlight hflight']
    exact ⟨rfl, hworld, hflight⟩
  | false =>
    have hflight' : e'.inFlight = false := hflight ▸ hidle
    have hending : e.state.ending = e'.state.ending :=
      hworld.reads State.ending State.ending (fun _ => rfl) fun _ _ => rfl
    have hqueue : e.state.queue.unnumbered = e'.state.queue.unnumbered :=
      hworld.reads (·.queue.unnumbered) State.queue (fun _ => rfl) fun _ _ => rfl
    rw [requireIdle_of_idle hidle, requireIdle_of_idle hflight', hending]
    dsimp only
    split
    · exact ⟨rfl, hworld, hflight⟩
    · rcases TriggerQueue.pop?_cases hqueue with
        ⟨hnone, hnone'⟩ | ⟨p, ps, q, qs, hpop, hpop', hpq⟩
      · rw [hnone, hnone']
        exact ⟨rfl, hworld, hflight⟩
      · rw [hpop, hpop']
        obtain ⟨t, ht, htogether⟩ := hworld.mutate_ok (pop_queue hpop)
        cases (pop_queue hpop').symm.trans ht
        exact inFlightDuring_alike
          ((pass_together h patience hpq).bind fun report => Agree.pure (some report))
          htogether hflight

end Together

theorem runUntilIdle_alike (h : here.Alike there a b) (patience passes : Nat)
    (hworld : World.Together a b e.world e'.world) (hflight : e.inFlight = e'.inFlight) :
    Alike a b (runUntilIdle here patience passes e) (runUntilIdle there patience passes e') := by
  induction passes generalizing e e' with
  | zero => exact ⟨rfl, hworld, hflight⟩
  | succ passes ih =>
    obtain ⟨hanswer, htogether, hflight'⟩ := processNext_alike hworld hflight h patience
    unfold runUntilIdle
    rcases hx : e.processNext here patience with ⟨outcome, f⟩
    rcases hy : e'.processNext there patience with ⟨outcome', f'⟩
    rw [hx, hy] at hanswer htogether hflight'
    dsimp only at hanswer htogether hflight'
    subst hanswer
    cases outcome with
    | done report =>
      cases report with
      | none => exact ⟨rfl, htogether, hflight'⟩
      | some report =>
        obtain ⟨hanswers, hlast, hflight''⟩ := ih htogether hflight'
        dsimp only
        rcases hx' : runUntilIdle here patience passes f with ⟨reports, g⟩
        rcases hy' : runUntilIdle there patience passes f' with ⟨reports', g'⟩
        rw [hx', hy'] at hanswers hlast hflight''
        dsimp only at hanswers hlast hflight''
        subst hanswers
        cases reports with
        | _ => exact ⟨rfl, hlast, hflight''⟩
    | failed _ => exact ⟨rfl, htogether, hflight'⟩
    | suspended => exact ⟨rfl, htogether, hflight'⟩
    | exhausted => exact ⟨rfl, htogether, hflight'⟩

theorem evaluate_answer (source : Source) :
    (e.evaluate source).1 =
      match (e.compiler.compile source).1.map Expression.bare with
      | .ok expression => (e.state.eval expression).mapError .evaluation
      | .error cause => .error (.definition cause) := by
  unfold evaluate compile
  rcases e.compiler.compile source with ⟨_ | _, c⟩ <;> rfl

theorem evaluate_inFlight (source : Source) : (e.evaluate source).2.inFlight = e.inFlight := by
  unfold evaluate compile
  rcases e.compiler.compile source with ⟨_ | _, c⟩ <;> rfl

theorem evaluate_alike (source : Source) (hworld : World.Together a b e.world e'.world)
    (hflight : e.inFlight = e'.inFlight) (hsound : e.compiler.Sound) (hsound' : e'.compiler.Sound) :
    Alike a b (e.evaluate source) (e'.evaluate source) where
  answer := by
    have heval : e.state.eval = e'.state.eval :=
      funext fun expression => congrArg expression.eval hworld.scope
    rw [evaluate_answer, evaluate_answer, hsound.compile_eq, hsound'.compile_eq, heval]
  world := by
    rw [evaluate_world, evaluate_world]
    exact hworld
  inFlight := by
    rw [evaluate_inFlight, evaluate_inFlight]
    exact hflight

/-- Two engines that have gone on alike since their games came to `a` and `b`. -/
structure Together (a b : World) (e e' : Engine) : Prop where
  world : World.Together a b e.world e'.world
  inFlight : e.inFlight = e'.inFlight
  sound : e.compiler.Sound
  sound' : e'.compiler.Sound

namespace Together

theorem save (h : Together a b e e') : e.save = e'.save :=
  h.world.reads Save.ofState Save.ofState (fun s => s.save_bare.symm) fun _ _ => rfl

theorem perform (h : Together a b e e') (hscreens : here.Alike there a b) {call : Call}
    (hcall : call.Replays) : Alike a b (e.perform here call) (e'.perform there call) := by
  obtain ⟨hworld, hflight, hsound, hsound'⟩ := h
  cases call with
  | evaluate source => exact (evaluate_alike source hworld hflight hsound hsound').map Answer.number
  | value name =>
    have hvalue : e.value name = e'.value name := by
      unfold value
      rw [show e.state.scope = e'.state.scope from hworld.scope]
    exact ⟨congrArg Answer.number hvalue, hworld, hflight⟩
  | setVariable id x => exact attempt_alike hworld hflight (.setVariable id x)
  | giveItem id amount => exact attempt_alike hworld hflight (.giveItem id amount)
  | setStatus id duration => exact attempt_alike hworld hflight (.setStatus id duration)
  | tick => exact tick_alike hworld hflight
  | trigger id probability priority =>
    exact ⟨rfl, trigger_together hworld id (some priority) probability, hflight⟩
  | fire id => exact ⟨rfl, trigger_together hworld id none 1.0, hflight⟩
  | next patience => exact (processNext_alike hworld hflight hscreens patience).map Answer.report
  | run patience passes =>
    exact (runUntilIdle_alike hscreens patience passes hworld hflight).map Answer.reports
  | reset => exact reset_alike hworld hflight
  | save =>
    have hsave := (Together.mk hworld hflight hsound hsound').save
    exact ⟨congrArg Answer.saved hsave, hworld, hflight⟩
  | _ => exact hcall.elim

theorem performAll (h : Together a b e e') (hscreens : here.Alike there a b) {calls : List Call}
    (hcalls : ∀ call ∈ calls, call.Replays) :
    (Engine.performAll here calls e).1 = (Engine.performAll there calls e').1 ∧
      Together a b (Engine.performAll here calls e).2 (Engine.performAll there calls e').2 := by
  induction calls generalizing e e' with
  | nil => exact ⟨rfl, h⟩
  | cons call calls ih =>
    have hcall := hcalls call List.mem_cons_self
    obtain ⟨hanswer, hworld, hflight⟩ := h.perform hscreens hcall
    have hkeep (c : Compiler) (source : Source) (hc : c.Sound) : (c.compile source).2.Sound :=
      hc.compile source
    have hnext : Together a b (e.perform here call).2 (e'.perform there call).2 :=
      ⟨hworld, hflight, perform_compiler hkeep h.sound here hcall.keepsFunctions,
        perform_compiler hkeep h.sound' there hcall.keepsFunctions⟩
    obtain ⟨hanswers, hlast⟩ := ih hnext fun c hc => hcalls c (List.mem_cons_of_mem _ hc)
    exact ⟨congrArg₂ List.cons hanswer hanswers, hlast⟩

end Together

/-- Two engines have come from `a` and `b` to `x` and `y` with the same answers: the same changes
were told and the same things shown, the same triggers wait but for their numbers, and the saves are
the same. -/
structure SameCourse (a b : Engine) (x y : List Answer × Engine) : Prop where
  answers : x.1 = y.1
  told : ∃ told, x.2.state.notifications = told ++ a.state.notifications ∧
    y.2.state.notifications = told ++ b.state.notifications
  shown : ∃ later, x.2.world.shown = a.world.shown ++ later ∧
    y.2.world.shown = b.world.shown ++ later
  pending : x.2.state.queue.unnumbered = y.2.state.queue.unnumbered
  save : x.2.save = y.2.save
  inFlight : x.2.inFlight = y.2.inFlight

/-- Nothing that a host does later tells two engines apart while their screens answer alike. -/
def Indistinguishable (a b : Engine) : Prop :=
  ∀ here there : Screen, here.Alike there a.world b.world →
    ∀ calls : List Call, (∀ call ∈ calls, call.Replays) →
      SameCourse a b (performAll here calls a) (performAll there calls b)

theorem Together.indistinguishable (h : Together e.world e'.world e e') :
    e.Indistinguishable e' := by
  intro here there hscreens calls hcalls
  obtain ⟨hanswers, hlast⟩ := h.performAll hscreens hcalls
  refine
    { answers := hanswers
      told := ?_
      shown := hlast.world.shown
      pending := hlast.world.reads (·.queue.unnumbered) State.queue (fun _ => rfl) fun _ _ => rfl
      save := hlast.save
      inFlight := hlast.inFlight }
  obtain ⟨s, t, hst, hs, ht⟩ := hlast.world.state
  have htold : s.bare.notifications = t.bare.notifications := by rw [hst]
  change s.notifications = t.notifications at htold
  refine ⟨s.notifications, ?_, ?_⟩
  · unfold state
    rw [hs]
    rfl
  · unfold state
    rw [ht, htold]
    rfl

/-- An engine that takes the save of another one with the same content goes on like it. -/
theorem restore_indistinguishable (ha : e.ReachableBy Call.KeepsFunctions)
    (hb : e'.ReachableBy Call.KeepsFunctions) (hidle : e.inFlight = false)
    (hidle' : e'.inFlight = false) (hpending : e.state.queue.pending = [])
    (hstream : e.state.random.IsStream) (hstream' : e'.state.random.IsStream)
    (hcontent : e.state.SameContent e'.state) :
    ∃ f, e'.restore e.save = .ok f ∧ f.save = e.save ∧ e.Indistinguishable f := by
  obtain ⟨t, ht, hbare⟩ :=
    hcontent.restore_ofState ha.wellFormed hb.wellFormed hpending hstream hstream'
  have hrestore : e'.restore e.save = .ok (e'.setState t) := by
    unfold restore save
    rw [requireIdle_of_idle hidle', ht]
    rfl
  have huntold : { e.state with notifications := [] }.bare = { t with notifications := [] }.bare :=
    (congrArg (fun s : State => { s with notifications := [] }) hbare).symm
  -- Both games start here, each with its own past, and nothing has been told or shown since.
  have htogether : Together e.world (e'.setState t).world e (e'.setState t) :=
    { world := ⟨⟨_, _, huntold, rfl, rfl⟩, [], (List.append_nil _).symm, (List.append_nil _).symm⟩
      inFlight := hidle.trans hidle'.symm
      sound := ha.sound
      sound' := hb.sound }
  exact ⟨_, hrestore, htogether.save.symm, htogether.indistinguishable⟩

end Engine

def belfryAfter : Engine := (belfry.perform quiet (.next 1)).2

def campanile : Engine :=
  (Engine.performAll quiet [.registerEvent bell, .registerEvent echo, .fire "ring", .next 1,
    .fire "ring"] (.new { seed := "campanile" })).2

theorem restore_indistinguishable_belfry :
    ∃ f, campanile.restore belfryAfter.save = .ok f ∧ f.save = belfryAfter.save ∧
      belfryAfter.Indistinguishable f := by
  have ha : belfryAfter.ReachableBy Call.KeepsFunctions :=
    .perform (.performAll (.start {} (.ofSeed _) (.ofSeed _)) quiet (by simp [Call.KeepsFunctions]))
      quiet (.next 1) trivial
  have hb : campanile.ReachableBy Call.KeepsFunctions :=
    .performAll (.start { seed := "campanile" } (.ofSeed _) (.ofSeed _)) quiet
      (by simp [Call.KeepsFunctions])
  have hcontent : belfryAfter.state.SameContent campanile.state :=
    ⟨rfl, rfl, fun _ => rfl, rfl, rfl, rfl, rfl⟩
  exact Engine.restore_indistinguishable ha hb rfl rfl rfl trivial trivial hcontent

end Scenario
