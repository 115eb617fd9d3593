import Scenario.Proofs.Compiling
import Scenario.Proofs.WellFormed

/-!
States in which nothing can be misused: the bounds of variables and of attributes are in order, and
all expressions come from compilers. Hosts get to no others, as long as they have their expressions
from compilers themselves.
-/

namespace Scenario

/-- The expressions that a call passes to the engine come from compilers. -/
def Call.Made : Call → Prop
  | .registerItem p | .registerStatus p => p.Of Expression.Made
  | .registerEvent event => event.Of Expression.Made
  | _ => True

namespace State

structure Safe (s : State) : Prop where
  wellFormed : s.WellFormed
  attributes : ∀ (id : String) (a : Attribute), s.attributes[id]? = some a →
    validBounds a.min a.max
  items : ∀ (id : String) (p : Provider Expression), s.items[id]? = some p →
    p.Of Expression.Made
  statusKinds : ∀ (id : String) (p : Provider Expression), s.statusKinds[id]? = some p →
    p.Of Expression.Made
  events : ∀ event ∈ s.registry.events, event.Of Expression.Made

namespace Safe

variable {s s' : State}

theorem initial (config : Config) {random : RandomSource} (h : random.Placed) :
    (State.initial config random).Safe where
  wellFormed := .initial config h
  attributes id a ha := by
    simp [State.initial] at ha
  items id p hp := by
    simp [State.initial] at hp
  statusKinds id p hp := by
    simp [State.initial] at hp
  events event hevent := by
    simp [State.initial] at hevent

/-- What is held comes from what is defined. -/
theorem sources (h : s.Safe) : ∀ source ∈ s.sources, source.1.Of Expression.Made := by
  intro source hsource
  rcases List.mem_append.1 hsource with hitem | hstatus
  · obtain ⟨stack, hstack, rfl⟩ := List.mem_map.1 hitem
    exact h.items _ _ (h.wellFormed.stocked.known stack hstack)
  · obtain ⟨status, hactive, rfl⟩ := List.mem_map.1 hstatus
    exact h.statusKinds _ _ (h.wellFormed.running.known status hactive)

theorem listeners (h : s.Safe) (trigger : String) :
    ∀ event ∈ s.registry.listeners trigger, event.Of Expression.Made := by
  intro event hevent
  rw [h.wellFormed.indexed.listeners_eq] at hevent
  exact h.events event (Array.mem_toList_iff.1 (List.mem_filter.1 hevent).1)

theorem mutate (h : s.Safe) {m : Mutation} (hm : s.mutate m = .ok s') : s'.Safe := by
  obtain ⟨hattributes, hitems, hstatusKinds⟩ := definitions_of_mutate hm
  exact
    { wellFormed := h.wellFormed.mutate hm
      attributes := hattributes ▸ h.attributes
      items := hitems ▸ h.items
      statusKinds := hstatusKinds ▸ h.statusKinds
      events := events_of_mutate hm ▸ h.events }

theorem becomes {sort : Mutation → Prop} (h : s.Safe) (hs : s.Becomes sort s') : s'.Safe :=
  hs.keeps (fun _ _ _ _ hs hm => hs.mutate hm) h

theorem roll (h : s.Safe) {random : RandomSource}
    (hr : random = s.random ∨ random = s.random.next.2) : { s with random }.Safe := by
  rcases hr with rfl | rfl
  · exact h
  · exact h.mutate (m := .draw) rfl

theorem pop (h : s.Safe) (queue : TriggerQueue) : { s with queue }.Safe :=
  { h with wellFormed := { h.wellFormed with } }

end Safe

end State

namespace Play

variable {w : World}

theorem change_safe (h : w.state.Safe) (m : Mutation) : (change (·.mutate m) w).2.state.Safe := by
  unfold change
  dsimp only
  cases hm : w.state.mutate m with
  | ok s => exact h.mutate hm
  | error cause => exact h

theorem chance_safe {α : Type} (h : w.state.Safe)
    {f : RandomSource → Except EvaluationError α × RandomSource}
    (hf : ∀ source, (f source).2 = source ∨ (f source).2 = source.next.2) :
    (chance f w).2.state.Safe := by
  have hsafe := h.roll (hf w.state.random)
  unfold chance
  rcases hroll : f w.state.random with ⟨_ | _, random⟩
  all_goals
    rw [hroll] at hsafe
    exact hsafe

end Play

namespace Engine

variable {e e' : Engine}

theorem defineVariable_safe (h : e.state.Safe) {id : String} {v : Variable}
    (he : e.defineVariable id v = .ok e') : e'.state.Safe := by
  have hwell := defineVariable_wellFormed h.wellFormed he
  obtain ⟨-, -, rfl⟩ := defineVariable_eq_ok he
  exact { h with wellFormed := hwell }

theorem registerAttribute_safe (h : e.state.Safe) {a : Attribute}
    (he : e.registerAttribute a = .ok e') : e'.state.Safe := by
  have hwell := registerAttribute_wellFormed h.wellFormed he
  obtain ⟨-, hvalid, rfl⟩ := registerAttribute_eq_ok he
  refine { h with wellFormed := hwell, attributes := fun id b hb => ?_ }
  change (e.state.attributes.insert a.id a)[id]? = some b at hb
  rw [getElem?_insert_id] at hb
  split at hb
  · cases hb
    exact hvalid
  · exact h.attributes id b hb

theorem registerItem_safe (h : e.state.Safe) {p : Provider Expression}
    (hp : p.Of Expression.Made) (he : e.registerItem p = .ok e') : e'.state.Safe := by
  have hwell := registerItem_wellFormed h.wellFormed he
  obtain ⟨-, rfl⟩ := registerItem_eq_ok he
  refine { h with wellFormed := hwell, items := fun id q hq => ?_ }
  change (e.state.items.insert p.id p)[id]? = some q at hq
  rw [getElem?_insert_id] at hq
  split at hq
  · cases hq
    exact hp
  · exact h.items id q hq

theorem registerStatus_safe (h : e.state.Safe) {p : Provider Expression}
    (hp : p.Of Expression.Made) (he : e.registerStatus p = .ok e') : e'.state.Safe := by
  have hwell := registerStatus_wellFormed h.wellFormed he
  obtain ⟨-, rfl⟩ := registerStatus_eq_ok he
  refine { h with wellFormed := hwell, statusKinds := fun id q hq => ?_ }
  change (e.state.statusKinds.insert p.id p)[id]? = some q at hq
  rw [getElem?_insert_id] at hq
  split at hq
  · cases hq
    exact hp
  · exact h.statusKinds id q hq

theorem registerEvent_safe (h : e.state.Safe) {event : Event Expression}
    (hevent : event.Of Expression.Made) (he : e.registerEvent event = .ok e') :
    e'.state.Safe := by
  have hwell := registerEvent_wellFormed h.wellFormed he
  obtain ⟨registry, hr, rfl⟩ := registerEvent_eq_ok he
  obtain ⟨-, rfl⟩ := Registry.register_eq_ok hr
  refine { h with wellFormed := hwell, events := fun event' hmem => ?_ }
  rcases Array.mem_push.1 hmem with hold | rfl
  · exact h.events event' hold
  · exact hevent

theorem registerAll_safe (h : e.state.Safe) {d : Definitions} (hd : d.Of Expression.Made) :
    (e.registerAll d).2.state.Safe :=
  registerAll_keeps (Q := (·.state.Safe)) (fun _ _ _ _ _ h => defineVariable_safe h)
    (fun _ _ _ _ h => registerAttribute_safe h)
    (fun _ _ p hp h => registerItem_safe h (hd.items p hp))
    (fun _ _ p hp h => registerStatus_safe h (hd.statuses p hp))
    (fun _ _ event hevent h => registerEvent_safe h (hd.events event hevent)) h

theorem loadContent_safe (h : e.state.Safe) (hc : e.compiler.Used) (text : String) :
    (e.loadContent text).2.state.Safe := by
  have hbuilt := (Build.ensures_contentOfText Build.ensures_made text e.compiler hc).2
  unfold loadContent
  split
  · rename_i d compiler hbuild
    have hd : ((Build.contentOfText text) e.compiler).1 = .ok d := congrArg Prod.fst hbuild
    exact registerAll_safe (e := { e with compiler }) h (hbuilt d hd)
  · exact h

theorem perform_safe (h : e.state.Safe) (hc : e.compiler.Used) (screen : Screen)
    {call : Call} (hcall : call.Made) : (e.perform screen call).2.state.Safe := by
  have hattempt {x : Except Error Engine} (hx : ∀ e', x = .ok e' → e'.state.Safe) :
      (e.attempt x).2.state.Safe := attempt_keeps (Q := (·.state.Safe)) h hx
  have hwell := perform_wellFormed h.wellFormed screen call
  cases call with
  | load text => exact loadContent_safe h hc text
  | defineVariable id v => exact hattempt fun _ => defineVariable_safe h
  | registerAttribute a => exact hattempt fun _ => registerAttribute_safe h
  | registerItem p => exact hattempt fun _ => registerItem_safe h hcall
  | registerStatus p => exact hattempt fun _ => registerStatus_safe h hcall
  | registerEvent event => exact hattempt fun _ => registerEvent_safe h hcall
  | registerFunction name arity => exact h
  | drain => exact { h with wellFormed := hwell }
  | reset =>
    apply hattempt
    intro e' he
    rw [reset_eq_ok he]
    exact { h with wellFormed := h.wellFormed.reset }
  | restore save =>
    apply hattempt
    intro e' he
    obtain ⟨s, hs, rfl⟩ := restore_eq_ok he
    have hrestored := h.wellFormed.restore hs
    obtain ⟨-, registry, hr, rfl⟩ := Save.restore_eq_ok.1 hs
    have hevents : registry.events = e.state.registry.events := by
      rw [Registry.restore_eq_ok hr, Registry.foldl_update_events]
      rfl
    exact { h with wellFormed := hrestored, events := hevents ▸ h.events }
  | _ => exact h.becomes (perform_becomes screen trivial)

theorem ReachableBy.safe (h : e.ReachableBy Call.Made) : e.state.Safe := by
  induction h with
  | start config random hplaced => exact .initial config hplaced
  | perform he screen call hcall ih => exact perform_safe ih he.used screen hcall

end Engine

end Scenario
