import Mathlib.Logic.Function.Iterate
import Scenario.Proofs.Once
import Scenario.Proofs.Scripts
import Scenario.Proofs.Waiting

/-!
Passes that fail. A pass can break off at every command of its script. It then costs the trigger
that was popped and nothing else: what was done before keeps its effect, what comes after is never
begun, and the engine is idle again.
-/

namespace Scenario

/-! ### Commands that are done -/

/-- A command that was performed, with the worlds that it found and left. -/
structure Step where
  {α : Type}
  command : Command α
  found : World
  left : World

/-- The trigger that a step has put into the queue. -/
def Step.enqueued? : Step → Option PendingTrigger
  | ⟨.change (.request trigger priority probability) _, found, _⟩ =>
    some ⟨trigger, priority.getD found.state.config.defaultTriggerPriority,
      found.state.queue.next, probability⟩
  | _ => none

namespace Script

variable {α : Type} {screen : Screen}

/-- From a world on, a run of the script performs some steps, each of them to its end and in the
world that the one before has left. The rest of the script is then to come, in another world. -/
inductive Advances (screen : Screen) {α : Type} :
    Script α → World → List Step → Script α → World → Prop
  | here (script : Script α) (w : World) : Advances screen script w [] script w
  | step {β : Type} {command : Command β} {next : β → Script α} {b : β} {w w₁ w' : World}
    {steps : List Step} {rest : Script α} (hdone : command.perform screen w = (.done b, w₁))
    (hrest : Advances screen (next b) w₁ steps rest w') :
    Advances screen (.step command next) w (⟨command, w, w₁⟩ :: steps) rest w'

/-- A run of the script performs some steps to their end and fails in the next one. The command that
fails changes nothing, apart from a draw that it may have spent, and nothing behind it is begun. -/
def FailsAfter (screen : Screen) (script : Script α) (w : World) (steps : List Step) (cause : Error)
    (w' : World) : Prop :=
  ∃ (β : Type) (command : Command β) (next : β → Script α) (w₁ : World),
    script.Advances screen w steps (.step command next) w₁ ∧
    command.perform screen w₁ = (.failed cause, w') ∧
    (w' = w₁ ∨ w' = { w₁ with state := { w₁.state with random := w₁.state.random.next.2 } })

end Script

namespace Command

variable {α : Type} {screen : Screen} {c : Command α} {w w' : World}

theorem perform_failed {cause : Error} (h : c.perform screen w = (.failed cause, w')) :
    w' = w ∨ w' = { w with state := { w.state with random := w.state.random.next.2 } } := by
  cases c with
  | look f =>
    simp only [perform, Play.look] at h
    split at h
    · cases h
    · cases h
      exact .inl rfl
  | change m hm =>
    simp only [perform, Play.change] at h
    split at h
    · cases h
    · cases h
      exact .inl rfl
  | chance f hf =>
    simp only [perform, Play.chance] at h
    split at h
    · cases h
    · cases h
      refine (hf w.state.random).imp (fun hsame => ?_) fun hnext => ?_
      · rw [hsame]
      · rw [hnext]
  | display message =>
    simp only [perform, Play.display] at h
    split at h <;> cases h
  | ask prompt =>
    simp only [perform, Play.ask] at h
    split at h <;> cases h
  | fail cause =>
    cases h
    exact .inl rfl
  | exhausted => cases h

/-- A command that is done has inserted the trigger that it requests, if it requests one. -/
theorem perform_pending {a : α} (h : c.perform screen w = (.done a, w')) :
    w'.state.queue.pending = ((Step.mk c w w').enqueued?).elim w.state.queue.pending
      fun p => TriggerQueue.insert p w.state.queue.pending := by
  cases c with
  | look f =>
    obtain ⟨-, rfl⟩ := Play.look_eq_done h
    rfl
  | change m hm =>
    have hchange : Play.change (·.mutate m) w = (.done a, w') := h
    have hmutate := Play.change_eq_done hchange
    cases m with
    | request trigger priority probability =>
      rw [← Except.ok.inj hmutate]
      rfl
    | pop => exact absurd hm (by simp [Mutation.OfAction, Mutation.Fires])
    | _ => exact congrArg TriggerQueue.pending (State.queue_of_mutate id hmutate)
  | chance f hf =>
    obtain ⟨-, rfl⟩ := Play.chance_eq_done h
    rfl
  | display message =>
    simp only [perform, Play.display] at h
    split at h <;> cases h
    rfl
  | ask prompt =>
    simp only [perform, Play.ask] at h
    split at h <;> cases h
    rfl
  | fail cause => cases h
  | exhausted => cases h

end Command

namespace Script

variable {α : Type} {screen : Screen} {script rest : Script α} {w w' : World} {steps : List Step}

theorem exists_failsAfter {cause : Error} (h : script.play screen w = (.failed cause, w')) :
    ∃ steps, script.FailsAfter screen w steps cause w' := by
  induction script generalizing w with
  | done a => cases h
  | step command next ih =>
    unfold play at h
    rw [Play.bind_eq] at h
    rcases hperform : command.perform screen w with ⟨o, w₁⟩
    rw [hperform] at h
    cases o with
    | done b =>
      obtain ⟨steps, β, command', next', w₂, hadvances, hfailed, hleft⟩ := ih b h
      exact ⟨_, β, command', next', w₂, .step hperform hadvances, hfailed, hleft⟩
    | failed cause' =>
      cases h
      exact ⟨[], _, command, next, w, .here _ w, hperform, Command.perform_failed hperform⟩
    | suspended => cases h
    | exhausted => cases h

/-- What was pending stays as it is, and what the steps have enqueued comes to it. -/
theorem Advances.pending (h : script.Advances screen w steps rest w') :
    w.state.queue.pending.Sublist w'.state.queue.pending ∧
      w'.state.queue.pending.Perm (w.state.queue.pending ++ steps.filterMap Step.enqueued?) := by
  induction h with
  | here script w => exact ⟨.refl _, by simp⟩
  | step hdone hrest ih =>
    rename_i β command next b w w₁ w' steps rest
    have hpending := Command.perform_pending hdone
    cases henqueued : (Step.mk command w w₁).enqueued? with
    | none =>
      rw [henqueued] at hpending
      rw [List.filterMap_cons_none henqueued, ← show _ = w.state.queue.pending from hpending]
      exact ih
    | some p =>
      rw [henqueued] at hpending
      dsimp only [Option.elim] at hpending
      rw [List.filterMap_cons_some henqueued]
      rw [hpending] at ih
      refine ⟨(TriggerQueue.sublist_insert p _).trans ih.1, ih.2.trans ?_⟩
      exact ((TriggerQueue.insert_perm p _).append_right _).trans List.perm_middle.symm

theorem FailsAfter.pending {cause : Error} (h : script.FailsAfter screen w steps cause w') :
    w.state.queue.pending.Sublist w'.state.queue.pending ∧
      w'.state.queue.pending.Perm (w.state.queue.pending ++ steps.filterMap Step.enqueued?) := by
  obtain ⟨β, command, next, w₁, hadvances, -, rfl | rfl⟩ := h
  · exact hadvances.pending
  · exact hadvances.pending

end Script

/-! ### What a pass tells, however it ends -/

/-- However a run ends, some of these events have happened in it, in this order; it tells of them
and counts them. -/
def Play.Reports {α : Type} (trigger : String) (ids : List String) (p : Play α) : Prop :=
  ∀ w, w.state.WellFormed → (p w).2.state.WellFormed ∧
    ∃ fired, fired.Sublist ids ∧ Tells trigger w.state (p w).2.state fired

namespace Play.Reports

variable {α β : Type} {trigger : String} {ids ids' : List String} {p : Play α} {f : α → Play β}

theorem mono (h : Reports trigger ids p) (hids : ids.Sublist ids') : Reports trigger ids' p := by
  intro w hw
  obtain ⟨hw', fired, hfired, htells⟩ := h w hw
  exact ⟨hw', fired, hfired.trans hids, htells⟩

theorem quiet {sort : Mutation → Prop} (hsort : ∀ m, sort m → ¬ m.Fires)
    (h : ∀ w : World, w.state.Becomes sort (p w).2.state) : Reports trigger [] p := fun w hw =>
  ⟨hw.becomes (h w), [], .refl _, .becomes hw hsort (h w)⟩

protected theorem pure (a : α) : Reports trigger [] (pure a) := fun _ hw =>
  ⟨hw, [], .refl _, .refl⟩

theorem look (f : State → Except EvaluationError α) : Reports trigger [] (Play.look f) := by
  intro w hw
  unfold Play.look
  split
  · exact ⟨hw, [], .refl _, .refl⟩
  · exact ⟨hw, [], .refl _, .refl⟩

protected theorem bind (h : Reports trigger ids p) (h' : ∀ a, Reports trigger ids' (f a))
    (hdisjoint : ids.Disjoint ids') : Reports trigger (ids ++ ids') (p >>= f) := by
  intro w hw
  obtain ⟨hw₁, fired, hfired, htells⟩ := h w hw
  have hbroken := hfired.trans (List.sublist_append_left ids ids')
  rw [bind_eq]
  rcases hp : p w with ⟨o, w₁⟩
  rw [hp] at hw₁ htells
  cases o with
  | done a =>
    obtain ⟨hw', fired', hfired', htells'⟩ := h' a w₁ hw₁
    refine ⟨hw', fired ++ fired', hfired.append hfired', htells.trans htells' ?_⟩
    exact fun id hid hid' => hdisjoint (hfired.subset hid) (hfired'.subset hid')
  | failed cause => exact ⟨hw₁, fired, hbroken, htells⟩
  | suspended => exact ⟨hw₁, fired, hbroken, htells⟩
  | exhausted => exact ⟨hw₁, fired, hbroken, htells⟩

theorem bind_pure (h : Reports trigger ids p) (f : α → β) :
    Reports trigger ids (p >>= fun a => pure (f a)) := by
  rw [← List.append_nil ids]
  exact h.bind (fun a => .pure (f a)) (List.disjoint_nil_right ids)

theorem chance (trigger : String) (probability : Float) :
    Reports trigger [] (Play.chance (gate probability)) :=
  quiet not_fires_draw fun w =>
    Agree.becomes ((simulation_self Scenario.quiet (· = .draw) w.state).chance
      (gate_source probability) rfl)

variable (screen : Screen) (patience : Nat)

theorem takesTurn (excluded : List String) (e : Event Expression) :
    Reports trigger [] (Play.takesTurn excluded e) :=
  quiet not_fires_draw fun _ => takesTurn_draws rfl

theorem happen (e : Event Expression) :
    Reports trigger [e.id] (Play.happen screen patience trigger e) := by
  intro w hw
  rcases hhappen : Play.happen screen patience trigger e w with ⟨o, w'⟩
  rcases happen_cases hw hhappen with ⟨rfl, -⟩ | ⟨s, hfire, hactions, -⟩
  · exact ⟨hw, [], List.nil_sublist _, .refl⟩
  · have hs : s.WellFormed := hw.mutate (m := .fire e.id trigger) hfire
    refine ⟨hs.becomes hactions, [e.id], .refl _, ?_⟩
    exact (Tells.fireEvent hw hfire).trans (.becomes hs (fun _ h => h.not_fires) hactions) (by simp)

theorem listen (excluded : List String) {es : List (Event Expression)}
    (hes : (es.map Event.id).Nodup) :
    Reports trigger (es.map Event.id) (Play.listen screen patience trigger excluded es) := by
  induction es generalizing excluded with
  | nil => exact .pure _
  | cons e es ih =>
    rw [List.map_cons, List.nodup_cons] at hes
    have hrest := fun excluded => ih excluded hes.2
    unfold Play.listen
    refine (takesTurn excluded e).bind (fun takes => ?_) (List.disjoint_nil_left _)
    split
    · refine (happen screen patience e).bind (fun _ => ?_) (List.singleton_disjoint.2 hes.1)
      refine (look _).bind (fun ended => ?_) (List.disjoint_nil_left _)
      split
      · exact (Reports.pure _).mono (List.nil_sublist _)
      · exact (hrest _).bind_pure _
    · exact (hrest excluded).mono (List.sublist_cons_self _ _)

/-- The events that happen in a pass are listeners, so each of them happens once at most. -/
theorem pass {w : World} (hw : w.state.WellFormed) (p : PendingTrigger) :
    ∃ fired : List String, fired.Nodup ∧
      Tells p.trigger w.state (Play.pass screen patience p w).2.state fired := by
  obtain ⟨hw₁, fired, hfired, htells⟩ := chance p.trigger p.probability w hw
  rw [List.sublist_nil.1 hfired] at htells
  unfold Play.pass
  rw [bind_eq]
  rcases hgate : Play.chance (gate p.probability) w with ⟨o, w₁⟩
  rw [hgate] at hw₁ htells
  cases o with
  | done passed =>
    cases passed with
    | true =>
      have hids := listeners_nodup hw₁ p.trigger
      have hreports : Reports p.trigger _ _ := listen screen patience [] hids
      obtain ⟨-, fired, hfired, hlisten⟩ := hreports.bind_pure
        (fun heard => (⟨p.trigger, true, heard.1, heard.2⟩ : PassReport)) w₁ hw₁
      exact ⟨fired, hfired.nodup hids, htells.trans hlisten (List.disjoint_nil_left _)⟩
    | false => exact ⟨[], List.nodup_nil, htells⟩
  | failed cause => exact ⟨[], List.nodup_nil, htells⟩
  | suspended => exact ⟨[], List.nodup_nil, htells⟩
  | exhausted => exact ⟨[], List.nodup_nil, htells⟩

end Play.Reports

/-- What is told of an event is how often it is counted, once at most. -/
theorem Tells.counts {trigger : String} {s s' : State} {fired : List String}
    (h : Tells trigger s s' fired) (hfired : fired.Nodup) :
    ∃ pushed, s'.notifications = pushed ++ s.notifications ∧ ∀ id, firings id pushed ≤ 1 ∧
      ∀ n, s.occurrences? id = some n →
        s'.occurrences? id = some (oneMore^[firings id pushed] n) := by
  obtain ⟨pushed, hpushed, htold⟩ := h.told
  refine ⟨pushed, hpushed, fun id => ?_⟩
  have hfirings : firings id pushed = fired.count id := by
    have hreversed : firings id pushed.reverse = firings id pushed := by
      unfold firings
      rw [List.countP_reverse]
    rw [← hreversed, firings_eq, htold, List.countP_map]
    exact List.countP_congr fun id' _ => by simp
  rw [hfirings, List.Nodup.count hfired]
  refine ⟨by split <;> omega, fun n hn => ?_⟩
  rw [h.counted id n hn]
  split <;> rfl

/-! ### Engines -/

namespace Engine

variable {e e' : Engine} {screen : Screen} {patience : Nat} {cause : Error}

theorem processNext_eq_failed (hidle : e.inFlight = false)
    (h : e.processNext screen patience = (.failed cause, e')) :
    ∃ p queue w', e.state.queue.pop? = some (p, queue) ∧
      Play.pass screen patience p (e.setState { e.state with queue }).world = (.failed cause, w') ∧
      e' = { e with world := w' } := by
  rw [processNext_eq] at h
  cases hnext : e.upcoming? with
  | none =>
    rw [hnext, hidle] at h
    cases h
  | some popped =>
    obtain ⟨p, queue⟩ := popped
    rw [hnext] at h
    refine ⟨p, queue, ?_⟩
    rcases hpass : Play.pass screen patience p (e.setState { e.state with queue }).world with
      ⟨o, w'⟩
    dsimp only at h
    rw [inFlightDuring_map, hpass] at h
    cases o with
    | failed cause' =>
      cases h
      exact ⟨w', (upcoming?_eq_some hnext).2, rfl, rfl⟩
    | done report => cases h
    | suspended => cases h
    | exhausted => cases h

end Engine

/-- A pass that fails costs the engine one trigger and leaves it usable. The engine is idle again,
and the pass has followed its script, which is that of its listeners and of their actions in order,
up to one command that failed: the commands before it were all performed to their end, each in the
world that the one before left, and their effect stays; the one that failed changed nothing, apart
from a draw that it may have spent; and none behind it was begun.
Of the queue only the trigger of the pass is gone: the others are as they were, and what was
enqueued before the failure has come to them. Each event is counted as often as it is told of, which
is at most once. -/
theorem failed_pass {e e' : Engine} (he : e.Reachable) (hidle : e.inFlight = false)
    {screen : Screen} {patience : Nat} {cause : Error}
    (h : e.processNext screen patience = (.failed cause, e')) :
    e'.inFlight = false ∧ ∃ (p : PendingTrigger) (queue : TriggerQueue) (steps : List Step),
      e.state.queue.pop? = some (p, queue) ∧ e.state.queue.pending = p :: queue.pending ∧
      (∀ screen, (Script.pass patience p).play screen = Play.pass screen patience p) ∧
      (Script.pass patience p).FailsAfter screen (e.setState { e.state with queue }).world steps
        cause e'.world ∧
      queue.pending.Sublist e'.state.queue.pending ∧
      e'.state.queue.pending.Perm (queue.pending ++ steps.filterMap Step.enqueued?) ∧
      ∃ pushed, e'.state.notifications = pushed ++ e.state.notifications ∧
        ∀ id, firings id pushed ≤ 1 ∧ ∀ n, e.state.occurrences? id = some n →
          e'.state.occurrences? id = some (oneMore^[firings id pushed] n) := by
  obtain ⟨p, queue, w', hpop, hpass, rfl⟩ := Engine.processNext_eq_failed hidle h
  have hpopped : ({ e.state with queue } : State).WellFormed :=
    he.wellFormed.mutate (Engine.pop_queue hpop)
  have hscript := Script.Of.pass patience p
  obtain ⟨steps, hsteps⟩ := Script.exists_failsAfter ((congrFun (hscript screen) _).trans hpass)
  obtain ⟨hold, hnew⟩ := hsteps.pending
  obtain ⟨fired, hnodup, htells⟩ := Play.Reports.pass screen patience
    (w := (e.setState { e.state with queue }).world) hpopped p
  rw [hpass] at htells
  exact ⟨hidle, p, queue, steps, hpop, (TriggerQueue.pending_of_pop? hpop).1, hscript,
    hsteps, hold, hnew, htells.counts hnodup⟩

/-! ### A broken promise -/

/-- An event that calls for dusk, then fails for there is no gold, and never comes to call for
dawn. -/
def promise : Event Expression :=
  { id := "promise", trigger := "wake", probability := .constant 1.0
    actions := [.triggerEvents [⟨"dusk", none, .constant 1.0⟩],
      .updateVariable ⟨"gold", .constant 1.0⟩, .triggerEvents [⟨"dawn", none, .constant 1.0⟩]] }

def promised : Engine :=
  (Engine.performAll quiet [.registerEvent promise, .fire "wake", .fire "noon"] (.new {})).2

theorem promised_reachable : promised.Reachable :=
  Engine.ReachableBy.performAll (.start {} (.ofSeed "default") (.ofSeed "default")) quiet
    fun _ _ => trivial

theorem failed_pass_promised :
    (promised.processNext quiet 1).1 = .failed (.evaluation (.unknown .variable "gold")) ∧
      (promised.processNext quiet 1).2.inFlight = false ∧
      (promised.processNext quiet 1).2.state.queue.pending.map PendingTrigger.trigger =
        ["noon", "dusk"] ∧
      ∃ pushed, (promised.processNext quiet 1).2.state.notifications = pushed ++ [] ∧
        firings "promise" pushed ≤ 1 ∧
        (promised.processNext quiet 1).2.state.occurrences? "promise" =
          some (oneMore^[firings "promise" pushed] 0) := by
  have hfailed : (promised.processNext quiet 1).1 =
      .failed (.evaluation (.unknown .variable "gold")) := rfl
  have hnext : promised.processNext quiet 1 =
      (.failed (.evaluation (.unknown .variable "gold")), (promised.processNext quiet 1).2) :=
    Prod.ext hfailed rfl
  obtain ⟨hidle, p, queue, steps, -, -, -, -, -, -, pushed, hpushed, hcounts⟩ :=
    failed_pass promised_reachable rfl hnext
  have hpending : (promised.processNext quiet 1).2.state.queue.pending.map PendingTrigger.trigger =
      ["noon", "dusk"] := by
    decide +kernel
  exact ⟨hfailed, hidle, hpending, pushed, hpushed, (hcounts "promise").1,
    (hcounts "promise").2 0 rfl⟩

end Scenario
