import Scenario.Proofs.Once
import Scenario.Proofs.Waiting

/-!
The order in which an engine takes triggers, whoever enqueued them: the host between passes, or
actions in the middle of one.
-/

namespace Scenario

/-! ### Arrivals -/

namespace TriggerQueue

/-- What has come to a queue from which nothing was taken meanwhile. -/
def arrivals (q q' : TriggerQueue) : List PendingTrigger :=
  (List.range' q.next (q'.next - q.next)).filterMap fun n => q'.pending.find? (·.number = n)

variable {q q' : TriggerQueue}

theorem arrivals_of_le (h : q'.next ≤ q.next) : q.arrivals q' = [] := by
  unfold arrivals
  rw [Nat.sub_eq_zero_of_le h]
  rfl

theorem find?_insert_number (p : PendingTrigger) {ps : List PendingTrigger}
    (h : ∀ q ∈ ps, q.number < p.number) (n : Nat) :
    (insert p ps).find? (·.number = n) =
      if p.number = n then some p else ps.find? (·.number = n) := by
  induction ps with
  | nil => by_cases hp : p.number = n <;> simp [insert, hp]
  | cons q qs ih =>
    obtain ⟨hq, hqs⟩ := List.forall_mem_cons.1 h
    unfold insert
    split
    · rw [List.find?_cons]
      by_cases hp : p.number = n <;> simp [hp]
    · rw [List.find?_cons, List.find?_cons, ih hqs]
      by_cases hp : p.number = n
      · have hne : q.number ≠ n := by omega
        simp [hp, hne]
      · simp [hp]

theorem arrivals_push (hnext : q.next ≤ q'.next) (hbelow : ∀ p ∈ q'.pending, p.number < q'.next)
    (trigger : String) (priority : Int) (probability : Float) :
    q.arrivals (q'.push trigger priority probability) =
      q.arrivals q' ++ [⟨trigger, priority, q'.next, probability⟩] := by
  have hcount : q'.next + 1 - q.next = (q'.next - q.next) + 1 := by omega
  have hlast : q.next + (q'.next - q.next) = q'.next := by omega
  have hfind := find?_insert_number ⟨trigger, priority, q'.next, probability⟩ hbelow
  unfold arrivals push
  simp only [hcount, List.range'_concat, List.filterMap_append, Nat.one_mul, hlast, hfind]
  congr 1
  · apply List.filterMap_congr
    intro n hn
    have hne : q'.next ≠ n := by
      have hmem := List.mem_range'_1.1 hn
      omega
    rw [if_neg hne]
  · simp

end TriggerQueue

/-! ### Passes -/

namespace State

variable {s s' : State}

/-- A pass adds its requests to the history of the queue, and nothing else. -/
theorem course_of_becomes {past : QueueHistory} (h : TriggerQueue.operations.Course past s.queue)
    (hs : s.Becomes Mutation.OfPass s') :
    TriggerQueue.operations.Course (past ++ (s.queue.arrivals s'.queue).map .enqueued)
      s'.queue := by
  suffices hcourse : s.queue.next ≤ s'.queue.next ∧ TriggerQueue.operations.Course
      (past ++ (s.queue.arrivals s'.queue).map .enqueued) s'.queue from hcourse.2
  refine hs.keeps (P := fun t => s.queue.next ≤ t.queue.next ∧ TriggerQueue.operations.Course
    (past ++ (s.queue.arrivals t.queue).map .enqueued) t.queue) ?_ ?_
  · rintro t t' m hsort ⟨hnext, hcourse⟩ hm
    by_cases hqueues : m.Queues
    · cases m with
      | request trigger priority probability =>
        cases hm
        obtain ⟨waiting, -, hholds⟩ := TriggerQueue.course_inTurn hcourse
        have hbelow : ∀ p ∈ t.queue.pending, p.number < t.queue.next := fun p hp =>
          hholds.below p (hholds.held.mem_iff.1 hp)
        refine ⟨Nat.le_succ_of_le hnext, ?_⟩
        unfold State.enqueue
        dsimp only
        rw [TriggerQueue.arrivals_push hnext hbelow, List.map_append, ← List.append_assoc]
        exact hcourse.push trigger _ probability
      | pop => exact (hsort.2.elim id id).elim
      | _ => exact hqueues.elim
    · rw [queue_of_mutate hqueues hm]
      exact ⟨hnext, hcourse⟩
  · rw [TriggerQueue.arrivals_of_le (Nat.le_refl _)]
    refine ⟨Nat.le_refl _, ?_⟩
    rw [List.map_nil, List.append_nil]
    exact h

end State

/-! ### Engines -/

namespace Engine

section History

variable (screen : Screen)

/-- What the next pass does to the queue: its trigger is popped, and its actions enqueue others. -/
def historyOfNext (patience : Nat) (e : Engine) : QueueHistory :=
  match e.upcoming? with
  | some (p, queue) =>
    .popped p ::
      (queue.arrivals (e.processNext screen patience).2.state.queue).map QueueEvent.enqueued
  | none => []

def historyDuring (patience : Nat) : Nat → Engine → QueueHistory
  | 0, _ => []
  | passes + 1, e =>
    e.historyOfNext screen patience ++
      match e.processNext screen patience with
      | (.done (some _), e) => historyDuring patience passes e
      | _ => []

/-- What a call does to the queue. -/
def historyOf (e : Engine) : Call → QueueHistory
  | .trigger id probability priority => [.enqueued ⟨id, priority, e.state.queue.next, probability⟩]
  | .fire id =>
    [.enqueued ⟨id, e.state.config.defaultTriggerPriority, e.state.queue.next, 1.0⟩]
  | .next patience => e.historyOfNext screen patience
  | .run patience passes => historyDuring screen patience passes e
  | .reset => if e.reset.isOk then [.cleared] else []
  | .restore save => if (e.restore save).isOk then [.cleared] else []
  | _ => []

end History

/-- Engines that hosts get to, and what was done to their queues on the way. -/
inductive HasHistory : Engine → QueueHistory → Prop
  | start (config : Config) (random : RandomSource) : HasHistory (.withRandom config random) []
  | perform {e : Engine} {past : QueueHistory} (h : e.HasHistory past) (screen : Screen)
    (call : Call) : HasHistory (e.perform screen call).2 (past ++ e.historyOf screen call)

variable {e e' : Engine} {screen : Screen} {past : QueueHistory}

theorem processNext_course (screen : Screen) (patience : Nat)
    (h : TriggerQueue.operations.Course past e.state.queue) :
    TriggerQueue.operations.Course (past ++ e.historyOfNext screen patience)
      (e.processNext screen patience).2.state.queue := by
  unfold historyOfNext
  cases hupcoming : e.upcoming? with
  | none =>
    rw [processNext_eq, hupcoming, List.append_nil]
    exact h
  | some upcoming =>
    obtain ⟨p, queue⟩ := upcoming
    obtain ⟨-, hpop⟩ := upcoming?_eq_some hupcoming
    have hstate : (e.processNext screen patience).2.state =
        (Play.pass screen patience p (e.setState { e.state with queue }).world).2.state := by
      rw [processNext_eq, hupcoming]
      unfold state
      rw [inFlightDuring_world, map_world]
    have hpass := pass_becomes screen patience p (e.setState { e.state with queue }).world
    rw [← hstate] at hpass
    have hpopped : TriggerQueue.operations.Course (past ++ [.popped p]) queue := h.pop hpop
    have hcourse := State.course_of_becomes hpopped hpass
    rw [List.append_assoc] at hcourse
    exact hcourse

theorem runUntilIdle_course (screen : Screen) (patience passes : Nat)
    (h : TriggerQueue.operations.Course past e.state.queue) :
    TriggerQueue.operations.Course (past ++ historyDuring screen patience passes e)
      (runUntilIdle screen patience passes e).2.state.queue := by
  induction passes generalizing e past with
  | zero =>
    rw [historyDuring, List.append_nil]
    exact h
  | succ passes ih =>
    have hnext := processNext_course screen patience h
    unfold runUntilIdle historyDuring
    rcases hpass : e.processNext screen patience with ⟨o, e'⟩
    rw [hpass] at hnext
    rw [← List.append_assoc]
    cases o with
    | done report =>
      cases report with
      | none =>
        rw [List.append_nil]
        exact hnext
      | some report =>
        have hrest := ih hnext
        dsimp only
        rcases hmore : runUntilIdle screen patience passes e' with ⟨o', e''⟩
        rw [hmore] at hrest
        cases o' <;> exact hrest
    | failed _ | suspended | exhausted =>
      rw [List.append_nil]
      exact hnext

theorem pending_of_processNext {patience : Nat}
    (h : e.processNext screen patience = (.done none, e')) (hending : e'.state.ending = none) :
    e'.state.queue.pending = [] := by
  rw [processNext_eq] at h
  cases hupcoming : e.upcoming? with
  | some upcoming =>
    obtain ⟨p, queue⟩ := upcoming
    rw [hupcoming] at h
    have hnever : ∀ w, ((some <$> Play.pass screen patience p) w).1 ≠ .done none := by
      intro w
      change ((Play.pass screen patience p >>= fun report => pure (some report)) w).1 ≠ _
      simp only [bind]
      split <;> rintro ⟨⟩
    have hdone := congrArg Prod.fst h
    dsimp only [inFlightDuring] at hdone
    split at hdone
    · cases hdone
    · cases hdone
    · rename_i hpass
      exact absurd ((congrArg Prod.fst hpass).trans hdone) (hnever _)
  | none =>
    rw [hupcoming] at h
    dsimp only at h
    split at h
    · cases h
    · rename_i hidle
      cases h
      unfold upcoming? at hupcoming
      rw [hending] at hupcoming
      simp only [hidle, Option.isSome_none, Bool.or_self, Bool.false_eq_true, if_false] at hupcoming
      exact TriggerQueue.pending_of_pop?_eq_none hupcoming

theorem pending_of_runUntilIdle {patience passes : Nat} {reports : List PassReport}
    (h : runUntilIdle screen patience passes e = (.done reports, e'))
    (hending : e'.state.ending = none) : e'.state.queue.pending = [] := by
  induction passes generalizing e reports with
  | zero => cases h
  | succ passes ih =>
    unfold runUntilIdle at h
    rcases hpass : e.processNext screen patience with ⟨o, e₁⟩
    rw [hpass] at h
    cases o with
    | done report =>
      cases report with
      | none =>
        cases h
        exact pending_of_processNext hpass hending
      | some report =>
        dsimp only at h
        rcases hmore : runUntilIdle screen patience passes e₁ with ⟨o', e₂⟩
        rw [hmore] at h
        cases o' with
        | done reports' =>
          cases h
          exact ih hmore
        | failed _ | suspended | exhausted => cases h
    | failed _ | suspended | exhausted => cases h

end Engine

/-- The calls that do something to the queue. -/
def Call.Queues : Call → Prop
  | .trigger _ _ _ | .fire _ | .next _ | .run _ _ | .reset | .restore _ => True
  | _ => False

namespace Engine

variable {e e' : Engine} {screen : Screen} {past : QueueHistory}

theorem keptByDefining_queue (q : TriggerQueue) : KeptByDefining (·.state.queue = q) where
  compiler _ h := h
  defineVariable h hx := by
    obtain ⟨-, -, rfl⟩ := defineVariable_eq_ok hx
    exact h
  registerAttribute h hx := by
    obtain ⟨-, -, rfl⟩ := registerAttribute_eq_ok hx
    exact h
  registerItem h hx := by
    obtain ⟨-, rfl⟩ := registerItem_eq_ok hx
    exact h
  registerStatus h hx := by
    obtain ⟨-, rfl⟩ := registerStatus_eq_ok hx
    exact h
  registerEvent h hx := by
    obtain ⟨registry, -, rfl⟩ := registerEvent_eq_ok hx
    exact h

theorem perform_queue (screen : Screen) {call : Call} (h : ¬ call.Queues) :
    (e.perform screen call).2.state.queue = e.state.queue := by
  have hmutates (hplays : call.Plays) (hpass : ¬ call.Passes)
      (hqueues : ∀ m, call.mutation? = some m → ¬ m.Queues) :
      (e.perform screen call).2.state.queue = e.state.queue :=
    (perform_mutates screen hplays hpass).keeps (P := fun s => s.queue = e.state.queue)
      (fun _ _ m hsort hs hm => (State.queue_of_mutate (hqueues m hsort) hm).trans hs) rfl
  cases call with
  | load _ | defineVariable _ _ | registerAttribute _ | registerItem _ | registerStatus _
  | registerEvent _ => exact (keptByDefining_queue e.state.queue).perform rfl screen trivial
  | registerFunction name arity => rfl
  | drain => rfl
  | trigger _ _ _ | fire _ | next _ | run _ _ | reset | restore _ => exact absurd trivial h
  | setVariable _ _ | giveItem _ _ | setStatus _ _ | tick =>
    apply hmutates trivial fun h => h
    rintro m ⟨⟩
    exact fun h => h
  | compile _ | evaluate _ | value _ | save =>
    apply hmutates trivial fun h => h
    rintro m ⟨⟩

theorem perform_course (screen : Screen) (call : Call)
    (h : TriggerQueue.operations.Course past e.state.queue) :
    TriggerQueue.operations.Course (past ++ e.historyOf screen call)
      (e.perform screen call).2.state.queue := by
  have hsame (hqueues : ¬ call.Queues) : TriggerQueue.operations.Course (past ++ [])
      (e.perform screen call).2.state.queue := by
    rw [perform_queue screen hqueues, List.append_nil]
    exact h
  have hclear {x : Except Error Engine} (hx : ∀ e', x = .ok e' → e'.state.queue = {}) :
      TriggerQueue.operations.Course (past ++ if x.isOk then [.cleared] else [])
        (e.attempt x).2.state.queue := by
    cases x with
    | error cause =>
      change TriggerQueue.operations.Course (past ++ []) _
      rw [List.append_nil]
      exact h
    | ok e' =>
      change TriggerQueue.operations.Course _ e'.state.queue
      rw [hx e' rfl]
      exact h.clear
  cases call with
  | trigger id probability priority => exact h.push id priority probability
  | fire id => exact h.push id e.state.config.defaultTriggerPriority 1.0
  | next patience => exact processNext_course screen patience h
  | run patience passes => exact runUntilIdle_course screen patience passes h
  | reset =>
    apply hclear
    intro e' he
    rw [reset_eq_ok he]
    rfl
  | restore save =>
    apply hclear
    intro e' he
    obtain ⟨s, hs, rfl⟩ := restore_eq_ok he
    obtain ⟨-, registry, -, rfl⟩ := Save.restore_eq_ok.1 hs
    rfl
  | _ => exact hsame fun h => h

theorem HasHistory.course (h : e.HasHistory past) :
    TriggerQueue.operations.Course past e.state.queue := by
  induction h with
  | start config random => exact .new
  | perform _ screen call ih => exact perform_course screen call ih

/-- Triggers are popped by priority, and of one priority in the order in which they came, with
nothing lost and nothing popped twice, up to any time since the start. The queue shows the one whose
turn it is, and does all that it would do with any heap under it. A run that is done in a game that
has not ended has popped every trigger that came since the last reset or restoring. -/
theorem triggers_in_turn {history : QueueHistory} (h : e.HasHistory history) (heap : Heap) :
    TriggerQueue.operations.Course history e.state.queue ∧
    (∀ past : QueueHistory, past <+: history → ∃ waiting, InTurn past waiting ∧
      past.Accounted waiting ∧ ∀ number, past.timesPopped number ≤ 1) ∧
    (∃ waiting, InTurn history waiting ∧ e.state.queue.pending.Perm waiting ∧
      ∀ p, e.state.queue.peek? = some p ↔ ∃ rest, TakesFirst waiting p rest) ∧
    (∃ held : heap.Carrier, heap.operations.Course history (held, e.state.queue.next) ∧
      heap.peek? held = e.state.queue.peek?) ∧
    ∀ (screen : Screen) (patience passes : Nat) (reports : List PassReport) (e' : Engine),
      runUntilIdle screen patience passes e = (.done reports, e') → e'.state.ending = none →
      ∀ whole : QueueHistory, whole = history ++ historyDuring screen patience passes e →
      ∀ p ∈ whole.sinceCleared.enqueued, whole.timesPopped p.number = 1 := by
  have hcourse := h.course
  obtain ⟨waiting, hturn, hholds⟩ := TriggerQueue.course_inTurn hcourse
  obtain ⟨held, hheap, -, hpeek⟩ := heap.course hcourse
  refine ⟨hcourse, ?_, ⟨waiting, hturn, hholds.held, fun _ => hholds.peek⟩,
    ⟨held, hheap, hpeek⟩, ?_⟩
  · intro past hpast
    obtain ⟨q, hpast⟩ := hcourse.exists_before hpast
    obtain ⟨waiting, hturn, -⟩ := TriggerQueue.course_inTurn hpast
    have haccounted := TriggerQueue.course_accounted hpast hturn
    exact ⟨waiting, hturn, haccounted, haccounted.timesPopped_le_one⟩
  · rintro screen patience passes reports e' hrun hending _ rfl
    have hwhole := runUntilIdle_course screen patience passes hcourse
    rw [hrun] at hwhole
    obtain ⟨waiting, hturn, hholds⟩ := TriggerQueue.course_inTurn hwhole
    have hnone := hholds.held
    rw [pending_of_runUntilIdle hrun hending] at hnone
    rw [hnone.symm.eq_nil] at hturn
    exact (TriggerQueue.course_accounted hwhole hturn).timesPopped_eq_one

end Engine

/-! ### An evening -/

/-- After the dusk comes the night. -/
def dusk : Event Expression :=
  { id := "dusk", trigger := "sunset", probability := .constant 1.0
    actions := [.triggerEvents [⟨"night", some 7, .constant 1.0⟩]] }

def evening : Engine :=
  (Engine.performAll quiet [.registerEvent dusk, .fire "sunset"] (.new {})).2

def eveningHistory : QueueHistory := [.enqueued ⟨"sunset", 0, 0, 1.0⟩]

theorem evening_history : evening.HasHistory eveningHistory :=
  ((Engine.HasHistory.start {} (.ofSeed "default")).perform quiet (.registerEvent dusk)).perform
    quiet (.fire "sunset")

theorem triggers_in_turn_evening :
    (∃ waiting, InTurn eveningHistory waiting ∧ evening.state.queue.pending.Perm waiting) ∧
    ∀ number ∈ [0, 1],
      (eveningHistory ++ Engine.historyDuring quiet 1 3 evening).timesPopped number = 1 := by
  obtain ⟨-, -, ⟨waiting, hturn, hheld, -⟩, -, hrun⟩ :=
    Engine.triggers_in_turn evening_history Heap.list
  have hnumbers : (QueueHistory.enqueued (QueueHistory.sinceCleared (eveningHistory ++
      Engine.historyDuring quiet 1 3 evening))).map PendingTrigger.number = [0, 1] := rfl
  refine ⟨⟨waiting, hturn, hheld⟩, ?_⟩
  intro number hnumber
  rw [← hnumbers] at hnumber
  obtain ⟨p, hp, rfl⟩ := List.mem_map.1 hnumber
  exact hrun quiet 1 3 _ _ (Prod.ext rfl rfl) rfl _ rfl p hp

/-- A reset drops what waits, which is then never popped. -/
def quietEvening : Engine := (Engine.performAll quiet [.fire "sunset", .reset] (.new {})).2

def quietHistory : QueueHistory := [.enqueued ⟨"sunset", 0, 0, 1.0⟩, .cleared]

theorem quietEvening_history : quietEvening.HasHistory quietHistory :=
  ((Engine.HasHistory.start {} (.ofSeed "default")).perform quiet (.fire "sunset")).perform quiet
    .reset

theorem dropped_never_popped :
    quietEvening.HasHistory quietHistory ∧ .enqueued ⟨"sunset", 0, 0, 1.0⟩ ∈ quietHistory ∧
      Engine.runUntilIdle quiet 1 1 quietEvening = (.done [], quietEvening) ∧
      quietEvening.state.ending = none ∧
      (quietHistory ++ Engine.historyDuring quiet 1 1 quietEvening).popped = [] := by
  exact ⟨quietEvening_history, List.mem_cons_self, rfl, rfl, rfl⟩

end Scenario
