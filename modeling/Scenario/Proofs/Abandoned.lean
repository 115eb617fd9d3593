import Scenario.Proofs.Loading
import Scenario.Proofs.Once
import Scenario.Proofs.Scripts
import Scenario.Proofs.Waiting

/-!
Passes that are abandoned. A pass can be left waiting at everything that it shows. The engine then
stays in flight for good: what could change the game is refused, and all that hosts can still do is
to define, to enqueue, to drain and to look.
-/

namespace Scenario

/-! ### Screens that stop answering -/

/-- A screen that never answers once so many interactions have been shown before. -/
def Screen.upTo (screen : Screen) (n : Nat) : Screen where
  acknowledges shown message := decide (shown.length < n) && screen.acknowledges shown message
  chooses shown prompt := if shown.length < n then screen.chooses shown prompt else none

/-- What comes of a run if nothing is answered after `n` interactions: the same, if it shows no more
than those; else it waits for ever at the next one. -/
def CutShort {α σ : Type} (shown : σ → List Interaction) (n : Nat) (whole cut : Outcome α × σ) :
    Prop :=
  (cut = whole ∧ (shown whole.2).length ≤ n) ∨
    ∃ x, cut = (.suspended, x) ∧ n < (shown whole.2).length ∧
      shown x = (shown whole.2).take (n + 1)

/-- Where a run waits for ever does not depend on what it would have shown later. -/
theorem take_of_prefix {xs ys : List Interaction} {n : Nat} (hmore : n < xs.length)
    (h : xs <+: ys) : n < ys.length ∧ xs.take (n + 1) = ys.take (n + 1) := by
  obtain ⟨later, rfl⟩ := h
  rw [List.take_append_of_le_length hmore, List.length_append]
  exact ⟨by omega, rfl⟩

section Screens

variable {α : Type} (screen : Screen) {w : World} {n : Nat}

@[simp] theorem Play.look_shown (f : State → Except EvaluationError α) :
    (Play.look f w).2.shown = w.shown := by
  unfold Play.look
  split <;> rfl

@[simp] theorem Play.change_shown (f : State → Except EvaluationError State) :
    (Play.change f w).2.shown = w.shown := by
  unfold Play.change
  split <;> rfl

@[simp] theorem Play.chance_shown (f : RandomSource → Except EvaluationError α × RandomSource) :
    (Play.chance f w).2.shown = w.shown := by
  unfold Play.chance
  dsimp only
  split <;> rfl

theorem Command.perform_shown (c : Command α) : w.shown <+: (c.perform screen w).2.shown := by
  cases c with
  | look f => simp [perform]
  | change m hm => simp [perform]
  | chance f hf => simp [perform]
  | display message => exact List.prefix_append _ _
  | ask prompt =>
    simp only [perform, Play.ask]
    split <;> exact List.prefix_append _ _
  | fail cause => exact List.prefix_refl _
  | exhausted => exact List.prefix_refl _

theorem Script.play_shown (script : Script α) : w.shown <+: (script.play screen w).2.shown := by
  induction script generalizing w with
  | done a => exact List.prefix_refl _
  | step command next ih =>
    have hfirst := command.perform_shown screen (w := w)
    unfold play
    rw [Play.bind_eq]
    rcases hperform : command.perform screen w with ⟨o, w₁⟩
    rw [hperform] at hfirst
    cases o with
    | done b => exact hfirst.trans (ih b)
    | failed cause => exact hfirst
    | suspended => exact hfirst
    | exhausted => exact hfirst

theorem CutShort.interaction {o o' : Outcome α} (h : w.shown.length ≤ n)
    (hbefore : w.shown.length < n → o' = o) (hlast : w.shown.length = n → o' = .suspended)
    (i : Interaction) : CutShort World.shown n (o, { w with shown := w.shown ++ [i] })
      (o', { w with shown := w.shown ++ [i] }) := by
  have hlength : (w.shown ++ [i]).length = w.shown.length + 1 := List.length_append
  rcases Nat.lt_or_eq_of_le h with hlt | heq
  · rw [hbefore hlt]
    exact .inl ⟨rfl, by dsimp only; omega⟩
  · rw [hlast heq]
    exact .inr ⟨_, rfl, by dsimp only; omega, (List.take_of_length_le (by dsimp only; omega)).symm⟩

theorem Play.ask_eq (prompt : ChoicePrompt) :
    Play.ask screen prompt w =
      (match screen.chooses w.shown prompt with
        | some i => .done i
        | none => .suspended, { w with shown := w.shown ++ [.choices prompt] }) := by
  unfold Play.ask
  cases screen.chooses w.shown prompt <;> rfl

theorem Command.perform_upTo (c : Command α) (h : w.shown.length ≤ n) :
    CutShort World.shown n (c.perform screen w) (c.perform (screen.upTo n) w) := by
  cases c with
  | display message =>
    refine .interaction h (fun hlt => ?_) (fun heq => ?_) (.message message)
    · simp [Screen.upTo, hlt]
    · simp [Screen.upTo, heq]
  | ask prompt =>
    simp only [perform, Play.ask_eq]
    refine .interaction h (fun hlt => ?_) (fun heq => ?_) (.choices prompt)
    · simp [Screen.upTo, hlt]
    · simp [Screen.upTo, heq]
  | look f => exact .inl ⟨rfl, by simpa [perform] using h⟩
  | change m hm => exact .inl ⟨rfl, by simpa [perform] using h⟩
  | chance f hf => exact .inl ⟨rfl, by simpa [perform] using h⟩
  | fail cause => exact .inl ⟨rfl, h⟩
  | exhausted => exact .inl ⟨rfl, h⟩

theorem Script.play_upTo (script : Script α) (h : w.shown.length ≤ n) :
    CutShort World.shown n (script.play screen w) (script.play (screen.upTo n) w) := by
  induction script generalizing w with
  | done a => exact .inl ⟨rfl, h⟩
  | step command next ih =>
    have hcommand := command.perform_upTo screen h
    unfold play
    rw [Play.bind_eq, Play.bind_eq]
    rcases hperform : command.perform screen w with ⟨o, w₁⟩
    rw [hperform] at hcommand
    rcases hcommand with ⟨hsame, hfew⟩ | ⟨w₂, hwaits, hmore, hshown⟩
    · rw [hsame]
      cases o with
      | done b => exact ih b hfew
      | failed cause => exact .inl ⟨rfl, hfew⟩
      | suspended => exact .inl ⟨rfl, hfew⟩
      | exhausted => exact .inl ⟨rfl, hfew⟩
    · rw [hwaits]
      refine .inr ⟨w₂, rfl, ?_⟩
      cases o with
      | done b =>
        obtain ⟨hmore, hsame⟩ := take_of_prefix hmore ((next b).play_shown screen)
        exact ⟨hmore, hshown.trans hsame⟩
      | failed cause => exact ⟨hmore, hshown⟩
      | suspended => exact ⟨hmore, hshown⟩
      | exhausted => exact ⟨hmore, hshown⟩

end Screens

namespace Engine

variable {e : Engine} (screen : Screen) {n : Nat}

theorem processNext_shown (patience : Nat) :
    e.world.shown <+: (e.processNext screen patience).2.world.shown := by
  rcases processNext_cases (e := e) screen patience with hsame | ⟨-, -, p, queue, -, hpass⟩
  · simp only [hsame, List.prefix_refl]
  · have hshown := (Script.pass patience p).play_shown screen
      (w := (e.setState { e.state with queue }).world)
    rw [Script.Of.pass patience p screen] at hshown
    rw [hpass, inFlightDuring_world, map_world]
    exact hshown

theorem runUntilIdle_shown (patience passes : Nat) :
    e.world.shown <+: (runUntilIdle screen patience passes e).2.world.shown :=
  runUntilIdle_keeps (Q := fun e' => e.world.shown <+: e'.world.shown)
    (fun _ h => h.trans (processNext_shown screen patience)) (List.prefix_refl _) passes

theorem runUntilIdle_shown_next (patience passes : Nat) :
    (e.processNext screen patience).2.world.shown <+:
      (runUntilIdle screen patience (passes + 1) e).2.world.shown := by
  unfold runUntilIdle
  rcases e.processNext screen patience with ⟨o, e₁⟩
  cases o with
  | done report =>
    cases report with
    | none => exact List.prefix_refl _
    | some report =>
      have hrest := runUntilIdle_shown screen (e := e₁) patience passes
      dsimp only
      rcases hrun : runUntilIdle screen patience passes e₁ with ⟨o', e₂⟩
      rw [hrun] at hrest
      cases o' with
      | _ => exact hrest
  | failed cause => exact List.prefix_refl _
  | suspended => exact List.prefix_refl _
  | exhausted => exact List.prefix_refl _

theorem processNext_upTo (h : e.world.shown.length ≤ n) (patience : Nat) :
    CutShort (·.world.shown) n (e.processNext screen patience)
      (e.processNext (screen.upTo n) patience) := by
  rw [processNext_eq, processNext_eq]
  cases e.upcoming? with
  | none => exact .inl ⟨rfl, h⟩
  | some popped =>
    obtain ⟨p, queue⟩ := popped
    have hpass := (Script.pass patience p).play_upTo screen
      (w := (e.setState { e.state with queue }).world) h
    rw [Script.Of.pass patience p screen, Script.Of.pass patience p (screen.upTo n)] at hpass
    dsimp only at hpass ⊢
    rw [inFlightDuring_map, inFlightDuring_map]
    rcases hwhole : Play.pass screen patience p (e.setState { e.state with queue }).world with
      ⟨o, w⟩
    rw [hwhole] at hpass
    rcases hpass with ⟨hsame, hfew⟩ | ⟨w', hwaits, hshown⟩
    · rw [hsame]
      cases o with
      | _ => exact .inl ⟨rfl, hfew⟩
    · rw [hwaits]
      cases o with
      | _ => exact .inr ⟨_, rfl, hshown⟩

theorem runUntilIdle_upTo (h : e.world.shown.length ≤ n) (patience passes : Nat) :
    CutShort (·.world.shown) n (runUntilIdle screen patience passes e)
      (runUntilIdle (screen.upTo n) patience passes e) := by
  induction passes generalizing e with
  | zero => exact .inl ⟨rfl, h⟩
  | succ passes ih =>
    rcases processNext_upTo screen h patience with
      ⟨hsame, hfew⟩ | ⟨e₂, hwaits, hmore, hshown⟩
    · unfold runUntilIdle
      rw [hsame]
      rcases hnext : e.processNext screen patience with ⟨o, e₁⟩
      rw [hnext] at hfew
      cases o with
      | done report =>
        cases report with
        | none => exact .inl ⟨rfl, hfew⟩
        | some report =>
          have hrest := ih hfew
          dsimp only
          rcases hrun : runUntilIdle screen patience passes e₁ with ⟨o', e₃⟩
          rw [hrun] at hrest
          rcases hrest with ⟨hsame', hfew'⟩ | ⟨e₄, hwaits, hshown⟩
          · rw [hsame']
            cases o' with
            | _ => exact .inl ⟨rfl, hfew'⟩
          · rw [hwaits]
            cases o' with
            | _ => exact .inr ⟨e₄, rfl, hshown⟩
      | failed cause => exact .inl ⟨rfl, hfew⟩
      | suspended => exact .inl ⟨rfl, hfew⟩
      | exhausted => exact .inl ⟨rfl, hfew⟩
    · have hcut : runUntilIdle (screen.upTo n) patience (passes + 1) e = (.suspended, e₂) := by
        unfold runUntilIdle
        rw [hwaits]
      obtain ⟨hmore, hsame⟩ := take_of_prefix hmore (runUntilIdle_shown_next screen patience passes)
      exact .inr ⟨e₂, hcut, hmore, hshown.trans hsame⟩

end Engine

/-! ### Engines in flight -/

/-- A pass was left waiting for a screen that never answered. -/
def Answer.Abandoned : Answer → Prop
  | .report .suspended | .reports .suspended => True
  | _ => False

/-- The answer of a call that has to wait for a pass in flight. -/
def Call.refusal? : Call → Option Answer
  | .setVariable _ _ | .giveItem _ _ | .setStatus _ _ | .reset | .restore _ =>
    some (.finished (.error (.usage .passInFlight)))
  | .tick => some (.expired (.error (.usage .passInFlight)))
  | .next _ => some (.report (.failed (.usage .passInFlight)))
  | .run _ (_ + 1) => some (.reports (.failed (.usage .passInFlight)))
  | _ => none

namespace State

/-- What can be done to a state while a pass is in flight, and what is handed over by that. -/
inductive Extended (s : State) : List Notification → State → Prop
  | defined {s' : State} (h : s.KeptIn s') : s.Extended [] s'
  | enqueued (trigger : String) (priority : Int) (probability : Float) :
    s.Extended [] (s.enqueue trigger priority probability)
  | drained : s.Extended s.notifications.reverse { s with notifications := [] }

/-- A state has all that another one has, with no more than new definitions and pending triggers;
what there is to drain is left aside. -/
structure FrozenIn (s s' : State) : Prop where
  kept : s.KeptIn { s' with queue := s.queue, notifications := s.notifications }
  pending : s.queue.pending.Sublist s'.queue.pending

namespace FrozenIn

variable {s s₁ s' : State}

theorem refl (s : State) : s.FrozenIn s := ⟨.refl s, .refl _⟩

theorem trans (h : s.FrozenIn s₁) (h' : s₁.FrozenIn s') : s.FrozenIn s' where
  kept := h.kept.trans { h'.kept with queue := rfl, notifications := rfl }
  pending := h.pending.trans h'.pending

end FrozenIn

namespace Extended

variable {s s' : State} {drained : List Notification}

theorem frozenIn (h : s.Extended drained s') : s.FrozenIn s' := by
  cases h with
  | defined h => exact ⟨{ h with queue := rfl, notifications := rfl }, by rw [h.queue]⟩
  | enqueued trigger priority probability =>
    exact ⟨.refl s, TriggerQueue.sublist_insert _ _⟩
  | drained => exact ⟨.refl s, .refl _⟩

theorem told (h : s.Extended drained s') :
    drained ++ s'.notifications.reverse = s.notifications.reverse := by
  cases h with
  | defined h => rw [h.notifications, List.nil_append]
  | enqueued trigger priority probability => rfl
  | drained => exact List.append_nil _

end Extended

end State

namespace Engine

variable {e e' : Engine}

theorem keptByDefining_inFlight (flying : Bool) : KeptByDefining (·.inFlight = flying) where
  compiler _ h := h
  defineVariable h hx := by
    obtain ⟨-, -, rfl⟩ := defineVariable_eq_ok hx
    exact h
  registerAttribute h hx := by
    obtain ⟨-, -, rfl⟩ := registerAttribute_eq_ok hx
    exact h
  registerItem h hx := by
    obtain ⟨-, rfl⟩ := registerItem_eq_ok hx
    exact h
  registerStatus h hx := by
    obtain ⟨-, rfl⟩ := registerStatus_eq_ok hx
    exact h
  registerEvent h hx := by
    obtain ⟨registry, -, rfl⟩ := registerEvent_eq_ok hx
    exact h

theorem processNext_of_inFlight (h : e.inFlight = true) (screen : Screen) (patience : Nat) :
    e.processNext screen patience = (.failed (.usage .passInFlight), e) := by
  unfold processNext
  rw [requireIdle_of_inFlight h]

theorem runUntilIdle_of_inFlight (h : e.inFlight = true) (screen : Screen) (patience passes : Nat) :
    runUntilIdle screen patience (passes + 1) e = (.failed (.usage .passInFlight), e) := by
  unfold runUntilIdle
  rw [processNext_of_inFlight h]

/-- What has to wait for a pass in flight is refused and does nothing. -/
theorem perform_refused (h : e.inFlight = true) (screen : Screen) {call : Call} {answer : Answer}
    (hcall : call.refusal? = some answer) : e.perform screen call = (answer, e) := by
  cases call with
  | setVariable _ _ | giveItem _ _ | setStatus _ _ =>
    cases hcall
    exact congrArg e.attempt (change_of_inFlight h _)
  | tick =>
    cases hcall
    unfold perform tick
    rw [requireIdle_of_inFlight h]
    rfl
  | reset =>
    cases hcall
    unfold perform reset
    rw [requireIdle_of_inFlight h]
    rfl
  | restore save =>
    cases hcall
    unfold perform restore
    rw [requireIdle_of_inFlight h]
    rfl
  | next patience =>
    cases hcall
    exact congrArg (fun r => (Answer.report r.1, r.2)) (processNext_of_inFlight h screen patience)
  | run patience passes =>
    cases passes with
    | zero => cases hcall
    | succ passes =>
      cases hcall
      exact congrArg (fun r => (Answer.reports r.1, r.2))
        (runUntilIdle_of_inFlight h screen patience passes)
  | _ => cases hcall

/-- What does not have to wait only extends the state, and leaves the pass in flight. -/
theorem perform_extended (h : e.inFlight = true) (screen : Screen) {call : Call}
    (hcall : call.refusal? = none) :
    (e.perform screen call).2.inFlight = true ∧
      e.state.Extended (drainedOf [(e.perform screen call).1]) (e.perform screen call).2.state := by
  by_cases hdrain : call = .drain
  · subst hdrain
    have hdrained : drainedOf [(e.perform screen .drain).1] = e.state.notifications.reverse :=
      List.append_nil _
    rw [hdrained]
    exact ⟨h, .drained⟩
  rw [drainedOf_perform screen e hdrain]
  cases call with
  | load _ | defineVariable _ _ | registerAttribute _ | registerItem _ | registerStatus _
  | registerEvent _ =>
    exact ⟨(keptByDefining_inFlight true).perform h screen trivial,
      .defined (perform_keptIn screen trivial)⟩
  | evaluate source =>
    have hsame : (e.perform screen (.evaluate source)).2.state = e.state :=
      congrArg World.state (evaluate_world source)
    have hflight : (e.perform screen (.evaluate source)).2.inFlight = e.inFlight :=
      perform_inFlight screen trivial fun h => h
    rw [hflight, hsame]
    exact ⟨h, .defined (.refl _)⟩
  | trigger id probability priority => exact ⟨h, .enqueued id priority probability⟩
  | fire id => exact ⟨h, .enqueued id _ 1.0⟩
  | registerFunction _ _ | compile _ | value _ | save => exact ⟨h, .defined (.refl _)⟩
  | run patience passes =>
    cases passes with
    | zero => exact ⟨h, .defined (.refl _)⟩
    | succ passes => cases hcall
  | drain => exact absurd rfl hdrain
  | _ => cases hcall

/-- A row of calls leaves an engine in flight and its state frozen. What is handed over and what is
still to be drained was to be drained before. -/
structure Stays (e : Engine) (answers : List Answer) (e' : Engine) : Prop where
  inFlight : e'.inFlight = true
  frozen : e.state.FrozenIn e'.state
  told : drainedOf answers ++ e'.pending = e.pending

theorem perform_stays (h : e.inFlight = true) (screen : Screen) (call : Call) :
    e.Stays [(e.perform screen call).1] (e.perform screen call).2 := by
  cases hrefusal : call.refusal? with
  | some answer =>
    have hdrain : call ≠ .drain := by
      rintro rfl
      cases hrefusal
    have htold := drainedOf_perform screen e hdrain
    rw [perform_refused h screen hrefusal] at htold ⊢
    exact ⟨h, .refl _, by rw [htold, List.nil_append]⟩
  | none =>
    obtain ⟨hflight, hextended⟩ := perform_extended h screen hrefusal
    exact ⟨hflight, hextended.frozenIn, hextended.told⟩

theorem performAll_stays (h : e.inFlight = true) (screen : Screen) (calls : List Call) :
    e.Stays (e.performAll screen calls).1 (e.performAll screen calls).2 := by
  induction calls generalizing e with
  | nil => exact ⟨h, .refl _, rfl⟩
  | cons call calls ih =>
    have hfirst := perform_stays h screen call
    have hrest := ih hfirst.inFlight
    rw [performAll_cons]
    refine ⟨hrest.inFlight, hfirst.frozen.trans hrest.frozen, ?_⟩
    rw [drainedOf_cons, List.append_assoc, hrest.told, hfirst.told]

/-! ### Abandoned passes -/

theorem processNext_suspended {screen : Screen} {patience : Nat}
    (h : (e.processNext screen patience).1 = .suspended) :
    (e.processNext screen patience).2.inFlight = true := by
  rw [processNext_eq] at h ⊢
  cases hnext : e.upcoming? with
  | none =>
    rw [hnext] at h
    dsimp only at h
    split at h <;> cases h
  | some popped =>
    obtain ⟨p, queue⟩ := popped
    rw [hnext] at h
    dsimp only at h ⊢
    rw [inFlightDuring_map] at h ⊢
    rcases hpass : Play.pass screen patience p (e.setState { e.state with queue }).world with ⟨o, w⟩
    rw [hpass] at h
    cases o with
    | suspended => rfl
    | _ => cases h

theorem runUntilIdle_suspended {screen : Screen} {patience passes : Nat}
    (h : (runUntilIdle screen patience passes e).1 = .suspended) :
    (runUntilIdle screen patience passes e).2.inFlight = true := by
  induction passes generalizing e with
  | zero => cases h
  | succ passes ih =>
    have hnext : (e.processNext screen patience).1 = .suspended →
        (e.processNext screen patience).2.inFlight = true := processNext_suspended
    unfold runUntilIdle at h ⊢
    rcases hpass : e.processNext screen patience with ⟨o, e₁⟩
    rw [hpass] at h hnext
    cases o with
    | done report =>
      cases report with
      | none => cases h
      | some report =>
        dsimp only at h ⊢
        have hrest := ih (e := e₁)
        rcases hrun : runUntilIdle screen patience passes e₁ with ⟨o', e₂⟩
        rw [hrun] at h hrest
        cases o' with
        | suspended => exact hrest rfl
        | _ => cases h
    | suspended => exact hnext rfl
    | _ => cases h

theorem attempt_not_abandoned (x : Except Error Engine) : ¬ (e.attempt x).1.Abandoned := by
  unfold attempt
  split <;> exact fun h => h

/-- Whatever waits for ever for its screen stays in flight. -/
theorem perform_abandoned {screen : Screen} {call : Call}
    (h : (e.perform screen call).1.Abandoned) : (e.perform screen call).2.inFlight = true := by
  cases call with
  | next patience =>
    change (Answer.report (e.processNext screen patience).1).Abandoned at h
    change (e.processNext screen patience).2.inFlight = true
    cases hpass : (e.processNext screen patience).1 with
    | suspended => exact processNext_suspended hpass
    | _ =>
      rw [hpass] at h
      exact h.elim
  | run patience passes =>
    change (Answer.reports (runUntilIdle screen patience passes e).1).Abandoned at h
    change (runUntilIdle screen patience passes e).2.inFlight = true
    cases hrun : (runUntilIdle screen patience passes e).1 with
    | suspended => exact runUntilIdle_suspended hrun
    | _ =>
      rw [hrun] at h
      exact h.elim
  | tick =>
    unfold perform at h
    dsimp only at h
    split at h <;> exact h.elim
  | load _ | registerFunction _ _ | compile _ | evaluate _ | value _ | drain | trigger _ _ _
  | fire _ | save => exact h.elim
  | _ => exact absurd h (attempt_not_abandoned _)

/-- A pass can be abandoned at each interaction that it shows, be it a message or a choice. -/
theorem perform_upTo {screen : Screen} {call : Call} {n : Nat} (hcall : call.Passes)
    (h : e.world.shown.length ≤ n) (hn : n < (e.perform screen call).2.world.shown.length) :
    (e.perform (screen.upTo n) call).1.Abandoned ∧
      (e.perform (screen.upTo n) call).2.world.shown =
        (e.perform screen call).2.world.shown.take (n + 1) := by
  cases call with
  | next patience =>
    rcases processNext_upTo screen h patience with ⟨-, hfew⟩ | ⟨e', hwaits, -, hshown⟩
    · exact absurd hn (Nat.not_lt.2 hfew)
    · have hcut : e.perform (screen.upTo n) (.next patience) = (.report .suspended, e') :=
        congrArg (fun r => (Answer.report r.1, r.2)) hwaits
      rw [hcut]
      exact ⟨trivial, hshown⟩
  | run patience passes =>
    rcases runUntilIdle_upTo screen h patience passes with ⟨-, hfew⟩ | ⟨e', hwaits, -, hshown⟩
    · exact absurd hn (Nat.not_lt.2 hfew)
    · have hcut : e.perform (screen.upTo n) (.run patience passes) = (.reports .suspended, e') :=
        congrArg (fun r => (Answer.reports r.1, r.2)) hwaits
      rw [hcut]
      exact ⟨trivial, hshown⟩
  | _ => exact hcall.elim

end Engine

/-- An abandoned pass freezes the game. A pass can be abandoned at each message and each choice that
it shows, however deep in its actions: there is a screen that answers all before it, and never this
one. Once it is, then after any further calls the engine is still in flight, and the state is the
one that was abandoned, but for new definitions, for triggers that came to the queue, and for what
was drained; nothing new is told. All that time the calls that could change the game are refused and
change nothing, and each of the others defines, enqueues one trigger, drains, or does nothing to the
state. -/
theorem abandoned_pass_freezes :
    (∀ (e : Engine) (screen : Screen) (call : Call) (n : Nat), call.Passes →
      e.world.shown.length ≤ n → n < (e.perform screen call).2.world.shown.length →
      (e.perform (screen.upTo n) call).1.Abandoned ∧
        (e.perform (screen.upTo n) call).2.world.shown =
          (e.perform screen call).2.world.shown.take (n + 1)) ∧
    ∀ (e frozen later : Engine) (screen screen' : Screen) (call : Call) (calls : List Call)
      (answer : Answer) (answers : List Answer),
      e.perform screen call = (answer, frozen) → answer.Abandoned →
      frozen.performAll screen' calls = (answers, later) →
      frozen.Stays answers later ∧
      ∀ (screen : Screen) (call : Call),
        (∀ answer, call.refusal? = some answer → later.perform screen call = (answer, later)) ∧
        (call.refusal? = none → later.state.Extended (drainedOf [(later.perform screen call).1])
          (later.perform screen call).2.state) := by
  refine ⟨fun e screen call n => Engine.perform_upTo, ?_⟩
  intro e frozen later screen screen' call calls answer answers hcall habandoned hlater
  have hflight : frozen.inFlight = true := by
    have hwaits : (e.perform screen call).1.Abandoned → (e.perform screen call).2.inFlight = true :=
      Engine.perform_abandoned
    rw [hcall] at hwaits
    exact hwaits habandoned
  have hstays := Engine.performAll_stays hflight screen' calls
  rw [hlater] at hstays
  exact ⟨hstays, fun screen call => ⟨fun answer => Engine.perform_refused hstays.inFlight screen,
    fun hcall => (Engine.perform_extended hstays.inFlight screen hcall).2⟩⟩

/-! ### A storm that nobody hears of -/

/-- A screen that never answers. -/
def deaf : Screen := ⟨fun _ _ => false, fun _ _ => none⟩

def storm : Event Expression :=
  { id := "storm", trigger := "dusk", probability := .constant 1.0
    actions := [.updateVariable ⟨"wind", .constant 9.0⟩, .message { text := "A storm!" },
      .updateVariable ⟨"wind", .constant 0.0⟩] }

def port : Engine :=
  (Engine.performAll quiet [.defineVariable "wind" ⟨0, -infinity, infinity⟩, .registerEvent storm,
    .fire "dusk"] (.new {})).2

def becalmed : Engine := (port.perform deaf (.next 1)).2

/-- What a host tries while nobody answers. -/
def attempts : List Call :=
  [.setVariable "wind" 5, .next 1, .reset, .fire "dawn", .defineVariable "rain" ⟨1, 0, 2⟩, .drain]

theorem abandoned_pass_freezes_port :
    (port.perform (quiet.upTo 0) (.next 1)).1.Abandoned ∧
      (Answer.report .suspended).Abandoned ∧
      becalmed.Stays (becalmed.performAll quiet attempts).1 (becalmed.performAll quiet attempts).2 ∧
      (becalmed.performAll quiet attempts).2.perform quiet .reset =
        (.finished (.error (.usage .passInFlight)), (becalmed.performAll quiet attempts).2) ∧
      ((becalmed.performAll quiet attempts).2.state.vars["wind"]?).map Variable.value = some 9 := by
  obtain ⟨hcut, hfreezes⟩ := abandoned_pass_freezes
  have hshown : 0 < (port.perform quiet (.next 1)).2.world.shown.length := by
    decide +kernel
  have hwaits : port.perform deaf (.next 1) = (.report .suspended, becalmed) := Prod.ext rfl rfl
  obtain ⟨hstays, hcalls⟩ := hfreezes port becalmed _ deaf quiet (.next 1) attempts
    (.report .suspended) _ hwaits trivial rfl
  have hwind : ((becalmed.performAll quiet attempts).2.state.vars["wind"]?).map Variable.value =
      some 9 := by
    decide +kernel
  exact ⟨(hcut port quiet (.next 1) 0 trivial (Nat.le_refl 0) hshown).1, trivial, hstays,
    (hcalls quiet .reset).1 _ rfl, hwind⟩

end Scenario
