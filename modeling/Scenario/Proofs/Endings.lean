import Scenario.Proofs.Finales

/-!
The end of a game. Once the game has ended no trigger has a pass any more, so that the end is told
of once at most until the engine is reset or restored.
-/

namespace Scenario

namespace Engine

variable {screen : Screen} {patience : Nat} {e e' : Engine}

/-! ### After the end -/

/-- The game has ended, and no pass is in flight. -/
def Over (e : Engine) : Prop := e.inFlight = false ∧ e.state.ending.isSome

theorem Over.processNext (h : e.Over) (screen : Screen) (patience : Nat) :
    e.processNext screen patience = (.done none, e) := by
  unfold Engine.processNext
  rw [requireIdle_of_idle h.1]
  exact if_pos h.2

end Engine

/-! ### What is told of the end -/

def Notification.ends : Notification → Bool
  | .gameEnded _ => true
  | _ => false

def endings (log : List Notification) : Nat := log.countP Notification.ends

theorem endings_append (log more : List Notification) :
    endings (log ++ more) = endings log + endings more := List.countP_append

theorem endings_reverse (log : List Notification) : endings log.reverse = endings log :=
  List.countP_reverse

/-- From one state to another the game has not ended, and nothing was told of an end. -/
structure State.Calm (s s' : State) : Prop where
  ending : s'.ending = s.ending
  told : ∃ pushed, s'.notifications = pushed ++ s.notifications ∧ endings pushed = 0

namespace State.Calm

variable {s s₁ s' : State}

theorem refl (s : State) : Calm s s := ⟨rfl, [], rfl, rfl⟩

theorem trans (h : Calm s s₁) (h' : Calm s₁ s') : Calm s s' where
  ending := h'.ending.trans h.ending
  told := by
    obtain ⟨pushed, hpushed, hnone⟩ := h.told
    obtain ⟨pushed', hpushed', hnone'⟩ := h'.told
    refine ⟨pushed' ++ pushed, ?_, ?_⟩
    · rw [hpushed', hpushed, List.append_assoc]
    · rw [endings_append, hnone, hnone']

theorem mutate {m : Mutation} (hm : ¬ m.Ends) (h : s.mutate m = .ok s') : Calm s s' := by
  cases m with
  | setVariable id x =>
    obtain ⟨v, -, rfl⟩ := setVariable_eq_ok.1 h
    refine ⟨rfl, _, rfl, ?_⟩
    unfold valueChange
    split <;> rfl
  | setBounds id min max =>
    obtain ⟨v, w, -, -, rfl, rfl⟩ := setVariableBounds_eq_ok.1 h
    refine ⟨rfl, _, List.append_cons _ _ _, ?_⟩
    unfold valueChange
    split <;> rfl
  | giveItem id amount =>
    obtain ⟨provider, inventory, -, rfl, rfl⟩ := giveItem_eq_ok.1 h
    refine ⟨rfl, _, rfl, ?_⟩
    unfold countChange
    split <;> rfl
  | setStatus id duration =>
    obtain ⟨provider, statuses, -, rfl, rfl⟩ := setStatus_eq_ok.1 h
    refine ⟨rfl, _, rfl, ?_⟩
    unfold statusChange
    split <;> rfl
  | toggle id enabled =>
    obtain ⟨flags, -, rfl⟩ := setEventEnabled_eq_ok.1 h
    refine ⟨rfl, _, rfl, ?_⟩
    unfold toggleChange
    split <;> rfl
  | fire id trigger =>
    obtain ⟨-, rfl⟩ := fireEvent_eq_ok.1 h
    exact ⟨rfl, [.eventFired id trigger], rfl, rfl⟩
  | tick =>
    simp only [State.mutate, tick_eq] at h
    cases h
    refine ⟨rfl, _, rfl, ?_⟩
    rw [endings_reverse]
    simp [endings, List.countP_map, Function.comp_def, Notification.ends]
  | request _ _ _ | draw | pop =>
    cases h
    exact ⟨rfl, [], rfl, rfl⟩
  | endGame outcome => exact absurd trivial hm

end State.Calm

theorem State.GoesOn.calm {s s' : State} (h : s.GoesOn s') : s.Calm s' :=
  h.keeps (fun _ _ _ hm hs hmutate => hs.trans (.mutate hm hmutate)) (.refl s)

/-- One if the game has ended. -/
def State.ends (s : State) : Nat := if s.ending.isSome then 1 else 0

/-- What is told on the way from one state to another accounts for its being over. -/
def State.Settles (s s' : State) : Prop :=
  ∃ pushed, s'.notifications = pushed ++ s.notifications ∧ endings pushed + s.ends = s'.ends

namespace State.Settles

variable {s s₁ s' : State}

theorem trans (h : Settles s s₁) (h' : Settles s₁ s') : Settles s s' := by
  obtain ⟨pushed, hpushed, hover⟩ := h
  obtain ⟨pushed', hpushed', hover'⟩ := h'
  refine ⟨pushed' ++ pushed, ?_, ?_⟩
  · rw [hpushed', hpushed, List.append_assoc]
  · rw [endings_append]
    omega

theorem of_calm (h : s.Calm s') : Settles s s' := by
  obtain ⟨pushed, hpushed, hnone⟩ := h.told
  refine ⟨pushed, hpushed, ?_⟩
  unfold ends
  rw [h.ending, hnone, Nat.zero_add]

theorem endGame (h : s.ending = none) (outcome : Option String) :
    Settles s (s.endGame outcome) := by
  refine ⟨[.gameEnded outcome], rfl, ?_⟩
  unfold ends
  rw [h]
  rfl

end State.Settles

theorem Finale.Played.settles {screen : Screen} {patience : Nat} {f : Finale} {w' : World}
    (h : f.Played screen patience w') (hending : f.last.state.ending = none) :
    f.last.state.Settles w'.state := by
  have hretired := Play.GoesOn.retire f.event (f.last.endGame f.outcome)
  rw [h.retires] at hretired
  exact (State.Settles.endGame hending f.outcome).trans (.of_calm hretired.calm)

/-! ### Sessions -/

/-- The host is refused what it has asked for. -/
def Answer.Refused : Answer → Prop
  | .finished (.error _) => True
  | _ => False

namespace Engine

variable {screen : Screen} {patience : Nat} {e e' : Engine}

structure Calm (e e' : Engine) : Prop where
  inFlight : e'.inFlight = e.inFlight
  state : e.state.Calm e'.state

theorem Calm.refl (e : Engine) : Calm e e := ⟨rfl, .refl e.state⟩

theorem keptByDefining_calm (e : Engine) : KeptByDefining (Calm e) where
  compiler _ h := ⟨h.inFlight, h.state⟩
  defineVariable h hx := by
    obtain ⟨-, -, rfl⟩ := defineVariable_eq_ok hx
    exact ⟨h.inFlight, { h.state with }⟩
  registerAttribute h hx := by
    obtain ⟨-, -, rfl⟩ := registerAttribute_eq_ok hx
    exact ⟨h.inFlight, { h.state with }⟩
  registerItem h hx := by
    obtain ⟨-, rfl⟩ := registerItem_eq_ok hx
    exact ⟨h.inFlight, { h.state with }⟩
  registerStatus h hx := by
    obtain ⟨-, rfl⟩ := registerStatus_eq_ok hx
    exact ⟨h.inFlight, { h.state with }⟩
  registerEvent h hx := by
    obtain ⟨registry, -, rfl⟩ := registerEvent_eq_ok hx
    exact ⟨h.inFlight, { h.state with }⟩

theorem attempt_refused {x : Except Error Engine} (h : (e.attempt x).1.Refused) :
    (e.attempt x).2 = e := by
  cases x with
  | ok e' => exact h.elim
  | error cause => rfl

/-- The calls that go on with the game, other than those with passes and those that drain. -/
theorem perform_calm {call : Call} (hcall : call.Continues ∨ (e.perform screen call).1.Refused)
    (hpass : ¬ call.Passes) (hdrain : call ≠ .drain) : Calm e (e.perform screen call).2 := by
  have hplays (hplays : call.Plays) : Calm e (e.perform screen call).2 := by
    refine ⟨perform_inFlight screen hplays hpass, State.GoesOn.calm ?_⟩
    refine (perform_mutates screen hplays hpass).mono fun m hm => ?_
    cases call with
    | setVariable _ _ | giveItem _ _ | setStatus _ _ | tick | trigger _ _ _ | fire _ =>
      cases hm
      exact id
    | _ => cases hm
  cases call with
  | load _ | defineVariable _ _ | registerAttribute _ | registerItem _ | registerStatus _
  | registerEvent _ => exact (keptByDefining_calm e).perform (.refl e) screen trivial
  | registerFunction name arity => exact ⟨rfl, .refl e.state⟩
  | reset | restore _ =>
    rcases hcall with hcontinues | hrefused
    · exact hcontinues.elim
    · exact (attempt_refused hrefused).symm ▸ .refl e
  | drain => exact absurd rfl hdrain
  | next _ | run _ _ => exact absurd trivial hpass
  | setVariable _ _ | giveItem _ _ | setStatus _ _ | tick | trigger _ _ _ | fire _ | compile _
  | evaluate _ | value _ | save => exact hplays trivial

theorem Over.perform (h : e.Over) {call : Call}
    (hcall : call.Continues ∨ (e.perform screen call).1.Refused) :
    (e.perform screen call).2.Over := by
  have hsame : ∀ e : Engine, e.Over → ∀ patience, (e.processNext screen patience).2.Over := by
    intro e he patience
    rw [he.processNext]
    exact he
  by_cases hpass : call.Passes
  · cases call with
    | next patience => exact hsame e h patience
    | run patience passes => exact runUntilIdle_keeps (fun e he => hsame e he patience) h passes
    | _ => exact hpass.elim
  · by_cases hdrain : call = .drain
    · subst hdrain
      exact h
    · have hcalm := perform_calm hcall hpass hdrain
      refine ⟨hcalm.inFlight.trans h.1, ?_⟩
      rw [hcalm.state.ending]
      exact h.2

theorem processNext_settles (hw : e.state.WellFormed) (screen : Screen) (patience : Nat) :
    e.state.Settles (e.processNext screen patience).2.state := by
  rcases processNext_cases (e := e) screen patience with hsame | ⟨-, hending, -⟩
  · rw [hsame]
    exact .of_calm (.refl e.state)
  · have hplays := processNext_plays hw screen patience
    rcases hnext : e.processNext screen patience with ⟨o, e'⟩
    rw [hnext] at hplays
    generalize e.traceNext screen patience = trace at hplays
    dsimp only at hplays
    cases hplays with
    | on hquiet hstate => exact .of_calm hstate.calm
    | ended htold hplayed hstate =>
      have hlast := hstate.calm
      exact (State.Settles.of_calm hlast).trans (hplayed.settles (hlast.ending.trans hending))

/-- The ends that calls tell of account for the game being over. -/
def Settles (e e' : Engine) (answers : List Answer) : Prop :=
  ∃ log, drainedOf answers ++ e'.pending = e.pending ++ log ∧
    endings log + e.state.ends = e'.state.ends

theorem Settles.of_state {call : Call} (h : e.state.Settles (e.perform screen call).2.state)
    (hdrain : call ≠ .drain) :
    Settles e (e.perform screen call).2 [(e.perform screen call).1] := by
  obtain ⟨pushed, hpushed, hover⟩ := h
  refine ⟨pushed.reverse, ?_, by rw [endings_reverse, hover]⟩
  rw [drainedOf_perform screen e hdrain, List.nil_append]
  unfold pending
  rw [hpushed, List.reverse_append]

theorem Settles.cons {e₁ : Engine} {answer : Answer} {answers : List Answer}
    (h : Settles e e₁ [answer]) (h' : Settles e₁ e' answers) :
    Settles e e' (answer :: answers) := by
  obtain ⟨log, htold, hover⟩ := h
  obtain ⟨log', htold', hover'⟩ := h'
  refine ⟨log ++ log', ?_, ?_⟩
  · rw [drainedOf_cons, List.append_assoc, htold', ← List.append_assoc, htold, List.append_assoc]
  · rw [endings_append]
    omega

theorem perform_settles (hw : e.state.WellFormed) {call : Call}
    (hcall : call.Continues ∨ (e.perform screen call).1.Refused) :
    Settles e (e.perform screen call).2 [(e.perform screen call).1] := by
  by_cases hpass : call.Passes
  · cases call with
    | next patience => exact .of_state (processNext_settles hw screen patience) (by simp)
    | run patience passes =>
      refine .of_state ?_ (by simp)
      have hruns : (runUntilIdle screen patience passes e).2.state.WellFormed ∧
          e.state.Settles (runUntilIdle screen patience passes e).2.state := runUntilIdle_keeps
        (Q := fun e' => e'.state.WellFormed ∧ e.state.Settles e'.state)
        (fun e' h => ⟨h.1.becomes (processNext_becomes screen patience),
          h.2.trans (processNext_settles h.1 screen patience)⟩)
        ⟨hw, .of_calm (.refl e.state)⟩ passes
      exact hruns.2
    | _ => exact hpass.elim
  · by_cases hdrain : call = .drain
    · subst hdrain
      refine ⟨[], ?_, Nat.zero_add _⟩
      simp [drainedOf, perform, drainNotifications, pending, setState, state]
    · exact .of_state (.of_calm (perform_calm hcall hpass hdrain).state) hdrain

/-- No reset and no restoring among the calls goes through. -/
def Unbroken (screen : Screen) : List Call → Engine → Prop
  | [], _ => True
  | call :: calls, e =>
    (call.Continues ∨ (e.perform screen call).1.Refused) ∧
      Unbroken screen calls (e.perform screen call).2

theorem Unbroken.of_continues {calls : List Call}
    (h : ∀ call ∈ calls, call.Continues) : e.Unbroken screen calls := by
  induction calls generalizing e with
  | nil => trivial
  | cons call calls ih =>
    obtain ⟨hcall, hcalls⟩ := List.forall_mem_cons.1 h
    exact ⟨.inl hcall, ih hcalls⟩

theorem Over.performAll (h : e.Over) {calls : List Call} (hcalls : e.Unbroken screen calls) :
    (e.performAll screen calls).2.Over := by
  induction calls generalizing e with
  | nil => exact h
  | cons call calls ih =>
    rw [performAll_cons]
    exact ih (h.perform hcalls.1) hcalls.2

theorem performAll_settles (hw : e.state.WellFormed) {calls : List Call}
    (hcalls : e.Unbroken screen calls) :
    Settles e (e.performAll screen calls).2 (e.performAll screen calls).1 := by
  induction calls generalizing e with
  | nil => exact ⟨[], (List.append_nil _).symm, Nat.zero_add _⟩
  | cons call calls ih =>
    rw [performAll_cons]
    exact (perform_settles hw hcalls.1).cons
      (ih (perform_wellFormed hw screen call) hcalls.2)

theorem idle_of_mem_traceNext {moment : Moment} (h : moment ∈ e.traceNext screen patience) :
    e.inFlight = false := by
  unfold traceNext at h
  cases hupcoming : e.upcoming? with
  | none =>
    rw [hupcoming] at h
    exact absurd h List.not_mem_nil
  | some upcoming => exact (upcoming?_eq_some hupcoming).1

/-- A pass in which the game is ended is done. Its trace is a finale, and the game is over. -/
theorem processNext_finale (hw : e.state.WellFormed) {moment : Moment}
    (hmoment : moment ∈ e.traceNext screen patience) (hends : moment.deed.Ends) :
    ∃ (f : Finale) (report : PassReport) (e' : Engine),
      e.processNext screen patience = (.done (some report), e') ∧
      e.traceNext screen patience = f.trace ∧ moment = f.moment ∧
      f.Played screen patience e'.world ∧ report.ended = true ∧
      report.fired.getLast? = some f.event.id ∧ e'.Over := by
  have hidle := idle_of_mem_traceNext hmoment
  have hplays := processNext_plays hw screen patience
  rcases hnext : e.processNext screen patience with ⟨o, e'⟩
  rw [hnext] at hplays
  generalize e.traceNext screen patience = trace at hplays hmoment
  dsimp only at hplays
  cases hplays with
  | on hquiet hstate => exact absurd hends (hquiet moment hmoment)
  | @ended f r _ htold hplayed hstate =>
    obtain ⟨report, rfl, hended, hlast⟩ := htold
    obtain ⟨-, p, queue, w', -, -, rfl⟩ := processNext_eq_done hnext
    refine ⟨f, report, _, rfl, rfl, ?_, hplayed, hended, hlast, hidle, ?_⟩
    · exact f.eq_moment hplayed.quiet hmoment hends
    · exact (congrArg Option.isSome hplayed.ending).trans rfl

theorem ended_iff_ends (he : e.Reachable) {report : PassReport}
    (hnext : e.processNext screen patience = (.done (some report), e')) :
    report.ended = true ↔ ∃ moment ∈ e.traceNext screen patience, moment.deed.Ends := by
  constructor
  · intro hended
    obtain ⟨hending, -⟩ := processNext_eq_done hnext
    obtain ⟨p, queue, -, hfaithful⟩ := processNext_faithful he hnext
    have hplays := processNext_plays he.wellFormed screen patience
    rw [hnext] at hplays
    generalize e.traceNext screen patience = trace at hplays ⊢
    dsimp only at hplays
    cases hplays with
    | on hquiet hstate =>
      have hsame : e'.state.ending = none := hstate.calm.ending.trans hending
      have hover := hfaithful.ended
      rw [hended, hsame] at hover
      cases hover
    | @ended f r _ htold hplayed hstate => exact ⟨f.moment, f.moment_mem, trivial⟩
  · rintro ⟨moment, hmoment, hends⟩
    obtain ⟨f, report', e'', hnext', -, -, -, hended, -⟩ :=
      processNext_finale he.wellFormed hmoment hends
    cases hnext.symm.trans hnext'
    exact hended

end Engine

/-- The end of the game is final. The action that ends it is the last that is done in its pass: its
event runs no other action after it, the last that these tell of is the end, no other event happens,
and the pass reports the end, as no other pass does. Until the engine is reset or restored no
trigger has a pass after that and the engine stays as it is; so at most one end is told of. -/
theorem ending_final {e : Engine} (he : e.Reachable) (screen : Screen) :
    (∀ patience, ∀ moment ∈ e.traceNext screen patience, moment.deed.Ends →
      ∃ (f : Finale) (report : PassReport) (e' : Engine) (v : World),
        e.processNext screen patience = (.done (some report), e') ∧
        e.traceNext screen patience = f.trace ∧ moment = f.moment ∧
        f.Played screen patience e'.world ∧
        Play.runAll screen patience f.event.actions f.found = (.done .stopAll, v) ∧
        v.state.notifications = .gameEnded f.outcome :: f.last.state.notifications ∧
        report.ended = true ∧ report.fired.getLast? = some f.event.id ∧
        ∀ calls, e'.Unbroken screen calls → ∀ screen' patience',
          (e'.performAll screen calls).2.processNext screen' patience' =
            (.done none, (e'.performAll screen calls).2)) ∧
    (∀ patience report e', e.processNext screen patience = (.done (some report), e') →
      (report.ended = true ↔ ∃ moment ∈ e.traceNext screen patience, moment.deed.Ends)) ∧
    ∀ calls, e.Unbroken screen calls → ∃ log,
      drainedOf (e.performAll screen calls).1 ++ (e.performAll screen calls).2.pending =
        e.pending ++ log ∧ endings log ≤ 1 := by
  refine ⟨?_, fun patience report e' hnext => Engine.ended_iff_ends he hnext, ?_⟩
  · intro patience moment hmoment hends
    obtain ⟨f, report, e', hnext, htrace, hlast, hplayed, hended, hfired, hover⟩ :=
      Engine.processNext_finale he.wellFormed hmoment hends
    have hrun : Play.runAll screen patience f.event.actions f.found =
        (.done .stopAll, f.last.endGame f.outcome) := by
      rw [← Traced.Of.runAll screen patience f.event.actions f.found, hplayed.runs]
    refine ⟨f, report, e', _, hnext, htrace, hlast, hplayed, hrun, rfl, hended, hfired, ?_⟩
    intro calls hcalls screen' patience'
    exact (hover.performAll hcalls).processNext screen' patience'
  · intro calls hcalls
    obtain ⟨log, htold, hover⟩ := Engine.performAll_settles he.wellFormed hcalls
    have hmost : (e.performAll screen calls).2.state.ends ≤ 1 := by
      unfold State.ends
      split <;> decide
    exact ⟨log, htold, by omega⟩

/-! ### A last bow -/

def bow : Event Expression :=
  { id := "bow", trigger := "applause", probability := .constant 1.0, once := true
    actions :=
      [.loop [.coinFlip (.constant 1.0)
        [.switch [⟨.all [], [.endGame (some "cheers"), .message { text := "Encore!" }]⟩]] []]
        none 3 true, .triggerEvents [⟨"applause", none, .constant 1.0⟩]] }

/-- Another listener to the same trigger, behind it. -/
def encore : Event Expression :=
  { id := "encore", trigger := "applause", probability := .constant 1.0 }

def stage : Engine :=
  (Engine.performAll quiet [.registerEvent bow, .registerEvent encore, .fire "applause"]
    (.new {})).2

theorem stage_reachable : stage.Reachable :=
  Engine.ReachableBy.performAll (.start {} (.ofSeed "default") (.ofSeed "default")) quiet
    fun _ _ => trivial

def again : List Call := [.fire "applause", .next 1, .drain, .run 1 3]

theorem ending_final_stage :
    ∃ moment ∈ stage.traceNext quiet 1, moment.deed = .action (.endGame (some "cheers")) ∧
      ∃ e', stage.processNext quiet 1 = (.done (some ⟨"applause", true, ["bow"], true⟩), e') ∧
        (e'.performAll quiet again).2.processNext quiet 1 =
          (.done none, (e'.performAll quiet again).2) ∧
        ∃ log, drainedOf (stage.performAll quiet again).1 ++
          (stage.performAll quiet again).2.pending = stage.pending ++ log ∧ endings log ≤ 1 := by
  obtain ⟨moment, hlast, hdeed⟩ : ∃ moment,
      (stage.traceNext quiet 1).getLast? = some moment ∧
        moment.deed = .action (.endGame (some "cheers")) := ⟨_, rfl, rfl⟩
  have hmoment := List.mem_of_getLast? hlast
  have hends : moment.deed.Ends := hdeed ▸ trivial
  have hreport : (stage.processNext quiet 1).1 = .done (some ⟨"applause", true, ["bow"], true⟩) :=
    rfl
  have hagain : ∀ call ∈ again, call.Continues := by simp [again, Call.Continues]
  obtain ⟨hends', -, honce⟩ := ending_final stage_reachable quiet
  obtain ⟨f, report, e', v, hnext, -, -, -, -, -, -, -, hfinal⟩ := hends' 1 moment hmoment hends
  rw [hnext] at hreport
  cases hreport
  exact ⟨moment, hmoment, hdeed, e', hnext, hfinal again (.of_continues hagain) quiet 1,
    honce again (.of_continues hagain)⟩

end Scenario
