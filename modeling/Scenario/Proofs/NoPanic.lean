import Scenario.Proofs.PassReports
import Scenario.Proofs.StrictValues

/-!
The engine does not panic. From safe states strict runs come to what runs come to, and leave safe
states; so do all the operations of a host.
-/

namespace Scenario

namespace Strict

/-! ### Runs -/

/-- From safe states a strict run does not panic, comes to what a run comes to, and leaves a safe
state. -/
def Tame {α : Type} (r : Run α) (p : Play α) : Prop :=
  ∀ w : World, w.state.Safe → r w = some (p w) ∧ (p w).2.state.Safe

theorem mapM_eq {α β : Type} {f : α → Eval β} {g : α → Except EvaluationError β} {as : List α}
    (h : ∀ a ∈ as, f a = sure (g a)) : as.mapM f = sure (as.mapM g) := by
  induction as with
  | nil => rfl
  | cons a as ih =>
    obtain ⟨ha, has⟩ := List.forall_mem_cons.1 h
    rw [List.mapM_cons, List.mapM_cons]
    exact sure_bind ha fun _ _ => sure_bind (ih has) fun _ _ => rfl

theorem optionMapM_eq {α β : Type} {f : α → Eval β} {g : α → Except EvaluationError β}
    {a : Option α} (h : ∀ x ∈ a, f x = sure (g x)) : a.mapM f = sure (a.mapM g) := by
  cases a with
  | none => rfl
  | some a => exact sure_bind (h a rfl) fun _ _ => rfl

namespace Tame

variable {α β : Type}

protected theorem pure (a : α) : Tame (pure a) (pure a) := fun _ h => ⟨rfl, h⟩

protected theorem bind {r : Run α} {p : Play α} {k : α → Run β} {l : α → Play β} (h : Tame r p)
    (h' : ∀ a, Tame (k a) (l a)) : Tame (r >>= k) (p >>= l) := by
  intro w hw
  obtain ⟨heq, hsafe⟩ := h w hw
  simp only [Bind.bind]
  rw [heq]
  rcases hp : p w with ⟨o, w'⟩
  rw [hp] at hsafe
  cases o with
  | done a => exact h' a w' hsafe
  | failed e => exact ⟨rfl, hsafe⟩
  | suspended => exact ⟨rfl, hsafe⟩
  | exhausted => exact ⟨rfl, hsafe⟩

theorem total {p : Play α} (h : ∀ s, Agree (Reached (fun _ => True) s) p p) :
    Tame (Strict.total p) p :=
  fun w hw => ⟨rfl, hw.becomes (h w.state).becomes⟩

theorem reads (f : State → Except EvaluationError α) :
    Tame (Strict.total (Play.look f)) (Play.look f) :=
  total fun _ => Agree.look fun v w hvw => by rw [hvw.1]

theorem map {r : Run α} {p : Play α} (f : α → β) (h : Tame r p) : Tame (f <$> r) (f <$> p) :=
  h.bind fun a => .pure (f a)

theorem bind_look {f : State → Eval α} {g : State → Except EvaluationError α} {k : α → Run β}
    {l : α → Play β} (h : ∀ s : State, s.Safe → f s = sure (g s))
    (h' : ∀ a s, s.Safe → g s = .ok a → Tame (k a) (l a)) :
    Tame (look f >>= k) (Play.look g >>= l) := by
  intro w hw
  simp only [Bind.bind, look, Play.look]
  rw [h w.state hw]
  cases hg : g w.state with
  | ok a => exact h' a w.state hw hg w hw
  | error cause => exact ⟨rfl, hw⟩

theorem look {f : State → Eval α} {g : State → Except EvaluationError α}
    (h : ∀ s : State, s.Safe → f s = sure (g s)) : Tame (Strict.look f) (Play.look g) := by
  intro w hw
  unfold Strict.look Play.look
  rw [h w.state hw]
  cases g w.state with
  | ok a => exact ⟨rfl, hw⟩
  | error cause => exact ⟨rfl, hw⟩

theorem change {f : State → Eval State} (m : Mutation)
    (h : ∀ s : State, s.Safe → f s = sure (s.mutate m)) :
    Tame (Strict.change f) (Play.change (·.mutate m)) := by
  intro w hw
  refine ⟨?_, Play.change_safe hw m⟩
  unfold Strict.change Play.change
  rw [h w.state hw]
  dsimp only
  cases w.state.mutate m <;> rfl

theorem mutate (m : Mutation) :
    Tame (Strict.total (Play.change (·.mutate m))) (Play.change (·.mutate m)) :=
  fun _ hw => ⟨rfl, Play.change_safe hw m⟩

theorem roll {g : RandomSource → Except EvaluationError α × RandomSource}
    (hg : ∀ source, (g source).2 = source ∨ (g source).2 = source.next.2) :
    Tame (Strict.total (Play.chance g)) (Play.chance g) :=
  fun _ hw => ⟨rfl, Play.chance_safe hw hg⟩

theorem bind_chance {f : RandomSource → Option (Except EvaluationError α × RandomSource)}
    {g : RandomSource → Except EvaluationError α × RandomSource} {k : α → Run β} {l : α → Play β}
    (h : ∀ source, f source = some (g source))
    (hg : ∀ source, (g source).2 = source ∨ (g source).2 = source.next.2)
    (h' : ∀ a source, (g source).1 = .ok a → Tame (k a) (l a)) :
    Tame (Strict.chance f >>= k) (Play.chance g >>= l) := by
  intro w hw
  have hsafe := Play.chance_safe hw hg
  simp only [Bind.bind, Strict.chance]
  unfold Play.chance at hsafe ⊢
  rw [h]
  have hmade := fun a => h' a w.state.random
  rcases hroll : g w.state.random with ⟨cause | a, random⟩
  · rw [hroll] at hsafe
    exact ⟨rfl, hsafe⟩
  · rw [hroll] at hsafe hmade
    exact hmade a rfl _ hsafe

theorem forM {f : α → Run PUnit} {g : α → Play PUnit} {as : List α}
    (h : ∀ a ∈ as, Tame (f a) (g a)) : Tame (as.forM f) (as.forM g) := by
  induction as with
  | nil => exact .pure _
  | cons a as ih =>
    obtain ⟨ha, has⟩ := List.forall_mem_cons.1 h
    exact ha.bind fun _ => ih has

theorem rounds {last : Run Flow} {last' : Play Flow} {stops : Run Bool} {stops' : Play Bool}
    {body : Run Flow} {body' : Play Flow} (hlast : Tame last last') (hstops : Tame stops stops')
    (hbody : Tame body body') (checkAtEnd : Bool) (n : Nat) :
    Tame (Strict.rounds last stops checkAtEnd body n)
      (Play.rounds last' stops' checkAtEnd body' n) := by
  induction n with
  | zero => exact hlast
  | succ n ih =>
    unfold Strict.rounds Play.rounds
    cases checkAtEnd with
    | true =>
      apply hbody.bind
      intro flow
      have hnext : Tame
          (stops >>= fun stop =>
            if stop then return .next else Strict.rounds last stops true body n)
          (stops' >>= fun stop =>
            if stop then return .next else Play.rounds last' stops' true body' n) := by
        apply hstops.bind
        intro stop
        split
        · exact .pure _
        · exact ih
      cases flow with
      | next => exact hnext
      | stopList => exact hnext
      | stopAll => exact .pure _
    | false =>
      apply hstops.bind
      intro stop
      cases stop with
      | true => exact .pure _
      | false =>
        apply hbody.bind
        intro flow
        cases flow with
        | next => exact ih
        | stopList => exact ih
        | stopAll => exact .pure _

theorem evaluates {e : Expression} (h : e.Made) :
    Tame (Strict.evaluates e) (Play.look (·.eval e)) :=
  look fun _ hs => expression_scope hs h

theorem holds {c : Condition Expression} (h : c.Of Expression.Made) :
    Tame (Strict.holds c) (Play.look (·.holds c)) :=
  look fun _ hs => check_scope hs h

theorem stops {condition : Option (Condition Expression)}
    (h : ∀ c ∈ condition, Condition.Of Expression.Made c) :
    Tame (Strict.stops condition) (Play.stops condition) := by
  cases condition with
  | some c => exact holds (h c rfl)
  | none => exact .pure _

theorem give {amount : ItemAmount Expression} (h : amount.amount.Made) :
    Tame (Strict.give amount) (Play.give amount) :=
  (evaluates h).bind fun x => mutate (.giveItem amount.item x)

theorem request {r : TriggerRequest Expression} (h : r.probability.Made) :
    Tame (Strict.request r) (Play.request r) :=
  (evaluates h).bind fun p => mutate (.request r.trigger r.priority p)

section Actions

variable (screen : Screen) (patience : Nat)

theorem ordinary (a : Action Expression) :
    Tame (Strict.total (Play.run screen patience a)) (Play.run screen patience a) :=
  total fun s => (simulation_self screen _ s).run (fun _ _ _ => trivial) patience a

mutual

theorem run : ∀ a : Action Expression, a.Of Expression.Made →
    Tame (Strict.run screen patience a) (Play.run screen patience a)
  | .message m, _ => by
    unfold Strict.run
    exact ordinary screen patience _
  | .randomMessage texts confirm icon, _ => by
    unfold Strict.run Play.run
    cases htexts : texts.isEmpty with
    | true => exact .pure _
    | false =>
      refine (roll fun source => .inr (draw_source source)).bind fun r => ?_
      rw [pick_eq htexts]
      exact (total fun s => (simulation_self screen _ s).display _).bind fun _ => .pure _
  -- The calls for the parts of an action stand before it is unfolded, where they are its parts.
  | .choices text icon choices, h => by
    have htaken := fun i => runChoice i choices h
    unfold Strict.run Play.run
    apply bind_look fun s hs => eligible_eq hs 0 choices h
    intro options s _ hoptions
    split
    · exact .pure _
    · refine (total fun s => (simulation_self screen _ s).ask _).bind fun i => ?_
      split
      · rename_i hoffered
        obtain ⟨o, ho, rfl⟩ := List.mem_map.1 hoffered
        have hlt := eligible_lt hoptions o ho
        exact htaken o.index (by omega)
      · exact total fun _ => Agree.fail _
  | .random groups, h => by
    have htaken := fun i => runGroup i groups h
    unfold Strict.run Play.run
    apply bind_look
    · intro s hs
      exact mapM_eq fun g hg => expression_scope hs (Action.weight_of_groupsOf h g hg)
    · intro weights s _ hweights
      apply bind_chance (choose_eq weights) (choose_source weights)
      intro i source hi
      have hlt := choose_lt hi
      rw [length_of_mapM_eq_ok hweights] at hlt
      exact htaken i hlt
  | .coinFlip probability success failure, h => by
    have hsuccess := runAll success h.2.1
    have hfailure := runAll failure h.2.2
    unfold Strict.run Play.run
    refine (evaluates h.1).bind fun p => (roll (gate_source p)).bind fun passed => ?_
    split
    · exact hsuccess
    · exact hfailure
  | .switch branches, h => by
    have htaken := runSwitch branches h
    unfold Strict.run Play.run
    exact htaken
  | .loop actions stop maxIterations checkAtEnd, h => by
    have hbody := runAll actions h.1
    unfold Strict.run Play.run
    split
    · exact rounds (total fun _ => Agree.exhausted) (stops h.2) hbody checkAtEnd patience
    · exact rounds (.pure _) (stops h.2) hbody checkAtEnd maxIterations
  | .stop everywhere, _ => by
    unfold Strict.run
    exact ordinary screen patience _
  | .endGame outcome, _ => by
    unfold Strict.run
    exact ordinary screen patience _
  | .updateVariable update, h => by
    unfold Strict.run Play.run
    exact (evaluates h).bind fun x =>
      (change (.setVariable update.id x) fun _ hs => setVariable_eq hs _ _).bind fun _ => .pure _
  | .updateVariables updates, h => by
    unfold Strict.run Play.run
    apply bind_look
    · intro s hs
      exact mapM_eq fun u hu => sure_bind (expression_scope hs (h u hu)) fun _ _ => rfl
    · intro xs _ _ _
      refine (forM fun x _ => ?_).bind fun _ => .pure _
      exact change (.setVariable x.1 x.2) fun _ hs => setVariable_eq hs _ _
  | .updateVariableLimits id min max, h => by
    unfold Strict.run Play.run
    refine (look fun s hs => optionMapM_eq fun e he => expression_scope hs (h.1 e he)).bind
      fun lower => ?_
    refine (look fun s hs => optionMapM_eq fun e he => expression_scope hs (h.2 e he)).bind
      fun upper => ?_
    exact (change (.setBounds id lower upper) fun _ _ => setVariableBounds_eq _ _ _).bind
      fun _ => .pure _
  | .giveItem amount, h => by
    unfold Strict.run Play.run
    exact (give h).bind fun _ => .pure _
  | .updateItemAmounts amounts, h => by
    unfold Strict.run Play.run
    exact (forM fun amount ha => give (h amount ha)).bind fun _ => .pure _
  | .setStatus status duration, h => by
    unfold Strict.run Play.run
    exact (evaluates h).bind fun x => (mutate (.setStatus status x)).bind fun _ => .pure _
  | .triggerEvents requests, h => by
    unfold Strict.run Play.run
    exact (forM fun r hr => request (h r hr)).bind fun _ => .pure _
  | .toggleEvents enabled events, _ => by
    unfold Strict.run
    exact ordinary screen patience _

theorem runAll : ∀ as : List (Action Expression), Action.AllOf Expression.Made as →
    Tame (Strict.runAll screen patience as) (Play.runAll screen patience as)
  | [], _ => by
    unfold Strict.runAll Play.runAll
    exact .pure _
  | a :: as, h => by
    have hrest := runAll as h.2
    have hfirst := run a h.1
    unfold Strict.runAll Play.runAll
    apply hfirst.bind
    intro flow
    cases flow with
    | next => exact hrest
    | stopList => exact .pure _
    | stopAll => exact .pure _

theorem runChoice (i : Nat) : ∀ cs : List (Choice Expression (Action Expression)),
    Action.ChoicesOf Expression.Made cs → i < cs.length →
    Tame (Strict.runChoice screen patience i cs) (Play.runChoice screen patience i cs)
  | [], _, hi => absurd hi (Nat.not_lt_zero i)
  | ⟨_, _, actions⟩ :: cs, h, hi => by
    have htaken := runAll actions h.2.1
    have hrest := fun i => runChoice i cs h.2.2
    unfold Strict.runChoice Play.runChoice
    cases i with
    | zero => exact htaken
    | succ i => exact hrest i (Nat.lt_of_succ_lt_succ hi)

theorem runGroup (i : Nat) : ∀ gs : List (Group Expression (Action Expression)),
    Action.GroupsOf Expression.Made gs → i < gs.length →
    Tame (Strict.runGroup screen patience i gs) (Play.runGroup screen patience i gs)
  | [], _, hi => absurd hi (Nat.not_lt_zero i)
  | ⟨_, actions⟩ :: gs, h, hi => by
    have htaken := runAll actions h.2.1
    have hrest := fun i => runGroup i gs h.2.2
    unfold Strict.runGroup Play.runGroup
    cases i with
    | zero => exact htaken
    | succ i => exact hrest i (Nat.lt_of_succ_lt_succ hi)

theorem runSwitch : ∀ bs : List (Branch Expression (Action Expression)),
    Action.BranchesOf Expression.Made bs →
    Tame (Strict.runSwitch screen patience bs) (Play.runSwitch screen patience bs)
  | [], _ => by
    unfold Strict.runSwitch Play.runSwitch
    exact .pure _
  | ⟨condition, actions⟩ :: bs, h => by
    have htaken := runAll actions h.2.1
    have hrest := runSwitch bs h.2.2
    unfold Strict.runSwitch Play.runSwitch
    apply (holds h.1).bind
    intro holds
    split
    · exact htaken
    · exact hrest

end

end Actions

theorem takesTurn (excluded : List String) {e : Event Expression} (h : e.Of Expression.Made) :
    Tame (Strict.takesTurn excluded e) (Play.takesTurn excluded e) := by
  unfold Strict.takesTurn Play.takesTurn
  refine (reads _).bind fun enabled => ?_
  split
  · exact .pure _
  · split
    · exact .pure _
    · refine (look fun s hs =>
        checkAll_eq (follows_scope hs) _ h.conditions).bind fun holds => ?_
      split
      · exact .pure _
      · exact (evaluates h.probability).bind fun p => roll (gate_source p)

section Passes

variable (screen : Screen) (patience : Nat) (trigger : String)

theorem happen {e : Event Expression} (h : e.Of Expression.Made) :
    Tame (Strict.happen screen patience trigger e) (Play.happen screen patience trigger e) := by
  unfold Strict.happen Play.happen
  refine (mutate (.fire e.id trigger)).bind fun _ =>
    (runAll screen patience e.actions h.actions).bind fun _ => ?_
  split
  · exact mutate (.toggle e.id false)
  · exact .pure _

theorem listen (excluded : List String) {es : List (Event Expression)}
    (h : ∀ e ∈ es, e.Of Expression.Made) :
    Tame (Strict.listen screen patience trigger excluded es)
      (Play.listen screen patience trigger excluded es) := by
  induction es generalizing excluded with
  | nil => exact .pure _
  | cons e es ih =>
    obtain ⟨he, hes⟩ := List.forall_mem_cons.1 h
    unfold Strict.listen Play.listen
    apply (takesTurn excluded he).bind
    intro takes
    split
    · refine (happen screen patience trigger he).bind fun _ =>
        (reads _).bind fun ended => ?_
      split
      · exact .pure _
      · exact (ih _ hes).bind fun _ => .pure _
    · exact ih excluded hes

theorem pass (p : PendingTrigger) :
    Tame (Strict.pass screen patience p) (Play.pass screen patience p) := by
  unfold Strict.pass Play.pass
  apply (roll (gate_source p.probability)).bind
  intro passed
  split
  · apply bind_look fun _ _ => rfl
    intro listeners s hs hlisteners
    cases hlisteners
    exact (listen screen patience p.trigger [] (hs.listeners p.trigger)).bind fun _ => .pure _
  · exact .pure _

end Passes

end Tame

/-! ### Engines -/

section Engines

variable {e : Engine} (he : e.state.Safe)

include he

theorem evaluate_eq (hc : e.compiler.Used) (source : Source) :
    evaluate e source = some (e.evaluate source) := by
  unfold evaluate Engine.evaluate Engine.compile
  rcases hcompile : e.compiler.compile source with ⟨cause | compiled, compiler⟩
  · rfl
  · have hmade : compiled.Made := ⟨e.compiler, source, hc, congrArg Prod.fst hcompile⟩
    have hvalue : Strict.expression (scope e.state) compiled = sure (e.state.eval compiled) :=
      expression_scope he hmade
    change (do
      let r ← Strict.expression (scope e.state) compiled |>.run
      return (r.mapError Error.evaluation, { e with compiler })) = _
    rw [hvalue]
    rfl

theorem value_eq (name : String) : value e name = some (e.value name) := by
  unfold value Engine.value
  rw [(follows_scope he).value]
  rfl

theorem hostSetVariable_eq (id : String) (x : Float) :
    hostSetVariable e id x = some (e.setVariable id x) := by
  unfold hostSetVariable Engine.setVariable
  cases hidle : e.inFlight with
  | true => rw [Engine.requireIdle_of_inFlight hidle, Engine.change_of_inFlight hidle]
  | false =>
    rw [Engine.requireIdle_of_idle hidle, Engine.change_of_idle hidle]
    dsimp only
    rw [setVariable_eq he]
    cases e.state.setVariable id x <;> rfl

theorem inFlightDuring_eq {α : Type} {r : Run α} {p : Play α} (h : Tame r p) :
    inFlightDuring e r = some (e.inFlightDuring p) := by
  unfold inFlightDuring Engine.inFlightDuring
  rw [(h e.world he).1]
  rcases p e.world with ⟨_ | _ | _ | _, _⟩ <;> rfl

theorem processNext_eq (screen : Screen) (patience : Nat) :
    processNext e screen patience = some (e.processNext screen patience) := by
  unfold processNext Engine.processNext
  cases e.requireIdle with
  | error cause => rfl
  | ok _ =>
    dsimp only
    split
    · rfl
    · cases e.state.queue.pop? with
      | none => rfl
      | some popped =>
        have hsafe : (e.setState { e.state with queue := popped.2 }).state.Safe := he.pop popped.2
        exact inFlightDuring_eq hsafe ((Tame.pass screen patience popped.1).map some)

theorem runUntilIdle_eq (screen : Screen) (patience passes : Nat) :
    runUntilIdle screen patience passes e =
      some (Engine.runUntilIdle screen patience passes e) := by
  induction passes generalizing e with
  | zero => rfl
  | succ passes ih =>
    have hsafe := he.becomes (Engine.processNext_becomes screen patience)
    unfold runUntilIdle Engine.runUntilIdle
    rw [processNext_eq he]
    rcases hnext : e.processNext screen patience with ⟨outcome, e'⟩
    rw [hnext] at hsafe
    cases outcome with
    | done report =>
      cases report with
      | none => rfl
      | some report =>
        simp only [bind, Option.bind]
        rw [ih hsafe]
        rcases Engine.runUntilIdle screen patience passes e' with ⟨_ | _ | _ | _, _⟩ <;> rfl
    | failed _ | suspended | exhausted => rfl

theorem perform_eq (hc : e.compiler.Used) (screen : Screen) (call : Call) :
    perform e screen call = some (e.perform screen call) := by
  cases call with
  | evaluate source =>
    simp only [perform, evaluate_eq he hc]
    rfl
  | value name =>
    simp only [perform, value_eq he]
    rfl
  | setVariable id x =>
    simp only [perform, hostSetVariable_eq he]
    rfl
  | next patience =>
    simp only [perform, processNext_eq he]
    rfl
  | run patience passes =>
    simp only [perform, runUntilIdle_eq he]
    rfl
  | _ => rfl

end Engines

end Strict

def Reading.Made : Reading → Prop
  | .expression e => e.Made
  | _ => True

/-- Whatever a host does with an engine, by any screen, random source and numbers, no operation in
it is misused, and neither is one in reading its state. -/
theorem Engine.no_panic {e : Engine} (he : e.ReachableBy Call.Made) :
    (∀ (screen : Screen) (call : Call),
      Strict.perform e screen call = some (e.perform screen call)) ∧
    ∀ q : Reading, q.Made → (Strict.read e.state q).run = some (q.read e.state) := by
  have hsafe := he.safe
  refine ⟨Strict.perform_eq hsafe he.used, fun q hq => Strict.read_eq hsafe q ?_⟩
  rintro expression rfl
  exact hq

/-! ### A bet -/

def bet : Event Expression :=
  { id := "bet", trigger := "toss", probability := .constant 0.5
    actions := [.updateVariable ⟨"gold", .constant 12.0⟩,
      .randomMessage ["heads", "tails"] none none] }

/-- The second value of its random source is not below one. -/
def tavern : Engine :=
  (Engine.performAll quiet
    [.defineVariable "gold" ⟨7.0, 0.0, 10.0⟩, .registerEvent bet, .fire "toss"]
    (.withRandom {} (.scripted [0.25, 1.5] 0))).2

theorem bet_made : bet.Of Expression.Made where
  conditions := trivial
  actions := ⟨Expression.made_constant 12.0, trivial, trivial⟩
  probability := Expression.made_constant 0.5

theorem tavern_reachable : tavern.ReachableBy Call.Made := by
  have hplaced : (RandomSource.scripted [0.25, 1.5] 0).Placed := Nat.two_pow_pos 64
  refine .performAll (.start {} _ hplaced) quiet ?_
  simp [Call.Made, bet_made]

theorem no_panic_tavern :
    ∃ e', Strict.perform tavern quiet (.next 1) =
      some (.report (.failed (.evaluation (.randomOutOfRange 1.5))), e') := by
  have hperform := (Engine.no_panic tavern_reachable).1 quiet (.next 1)
  have hanswer : (tavern.perform quiet (.next 1)).1 =
      .report (.failed (.evaluation (.randomOutOfRange 1.5))) := rfl
  exact ⟨_, hperform.trans (congrArg some (Prod.ext hanswer rfl))⟩

end Scenario
