import Scenario.Proofs.Runs

/-!
Traces of runs: the events that happen and the actions that are run, one after the other, each with
the world that it begins in. Everything that runs actions is written down once more; what runs none
is taken over and leaves no trace. A traced run without its trace is the run. What is to hold of all
traced runs of actions has to be shown for the single steps only.
-/

namespace Scenario

inductive Deed
  | event (e : Event Expression)
  | action (a : Action Expression)

structure Moment where
  deed : Deed
  world : World

def Traced (α : Type) := World → List Moment × Outcome α × World

namespace Traced

section Runs

variable {α β : Type}

instance : Monad Traced where
  pure a := fun w => ([], .done a, w)
  bind t f := fun w =>
    match t w with
    | (trace, .done a, w) => (trace ++ (f a w).1, (f a w).2)
    | (trace, .failed e, w) => (trace, .failed e, w)
    | (trace, .suspended, w) => (trace, .suspended, w)
    | (trace, .exhausted, w) => (trace, .exhausted, w)

theorem bind_eq (t : Traced α) (f : α → Traced β) (w : World) :
    (t >>= f) w =
      match t w with
      | (trace, .done a, w) => (trace ++ (f a w).1, (f a w).2)
      | (trace, .failed e, w) => (trace, .failed e, w)
      | (trace, .suspended, w) => (trace, .suspended, w)
      | (trace, .exhausted, w) => (trace, .exhausted, w) := rfl

/-- A run in which no event happens and no action is run. -/
def silent (p : Play α) : Traced α := fun w => ([], p w)

def begin (deed : Deed) : Traced Unit := fun w => ([⟨deed, w⟩], .done (), w)

def rounds (last : Traced Flow) (stops : Traced Bool) (checkAtEnd : Bool) (body : Traced Flow) :
    Nat → Traced Flow
  | 0 => last
  | n + 1 => do
    if !checkAtEnd then
      if ← stops then return .next
    match ← body with
    | .stopAll => return .stopAll
    | _ =>
      if checkAtEnd then
        if ← stops then return .next
      rounds last stops checkAtEnd body n

end Runs

section Actions

variable (screen : Screen) (patience : Nat)

mutual

def run : Action Expression → Traced Flow
  | .choices text icon choices => do
    let options ← silent (Play.look (eligible · 0 choices))
    if options.isEmpty then return .next
    else
      let prompt : ChoicePrompt := ⟨text, icon, options⟩
      let i ← silent (Play.ask screen prompt)
      if i ∈ prompt.offered then runChoice i choices
      else silent (Play.fail (.usage (.invalidChoice i prompt.offered)))
  | .random groups => do
    let weights ← silent (Play.look fun s => groups.mapM fun g => s.eval g.weight)
    let i ← silent (Play.chance (choose weights))
    runGroup i groups
  | .coinFlip probability success failure => do
    let p ← silent (Play.look (·.eval probability))
    if ← silent (Play.chance (gate p)) then runAll success else runAll failure
  | .switch branches => runSwitch branches
  | .loop actions stop maxIterations checkAtEnd =>
    if maxIterations = 0 then
      rounds (silent Play.exhausted) (silent (Play.stops stop)) checkAtEnd (runAll actions) patience
    else
      rounds (pure .next) (silent (Play.stops stop)) checkAtEnd (runAll actions) maxIterations
  | a => silent (Play.run screen patience a)

def runAll : List (Action Expression) → Traced Flow
  | [] => return .next
  | a :: as => do
    begin (.action a)
    match ← run a with
    | .next => runAll as
    | .stopList => return .next
    | .stopAll => return .stopAll

def runChoice (i : Nat) : List (Choice Expression (Action Expression)) → Traced Flow
  | [] => return .next
  | ⟨_, _, actions⟩ :: cs =>
    match i with
    | 0 => runAll actions
    | i + 1 => runChoice i cs

def runGroup (i : Nat) : List (Group Expression (Action Expression)) → Traced Flow
  | [] => return .next
  | ⟨_, actions⟩ :: gs =>
    match i with
    | 0 => runAll actions
    | i + 1 => runGroup i gs

def runSwitch : List (Branch Expression (Action Expression)) → Traced Flow
  | [] => return .next
  | ⟨condition, actions⟩ :: bs => do
    if ← silent (Play.look (·.holds condition)) then runAll actions else runSwitch bs

end

/-! ### Passes -/

variable (trigger : String)

def happen (e : Event Expression) : Traced Unit := do
  silent (Play.change (·.fireEvent e.id trigger))
  begin (.event e)
  let _ ← runAll screen patience e.actions
  if e.once then silent (Play.change (·.setEventEnabled e.id false))

def listen : List String → List (Event Expression) → Traced (List String × Bool)
  | _, [] => return ([], false)
  | excluded, e :: es => do
    if ← silent (Play.takesTurn excluded e) then
      happen screen patience trigger e
      if ← silent (Play.look fun s => .ok s.ending.isSome) then return ([e.id], true)
      else
        let (fired, ended) ← listen (excluded ++ e.exclusions) es
        return (e.id :: fired, ended)
    else listen excluded es

def pass (p : PendingTrigger) : Traced PassReport := do
  if ← silent (Play.chance (gate p.probability)) then
    let listeners ← silent (Play.look fun s => .ok (s.registry.listeners p.trigger))
    let (fired, ended) ← listen screen patience p.trigger [] listeners
    return ⟨p.trigger, true, fired, ended⟩
  else return ⟨p.trigger, false, [], false⟩

end Actions

/-! ### Without the trace -/

def Of {α : Type} (t : Traced α) (p : Play α) : Prop := ∀ w, (t w).2 = p w

namespace Of

variable {α β : Type}

protected theorem pure (a : α) : Of (pure a) (pure a) := fun _ => rfl

theorem silent (p : Play α) : Of (Traced.silent p) p := fun _ => rfl

protected theorem bind {t : Traced α} {p : Play α} {f : α → Traced β} {g : α → Play β}
    (h : Of t p) (h' : ∀ a, Of (f a) (g a)) : Of (t >>= f) (p >>= g) := by
  intro w
  have hw := h w
  simp only [Bind.bind]
  rw [← hw]
  rcases t w with ⟨trace, o, w'⟩
  cases o with
  | done a => exact h' a w'
  | failed e => rfl
  | suspended => rfl
  | exhausted => rfl

theorem begin {t : Traced α} {p : Play α} (deed : Deed) (h : Of t p) :
    Of (Traced.begin deed >>= fun _ => t) p := h

theorem rounds {last : Traced Flow} {last' : Play Flow} {stops : Traced Bool} {stops' : Play Bool}
    {body : Traced Flow} {body' : Play Flow} (hlast : Of last last') (hstops : Of stops stops')
    (hbody : Of body body') (checkAtEnd : Bool) (n : Nat) :
    Of (Traced.rounds last stops checkAtEnd body n)
      (Play.rounds last' stops' checkAtEnd body' n) := by
  induction n with
  | zero => exact hlast
  | succ n ih =>
    unfold Traced.rounds Play.rounds
    cases checkAtEnd with
    | true =>
      apply hbody.bind
      intro flow
      have hnext : Of
          (stops >>= fun stop =>
            if stop then return .next else Traced.rounds last stops true body n)
          (stops' >>= fun stop =>
            if stop then return .next else Play.rounds last' stops' true body' n) := by
        apply hstops.bind
        intro stop
        split
        · exact .pure _
        · exact ih
      cases flow with
      | next => exact hnext
      | stopList => exact hnext
      | stopAll => exact .pure _
    | false =>
      apply hstops.bind
      intro stop
      cases stop with
      | true => exact .pure _
      | false =>
        apply hbody.bind
        intro flow
        cases flow with
        | next => exact ih
        | stopList => exact ih
        | stopAll => exact .pure _

variable (screen : Screen) (patience : Nat)

mutual

theorem run : ∀ a : Action Expression,
    Of (Traced.run screen patience a) (Play.run screen patience a)
  | .choices text icon choices => by
    have htaken := fun i => runChoice i choices
    unfold Traced.run Play.run
    apply (silent _).bind
    intro options
    split
    · exact .pure _
    · apply (silent _).bind
      intro i
      split
      · exact htaken i
      · exact silent _
  | .random groups => by
    have htaken := fun i => runGroup i groups
    unfold Traced.run Play.run
    exact (silent _).bind fun weights => (silent _).bind htaken
  | .coinFlip probability success failure => by
    have hsuccess := runAll success
    have hfailure := runAll failure
    unfold Traced.run Play.run
    refine (silent _).bind fun p => (silent _).bind fun passed => ?_
    split
    · exact hsuccess
    · exact hfailure
  | .switch branches => by
    unfold Traced.run Play.run
    exact runSwitch branches
  | .loop actions stop maxIterations checkAtEnd => by
    have hbody := runAll actions
    unfold Traced.run Play.run
    split
    · exact rounds (silent _) (silent _) hbody checkAtEnd patience
    · exact rounds (.pure _) (silent _) hbody checkAtEnd maxIterations
  | .message _ | .randomMessage _ _ _ | .stop _ | .endGame _ | .updateVariable _
  | .updateVariables _ | .updateVariableLimits _ _ _ | .giveItem _ | .updateItemAmounts _
  | .setStatus _ _ | .triggerEvents _ | .toggleEvents _ _ => by
    unfold Traced.run
    exact silent _

theorem runAll : ∀ as : List (Action Expression),
    Of (Traced.runAll screen patience as) (Play.runAll screen patience as)
  | [] => by
    unfold Traced.runAll Play.runAll
    exact .pure _
  | a :: as => by
    have hrest := runAll as
    unfold Traced.runAll Play.runAll
    apply begin
    apply (run a).bind
    intro flow
    cases flow with
    | next => exact hrest
    | stopList => exact .pure _
    | stopAll => exact .pure _

theorem runChoice (i : Nat) : ∀ cs : List (Choice Expression (Action Expression)),
    Of (Traced.runChoice screen patience i cs) (Play.runChoice screen patience i cs)
  | [] => by
    unfold Traced.runChoice Play.runChoice
    exact .pure _
  | ⟨_, _, actions⟩ :: cs => by
    have htaken := runAll actions
    have hrest := fun i => runChoice i cs
    unfold Traced.runChoice Play.runChoice
    cases i with
    | zero => exact htaken
    | succ i => exact hrest i

theorem runGroup (i : Nat) : ∀ gs : List (Group Expression (Action Expression)),
    Of (Traced.runGroup screen patience i gs) (Play.runGroup screen patience i gs)
  | [] => by
    unfold Traced.runGroup Play.runGroup
    exact .pure _
  | ⟨_, actions⟩ :: gs => by
    have htaken := runAll actions
    have hrest := fun i => runGroup i gs
    unfold Traced.runGroup Play.runGroup
    cases i with
    | zero => exact htaken
    | succ i => exact hrest i

theorem runSwitch : ∀ bs : List (Branch Expression (Action Expression)),
    Of (Traced.runSwitch screen patience bs) (Play.runSwitch screen patience bs)
  | [] => by
    unfold Traced.runSwitch Play.runSwitch
    exact .pure _
  | ⟨condition, actions⟩ :: bs => by
    have htaken := runAll actions
    have hrest := runSwitch bs
    unfold Traced.runSwitch Play.runSwitch
    apply (silent _).bind
    intro holds
    split
    · exact htaken
    · exact hrest

end

variable (trigger : String)

theorem happen (e : Event Expression) :
    Of (Traced.happen screen patience trigger e) (Play.happen screen patience trigger e) := by
  unfold Traced.happen Play.happen
  refine (silent _).bind fun _ => begin _ ((runAll screen patience e.actions).bind fun _ => ?_)
  split
  · exact silent _
  · exact .pure _

theorem listen (excluded : List String) (es : List (Event Expression)) :
    Of (Traced.listen screen patience trigger excluded es)
      (Play.listen screen patience trigger excluded es) := by
  induction es generalizing excluded with
  | nil => exact .pure _
  | cons e es ih =>
    unfold Traced.listen Play.listen
    apply (silent _).bind
    intro takes
    split
    · refine (happen screen patience trigger e).bind fun _ => (silent _).bind fun ended => ?_
      split
      · exact .pure _
      · exact (ih _).bind fun _ => .pure _
    · exact ih excluded

theorem pass (p : PendingTrigger) :
    Of (Traced.pass screen patience p) (Play.pass screen patience p) := by
  unfold Traced.pass Play.pass
  apply (silent _).bind
  intro passed
  split
  · exact (silent _).bind fun listeners =>
      (listen screen patience p.trigger [] listeners).bind fun _ => .pure _
  · exact .pure _

end Of

/-! ### What all traced runs have in common -/

/-- A property of traced runs that those have which take a silent step first, and those which pass a
stop of everything on. Loud actions are looked at only where they begin. -/
structure Hereditary (screen : Screen) (patience : Nat) (loud : Action Expression → Prop)
    (C : Traced Flow → Prop) : Prop where
  endGame (outcome : Option String) : loud (.endGame outcome)
  next : C (pure .next)
  plain {a : Action Expression} (hplain : a.Plain) (hloud : ¬ loud a) :
    C (silent (Play.run screen patience a))
  fail (cause : Error) : C (silent (Play.fail cause))
  exhausted : C (silent Play.exhausted)
  look {α : Type} (f : State → Except EvaluationError α) {next : α → Traced Flow}
    (h : ∀ a, C (next a)) : C (silent (Play.look f) >>= next)
  chance {α : Type} {f : RandomSource → Except EvaluationError α × RandomSource}
    (hf : ∀ source, (f source).2 = source ∨ (f source).2 = source.next.2) {next : α → Traced Flow}
    (h : ∀ a, C (next a)) : C (silent (Play.chance f) >>= next)
  ask (prompt : ChoicePrompt) {next : Nat → Traced Flow} (h : ∀ i, C (next i)) :
    C (silent (Play.ask screen prompt) >>= next)
  flow {t : Traced Flow} {next : Flow → Traced Flow} (h : C t) (hnext : C (next .next))
    (hlist : C (next .stopList)) (hall : next .stopAll = pure .stopAll) : C (t >>= next)
  begin {a : Action Expression} {next : Flow → Traced Flow}
    (ha : ¬ loud a → C (Traced.run screen patience a)) (hnext : C (next .next))
    (hlist : C (next .stopList)) (hall : next .stopAll = pure .stopAll) :
    C (Traced.begin (.action a) >>= fun _ => Traced.run screen patience a >>= next)

namespace Hereditary

variable {screen : Screen} {patience : Nat} {loud : Action Expression → Prop}
  {C : Traced Flow → Prop} (hC : Hereditary screen patience loud C)

include hC

theorem stops (stop : Option (Condition Expression)) {next : Bool → Traced Flow}
    (h : ∀ b, C (next b)) : C (silent (Play.stops stop) >>= next) := by
  cases stop with
  | none => exact h false
  | some condition => exact hC.look (·.holds condition) h

theorem rounds {last body : Traced Flow} (hlast : C last) (stop : Option (Condition Expression))
    (hbody : C body) (checkAtEnd : Bool) (n : Nat) :
    C (Traced.rounds last (silent (Play.stops stop)) checkAtEnd body n) := by
  induction n with
  | zero => exact hlast
  | succ n ih =>
    unfold Traced.rounds
    cases checkAtEnd with
    | true =>
      have hnext : C (silent (Play.stops stop) >>= fun holds =>
          if holds then return .next
          else Traced.rounds last (silent (Play.stops stop)) true body n) := by
        apply hC.stops
        intro holds
        split
        · exact hC.next
        · exact ih
      exact hC.flow hbody hnext hnext rfl
    | false =>
      apply hC.stops
      intro holds
      cases holds with
      | true => exact hC.next
      | false => exact hC.flow hbody ih ih rfl

mutual

theorem run : ∀ a : Action Expression, ¬ loud a → C (Traced.run screen patience a)
  | .choices text icon choices, _ => by
    have htaken := fun i => runChoice i choices
    unfold Traced.run
    apply hC.look
    intro options
    split
    · exact hC.next
    · apply hC.ask
      intro i
      split
      · exact htaken i
      · exact hC.fail _
  | .random groups, _ => by
    have htaken := fun i => runGroup i groups
    unfold Traced.run
    exact hC.look _ fun weights => hC.chance (choose_source weights) htaken
  | .coinFlip probability success failure, _ => by
    have hsuccess := runAll success
    have hfailure := runAll failure
    unfold Traced.run
    refine hC.look _ fun p => hC.chance (gate_source p) fun passed => ?_
    split
    · exact hsuccess
    · exact hfailure
  | .switch branches, _ => by
    unfold Traced.run
    exact runSwitch branches
  | .loop actions stop maxIterations checkAtEnd, _ => by
    have hbody := runAll actions
    unfold Traced.run
    split
    · exact hC.rounds hC.exhausted stop hbody checkAtEnd patience
    · exact hC.rounds hC.next stop hbody checkAtEnd maxIterations
  | .endGame outcome, h => absurd (hC.endGame outcome) h
  | .message _, h | .randomMessage _ _ _, h | .stop _, h | .updateVariable _, h
  | .updateVariables _, h | .updateVariableLimits _ _ _, h | .giveItem _, h
  | .updateItemAmounts _, h | .setStatus _ _, h | .triggerEvents _, h | .toggleEvents _ _, h => by
    unfold Traced.run
    exact hC.plain trivial h

theorem runAll : ∀ as : List (Action Expression), C (Traced.runAll screen patience as)
  | [] => by
    unfold Traced.runAll
    exact hC.next
  | a :: as => by
    have hfirst := run a
    have hrest := runAll as
    unfold Traced.runAll
    exact hC.begin hfirst hrest hC.next rfl

theorem runChoice (i : Nat) : ∀ cs : List (Choice Expression (Action Expression)),
    C (Traced.runChoice screen patience i cs)
  | [] => by
    unfold Traced.runChoice
    exact hC.next
  | ⟨_, _, actions⟩ :: cs => by
    have htaken := runAll actions
    have hrest := fun i => runChoice i cs
    unfold Traced.runChoice
    cases i with
    | zero => exact htaken
    | succ i => exact hrest i

theorem runGroup (i : Nat) : ∀ gs : List (Group Expression (Action Expression)),
    C (Traced.runGroup screen patience i gs)
  | [] => by
    unfold Traced.runGroup
    exact hC.next
  | ⟨_, actions⟩ :: gs => by
    have htaken := runAll actions
    have hrest := fun i => runGroup i gs
    unfold Traced.runGroup
    cases i with
    | zero => exact htaken
    | succ i => exact hrest i

theorem runSwitch : ∀ bs : List (Branch Expression (Action Expression)),
    C (Traced.runSwitch screen patience bs)
  | [] => by
    unfold Traced.runSwitch
    exact hC.next
  | ⟨condition, actions⟩ :: bs => by
    have htaken := runAll actions
    have hrest := runSwitch bs
    unfold Traced.runSwitch
    apply hC.look
    intro holds
    split
    · exact htaken
    · exact hrest

end

end Hereditary

end Traced

end Scenario
