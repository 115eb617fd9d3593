import Scenario.Proofs.Runs

/-!
Runs as scripts. All that a run does is one command after the other: a look, a change, a roll, a
turn of the screen. A script says which command comes first, and what comes after it for each answer
that it may have. Actions and passes have scripts, put together from those of their parts, and to
run them is to play their scripts, on every screen. So what holds of a run command by command is
proved once, by induction on scripts.
-/

namespace Scenario

inductive Command : Type → Type 1
  | look {α : Type} (f : State → Except EvaluationError α) : Command α
  | change (m : Mutation) (h : m.OfAction ∨ m.Fires) : Command Unit
  /-- Decides something by at most one draw. -/
  | chance {α : Type} (f : RandomSource → Except EvaluationError α × RandomSource)
    (h : ∀ source, (f source).2 = source ∨ (f source).2 = source.next.2) : Command α
  | display (message : Message) : Command Unit
  | ask (prompt : ChoicePrompt) : Command Nat
  | fail {α : Type} (cause : Error) : Command α
  | exhausted {α : Type} : Command α

def Command.perform (screen : Screen) {α : Type} : Command α → Play α
  | .look f => Play.look f
  | .change m _ => Play.change (·.mutate m)
  | .chance f _ => Play.chance f
  | .display message => Play.display screen message
  | .ask prompt => Play.ask screen prompt
  | .fail cause => Play.fail cause
  | .exhausted => Play.exhausted

inductive Script (α : Type) : Type 1
  | done (a : α)
  | step {β : Type} (command : Command β) (next : β → Script α)

namespace Script

variable {α β : Type}

def bind : Script α → (α → Script β) → Script β
  | .done a, f => f a
  | .step command next, f => .step command fun b => (next b).bind f

instance : Monad Script where
  pure := .done
  bind := bind

def command (c : Command α) : Script α := .step c .done

def play (screen : Screen) : Script α → Play α
  | .done a => pure a
  | .step command next => command.perform screen >>= fun b => (next b).play screen

def look (f : State → Except EvaluationError α) : Script α := command (.look f)

def change (m : Mutation) (h : m.OfAction ∨ m.Fires) : Script Unit := command (.change m h)

def chance (f : RandomSource → Except EvaluationError α × RandomSource)
    (h : ∀ source, (f source).2 = source ∨ (f source).2 = source.next.2) : Script α :=
  command (.chance f h)

/-! ### Scripts of actions -/

def rounds (last : Script Flow) (stops : Script Bool) (checkAtEnd : Bool) (body : Script Flow) :
    Nat → Script Flow
  | 0 => last
  | n + 1 => do
    if !checkAtEnd then
      if ← stops then return .next
    match ← body with
    | .stopAll => return .stopAll
    | _ =>
      if checkAtEnd then
        if ← stops then return .next
      rounds last stops checkAtEnd body n

def give (amount : ItemAmount Expression) : Script Unit := do
  let x ← look (·.eval amount.amount)
  change (.giveItem amount.item x) (.inl trivial)

def request (r : TriggerRequest Expression) : Script Unit := do
  let p ← look (·.eval r.probability)
  change (.request r.trigger r.priority p) (.inl trivial)

def stops : Option (Condition Expression) → Script Bool
  | some condition => look (·.holds condition)
  | none => pure false

section Actions

variable (patience : Nat)

mutual

def run : Action Expression → Script Flow
  | .message m => do
    command (.display m)
    return .next
  | .randomMessage texts confirm icon => do
    if texts.isEmpty then return .next
    else
      let roll ← chance draw fun _ => .inr rfl
      let text := (texts[evenShare texts.length roll]?).getD ""
      command (.display { text, confirm, icon })
      return .next
  | .choices text icon choices => do
    let options ← look (eligible · 0 choices)
    if options.isEmpty then return .next
    else
      let prompt : ChoicePrompt := ⟨text, icon, options⟩
      let i ← command (.ask prompt)
      if i ∈ prompt.offered then runChoice i choices
      else command (.fail (.usage (.invalidChoice i prompt.offered)))
  | .random groups => do
    let weights ← look fun s => groups.mapM fun g => s.eval g.weight
    let i ← chance (choose weights) (choose_source weights)
    runGroup i groups
  | .coinFlip probability success failure => do
    let p ← look (·.eval probability)
    if ← chance (gate p) (gate_source p) then runAll success else runAll failure
  | .switch branches => runSwitch branches
  | .loop actions stop maxIterations checkAtEnd =>
    if maxIterations = 0 then
      rounds (command .exhausted) (stops stop) checkAtEnd (runAll actions) patience
    else rounds (pure .next) (stops stop) checkAtEnd (runAll actions) maxIterations
  | .stop everywhere => return if everywhere then .stopAll else .stopList
  | .endGame outcome => do
    change (.endGame outcome) (.inl trivial)
    return .stopAll
  | .updateVariable update => do
    let x ← look (·.eval update.value)
    change (.setVariable update.id x) (.inl trivial)
    return .next
  | .updateVariables updates => do
    let xs ← look fun s => updates.mapM fun u => do return (u.id, ← s.eval u.value)
    xs.forM fun (id, x) => change (.setVariable id x) (.inl trivial)
    return .next
  | .updateVariableLimits id min max => do
    let min ← look fun s => min.mapM s.eval
    let max ← look fun s => max.mapM s.eval
    change (.setBounds id min max) (.inl trivial)
    return .next
  | .giveItem amount => do
    give amount
    return .next
  | .updateItemAmounts amounts => do
    amounts.forM give
    return .next
  | .setStatus status duration => do
    let x ← look (·.eval duration)
    change (.setStatus status x) (.inl trivial)
    return .next
  | .triggerEvents requests => do
    requests.forM request
    return .next
  | .toggleEvents enabled events => do
    events.forM fun id => change (.toggle id enabled) (.inl trivial)
    return .next

/-- The script of a list goes on with the next action only if the one before is done and did not
stop it. -/
def runAll : List (Action Expression) → Script Flow
  | [] => return .next
  | a :: as => do
    match ← run a with
    | .next => runAll as
    | .stopList => return .next
    | .stopAll => return .stopAll

def runChoice (i : Nat) : List (Choice Expression (Action Expression)) → Script Flow
  | [] => return .next
  | ⟨_, _, actions⟩ :: cs =>
    match i with
    | 0 => runAll actions
    | i + 1 => runChoice i cs

def runGroup (i : Nat) : List (Group Expression (Action Expression)) → Script Flow
  | [] => return .next
  | ⟨_, actions⟩ :: gs =>
    match i with
    | 0 => runAll actions
    | i + 1 => runGroup i gs

def runSwitch : List (Branch Expression (Action Expression)) → Script Flow
  | [] => return .next
  | ⟨condition, actions⟩ :: bs => do
    if ← look (·.holds condition) then runAll actions else runSwitch bs

end

/-! ### Scripts of passes -/

def takesTurn (excluded : List String) (e : Event Expression) : Script Bool := do
  if !(← look (·.registry.isEnabled e.id)) then return false
  else if e.id ∈ excluded then return false
  else if !(← look fun s => Condition.checkAll s.scope e.conditions) then return false
  else
    let p ← look (·.eval e.probability)
    chance (gate p) (gate_source p)

variable (trigger : String)

def happen (e : Event Expression) : Script Unit := do
  change (.fire e.id trigger) (.inr trivial)
  let _ ← runAll patience e.actions
  if e.once then change (.toggle e.id false) (.inl trivial)

def listen : List String → List (Event Expression) → Script (List String × Bool)
  | _, [] => return ([], false)
  | excluded, e :: es => do
    if ← takesTurn excluded e then
      happen patience trigger e
      if ← look fun s => .ok s.ending.isSome then return ([e.id], true)
      else
        let (fired, ended) ← listen (excluded ++ e.exclusions) es
        return (e.id :: fired, ended)
    else listen excluded es

def pass (p : PendingTrigger) : Script PassReport := do
  if ← chance (gate p.probability) (gate_source p.probability) then
    let listeners ← look fun s => .ok (s.registry.listeners p.trigger)
    let (fired, ended) ← listen patience p.trigger [] listeners
    return ⟨p.trigger, true, fired, ended⟩
  else return ⟨p.trigger, false, [], false⟩

end Actions

/-! ### Scripts that are played -/

theorem play_bind (screen : Screen) (script : Script α) (f : α → Script β) :
    (script >>= f).play screen = script.play screen >>= fun a => (f a).play screen := by
  induction script with
  | done a => rfl
  | step command next ih =>
    funext w
    simp only [Bind.bind, bind, play] at ih ⊢
    rcases command.perform screen w with ⟨_ | _ | _ | _, w'⟩
    · exact congrFun (ih _) w'
    all_goals rfl

/-- To play the script is to do this, on every screen. -/
def Of (script : Script α) (p : Screen → Play α) : Prop := ∀ screen, script.play screen = p screen

namespace Of

protected theorem pure (a : α) : Of (pure a) fun _ => pure a := fun _ => rfl

theorem command (c : Command α) : Of (Script.command c) fun screen => c.perform screen := by
  intro screen
  funext w
  simp only [Script.command, play, Bind.bind]
  rcases c.perform screen w with ⟨_ | _ | _ | _, w'⟩ <;> rfl

protected theorem bind {script : Script α} {next : α → Script β} {p : Screen → Play α}
    {f : Screen → α → Play β} (h : Of script p) (h' : ∀ a, Of (next a) fun screen => f screen a) :
    Of (script >>= next) fun screen => p screen >>= f screen := by
  intro screen
  rw [play_bind, h screen]
  exact congrArg _ (funext fun a => h' a screen)

theorem look (f : State → Except EvaluationError α) : Of (Script.look f) fun _ => Play.look f :=
  command (.look f)

theorem change {m : Mutation} (h : m.OfAction ∨ m.Fires) :
    Of (Script.change m h) fun _ => Play.change (·.mutate m) := command (.change m h)

theorem chance {f : RandomSource → Except EvaluationError α × RandomSource}
    (h : ∀ source, (f source).2 = source ∨ (f source).2 = source.next.2) :
    Of (Script.chance f h) fun _ => Play.chance f := command (.chance f h)

theorem forM {next : β → Script PUnit} {f : β → Play PUnit} (h : ∀ b, Of (next b) fun _ => f b)
    (bs : List β) : Of (bs.forM next) fun _ => bs.forM f := by
  induction bs with
  | nil => exact .pure _
  | cons b bs ih => exact (h b).bind fun _ => ih

theorem rounds {last body : Script Flow} {last' body' : Screen → Play Flow} {stops : Script Bool}
    {stops' : Play Bool} (hlast : Of last last') (hstops : Of stops fun _ => stops')
    (hbody : Of body body') (checkAtEnd : Bool) (n : Nat) :
    Of (Script.rounds last stops checkAtEnd body n)
      fun screen => Play.rounds (last' screen) stops' checkAtEnd (body' screen) n := by
  induction n with
  | zero => exact hlast
  | succ n ih =>
    unfold Script.rounds Play.rounds
    cases checkAtEnd with
    | true =>
      refine hbody.bind fun flow => ?_
      cases flow with
      | stopAll => exact .pure _
      | next | stopList =>
        refine hstops.bind fun stop => ?_
        cases stop with
        | true => exact .pure _
        | false => exact ih
    | false =>
      refine hstops.bind fun stop => ?_
      cases stop with
      | true => exact .pure _
      | false =>
        refine hbody.bind fun flow => ?_
        cases flow with
        | stopAll => exact .pure _
        | next | stopList => exact ih

theorem give (amount : ItemAmount Expression) :
    Of (Script.give amount) fun _ => Play.give amount :=
  (look _).bind fun _ => change _

theorem request (r : TriggerRequest Expression) : Of (Script.request r) fun _ => Play.request r :=
  (look _).bind fun _ => change _

theorem stops (condition : Option (Condition Expression)) :
    Of (Script.stops condition) fun _ => Play.stops condition := by
  cases condition with
  | none => exact .pure false
  | some condition => exact look (·.holds condition)

variable (patience : Nat)

mutual

theorem run : ∀ a : Action Expression,
    Of (Script.run patience a) fun screen => Play.run screen patience a
  | .message m => by
    unfold Script.run Play.run
    exact (command (.display m)).bind fun _ => .pure _
  | .randomMessage texts confirm icon => by
    unfold Script.run Play.run
    split
    · exact .pure _
    · exact (chance _).bind fun roll => (command (.display _)).bind fun _ => .pure _
  | .choices text icon choices => by
    have htaken := fun i => runChoice i choices
    unfold Script.run Play.run
    refine (look _).bind fun options => ?_
    split
    · exact .pure _
    · refine (command (.ask ⟨text, icon, options⟩)).bind fun i => ?_
      split
      · exact htaken i
      · exact command (.fail _)
  | .random groups => by
    have htaken := fun i => runGroup i groups
    unfold Script.run Play.run
    exact (look _).bind fun weights => (chance (choose_source weights)).bind htaken
  | .coinFlip probability success failure => by
    have hsuccess := runAll success
    have hfailure := runAll failure
    unfold Script.run Play.run
    refine (look _).bind fun p => (chance (gate_source p)).bind fun passed => ?_
    split
    · exact hsuccess
    · exact hfailure
  | .switch branches => by
    unfold Script.run Play.run
    exact runSwitch branches
  | .loop actions stop maxIterations checkAtEnd => by
    have hbody := runAll actions
    unfold Script.run Play.run
    split
    · exact rounds (command .exhausted) (stops stop) hbody checkAtEnd patience
    · exact rounds (.pure _) (stops stop) hbody checkAtEnd maxIterations
  | .stop everywhere => by
    unfold Script.run Play.run
    exact .pure _
  | .endGame outcome => by
    unfold Script.run Play.run
    exact (change (m := .endGame outcome) _).bind fun _ => .pure _
  | .updateVariable update => by
    unfold Script.run Play.run
    exact (look _).bind fun x =>
      (change (m := .setVariable update.id x) _).bind fun _ => .pure _
  | .updateVariables updates => by
    unfold Script.run Play.run
    refine (look _).bind fun xs => (forM (fun (id, x) => ?_) xs).bind fun _ => .pure _
    exact change (m := .setVariable id x) _
  | .updateVariableLimits id min max => by
    unfold Script.run Play.run
    exact (look _).bind fun min => (look _).bind fun max =>
      (change (m := .setBounds id min max) _).bind fun _ => .pure _
  | .giveItem amount => by
    unfold Script.run Play.run
    exact (give amount).bind fun _ => .pure _
  | .updateItemAmounts amounts => by
    unfold Script.run Play.run
    exact (forM give amounts).bind fun _ => .pure _
  | .setStatus status duration => by
    unfold Script.run Play.run
    exact (look _).bind fun x =>
      (change (m := .setStatus status x) _).bind fun _ => .pure _
  | .triggerEvents requests => by
    unfold Script.run Play.run
    exact (forM request requests).bind fun _ => .pure _
  | .toggleEvents enabled events => by
    unfold Script.run Play.run
    exact (forM (fun id => change (m := .toggle id enabled) _) events).bind fun _ => .pure _

theorem runAll : ∀ as : List (Action Expression),
    Of (Script.runAll patience as) fun screen => Play.runAll screen patience as
  | [] => by
    unfold Script.runAll Play.runAll
    exact .pure _
  | a :: as => by
    have hrest := runAll as
    unfold Script.runAll Play.runAll
    refine (run a).bind fun flow => ?_
    cases flow with
    | next => exact hrest
    | stopList => exact .pure _
    | stopAll => exact .pure _

theorem runChoice (i : Nat) : ∀ cs : List (Choice Expression (Action Expression)),
    Of (Script.runChoice patience i cs) fun screen => Play.runChoice screen patience i cs
  | [] => by
    unfold Script.runChoice Play.runChoice
    exact .pure _
  | ⟨_, _, actions⟩ :: cs => by
    have htaken := runAll actions
    have hrest := fun i => runChoice i cs
    unfold Script.runChoice Play.runChoice
    cases i with
    | zero => exact htaken
    | succ i => exact hrest i

theorem runGroup (i : Nat) : ∀ gs : List (Group Expression (Action Expression)),
    Of (Script.runGroup patience i gs) fun screen => Play.runGroup screen patience i gs
  | [] => by
    unfold Script.runGroup Play.runGroup
    exact .pure _
  | ⟨_, actions⟩ :: gs => by
    have htaken := runAll actions
    have hrest := fun i => runGroup i gs
    unfold Script.runGroup Play.runGroup
    cases i with
    | zero => exact htaken
    | succ i => exact hrest i

theorem runSwitch : ∀ bs : List (Branch Expression (Action Expression)),
    Of (Script.runSwitch patience bs) fun screen => Play.runSwitch screen patience bs
  | [] => by
    unfold Script.runSwitch Play.runSwitch
    exact .pure _
  | ⟨condition, actions⟩ :: bs => by
    have htaken := runAll actions
    have hrest := runSwitch bs
    unfold Script.runSwitch Play.runSwitch
    refine (look _).bind fun holds => ?_
    split
    · exact htaken
    · exact hrest

end

theorem takesTurn (excluded : List String) (e : Event Expression) :
    Of (Script.takesTurn excluded e) fun _ => Play.takesTurn excluded e := by
  unfold Script.takesTurn Play.takesTurn
  refine (look _).bind fun enabled => ?_
  split
  · exact .pure _
  · split
    · exact .pure _
    · refine (look _).bind fun holds => ?_
      split
      · exact .pure _
      · exact (look _).bind fun p => chance (gate_source p)

variable (trigger : String)

theorem happen (e : Event Expression) :
    Of (Script.happen patience trigger e) fun screen => Play.happen screen patience trigger e := by
  unfold Script.happen Play.happen
  refine (change (m := .fire e.id trigger) _).bind fun _ =>
    (runAll patience e.actions).bind fun _ => ?_
  split
  · exact change (m := .toggle e.id false) _
  · exact .pure _

theorem listen (excluded : List String) (es : List (Event Expression)) :
    Of (Script.listen patience trigger excluded es)
      fun screen => Play.listen screen patience trigger excluded es := by
  induction es generalizing excluded with
  | nil => exact .pure _
  | cons e es ih =>
    unfold Script.listen Play.listen
    refine (takesTurn excluded e).bind fun takes => ?_
    split
    · refine (happen patience trigger e).bind fun _ => (look _).bind fun ended => ?_
      split
      · exact .pure _
      · exact (ih _).bind fun _ => .pure _
    · exact ih excluded

theorem pass (p : PendingTrigger) :
    Of (Script.pass patience p) fun screen => Play.pass screen patience p := by
  unfold Script.pass Play.pass
  refine (chance (gate_source p.probability)).bind fun passed => ?_
  split
  · exact (look _).bind fun listeners =>
      (listen patience p.trigger [] listeners).bind fun _ => .pure _
  · exact .pure _

end Of

end Script

end Scenario
