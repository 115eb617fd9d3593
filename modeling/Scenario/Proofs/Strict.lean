import Scenario.Proofs.CycleGuard
import Scenario.Proofs.Session

/-!
The engine in strict operations, which panic where they are misused: confining to an interval asks
for ends in order, taking from a list for a place that is there. A panic leaves no result at all.
Everything that comes to such an operation is written down once more; what has none is taken over.
-/

namespace Scenario.Strict

/-! ### Operations that can panic -/

/-- Confines `x` to `[lo, hi]`, the ends of which have to be in order. -/
def clamp (x lo hi : Float) : Option Float :=
  if lo ≤ hi then some (Scenario.clamp x lo hi) else none

/-- The last place in a list of this length. -/
def last : Nat → Option Nat
  | 0 => none
  | n + 1 => some n

def builtin : Expr.Builtin → List Float → Option Float
  | .min, xs => some (xs.foldl lesser infinity)
  | .max, xs => some (xs.foldl greater (-infinity))
  | .abs, xs => do return (← xs[0]?).abs
  | .floor, xs => do return (← xs[0]?).floor
  | .ceil, xs => do return (← xs[0]?).ceil
  | .round, xs => do return roundHalfUp (← xs[0]?)
  | .trunc, xs => do return truncate (← xs[0]?)
  | .sign, xs => do return signOf (← xs[0]?)
  | .sqrt, xs => do return (← xs[0]?).sqrt
  | .pow, xs => do return (← xs[0]?).pow (← xs[1]?)
  | .log, xs => do return (← xs[0]?).log
  | .exp, xs => do return (← xs[0]?).exp
  | .clamp, xs => do return lesser (greater (← xs[0]?) (← xs[1]?)) (← xs[2]?)

def apply (c : Combined Float) (base min max : Float) : Option Float :=
  match c.assignment with
  | some x => some x
  | none => clamp ((base * (1 + c.relativeToBase) + c.absolute) * c.relative) min max

def share (weights : List Float) (total roll : Float) : Option Nat :=
  match firstPast? (roll * total) 0 weights with
  | some i => some i
  | none => do
    let final ← last weights.length
    return (lastPositive? weights).getD final

def choose (weights : List Float) (source : RandomSource) :
    Option (Except EvaluationError Nat × RandomSource) :=
  match weights.find? fun w => !w.isFinite || w < 0.0 with
  | some w => some (.error (.invalidWeights (.weight w)), source)
  | none =>
    let total := totalWeight weights
    if total ≤ 0.0 then some (.error (.invalidWeights (.sum total)), source)
    else
      match draw source with
      | (.ok roll, source) => do return (.ok (← share weights total roll), source)
      | (.error cause, source) => some (.error cause, source)

/-- The entry of a list that a draw falls on, all having equal shares. -/
def pick (texts : List String) (roll : Float) : Option String := do
  let final ← last texts.length
  texts[min (roll * Float.ofNat texts.length).toUInt64.toNat final]?

example : clamp 1.0 2.0 0.0 = none := by decide

example : builtin .pow [2.0] = none := rfl

example (roll : Float) : pick [] roll = none := rfl

/-! ### Evaluation -/

abbrev Eval := ExceptT EvaluationError Option

section Code

variable (scope : Expr.Scope Eval)

mutual

def eval : Expr.Code → Eval Float
  | .number x => pure x
  | .name n => scope.value n
  | .not a => do return flag !truthy (← eval a)
  | .negate a => do return -(← eval a)
  | .operator .andThen l r => do
    let x ← eval l
    if truthy x then eval r else return x
  | .operator .orElse l r => do
    let x ← eval l
    if truthy x then return x else eval r
  | .operator op l r => do
    let x ← eval l
    let y ← eval r
    return op.apply x y
  | .choose c a b => do
    if truthy (← eval c) then eval a else eval b
  | .builtin b args => do builtin b (← evalAll args)
  | .host f args => do scope.call f (← evalArguments args)

def evalAll : List Expr.Code → Eval (List Float)
  | [] => pure []
  | a :: as => do
    let x ← eval a
    let xs ← evalAll as
    return x :: xs

def evalArguments : List (Expr.Argument Expr.Code) → Eval (List (Expr.Argument Float))
  | [] => pure []
  | a :: as => do
    let x ← evalArgument a
    let xs ← evalArguments as
    return x :: xs

def evalArgument : Expr.Argument Expr.Code → Eval (Expr.Argument Float)
  | .text s => pure (.text s)
  | .value a => do return .value (← eval a)

end

def expression (e : Expression) : Eval Float := do
  let x ← eval scope e.code
  if x.isNaN then throw (.notANumber e.source) else return x

mutual

def check : Condition Expression → Eval Bool
  | .expression e => do return truthy (← expression scope e)
  | .not c => do return !(← check c)
  | .all cs => checkAll cs
  | .any cs => checkAny cs
  | .count cs min max => do
    let n := Float.ofNat (← countHolding cs).toNat
    if (← expression scope min) ≤ n then return n ≤ (← expression scope max) else return false

def checkAll : List (Condition Expression) → Eval Bool
  | [] => return true
  | c :: cs => do if ← check c then checkAll cs else return false

def checkAny : List (Condition Expression) → Eval Bool
  | [] => return false
  | c :: cs => do if ← check c then return true else checkAny cs

def countHolding : List (Condition Expression) → Eval UInt32
  | [] => return 0
  | c :: cs => do
    let holds ← check c
    let n ← countHolding cs
    return if holds then n + 1 else n

end

end Code

/-! ### States -/

section States

variable (s : State)

def attributeWith (combined : String → Eval (Combined Float)) (id : String) : Eval Float :=
  match s.attributes[id]? with
  | some a => do apply (← combined id) a.base a.min a.max
  | none => throw (.unknown .attribute id)

/-- The scope of a state, in which attributes are confined strictly. -/
def scopeWith (combined : String → Eval (Combined Float)) : Expr.Scope Eval where
  value name :=
    match s.vars[name]? with
    | some v => pure v.value
    | none =>
      if s.attributes.contains name then attributeWith s combined name
      else throw (.unknown .variable name)
  call function arguments :=
    if function = "attribute" then do
      attributeWith s combined (← State.idArgument function arguments)
    else (s.scopeWith combined).call function arguments

def combinedWithin (opened : List String) (target : String) : Eval (Combined Float) :=
  if _ : target ∈ opened then throw (.modifierCycle target)
  else if _ : target ∈ s.targets then
    Combined.collect (expression (scopeWith s fun t => combinedWithin (target :: opened) t)) target
      .neutral s.sources
  else pure .neutral
termination_by (s.targets.filter (· ∉ opened)).length
decreasing_by exact State.filter_length_lt (by assumption) (by assumption)

def scope : Expr.Scope Eval := scopeWith s (combinedWithin s [])

def read : Reading → Eval Float
  | .expression e => expression (scope s) e
  | .attributeValue id => attributeWith s (combinedWithin s []) id
  | .effectValue id => State.effectWith (combinedWithin s []) id

def setVariable (id : String) (x : Float) : Eval State :=
  match s.vars[id]? with
  | none => throw (.unknown .variable id)
  | some v => do
    let value ← clamp x v.min v.max
    return { s with vars := s.vars.insert id { v with value } }.notifyValue id v.value value

def setVariableBounds (id : String) (min max : Option Float) : Eval State :=
  match s.vars[id]? with
  | none => throw (.unknown .variable id)
  | some v => do
    let min := min.getD v.min
    let max := max.getD v.max
    if validBounds min max then
      let value ← clamp v.value min max
      let s := { s with vars := s.vars.insert id ⟨value, min, max⟩ }
      return (s.notify (.variableLimitsChanged id min max)).notifyValue id v.value value
    else throw (.invalidBounds id min max)

def eligible {α : Type} (i : Nat) : List (Choice Expression α) → Eval (List ChoiceOption)
  | [] => return []
  | c :: cs => do
    let holds ←
      match c.requirement with
      | some requirement => check (scope s) requirement
      | none => pure true
    let rest ← eligible (i + 1) cs
    return if holds then ⟨c.text, i⟩ :: rest else rest

end States

/-! ### Runs -/

def Run (α : Type) := World → Option (Outcome α × World)

section Runs

variable {α β : Type}

instance : Monad Run where
  pure a := fun w => some (.done a, w)
  bind x f := fun w =>
    match x w with
    | some (.done a, w) => f a w
    | some (.failed e, w) => some (.failed e, w)
    | some (.suspended, w) => some (.suspended, w)
    | some (.exhausted, w) => some (.exhausted, w)
    | none => none

def panic : Run α := fun _ => none

/-- A run that comes to no operation that can panic. -/
def total (p : Play α) : Run α := fun w => some (p w)

def look (f : State → Eval α) : Run α := fun w =>
  match (f w.state).run with
  | some (.ok a) => some (.done a, w)
  | some (.error e) => some (.failed (.evaluation e), w)
  | none => none

def change (f : State → Eval State) : Run Unit := fun w =>
  match (f w.state).run with
  | some (.ok s) => some (.done (), { w with state := s })
  | some (.error e) => some (.failed (.evaluation e), w)
  | none => none

def chance (f : RandomSource → Option (Except EvaluationError α × RandomSource)) : Run α := fun w =>
  match f w.state.random with
  | some (.ok a, random) => some (.done a, { w with state := { w.state with random } })
  | some (.error e, random) =>
    some (.failed (.evaluation e), { w with state := { w.state with random } })
  | none => none

def evaluates (e : Expression) : Run Float := look fun s => expression (scope s) e

def holds (c : Condition Expression) : Run Bool := look fun s => check (scope s) c

def stops : Option (Condition Expression) → Run Bool
  | some condition => holds condition
  | none => pure false

def rounds (last : Run Flow) (stops : Run Bool) (checkAtEnd : Bool) (body : Run Flow) :
    Nat → Run Flow
  | 0 => last
  | n + 1 => do
    if !checkAtEnd then
      if ← stops then return .next
    match ← body with
    | .stopAll => return .stopAll
    | _ =>
      if checkAtEnd then
        if ← stops then return .next
      rounds last stops checkAtEnd body n

def give (amount : ItemAmount Expression) : Run Unit := do
  let x ← evaluates amount.amount
  total (Play.change (·.giveItem amount.item x))

def request (r : TriggerRequest Expression) : Run Unit := do
  let p ← evaluates r.probability
  total (Play.change fun s =>
    .ok (s.enqueue r.trigger (r.priority.getD s.config.defaultTriggerPriority) p))

end Runs

section Actions

variable (screen : Screen) (patience : Nat)

mutual

def run : Action Expression → Run Flow
  | .message m => total (Play.run screen patience (.message m))
  | .randomMessage texts confirm icon => do
    if texts.isEmpty then return .next
    else
      let roll ← total (Play.chance draw)
      match pick texts roll with
      | some text =>
        total (Play.display screen { text, confirm, icon })
        return .next
      | none => panic
  | .choices text icon choices => do
    let options ← look (eligible · 0 choices)
    if options.isEmpty then return .next
    else
      let prompt : ChoicePrompt := ⟨text, icon, options⟩
      let i ← total (Play.ask screen prompt)
      if i ∈ prompt.offered then runChoice i choices
      else total (Play.fail (.usage (.invalidChoice i prompt.offered)))
  | .random groups => do
    let weights ← look fun s => groups.mapM fun g => expression (scope s) g.weight
    let i ← chance (choose weights)
    runGroup i groups
  | .coinFlip probability success failure => do
    let p ← evaluates probability
    if ← total (Play.chance (gate p)) then runAll success else runAll failure
  | .switch branches => runSwitch branches
  | .loop actions stop maxIterations checkAtEnd =>
    if maxIterations = 0 then
      rounds (total Play.exhausted) (stops stop) checkAtEnd (runAll actions) patience
    else rounds (pure .next) (stops stop) checkAtEnd (runAll actions) maxIterations
  | .stop everywhere => total (Play.run screen patience (.stop everywhere))
  | .endGame outcome => total (Play.run screen patience (.endGame outcome))
  | .updateVariable update => do
    let x ← evaluates update.value
    change (setVariable · update.id x)
    return .next
  | .updateVariables updates => do
    let xs ← look fun s => updates.mapM fun u => do return (u.id, ← expression (scope s) u.value)
    xs.forM fun (id, x) => change (setVariable · id x)
    return .next
  | .updateVariableLimits id min max => do
    let min ← look fun s => min.mapM (expression (scope s))
    let max ← look fun s => max.mapM (expression (scope s))
    change (setVariableBounds · id min max)
    return .next
  | .giveItem amount => do
    give amount
    return .next
  | .updateItemAmounts amounts => do
    amounts.forM give
    return .next
  | .setStatus status duration => do
    let x ← evaluates duration
    total (Play.change (·.setStatus status x))
    return .next
  | .triggerEvents requests => do
    requests.forM request
    return .next
  | .toggleEvents enabled events =>
    total (Play.run screen patience (.toggleEvents enabled events))

def runAll : List (Action Expression) → Run Flow
  | [] => return .next
  | a :: as => do
    match ← run a with
    | .next => runAll as
    | .stopList => return .next
    | .stopAll => return .stopAll

/-- Takes a choice, which has to be there. -/
def runChoice (i : Nat) : List (Choice Expression (Action Expression)) → Run Flow
  | [] => panic
  | ⟨_, _, actions⟩ :: cs =>
    match i with
    | 0 => runAll actions
    | i + 1 => runChoice i cs

/-- Takes a group, which has to be there. -/
def runGroup (i : Nat) : List (Group Expression (Action Expression)) → Run Flow
  | [] => panic
  | ⟨_, actions⟩ :: gs =>
    match i with
    | 0 => runAll actions
    | i + 1 => runGroup i gs

def runSwitch : List (Branch Expression (Action Expression)) → Run Flow
  | [] => return .next
  | ⟨condition, actions⟩ :: bs => do
    if ← holds condition then runAll actions else runSwitch bs

end

end Actions

/-! ### Passes -/

def takesTurn (excluded : List String) (e : Event Expression) : Run Bool := do
  if !(← total (Play.look (·.registry.isEnabled e.id))) then return false
  else if e.id ∈ excluded then return false
  else if !(← look fun s => checkAll (scope s) e.conditions) then return false
  else
    let p ← evaluates e.probability
    total (Play.chance (gate p))

def happen (screen : Screen) (patience : Nat) (trigger : String) (e : Event Expression) :
    Run Unit := do
  total (Play.change (·.fireEvent e.id trigger))
  let _ ← runAll screen patience e.actions
  if e.once then total (Play.change (·.setEventEnabled e.id false))

def listen (screen : Screen) (patience : Nat) (trigger : String) :
    List String → List (Event Expression) → Run (List String × Bool)
  | _, [] => return ([], false)
  | excluded, e :: es => do
    if ← takesTurn excluded e then
      happen screen patience trigger e
      if ← total (Play.look fun s => .ok s.ending.isSome) then return ([e.id], true)
      else
        let (fired, ended) ← listen screen patience trigger (excluded ++ e.exclusions) es
        return (e.id :: fired, ended)
    else listen screen patience trigger excluded es

def pass (screen : Screen) (patience : Nat) (p : PendingTrigger) : Run PassReport := do
  if ← total (Play.chance (gate p.probability)) then
    let listeners ← look fun s => pure (s.registry.listeners p.trigger)
    let (fired, ended) ← listen screen patience p.trigger [] listeners
    return ⟨p.trigger, true, fired, ended⟩
  else return ⟨p.trigger, false, [], false⟩

/-! ### Engines -/

section Engines

variable (e : Engine)

def evaluate (source : Source) : Option (Except Error Float × Engine) :=
  match e.compile source with
  | (.ok expression, e) => do
    let r ← (Strict.expression (scope e.state) expression).run
    return (r.mapError .evaluation, e)
  | (.error cause, e) => some (.error cause, e)

def value (name : String) : Option (Except Error Float) := do
  let r ← ((scope e.state).value name).run
  return r.mapError .evaluation

def hostSetVariable (id : String) (x : Float) : Option (Except Error Engine) :=
  match e.requireIdle with
  | .error cause => some (.error cause)
  | .ok () => do
    match ← (setVariable e.state id x).run with
    | .ok s => return .ok (e.setState s)
    | .error cause => return .error (.evaluation cause)

def inFlightDuring {α : Type} (r : Run α) : Option (Outcome α × Engine) := do
  match ← r e.world with
  | (.suspended, world) => return (.suspended, { e with world, inFlight := true })
  | (.exhausted, world) => return (.exhausted, { e with world, inFlight := true })
  | (outcome, world) => return (outcome, { e with world })

def processNext (screen : Screen) (patience : Nat) :
    Option (Outcome (Option PassReport) × Engine) :=
  match e.requireIdle with
  | .error cause => some (.failed cause, e)
  | .ok () =>
    if e.state.ending.isSome then some (.done none, e)
    else
      match e.state.queue.pop? with
      | none => some (.done none, e)
      | some (p, queue) =>
        inFlightDuring (e.setState { e.state with queue }) (some <$> pass screen patience p)

def runUntilIdle (screen : Screen) (patience : Nat) :
    Nat → Engine → Option (Outcome (List PassReport) × Engine)
  | 0, e => some (.exhausted, e)
  | passes + 1, e => do
    match ← processNext e screen patience with
    | (.done none, e) => return (.done [], e)
    | (.done (some report), e) =>
      match ← runUntilIdle screen patience passes e with
      | (.done reports, e) => return (.done (report :: reports), e)
      | other => return other
    | (.failed cause, e) => return (.failed cause, e)
    | (.suspended, e) => return (.suspended, e)
    | (.exhausted, e) => return (.exhausted, e)

/-- What a call comes to, unless it panics. -/
def perform (screen : Screen) : Call → Option (Answer × Engine)
  | .evaluate source => do
    let (r, e) ← evaluate e source
    return (.number r, e)
  | .value name => do return (.number (← value e name), e)
  | .setVariable id x => do return e.attempt (← hostSetVariable e id x)
  | .next patience => do
    let (o, e) ← processNext e screen patience
    return (.report o, e)
  | .run patience passes => do
    let (o, e) ← runUntilIdle screen patience passes e
    return (.reports o, e)
  | call => some (e.perform screen call)

end Engines

end Scenario.Strict
