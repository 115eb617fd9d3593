import Scenario.State

/-!
Running actions. A run changes the state step by step and keeps every change, however it ends: done,
with an error, waiting for a screen that never answers, or out of patience with a loop that has no
limit.
-/

namespace Scenario

/-- One of the choices that a prompt offers, by its place among all choices. -/
structure ChoiceOption where
  label : String
  index : Nat
deriving Repr, DecidableEq

structure ChoicePrompt where
  text : String
  icon : Option String
  options : List ChoiceOption
deriving Repr, DecidableEq

def ChoicePrompt.offered (prompt : ChoicePrompt) : List Nat := prompt.options.map ChoiceOption.index

inductive Interaction
  | message (message : Message)
  | choices (prompt : ChoicePrompt)
deriving Repr, DecidableEq

/-- The player's side. What it does may depend on all that was shown before. -/
structure Screen where
  /-- Whether a message is ever acknowledged. -/
  acknowledges : List Interaction → Message → Bool
  /-- The choice that is made, if one ever is. -/
  chooses : List Interaction → ChoicePrompt → Option Nat

structure World where
  state : State
  shown : List Interaction := []

inductive Outcome (α : Type)
  | done (value : α)
  | failed (error : Error)
  | suspended
  | exhausted
deriving Repr

def Play (α : Type) := World → Outcome α × World

namespace Play

variable {α β : Type}

instance : Monad Play where
  pure a := fun w => (.done a, w)
  bind x f := fun w =>
    match x w with
    | (.done a, w) => f a w
    | (.failed e, w) => (.failed e, w)
    | (.suspended, w) => (.suspended, w)
    | (.exhausted, w) => (.exhausted, w)

def fail (e : Error) : Play α := fun w => (.failed e, w)

def exhausted : Play α := fun w => (.exhausted, w)

def look (f : State → Except EvaluationError α) : Play α := fun w =>
  match f w.state with
  | .ok a => (.done a, w)
  | .error e => (.failed (.evaluation e), w)

def change (f : State → Except EvaluationError State) : Play Unit := fun w =>
  match f w.state with
  | .ok s => (.done (), { w with state := s })
  | .error e => (.failed (.evaluation e), w)

/-- Draws from the random source of the state. Draws are spent even on errors. -/
def chance (f : RandomSource → Except EvaluationError α × RandomSource) : Play α := fun w =>
  let (r, random) := f w.state.random
  let w := { w with state := { w.state with random } }
  match r with
  | .ok a => (.done a, w)
  | .error e => (.failed (.evaluation e), w)

def display (screen : Screen) (message : Message) : Play Unit := fun w =>
  let shown := w.shown ++ [.message message]
  (if screen.acknowledges w.shown message then .done () else .suspended, { w with shown })

def ask (screen : Screen) (prompt : ChoicePrompt) : Play Nat := fun w =>
  let shown := w.shown ++ [.choices prompt]
  match screen.chooses w.shown prompt with
  | some i => (.done i, { w with shown })
  | none => (.suspended, { w with shown })

/-- Rounds of a loop. `last` is what happens when no round is left. -/
def rounds (last : Play Flow) (stops : Play Bool) (checkAtEnd : Bool) (body : Play Flow) :
    Nat → Play Flow
  | 0 => last
  | n + 1 => do
    if !checkAtEnd then
      if ← stops then return .next
    match ← body with
    | .stopAll => return .stopAll
    | _ =>
      if checkAtEnd then
        if ← stops then return .next
      rounds last stops checkAtEnd body n

end Play

def eligible {α : Type} (s : State) (i : Nat) :
    List (Choice Expression α) → Except EvaluationError (List ChoiceOption)
  | [] => .ok []
  | c :: cs => do
    let holds ←
      match c.requirement with
      | some requirement => s.holds requirement
      | none => .ok true
    let rest ← eligible s (i + 1) cs
    return if holds then ⟨c.text, i⟩ :: rest else rest

/-- The place in a list of this length that a draw falls on, all having equal shares. -/
def evenShare (length : Nat) (roll : Float) : Nat :=
  min (roll * Float.ofNat length).toUInt64.toNat (length - 1)

namespace Play

def give (amount : ItemAmount Expression) : Play Unit := do
  let x ← look (·.eval amount.amount)
  change (·.giveItem amount.item x)

def request (r : TriggerRequest Expression) : Play Unit := do
  let p ← look (·.eval r.probability)
  change fun s => .ok (s.enqueue r.trigger (r.priority.getD s.config.defaultTriggerPriority) p)

def stops : Option (Condition Expression) → Play Bool
  | some condition => look (·.holds condition)
  | none => pure false

section Run

variable (screen : Screen) (patience : Nat)

mutual

def run : Action Expression → Play Flow
  | .message m => do
    display screen m
    return .next
  | .randomMessage texts confirm icon => do
    if texts.isEmpty then return .next
    else
      let roll ← chance draw
      let text := (texts[evenShare texts.length roll]?).getD ""
      display screen { text, confirm, icon }
      return .next
  | .choices text icon choices => do
    let options ← look (eligible · 0 choices)
    if options.isEmpty then return .next
    else
      let prompt : ChoicePrompt := ⟨text, icon, options⟩
      let i ← ask screen prompt
      if i ∈ prompt.offered then runChoice i choices
      else fail (.usage (.invalidChoice i prompt.offered))
  | .random groups => do
    let weights ← look fun s => groups.mapM fun g => s.eval g.weight
    let i ← chance (choose weights)
    runGroup i groups
  | .coinFlip probability success failure => do
    let p ← look (·.eval probability)
    if ← chance (gate p) then runAll success else runAll failure
  | .switch branches => runSwitch branches
  | .loop actions stop maxIterations checkAtEnd =>
    if maxIterations = 0 then
      rounds exhausted (stops stop) checkAtEnd (runAll actions) patience
    else rounds (pure .next) (stops stop) checkAtEnd (runAll actions) maxIterations
  | .stop everywhere => return if everywhere then .stopAll else .stopList
  | .endGame outcome => do
    change fun s => .ok (s.endGame outcome)
    return .stopAll
  | .updateVariable update => do
    let x ← look (·.eval update.value)
    change (·.setVariable update.id x)
    return .next
  | .updateVariables updates => do
    let xs ← look fun s => updates.mapM fun u => do return (u.id, ← s.eval u.value)
    xs.forM fun (id, x) => change (·.setVariable id x)
    return .next
  | .updateVariableLimits id min max => do
    let min ← look fun s => min.mapM s.eval
    let max ← look fun s => max.mapM s.eval
    change (·.setVariableBounds id min max)
    return .next
  | .giveItem amount => do
    give amount
    return .next
  | .updateItemAmounts amounts => do
    amounts.forM give
    return .next
  | .setStatus status duration => do
    let x ← look (·.eval duration)
    change (·.setStatus status x)
    return .next
  | .triggerEvents requests => do
    requests.forM request
    return .next
  | .toggleEvents enabled events => do
    events.forM fun id => change (·.setEventEnabled id enabled)
    return .next

/-- Runs actions in order. A stop of the list ends here. -/
def runAll : List (Action Expression) → Play Flow
  | [] => return .next
  | a :: as => do
    match ← run a with
    | .next => runAll as
    | .stopList => return .next
    | .stopAll => return .stopAll

def runChoice (i : Nat) : List (Choice Expression (Action Expression)) → Play Flow
  | [] => return .next
  | ⟨_, _, actions⟩ :: cs =>
    match i with
    | 0 => runAll actions
    | i + 1 => runChoice i cs

def runGroup (i : Nat) : List (Group Expression (Action Expression)) → Play Flow
  | [] => return .next
  | ⟨_, actions⟩ :: gs =>
    match i with
    | 0 => runAll actions
    | i + 1 => runGroup i gs

def runSwitch : List (Branch Expression (Action Expression)) → Play Flow
  | [] => return .next
  | ⟨condition, actions⟩ :: bs => do
    if ← look (·.holds condition) then runAll actions else runSwitch bs

end

end Run

end Play

end Scenario
