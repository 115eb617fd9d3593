import Scenario.Content
import Scenario.Pass

/-!
The engine: a state with a compiler, and the operations of the host on it. While a pass is in flight
the host can only define things, enqueue triggers and look. A pass that waits for a screen that
never answers stays in flight.
-/

namespace Scenario

structure Engine where
  world : World
  compiler : Compiler
  /-- A pass has begun and has not ended. -/
  inFlight : Bool := false

namespace Engine

/-- The functions that expressions of an engine can call, each with one quoted id. -/
def hostFunctions : List String :=
  ["has", "item", "status", "hasStatus", "effect", "attribute", "occurrences", "enabled",
    "lowerBound", "upperBound"]

def hostCompiler : Compiler := hostFunctions.foldl (fun c f => c.register f (.exactly 1)) {}

def withRandom (config : Config) (random : RandomSource) : Engine :=
  { world := { state := .initial config random }, compiler := hostCompiler }

def new (config : Config) : Engine := withRandom config (.ofSeed config.seed)

variable (e : Engine)

def state : State := e.world.state

def setState (s : State) : Engine := { e with world := { e.world with state := s } }

def requireIdle : Except Error Unit :=
  if e.inFlight then .error (.usage .passInFlight) else .ok ()

def change (f : State → Except EvaluationError State) : Except Error Engine := do
  e.requireIdle
  match f e.state with
  | .ok s => return e.setState s
  | .error cause => throw (.evaluation cause)

/-! ### Expressions -/

def compile (source : Source) : Except Error Expression × Engine :=
  let (r, compiler) := e.compiler.compile source
  (r.mapError .definition, { e with compiler })

def evaluate (source : Source) : Except Error Float × Engine :=
  match e.compile source with
  | (.ok expression, e) => ((e.state.eval expression).mapError .evaluation, e)
  | (.error cause, e) => (.error cause, e)

def value (name : String) : Except Error Float := (e.state.scope.value name).mapError .evaluation

/-! ### Definitions -/

def defineVariable (id : String) (v : Variable) : Except Error Engine :=
  if e.state.vars.contains id then .error (.usage (.duplicate .variable id))
  else if validBounds v.min v.max then
    .ok (e.setState { e.state with vars := e.state.vars.insert id v })
  else .error (.definition (.invalid (.definition .variable id) (.bounds v.min v.max)))

def registerAttribute (a : Attribute) : Except Error Engine :=
  if e.state.attributes.contains a.id then .error (.usage (.duplicate .attribute a.id))
  else if validBounds a.min a.max then
    .ok (e.setState { e.state with attributes := e.state.attributes.insert a.id a })
  else .error (.definition (.invalid (.definition .attribute a.id) (.bounds a.min a.max)))

def registerItem (p : Provider Expression) : Except Error Engine :=
  if e.state.items.contains p.id then .error (.usage (.duplicate .item p.id))
  else .ok (e.setState { e.state with items := e.state.items.insert p.id p })

def registerStatus (p : Provider Expression) : Except Error Engine :=
  if e.state.statusKinds.contains p.id then .error (.usage (.duplicate .status p.id))
  else .ok (e.setState { e.state with statusKinds := e.state.statusKinds.insert p.id p })

def registerEvent (event : Event Expression) : Except Error Engine :=
  match e.state.registry.register event with
  | .ok registry => .ok (e.setState { e.state with registry })
  | .error cause => .error (.usage cause)

/-- Registers one after the other, up to the first that is refused. -/
def registerEach {α : Type} (register : Engine → α → Except Error Engine) :
    List α → Engine → Except Error Unit × Engine
  | [], e => (.ok (), e)
  | a :: as, e =>
    match register e a with
    | .ok e => registerEach register as e
    | .error cause => (.error cause, e)

def andThen (x : Except Error Unit × Engine) (f : Engine → Except Error Unit × Engine) :
    Except Error Unit × Engine :=
  match x with
  | (.ok (), e) => f e
  | (.error cause, e) => (.error cause, e)

def registerAll (d : Definitions) : Except Error Unit × Engine :=
  andThen (registerEach (fun e (id, v) => e.defineVariable id v) d.vars e) fun e =>
  andThen (registerEach registerAttribute d.attributes e) fun e =>
  andThen (registerEach registerItem d.items e) fun e =>
  andThen (registerEach registerStatus d.statuses e) fun e =>
  registerEach registerEvent d.events e

/-- Loads a content document. Nothing is registered unless all of it can be built. -/
def loadContent (text : String) : Except Error Unit × Engine :=
  match (Build.contentOfText text).run e.compiler with
  | (.ok d, compiler) => registerAll { e with compiler } d
  | (.error cause, compiler) => (.error (.definition cause), { e with compiler })

/-! ### Changes by the host -/

def setVariable (id : String) (x : Float) : Except Error Engine := e.change (·.setVariable id x)

def giveItem (id : String) (amount : Float) : Except Error Engine := e.change (·.giveItem id amount)

def setStatus (id : String) (duration : Float) : Except Error Engine :=
  e.change (·.setStatus id duration)

/-- One unit of time passes. The ids are those of the statuses that end. -/
def tick : Except Error (List String × Engine) := do
  e.requireIdle
  let (expired, s) := e.state.tick
  return (expired, e.setState s)

def drainNotifications : List Notification × Engine :=
  (e.state.notifications.reverse, e.setState { e.state with notifications := [] })

/-! ### Triggers -/

def trigger (id : String) (probability : Float) (priority : Int) : Engine :=
  e.setState (e.state.enqueue id priority probability)

def fire (id : String) : Engine := e.trigger id 1.0 e.state.config.defaultTriggerPriority

/-- Runs something that keeps the engine in flight if it is never done. -/
def inFlightDuring {α : Type} (p : Play α) : Outcome α × Engine :=
  match p e.world with
  | (.suspended, world) => (.suspended, { e with world, inFlight := true })
  | (.exhausted, world) => (.exhausted, { e with world, inFlight := true })
  | (outcome, world) => (outcome, { e with world })

/-- The pass of the trigger whose turn it is. There is none behind the end of the game. -/
def processNext (screen : Screen) (patience : Nat) : Outcome (Option PassReport) × Engine :=
  match e.requireIdle with
  | .error cause => (.failed cause, e)
  | .ok () =>
    if e.state.ending.isSome then (.done none, e)
    else
      match e.state.queue.pop? with
      | none => (.done none, e)
      | some (p, queue) =>
        (e.setState { e.state with queue }).inFlightDuring (some <$> Play.pass screen patience p)

def runUntilIdle (screen : Screen) (patience : Nat) :
    Nat → Engine → Outcome (List PassReport) × Engine
  | 0, e => (.exhausted, e)
  | passes + 1, e =>
    match e.processNext screen patience with
    | (.done none, e) => (.done [], e)
    | (.done (some report), e) =>
      match runUntilIdle screen patience passes e with
      | (.done reports, e) => (.done (report :: reports), e)
      | other => other
    | (.failed cause, e) => (.failed cause, e)
    | (.suspended, e) => (.suspended, e)
    | (.exhausted, e) => (.exhausted, e)

def reset : Except Error Engine := do
  e.requireIdle
  return e.setState
    { e.state with queue := {}, registry := e.state.registry.reset, ending := none }

/-! ### Saves -/

def save : Save := .ofState e.state

def restore (save : Save) : Except Error Engine := do
  e.requireIdle
  match save.restore e.state with
  | .ok s => return e.setState s
  | .error cause => throw (.usage cause)

end Engine

end Scenario
