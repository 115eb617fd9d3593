import Scenario.Modifier
import Scenario.Registry

/-!
From records to definitions. Records hold the sources of their expressions; building compiles them,
in a fixed order, and refuses actions that could never be run. What is built says the same as its
record.
-/

namespace Scenario

namespace Build

variable {α β : Type}

def each (f : α → Build β) : List α → Build (List β)
  | [] => return []
  | a :: as => do
    let b ← f a
    let bs ← each f as
    return b :: bs

def whenGiven (f : α → Build β) : Option α → Build (Option β)
  | none => return none
  | some a => do return some (← f a)

section Definition

variable (context : Context)

def field (name : String) (source : Source) : Build Expression := fun c =>
  match c.compile source with
  | (.ok e, c) => (.ok e, c)
  | (.error cause, c) => (.error (.field context name cause), c)

mutual

def condition : Condition Source → Build (Condition Expression)
  | .expression e => do return .expression (← field context "expression" e)
  | .not c => do return .not (← condition c)
  | .all cs => do return .all (← conditions cs)
  | .any cs => do return .any (← conditions cs)
  | .count cs min max => do
    let cs ← conditions cs
    let min ← field context "min" min
    let max ← field context "max" max
    return .count cs min max

def conditions : List (Condition Source) → Build (List (Condition Expression))
  | [] => return []
  | c :: cs => do
    let c ← condition c
    let cs ← conditions cs
    return c :: cs

end

def update (u : VariableUpdate Source) : Build (VariableUpdate Expression) := do
  return ⟨u.id, ← field context "value" u.value⟩

def amount (a : ItemAmount Source) : Build (ItemAmount Expression) := do
  return ⟨a.item, ← field context "amount" a.amount⟩

def request (r : TriggerRequest Source) : Build (TriggerRequest Expression) := do
  return ⟨r.trigger, r.priority, ← field context "probability" r.probability⟩

mutual

def action : Action Source → Build (Action Expression)
  | .message m => return .message m
  | .randomMessage texts confirm icon =>
    if texts.isEmpty then throw (.invalid context .noMessages)
    else return .randomMessage texts confirm icon
  | .choices text icon cs => do return .choices text icon (← choices cs)
  | .random gs =>
    if gs.isEmpty then throw (.invalid context .noGroups) else do return .random (← groups gs)
  | .coinFlip probability success failure => do
    let probability ← field context "probability" probability
    let success ← actions success
    let failure ← actions failure
    return .coinFlip probability success failure
  | .switch bs => do return .switch (← branches bs)
  | .loop as stop maxIterations checkAtEnd => do
    let as ← actions as
    let stop ← whenGiven (condition context) stop
    return .loop as stop maxIterations checkAtEnd
  | .stop everywhere => return .stop everywhere
  | .endGame outcome => return .endGame outcome
  | .updateVariable u => do return .updateVariable (← update context u)
  | .updateVariables us => do return .updateVariables (← each (update context) us)
  | .updateVariableLimits id min max => do
    let min ← whenGiven (field context "min") min
    let max ← whenGiven (field context "max") max
    return .updateVariableLimits id min max
  | .giveItem a => do return .giveItem (← amount context a)
  | .updateItemAmounts as => do return .updateItemAmounts (← each (amount context) as)
  | .setStatus status duration => do return .setStatus status (← field context "duration" duration)
  | .triggerEvents rs => do return .triggerEvents (← each (request context) rs)
  | .toggleEvents enabled events => return .toggleEvents enabled events

def actions : List (Action Source) → Build (List (Action Expression))
  | [] => return []
  | a :: as => do
    let a ← action a
    let as ← actions as
    return a :: as

def choices : List (Choice Source (Action Source)) →
    Build (List (Choice Expression (Action Expression)))
  | [] => return []
  | ⟨text, requirement, as⟩ :: cs => do
    let requirement ← whenGiven (condition context) requirement
    let as ← actions as
    let cs ← choices cs
    return ⟨text, requirement, as⟩ :: cs

def groups : List (Group Source (Action Source)) →
    Build (List (Group Expression (Action Expression)))
  | [] => return []
  | ⟨weight, as⟩ :: gs => do
    let weight ← field context "weight" weight
    let as ← actions as
    let gs ← groups gs
    return ⟨weight, as⟩ :: gs

def branches : List (Branch Source (Action Source)) →
    Build (List (Branch Expression (Action Expression)))
  | [] => return []
  | ⟨c, as⟩ :: bs => do
    let c ← condition context c
    let as ← actions as
    let bs ← branches bs
    return ⟨c, as⟩ :: bs

end

/-- Builds an event: its conditions, then its actions, then its probability. -/
def event (e : Event Source) : Build (Event Expression) := do
  let conditions ← conditions context e.conditions
  let actions ← actions context e.actions
  let probability ← field context "probability" e.probability
  return { e with conditions, actions, probability }

end Definition

def modifier (context : Context) (m : Modifier Source) : Build (Modifier Expression) := do
  return ⟨m.target, m.kind, ← field context "amount" m.amount⟩

def provider (kind : Kind) (p : Provider Source) : Build (Provider Expression) := do
  return { p with modifiers := ← each (modifier (.definition kind p.id)) p.modifiers }

end Build

end Scenario
