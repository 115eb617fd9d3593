import Scenario.Inventory
import Scenario.Queue
import Scenario.Random
import Scenario.Registry
import Scenario.Variable

/-!
The state of a game: what is defined, what is held, what is pending, and what has changed since the
host last asked.
-/

namespace Scenario

structure Config where
  seed : String := "default"
  maxItemStack : Nat := 4294967295
  defaultTriggerPriority : Int := 0
deriving Repr, DecidableEq

inductive Notification
  | variableChanged (id : String) (old new : Float)
  | variableLimitsChanged (id : String) (min max : Float)
  | itemChanged (id : String) (old new : Nat)
  /-- A status is active for a time, or not any more. -/
  | statusChanged (id : String) (remaining : Option Float)
  | eventFired (event trigger : String)
  | eventToggled (event : String) (enabled : Bool)
  | gameEnded (outcome : Option String)
deriving Repr

structure Ending where
  outcome : Option String
deriving Repr, DecidableEq

structure State where
  config : Config := {}
  vars : Variables := ∅
  attributes : Std.ExtTreeMap String Attribute := ∅
  items : Std.ExtTreeMap String (Provider Expression) := ∅
  statusKinds : Std.ExtTreeMap String (Provider Expression) := ∅
  inventory : Inventory := {}
  statuses : Statuses Float := {}
  registry : Registry := {}
  queue : TriggerQueue := {}
  random : RandomSource
  ending : Option Ending := none
  /-- Changes that the host has not asked for, the newest first. -/
  notifications : List Notification := []

namespace State

def initial (config : Config) (random : RandomSource) : State :=
  { config, random, inventory := { maxStack := config.maxItemStack } }

variable (s : State)

/-- What is held, in the order that decides between assignments. -/
def sources : List (Provider Expression × Nat) := s.inventory.sources ++ s.statuses.sources

def targets : List String := s.sources.flatMap fun (p, _) => p.modifiers.map Modifier.target

def notify (n : Notification) : State := { s with notifications := n :: s.notifications }

/-! ### Values -/

section Readings

variable {m : Type → Type} [Monad m] [MonadExceptOf EvaluationError m]

def idArgument (function : String) : List (Expr.Argument Float) → m String
  | [.text id] => pure id
  | _ => throw (.hostFunction function "expects one quoted id")

variable (combined : String → m (Combined Float))

def attributeWith (id : String) : m Float :=
  match s.attributes[id]? with
  | some a => do return (← combined id).apply a.base a.min a.max
  | none => throw (.unknown .attribute id)

def effectWith (id : String) : m Float := do
  return (← combined id).effect

/-- The names and functions of the engine, given the modifiers of each target. -/
def scopeWith : Expr.Scope m where
  value name :=
    match s.vars[name]? with
    | some v => pure v.value
    | none =>
      if s.attributes.contains name then s.attributeWith combined name
      else throw (.unknown .variable name)
  call function arguments := do
    let id ← idArgument function arguments
    match function with
    | "has" => return flag (s.vars.contains id)
    | "item" =>
      if s.items.contains id then return Float.ofNat (s.inventory.count id)
      else throw (.unknown .item id)
    | "status" =>
      if s.statusKinds.contains id then return (s.statuses.remaining? id).getD 0.0
      else throw (.unknown .status id)
    | "hasStatus" =>
      if s.statusKinds.contains id then return flag (s.statuses.contains id)
      else throw (.unknown .status id)
    | "effect" => effectWith combined id
    | "attribute" => s.attributeWith combined id
    | "occurrences" => return Float.ofNat (← liftExcept (s.registry.occurrences id))
    | "enabled" => return flag (← liftExcept (s.registry.isEnabled id))
    | "lowerBound" => return (← liftExcept (s.vars.find id)).min
    | "upperBound" => return (← liftExcept (s.vars.find id)).max
    | _ => throw (.hostFunction function "not provided by this engine")

end Readings

theorem filter_length_lt {ts opened : List String} {t : String} (h : t ∈ ts) (h' : t ∉ opened) :
    (ts.filter (· ∉ t :: opened)).length < (ts.filter (· ∉ opened)).length := by
  induction ts with
  | nil => simp at h
  | cons u us ih =>
    have le : (us.filter (· ∉ t :: opened)).length ≤ (us.filter (· ∉ opened)).length := by
      rw [← List.countP_eq_length_filter, ← List.countP_eq_length_filter]
      exact List.countP_mono_left fun x _ hx => by simp_all
    by_cases hu : u = t
    · subst hu
      simp [h']
      simpa using Nat.lt_succ_of_le (by simpa using le)
    · have hm : t ∈ us := by
        rcases List.mem_cons.1 h with rfl | h
        · exact absurd rfl hu
        · exact h
      have ih := ih hm
      by_cases ho : u ∈ opened <;> simp_all

/-- What the held modifiers for a target come to, while the targets in `opened` are being combined.
Their amounts may ask for other targets, but not for one of those. -/
def combinedWithin (opened : List String) (target : String) :
    Except EvaluationError (Combined Float) :=
  if _ : target ∈ opened then .error (.modifierCycle target)
  else if _ : target ∈ s.targets then
    Combined.collect (·.eval (s.scopeWith fun t => combinedWithin (target :: opened) t)) target
      .neutral s.sources
  else .ok .neutral
termination_by (s.targets.filter (· ∉ opened)).length
decreasing_by exact filter_length_lt (by assumption) (by assumption)

def combined (target : String) : Except EvaluationError (Combined Float) :=
  s.combinedWithin [] target

def scope : Expr.Scope (Except EvaluationError) := s.scopeWith s.combined

def attributeValue (id : String) : Except EvaluationError Float := s.attributeWith s.combined id

def effectValue (id : String) : Except EvaluationError Float := effectWith s.combined id

def eval (e : Expression) : Except EvaluationError Float := e.eval s.scope

def holds (c : Condition Expression) : Except EvaluationError Bool := c.check s.scope

/-! ### Changes -/

def notifyValue (id : String) (old new : Float) : State :=
  if old == new then s else s.notify (.variableChanged id old new)

def setVariable (id : String) (x : Float) : Except EvaluationError State := do
  let v ← s.vars.find id
  let vars ← s.vars.set id x
  return { s with vars }.notifyValue id v.value (v.set x).value

def setVariableBounds (id : String) (min max : Option Float) : Except EvaluationError State := do
  let v ← s.vars.find id
  let vars ← s.vars.setBounds id min max
  let w ← vars.find id
  return ({ s with vars }.notify (.variableLimitsChanged id w.min w.max)).notifyValue id
    v.value w.value

/-- Adds items, or takes some away; a fraction of an item does not count, and what is no number
changes nothing. -/
def giveItem (id : String) (amount : Float) : Except EvaluationError State :=
  match s.items[id]? with
  | none => .error (.unknown .item id)
  | some provider =>
    let old := s.inventory.count id
    let inventory := s.inventory.add provider (wholePart amount)
    let new := inventory.count id
    let s := { s with inventory }
    .ok (if old = new then s else s.notify (.itemChanged id old new))

def setStatus (id : String) (duration : Float) : Except EvaluationError State :=
  match s.statusKinds[id]? with
  | none => .error (.unknown .status id)
  | some provider =>
    let statuses := s.statuses.set provider duration
    let remaining := statuses.remaining? id
    let changed := remaining.isSome || s.statuses.contains id
    let s := { s with statuses }
    .ok (if changed then s.notify (.statusChanged id remaining) else s)

def tick : List String × State :=
  let (expired, statuses) := s.statuses.tick
  (expired, expired.foldl (fun s id => s.notify (.statusChanged id none)) { s with statuses })

def enqueue (trigger : String) (priority : Int) (probability : Float) : State :=
  { s with queue := s.queue.push trigger priority probability }

def setEventEnabled (id : String) (enabled : Bool) : Except EvaluationError State := do
  let previous ← s.registry.isEnabled id
  let registry ← s.registry.setEnabled id enabled
  let s := { s with registry }
  return if previous = enabled then s else s.notify (.eventToggled id enabled)

def fireEvent (id trigger : String) : Except EvaluationError State := do
  let registry ← s.registry.record id
  return { s with registry }.notify (.eventFired id trigger)

def endGame (outcome : Option String) : State :=
  { s.notify (.gameEnded outcome) with ending := some ⟨outcome⟩ }

end State

end Scenario
