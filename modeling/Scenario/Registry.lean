import Scenario.Action

/-!
Events, and which of them are enabled and how often they have happened. Ids and triggers are looked
up in indexes that hold positions in the order of registration.
-/

namespace Scenario

structure Event (ε : Type) where
  id : String
  trigger : String
  conditions : List (Condition ε) := []
  actions : List (Action ε) := []
  probability : ε
  /-- Events that do not happen any more in a pass in which this one does. -/
  exclusions : List String := []
  /-- Happening disables the event. -/
  once : Bool := false
  disabled : Bool := false
deriving Repr

structure EventFlags where
  disabled : Bool
  occurrences : Nat
deriving Repr, DecidableEq

namespace EventFlags

def maxOccurrences : Nat := 4294967295

def initial {ε : Type} (event : Event ε) : EventFlags := ⟨event.disabled, 0⟩

def record (flags : EventFlags) : EventFlags :=
  { flags with occurrences := min (flags.occurrences + 1) maxOccurrences }

end EventFlags

structure Registry where
  events : Array (Event Expression) := #[]
  /-- The flags of the event at the same position. -/
  flags : Array EventFlags := #[]
  index : Std.ExtTreeMap String Nat := ∅
  byTrigger : Std.ExtTreeMap String (List Nat) := ∅

namespace Registry

variable (r : Registry)

def register (event : Event Expression) : Except UsageError Registry :=
  if r.index.contains event.id then .error (.duplicate .event event.id)
  else
    let position := r.events.size
    .ok
      { events := r.events.push event
        flags := r.flags.push (.initial event)
        index := r.index.insert event.id position
        byTrigger :=
          r.byTrigger.insert event.trigger ((r.byTrigger[event.trigger]?).getD [] ++ [position]) }

def get? (id : String) : Option (Event Expression) := do
  let i ← r.index[id]?
  r.events[i]?

def listeners (trigger : String) : List (Event Expression) :=
  ((r.byTrigger[trigger]?).getD []).filterMap (r.events[·]?)

def flags? (id : String) : Option EventFlags := do
  let i ← r.index[id]?
  r.flags[i]?

def find (id : String) : Except EvaluationError EventFlags :=
  match r.flags? id with
  | some flags => .ok flags
  | none => .error (.unknown .event id)

def isEnabled (id : String) : Except EvaluationError Bool := do
  return !(← r.find id).disabled

def occurrences (id : String) : Except EvaluationError Nat := do
  return (← r.find id).occurrences

def update (id : String) (f : EventFlags → EventFlags) : Registry :=
  match r.index[id]? with
  | some i => { r with flags := r.flags.modify i f }
  | none => r

def setEnabled (id : String) (enabled : Bool) : Except EvaluationError Registry := do
  let _ ← r.find id
  return r.update id fun flags => { flags with disabled := !enabled }

def record (id : String) : Except EvaluationError Registry := do
  let _ ← r.find id
  return r.update id .record

def reset : Registry := { r with flags := r.events.map .initial }

def snapshot : List (String × EventFlags) :=
  (r.events.toList.map Event.id).zip r.flags.toList

/-- The flags of a snapshot, and those of registration for events that it does not name. -/
def restore (saved : List (String × EventFlags)) : Except UsageError Registry :=
  match saved.find? fun (id, _) => !r.index.contains id with
  | some (id, _) => .error (.incompatibleSave (.unknown .event id))
  | none => .ok (saved.foldl (fun r (id, flags) => r.update id fun _ => flags) r.reset)

end Registry

end Scenario
