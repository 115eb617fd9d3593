import Scenario.Error
import Std.Data.ExtTreeMap

/-!
Variables: numbers that content reads and writes, each confined to an interval.
-/

namespace Scenario

structure Variable where
  value : Float
  min : Float := -infinity
  max : Float := infinity
deriving Repr

/-- Bounds that leave room for a value. Bounds that are no numbers leave none. -/
def validBounds (min max : Float) : Bool := min ≤ max

namespace Variable

def bounded (value min max : Float) : Variable := ⟨clamp value min max, min, max⟩

def isUnbounded (v : Variable) : Bool := v.min == -infinity && v.max == infinity

def set (v : Variable) (x : Float) : Variable := { v with value := clamp x v.min v.max }

def setBounds (v : Variable) (min max : Float) : Variable := ⟨clamp v.value min max, min, max⟩

end Variable

abbrev Variables := Std.ExtTreeMap String Variable

namespace Variables

variable (vs : Variables)

def find (id : String) : Except EvaluationError Variable :=
  match vs[id]? with
  | some v => .ok v
  | none => .error (.unknown .variable id)

def set (id : String) (x : Float) : Except EvaluationError Variables := do
  let v ← vs.find id
  return vs.insert id (v.set x)

def setBounds (id : String) (min max : Option Float) : Except EvaluationError Variables := do
  let v ← vs.find id
  let min := min.getD v.min
  let max := max.getD v.max
  if validBounds min max then return vs.insert id (v.setBounds min max)
  else throw (.invalidBounds id min max)

end Variables

end Scenario
