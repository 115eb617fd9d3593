import Scenario.Expr.Compiler

/-!
Conditions over expressions of some type: sources in records, checked expressions in events.
-/

namespace Scenario

inductive Condition (ε : Type)
  | expression (expression : ε)
  | not (condition : Condition ε)
  | all (conditions : List (Condition ε))
  | any (conditions : List (Condition ε))
  | count (conditions : List (Condition ε)) (min max : ε)
deriving Repr

namespace Condition

variable {m : Type → Type} [Monad m] [MonadExceptOf EvaluationError m] (scope : Expr.Scope m)

mutual

/-- Whether a condition holds. Lists of conditions are checked in order, up to the first that
decides; a count checks all of them, and looks at the upper value only if the lower one is met. -/
def check : Condition Expression → m Bool
  | .expression e => e.evalTruthy scope
  | .not c => do return !(← check c)
  | .all cs => checkAll cs
  | .any cs => checkAny cs
  | .count cs min max => do
    let n := Float.ofNat (← countHolding cs).toNat
    if (← min.eval scope) ≤ n then return n ≤ (← max.eval scope) else return false

def checkAll : List (Condition Expression) → m Bool
  | [] => return true
  | c :: cs => do if ← check c then checkAll cs else return false

def checkAny : List (Condition Expression) → m Bool
  | [] => return false
  | c :: cs => do if ← check c then return true else checkAny cs

/-- How many of the conditions hold, in 32 bits. -/
def countHolding : List (Condition Expression) → m UInt32
  | [] => return 0
  | c :: cs => do
    let holds ← check c
    let n ← countHolding cs
    return if holds then n + 1 else n

end

end Condition

end Scenario
