/-!
Operators of the expression language and how tightly they bind.
-/

namespace Scenario.Expr

inductive Sign
  | not
  | negate
  | plus
deriving Repr, DecidableEq

inductive Operator
  | add | sub | mul | div | rem
  | less | lessEq | greater | greaterEq
  | equal | notEqual
  /-- `&`, which looks at both sides. -/
  | both
  /-- `|`, which looks at both sides. -/
  | either
  /-- `&&`, which skips its right side when the left one is false. -/
  | andThen
  /-- `||`, which skips its right side when the left one is true. -/
  | orElse
deriving Repr, DecidableEq

namespace Operator

/-- The level of an operator: products have level 1 and bind tightest, `||` has level 8. Operators
of one level associate to the left. -/
def level : Operator → Nat
  | .mul | .div | .rem => 1
  | .add | .sub => 2
  | .less | .lessEq | .greater | .greaterEq => 3
  | .equal | .notEqual => 4
  | .both => 5
  | .either => 6
  | .andThen => 7
  | .orElse => 8

def loosest : Nat := 8

end Operator

end Scenario.Expr
