import Scenario.Double
import Scenario.Expr.Node

/-!
Checked expressions and their values. An expression is checked against the functions that are known;
what passes calls functions only with as many arguments as they take, and has text only as an
argument of functions of the host.
-/

namespace Scenario.Expr

inductive Arity
  | exactly (count : Nat)
  | atLeast (count : Nat)
deriving Repr, DecidableEq

namespace Arity

def accepts : Arity → Nat → Bool
  | .exactly n, count => count = n
  | .atLeast n, count => n ≤ count

def minimum : Arity → Nat
  | .exactly n | .atLeast n => n

end Arity

inductive Builtin
  | min | max | abs | floor | ceil | round | trunc | sign | sqrt | pow | log | exp | clamp
deriving Repr, DecidableEq

namespace Builtin

def ofName? : String → Option Builtin
  | "min" => some .min
  | "max" => some .max
  | "abs" => some .abs
  | "floor" => some .floor
  | "ceil" => some .ceil
  | "round" => some .round
  | "trunc" => some .trunc
  | "sign" => some .sign
  | "sqrt" => some .sqrt
  | "pow" => some .pow
  | "log" => some .log
  | "exp" => some .exp
  | "clamp" => some .clamp
  | _ => none

def arity : Builtin → Arity
  | .min | .max => .atLeast 1
  | .pow => .exactly 2
  | .clamp => .exactly 3
  | _ => .exactly 1

def apply : Builtin → List Float → Float
  | .min, xs => xs.foldl lesser infinity
  | .max, xs => xs.foldl greater (-infinity)
  | .abs, [x] => x.abs
  | .floor, [x] => x.floor
  | .ceil, [x] => x.ceil
  | .round, [x] => roundHalfUp x
  | .trunc, [x] => truncate x
  | .sign, [x] => signOf x
  | .sqrt, [x] => x.sqrt
  | .pow, [x, y] => x.pow y
  | .log, [x] => x.log
  | .exp, [x] => x.exp
  | .clamp, [x, lo, hi] => lesser (greater x lo) hi
  | _, _ => notANumber

end Builtin

inductive Argument (α : Type)
  | text (content : String)
  | value (value : α)
deriving Repr

inductive Code
  | number (value : Float)
  | name (name : String)
  | not (operand : Code)
  | negate (operand : Code)
  | operator (op : Operator) (left right : Code)
  | choose (condition yes no : Code)
  | builtin (function : Builtin) (arguments : List Code)
  | host (function : String) (arguments : List (Argument Code))
deriving Repr

inductive CodeFault
  | strayText
  | unknownFunction (function : String)
  | arity (function : String) (minimum actual : Nat)
deriving Repr, DecidableEq

namespace Code

section Check

variable (functions : String → Option Arity)

mutual

/-- Checks a tree from left to right, a call before its arguments. Functions of the language hide
those of the host. -/
def ofNode : Node → Except CodeFault Code
  | .number x => .ok (.number x)
  | .text _ => .error .strayText
  | .name n => .ok (.name n)
  | .sign .not a => do return .not (← ofNode a)
  | .sign .negate a => do return .negate (← ofNode a)
  | .sign .plus a => ofNode a
  | .operator op l r => do
    let l ← ofNode l
    let r ← ofNode r
    return .operator op l r
  | .choose c a b => do
    let c ← ofNode c
    let a ← ofNode a
    let b ← ofNode b
    return .choose c a b
  | .call f args =>
    match Builtin.ofName? f with
    | some b =>
      if b.arity.accepts args.length then do return .builtin b (← ofNodes args)
      else .error (.arity f b.arity.minimum args.length)
    | none =>
      match functions f with
      | none => .error (.unknownFunction f)
      | some arity =>
        if arity.accepts args.length then do return .host f (← ofArguments args)
        else .error (.arity f arity.minimum args.length)

def ofNodes : List Node → Except CodeFault (List Code)
  | [] => .ok []
  | a :: as => do
    let a ← ofNode a
    let as ← ofNodes as
    return a :: as

def ofArguments : List Node → Except CodeFault (List (Argument Code))
  | [] => .ok []
  | .text s :: as => do return .text s :: (← ofArguments as)
  | a :: as => do
    let a ← ofNode a
    let as ← ofArguments as
    return .value a :: as

end

end Check

end Code

structure Scope (m : Type → Type) where
  value : String → m Float
  call : String → List (Argument Float) → m Float

namespace Operator

def apply (op : Operator) (x y : Float) : Float :=
  match op with
  | .add => x + y
  | .sub => x - y
  | .mul => x * y
  | .div => x / y
  | .rem => remainder x y
  | .less => flag (x < y)
  | .lessEq => flag (x ≤ y)
  | .greater => flag (y < x)
  | .greaterEq => flag (y ≤ x)
  | .equal => flag (x == y)
  | .notEqual => flag (x != y)
  | .both | .andThen => flag (truthy x && truthy y)
  | .either | .orElse => flag (truthy x || truthy y)

end Operator

namespace Code

variable {m : Type → Type} [Monad m] (scope : Scope m)

mutual

/-- The value of an expression. Names and calls are looked up from left to right, and only those
that the value depends on. -/
def eval : Code → m Float
  | .number x => pure x
  | .name n => scope.value n
  | .not a => do return flag !truthy (← eval a)
  | .negate a => do return -(← eval a)
  | .operator .andThen l r => do
    let x ← eval l
    if truthy x then eval r else return x
  | .operator .orElse l r => do
    let x ← eval l
    if truthy x then return x else eval r
  | .operator op l r => do
    let x ← eval l
    let y ← eval r
    return op.apply x y
  | .choose c a b => do
    if truthy (← eval c) then eval a else eval b
  | .builtin b args => do return b.apply (← evalAll args)
  | .host f args => do scope.call f (← evalArguments args)

def evalAll : List Code → m (List Float)
  | [] => pure []
  | a :: as => do
    let x ← eval a
    let xs ← evalAll as
    return x :: xs

def evalArguments : List (Argument Code) → m (List (Argument Float))
  | [] => pure []
  | a :: as => do
    let x ← evalArgument a
    let xs ← evalArguments as
    return x :: xs

def evalArgument : Argument Code → m (Argument Float)
  | .text s => pure (.text s)
  | .value a => do return .value (← eval a)

end

end Code

end Scenario.Expr
