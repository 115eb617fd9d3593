import Scenario.Error
import Scenario.Expr.Lexer
import Scenario.Expr.Parser
import Std.Data.ExtTreeMap

/-!
Expressions that are ready to be evaluated. A compiler knows the functions of its host and keeps
every text that it has accepted, so that equal texts share one expression.
-/

namespace Scenario

structure Expression where
  source : Source
  code : Expr.Code
  /-- The number of the compiler's entry that holds this expression. Expressions of one compiler
  with the same entry are one and the same; plain numbers have none. -/
  entry : Option Nat
deriving Repr

namespace Expression

def constant (x : Float) : Expression := ⟨.number x, .number x, none⟩

variable {m : Type → Type} [Monad m] [MonadExceptOf EvaluationError m]

/-- The value of an expression, which has to be a number in the end. -/
def eval (scope : Expr.Scope m) (e : Expression) : m Float := do
  let x ← e.code.eval scope
  if x.isNaN then throw (.notANumber e.source) else return x

def evalTruthy (scope : Expr.Scope m) (e : Expression) : m Bool := do
  return truthy (← e.eval scope)

end Expression

def checkText (functions : String → Option Expr.Arity) (text : String) :
    Except ExpressionFault Expr.Code :=
  match Expr.lex text with
  | .error fault => .error (.characters fault.slice fault.offset)
  | .ok tokens =>
    match Expr.parse tokens with
    | .error fault => .error (.grammar fault)
    | .ok node =>
      match Expr.Code.ofNode functions node with
      | .ok code => .ok code
      | .error .strayText => .error (.grammar .strayText)
      | .error (.unknownFunction f) => .error (.unknownFunction f)
      | .error (.arity f minimum actual) => .error (.arity f minimum actual)

structure Compiler where
  functions : Std.ExtTreeMap String Expr.Arity := ∅
  entries : Std.ExtTreeMap String Expression := ∅

namespace Compiler

def register (c : Compiler) (name : String) (arity : Expr.Arity) : Compiler :=
  { c with functions := c.functions.insert name arity }

def knows (c : Compiler) (name : String) : Bool :=
  (Expr.Builtin.ofName? name).isSome || c.functions.contains name

def size (c : Compiler) : Nat := c.entries.size

/-- The expression for a source. A text that was accepted before gives the expression of that time,
whatever functions there are now. -/
def compile (c : Compiler) : Source → Except DefinitionError Expression × Compiler
  | .number x => (.ok (.constant x), c)
  | .text s =>
    match c.entries[s]? with
    | some e => (.ok e, c)
    | none =>
      match checkText (c.functions[·]?) s with
      | .error fault => (.error (.expression s fault), c)
      | .ok code =>
        let e : Expression := ⟨.text s, code, some c.size⟩
        (.ok e, { c with entries := c.entries.insert s e })

end Compiler

/-- Work that compiles expressions on its way. What was compiled stays so when the work fails. -/
abbrev Build := ExceptT DefinitionError (StateM Compiler)

def Build.compile (source : Source) : Build Expression := fun c => c.compile source

end Scenario
