import Scenario.Expr.Token

/-!
The tree of an expression, and what can be wrong with the tokens of one.
-/

namespace Scenario.Expr

inductive Node
  | number (value : Float)
  | text (content : String)
  | name (name : String)
  | sign (op : Sign) (operand : Node)
  | operator (op : Operator) (left right : Node)
  /-- `condition ? yes : no` -/
  | choose (condition yes no : Node)
  | call (function : String) (arguments : List Node)
deriving Repr

/-- What the grammar asks for at a place where only punctuation can follow. -/
inductive Wanted
  | colon
  | close
  | commaOrClose
deriving Repr, DecidableEq

inductive SyntaxFault
  | unexpected (found : Lexeme)
  | endOfInput
  | expected (wanted : Wanted) (found : Option Lexeme)
  /-- Text that is no argument of a function. -/
  | strayText
deriving Repr

def Wanted.describe : Wanted → String
  | .colon => "\x60:\x60"
  | .close => "\x60)\x60"
  | .commaOrClose => "\x60,\x60 or \x60)\x60"

def SyntaxFault.message : SyntaxFault → String
  | .unexpected found => s!"unexpected {found.describe}"
  | .endOfInput => "unexpected end of input"
  | .expected wanted (some found) => s!"expected {wanted.describe}, found {found.describe}"
  | .expected wanted none => s!"expected {wanted.describe}, found end of input"
  | .strayText => "string literals are only valid as function arguments"

end Scenario.Expr
