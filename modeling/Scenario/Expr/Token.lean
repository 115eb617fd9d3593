import Scenario.Decimal.Layout
import Scenario.Expr.Operator
import Scenario.Text.Quoted

/-!
Tokens of the expression language and their names in messages.
-/

namespace Scenario.Expr

inductive Mark
  | plus | minus | star | slash | percent
  | less | lessEq | greater | greaterEq | equal | notEqual
  | both | either | andThen | orElse
  | bang | question | colon | open | close | comma
deriving Repr, DecidableEq

namespace Mark

def operator? : Mark → Option Operator
  | .plus => some .add
  | .minus => some .sub
  | .star => some .mul
  | .slash => some .div
  | .percent => some .rem
  | .less => some .less
  | .lessEq => some .lessEq
  | .greater => some .greater
  | .greaterEq => some .greaterEq
  | .equal => some .equal
  | .notEqual => some .notEqual
  | .both => some .both
  | .either => some .either
  | .andThen => some .andThen
  | .orElse => some .orElse
  | .bang | .question | .colon | .open | .close | .comma => none

def sign? : Mark → Option Sign
  | .bang => some .not
  | .minus => some .negate
  | .plus => some .plus
  | _ => none

def label : Mark → String
  | .plus => "Plus"
  | .minus => "Minus"
  | .star => "Star"
  | .slash => "Slash"
  | .percent => "Percent"
  | .less => "Less"
  | .lessEq => "LessEq"
  | .greater => "Greater"
  | .greaterEq => "GreaterEq"
  | .equal => "Eq"
  | .notEqual => "NotEq"
  | .both => "And"
  | .either => "Or"
  | .andThen => "AndAnd"
  | .orElse => "OrOr"
  | .bang => "Bang"
  | .question => "Question"
  | .colon => "Colon"
  | .open => "ParenOpen"
  | .close => "ParenClose"
  | .comma => "Comma"

end Mark

inductive Token
  | number (value : Float)
  /-- A quoted text, without its quotes and escapes. -/
  | text (content : String)
  | name (name : String)
  | mark (mark : Mark)
deriving Repr

namespace Token

def label : Token → String
  | .number _ => "Number"
  | .text _ => "Str"
  | .name _ => "Ident"
  | .mark m => m.label

def describe (t : Token) : String :=
  match t with
  | .number x => t.label ++ "(" ++ Layout.report.render x ++ ")"
  | .text s | .name s => t.label ++ "(" ++ quoted s ++ ")"
  | .mark m => m.label

end Token

structure Lexeme where
  token : Token
  start : Nat
  stop : Nat
deriving Repr

def Lexeme.describe (l : Lexeme) : String := s!"{l.token.describe} at {l.start}"

end Scenario.Expr
