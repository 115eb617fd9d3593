import Scenario.Decimal.Reading
import Scenario.Expr.Token

/-!
Splitting source text into tokens. At each place the longest token is taken; blanks separate tokens
and are dropped. A token is read off its first character, which decides the pattern, and the
characters after it.
-/

namespace Scenario.Expr

def isBlank (c : Char) : Bool := c = ' ' || c = '\t' || c = '\r' || c = '\n' || c = '\x0c'

def startsName (c : Char) : Bool := c.isAlpha || c = '_' || c = '$'

def continuesName (c : Char) : Bool := startsName c || c.isDigit

namespace Lexer

/-- How much of the text carries on a name: more letters and digits, and a point where another part
of the name follows. -/
def nameLength : List Char → Nat
  | [] => 0
  | c :: cs =>
    if continuesName c then 1 + nameLength cs
    else if c = '.' then
      match cs with
      | [] => 0
      | d :: ds => if startsName d then 2 + nameLength ds else 0
    else 0

/-- A number that begins with a digit: a point may follow, with or without digits, and a power. The
count is of the characters it takes up. -/
def scanNumber (cs : List Char) : Numeral × Nat :=
  let whole := cs.takeWhile Char.isDigit
  match cs.dropWhile Char.isDigit with
  | '.' :: ds =>
    let fraction := ds.takeWhile Char.isDigit
    let (power, n) := Numeral.scanPower (ds.dropWhile Char.isDigit)
    (⟨whole, fraction, power⟩, whole.length + 1 + fraction.length + n)
  | ds =>
    let (power, n) := Numeral.scanPower ds
    (⟨whole, [], power⟩, whole.length + n)

def unescape : Char → Char
  | 'n' => '\n'
  | 't' => '\t'
  | c => c

/-- The text up to the closing quote and the count of characters with that quote. Text that does not
close fails with the count of characters that could belong to it: a backslash cannot escape the end
of a line. -/
def scanText (quote : Char) : List Char → Except Nat (List Char × Nat)
  | [] => .error 0
  | c :: cs =>
    if c = quote then .ok ([], 1)
    else if c = '\\' then
      match cs with
      | [] => .error 0
      | d :: ds =>
        if d = '\n' then .error 0
        else
          match scanText quote ds with
          | .ok (t, n) => .ok (unescape d :: t, n + 2)
          | .error n => .error (n + 2)
    else
      match scanText quote cs with
      | .ok (t, n) => .ok (c :: t, n + 1)
      | .error n => .error (n + 1)

/-- The token for a whole name with `rest` after it: two names are numbers, unless a point follows
them. -/
def nameToken (name : String) (rest : List Char) : Token :=
  if rest.head? = some '.' then .name name
  else if name = "Infinity" then .number infinity
  else if name = "NaN" then .number notANumber
  else .name name

/-- The longest token that starts with `c` and goes on with the first characters of `cs`, and how
many those are. A failure tells how many characters after `c` are to blame with it. -/
def scan (c : Char) (cs : List Char) : Except Nat (Token × Nat) :=
  if c.isDigit then
    let (numeral, n) := scanNumber (c :: cs)
    .ok (.number numeral.decimal.nearest, n - 1)
  else if startsName c then
    let n := nameLength cs
    .ok (nameToken (String.ofList (c :: cs.take n)) (cs.drop n), n)
  else
    match c, cs with
    | '.', d :: _ =>
      if d.isDigit then
        let (numeral, n) := scanNumber ('0' :: c :: cs)
        .ok (.number numeral.decimal.nearest, n - 2)
      else .error 0
    | '"', _ => (scanText c cs).map fun (t, n) => (.text (String.ofList t), n)
    | '\'', _ => (scanText c cs).map fun (t, n) => (.text (String.ofList t), n)
    | '+', _ => .ok (.mark .plus, 0)
    | '-', _ => .ok (.mark .minus, 0)
    | '*', _ => .ok (.mark .star, 0)
    | '/', _ => .ok (.mark .slash, 0)
    | '%', _ => .ok (.mark .percent, 0)
    | '<', '=' :: _ => .ok (.mark .lessEq, 1)
    | '<', _ => .ok (.mark .less, 0)
    | '>', '=' :: _ => .ok (.mark .greaterEq, 1)
    | '>', _ => .ok (.mark .greater, 0)
    | '=', '=' :: '=' :: _ => .ok (.mark .equal, 2)
    | '=', '=' :: _ => .ok (.mark .equal, 1)
    | '!', '=' :: '=' :: _ => .ok (.mark .notEqual, 2)
    | '!', '=' :: _ => .ok (.mark .notEqual, 1)
    | '!', _ => .ok (.mark .bang, 0)
    | '&', '&' :: _ => .ok (.mark .andThen, 1)
    | '&', _ => .ok (.mark .both, 0)
    | '|', '|' :: _ => .ok (.mark .orElse, 1)
    | '|', _ => .ok (.mark .either, 0)
    | '?', _ => .ok (.mark .question, 0)
    | ':', _ => .ok (.mark .colon, 0)
    | '(', _ => .ok (.mark .open, 0)
    | ')', _ => .ok (.mark .close, 0)
    | ',', _ => .ok (.mark .comma, 0)
    | _, _ => .error 0

def width (cs : List Char) : Nat := cs.foldr (fun c n => c.utf8Size + n) 0

/-- Characters that start no token, and their place in bytes. -/
structure Fault where
  slice : String
  offset : Nat
deriving Repr

def lexFrom (offset : Nat) : List Char → Except Fault (List Lexeme)
  | [] => .ok []
  | c :: cs =>
    if isBlank c then lexFrom (offset + c.utf8Size) cs
    else
      match scan c cs with
      | .error n => .error ⟨String.ofList (c :: cs.take n), offset⟩
      | .ok (token, n) =>
        let stop := offset + width (c :: cs.take n)
        (lexFrom stop (cs.drop n)).map (⟨token, offset, stop⟩ :: ·)
termination_by cs => cs.length

end Lexer

def lex (source : String) : Except Lexer.Fault (List Lexeme) := Lexer.lexFrom 0 source.toList

end Scenario.Expr
