import Scenario.Decimal.Layout
import Scenario.Decimal.Reading

/-!
JSON values. Members of objects keep their order and may repeat a key, since some readers of a value
care about both.
-/

namespace Scenario

inductive Json
  | null
  | bool (value : Bool)
  /-- A number without point and power. Minus zero is one of them. -/
  | integer (negative : Bool) (magnitude : Nat)
  | double (value : Float)
  | string (value : String)
  | array (items : List Json)
  | object (members : List (String × Json))
  /-- Something well written that has no value: a number beyond the doubles, a lone surrogate, or
  containers nested too deeply. -/
  | unreadable
deriving Repr, Inhabited

namespace Json

def nat (n : Nat) : Json := .integer false n

def int (i : Int) : Json := .integer (i < 0) i.natAbs

def option {α : Type} (encode : α → Json) : Option α → Json
  | none => .null
  | some a => encode a

mutual

def readable : Json → Bool
  | .unreadable => false
  | .array items => allReadable items
  | .object members => membersReadable members
  | _ => true

def allReadable : List Json → Bool
  | [] => true
  | j :: js => j.readable && allReadable js

def membersReadable : List (String × Json) → Bool
  | [] => true
  | (_, j) :: js => j.readable && membersReadable js

end

mutual

def depth : Json → Nat
  | .array items => itemsDepth items + 1
  | .object members => membersDepth members + 1
  | _ => 0

def itemsDepth : List Json → Nat
  | [] => 0
  | j :: js => max j.depth (itemsDepth js)

def membersDepth : List (String × Json) → Nat
  | [] => 0
  | (_, j) :: js => max j.depth (membersDepth js)

end

/-! ### Numbers -/

/-- Takes digits behind `n` for as long as the number fits 64 bits, and counts those taken. -/
def absorb (n : Nat) : List Char → Nat × Nat
  | [] => (n, 0)
  | c :: cs =>
    let next := 10 * n + (c.toNat - '0'.toNat)
    if next < 0x10000000000000000 then
      let (m, taken) := absorb next cs
      (m, taken + 1)
    else (n, 0)

def powerOfTen (k : Nat) : Float := Float.ofScientific 1 false k

/-- `x · 10 ^ k`, by one multiplication or division by a power of ten, or two divisions where the
power is too small for a double. Nothing if the result is infinite. -/
def scale (x : Float) (k : Int) : Option Float :=
  if x == 0.0 then some x
  else if 308 < k then none
  else if 0 ≤ k then
    let y := x * powerOfTen k.toNat
    if y.isInf then none else some y
  else if -308 ≤ k then some (x / powerOfTen (-k).toNat)
  else if -616 ≤ k then some (x / powerOfTen 308 / powerOfTen (-k - 308).toNat)
  else some 0.0

/-- The size of a written number: the leading digits that fit 64 bits, as a double, scaled by a
power of ten. -/
def magnitude? (n : Numeral) : Option Float :=
  let (leading, taken) := absorb 0 n.whole
  let dropped := n.whole.length - taken
  let (leading, places) := absorb leading n.fraction
  scale (Float.ofNat leading) (dropped - places + n.power)

def ofInteger? (negative : Bool) (magnitude : Nat) : Option Float :=
  (magnitude? ⟨(toString magnitude).toList, [], 0⟩).map fun x => if negative then -x else x

def number? : Json → Option Float
  | .integer negative magnitude => ofInteger? negative magnitude
  | .double x => some x
  | _ => none

/-! ### Canonical values -/

/-- Whether 64 bits hold an integer, with a sign if it has one. Minus zero is no integer. -/
def isWord (negative : Bool) (magnitude : Nat) : Bool :=
  if negative then 0 < magnitude && magnitude ≤ 0x8000000000000000
  else magnitude < 0x10000000000000000

/-- Puts a member among members that are sorted by key; of one key the later member stays. -/
def insertMember (key : String) (value : Json) : List (String × Json) → List (String × Json)
  | [] => [(key, value)]
  | (k, v) :: rest =>
    match compare key k with
    | .lt => (key, value) :: (k, v) :: rest
    | .eq => (k, v) :: rest
    | .gt => (k, v) :: insertMember key value rest

mutual

/-- Members sorted by key, the last one of each key, and integers beyond 64 bits as doubles. -/
def canonical : Json → Json
  | .integer negative magnitude =>
    if isWord negative magnitude then .integer negative magnitude
    else ((ofInteger? negative magnitude).map .double).getD .unreadable
  | .array items => .array (canonicalItems items)
  | .object members => .object (canonicalMembers members)
  | j => j

def canonicalItems : List Json → List Json
  | [] => []
  | j :: js => j.canonical :: canonicalItems js

def canonicalMembers : List (String × Json) → List (String × Json)
  | [] => []
  | (k, j) :: js => insertMember k j.canonical (canonicalMembers js)

end

/-! ### Text -/

def hexDigit (n : Nat) : Char := Nat.digitChar n

/-- How a character is written inside a string: quotes, backslashes and control characters are
escaped. -/
def escape (c : Char) : List Char :=
  match c with
  | '"' => ['\\', '"']
  | '\\' => ['\\', '\\']
  | '\n' => ['\\', 'n']
  | '\r' => ['\\', 'r']
  | '\t' => ['\\', 't']
  | '\x08' => ['\\', 'b']
  | '\x0c' => ['\\', 'f']
  | c =>
    if c.toNat < 32 then ['\\', 'u', '0', '0', hexDigit (c.toNat / 16), hexDigit (c.toNat % 16)]
    else [c]

def quote (s : String) : String := "\"" ++ String.ofList (s.toList.flatMap escape) ++ "\""

mutual

def render : Json → String
  | .null => "null"
  | .bool b => if b then "true" else "false"
  | .integer negative magnitude => (if negative then "-" else "") ++ toString magnitude
  | .double x => if x.isFinite then Layout.json.render x else "null"
  | .string s => quote s
  | .array items => "[" ++ ",".intercalate (renderItems items) ++ "]"
  | .object members => "\x7b" ++ ",".intercalate (renderMembers members) ++ "\x7d"
  | .unreadable => "null"

def renderItems : List Json → List String
  | [] => []
  | j :: js => j.render :: renderItems js

def renderMembers : List (String × Json) → List String
  | [] => []
  | (k, j) :: js => (quote k ++ ":" ++ j.render) :: renderMembers js

end

end Json

end Scenario
