import Scenario.Json.Value

/-!
Reading JSON text. Every reader hands on characters that are fewer than those it was given. Text
that breaks the grammar has no reading at all; text that keeps to it but stands for nothing reads as
an unreadable value.
-/

namespace Scenario.Json

namespace Reader

/-- What was read, and the characters behind it, of which there are fewer than `bound`. -/
structure Step (α : Type) (bound : Nat) where
  value : α
  rest : List Char
  shorter : rest.length < bound

def isBlank (c : Char) : Bool := c = ' ' || c = '\t' || c = '\n' || c = '\r'

def skipBlanks (cs : List Char) : List Char := cs.dropWhile isBlank

theorem length_skipBlanks_le (cs : List Char) : (skipBlanks cs).length ≤ cs.length := by
  induction cs with
  | nil => simp [skipBlanks]
  | cons c cs ih =>
    by_cases h : isBlank c <;> simp_all [skipBlanks]
    omega

def next? (cs : List Char) : Option (Char × { rest : List Char // rest.length < cs.length }) :=
  match h : skipBlanks cs with
  | [] => none
  | c :: rest =>
    some (c, ⟨rest, by have := length_skipBlanks_le cs; rw [h] at this; simp at this; omega⟩)

def hex? (a b c d : Char) : Option Nat :=
  [a, b, c, d].foldl
    (fun n c => do
      let n ← n
      if c.isDigit then some (16 * n + (c.toNat - '0'.toNat))
      else if 'a' ≤ c ∧ c ≤ 'f' then some (16 * n + (c.toNat - 'a'.toNat + 10))
      else if 'A' ≤ c ∧ c ≤ 'F' then some (16 * n + (c.toNat - 'A'.toNat + 10))
      else none)
    (some 0)

/-- One unit of a string: a character, or half of a surrogate pair. -/
inductive Part
  | char (c : Char)
  | half (unit : Nat)

def stringParts (cs : List Char) : Option (Step (List Part) cs.length) :=
  match cs with
  | [] => none
  | '"' :: rest => some ⟨[], rest, by simp⟩
  | '\\' :: 'u' :: a :: b :: c :: d :: rest =>
    match hex? a b c d, stringParts rest with
    | some n, some ⟨parts, rest', _⟩ =>
      let part := if 0xD800 ≤ n ∧ n < 0xE000 then .half n else .char (Char.ofNat n)
      some ⟨part :: parts, rest', by simp; omega⟩
    | _, _ => none
  | '\\' :: e :: rest =>
    let escaped : Option Char :=
      match e with
      | '"' => some '"'
      | '\\' => some '\\'
      | '/' => some '/'
      | 'b' => some '\x08'
      | 'f' => some '\x0c'
      | 'n' => some '\n'
      | 'r' => some '\r'
      | 't' => some '\t'
      | _ => none
    match escaped, stringParts rest with
    | some c, some ⟨parts, rest', _⟩ => some ⟨.char c :: parts, rest', by simp; omega⟩
    | _, _ => none
  | c :: rest =>
    if c.toNat < 32 then none
    else
      match stringParts rest with
      | some ⟨parts, rest', _⟩ => some ⟨.char c :: parts, rest', by simp; omega⟩
      | none => none
termination_by cs.length

/-- The characters that the units of a string stand for. Two halves make a character if the first
is a high one and the second a low one; a lone half stands for nothing. -/
def joinParts : List Part → Option (List Char)
  | [] => some []
  | .char c :: rest => (joinParts rest).map (c :: ·)
  | .half high :: .half low :: rest =>
    if high < 0xDC00 ∧ 0xDC00 ≤ low then
      (joinParts rest).map (Char.ofNat (0x10000 + (high - 0xD800) * 0x400 + (low - 0xDC00)) :: ·)
    else none
  | .half _ :: _ => none

def string (cs : List Char) : Option (Step (Option String) cs.length) :=
  (stringParts cs).map fun s => ⟨(joinParts s.value).map String.ofList, s.rest, s.shorter⟩

def unsigned (negative : Bool) (cs : List Char) : Option (Json × Nat) :=
  let whole := cs.takeWhile Char.isDigit
  if whole.isEmpty || (whole.head? = some '0' && 1 < whole.length) then none
  else
    match cs.dropWhile Char.isDigit with
    | '.' :: rest =>
      let fraction := rest.takeWhile Char.isDigit
      if fraction.isEmpty then none
      else behindFraction whole fraction (1 + fraction.length) (rest.dropWhile Char.isDigit)
    | rest => behindFraction whole [] 0 rest
where
  behindFraction (whole fraction : List Char) (used : Nat) (rest : List Char) :
      Option (Json × Nat) :=
    let (power, n) := Numeral.scanPower rest
    let starts := rest.head? = some 'e' || rest.head? = some 'E'
    if starts && n = 0 then none
    else if !starts && used = 0 then
      let magnitude := Decimal.ofDigits whole
      let value :=
        if (ofInteger? negative magnitude).isSome then .integer negative magnitude
        else .unreadable
      some (value, whole.length)
    else
      let value :=
        match magnitude? ⟨whole, fraction, power⟩ with
        | some x => .double (if negative then -x else x)
        | none => .unreadable
      some (value, whole.length + used + n)

mutual

/-- A value, in which containers may be nested `levels` deep. -/
def value (levels : Nat) (cs : List Char) : Option (Step Json cs.length) :=
  match next? cs with
  | none => none
  | some (c, ⟨rest, _⟩) =>
    match c with
    | '"' =>
      match string rest with
      | some ⟨some s, rest', _⟩ => some ⟨.string s, rest', by omega⟩
      | some ⟨none, rest', _⟩ => some ⟨.unreadable, rest', by omega⟩
      | none => none
    | '[' =>
      match items (levels - 1) rest with
      | some ⟨js, rest', _⟩ =>
        some ⟨if levels = 0 then .unreadable else .array js, rest', by omega⟩
      | none => none
    | '\x7b' =>
      match members (levels - 1) rest with
      | some ⟨some ms, rest', _⟩ =>
        some ⟨if levels = 0 then .unreadable else .object ms, rest', by omega⟩
      | some ⟨none, rest', _⟩ => some ⟨.unreadable, rest', by omega⟩
      | none => none
    | '-' =>
      match unsigned true rest with
      | some (j, n) => some ⟨j, rest.drop n, by simp; omega⟩
      | none => none
    | 'n' =>
      if rest.take 3 = ['u', 'l', 'l'] then some ⟨.null, rest.drop 3, by simp; omega⟩ else none
    | 't' =>
      if rest.take 3 = ['r', 'u', 'e'] then some ⟨.bool true, rest.drop 3, by simp; omega⟩ else none
    | 'f' =>
      if rest.take 4 = ['a', 'l', 's', 'e'] then some ⟨.bool false, rest.drop 4, by simp; omega⟩
      else none
    | c =>
      match unsigned false (c :: rest) with
      | some (j, n) => some ⟨j, rest.drop (n - 1), by simp; omega⟩
      | none => none
termination_by (cs.length, 0)

def items (levels : Nat) (cs : List Char) : Option (Step (List Json) cs.length) :=
  match next? cs with
  | some (']', ⟨rest, _⟩) => some ⟨[], rest, by omega⟩
  | _ => moreItems levels cs
termination_by (cs.length, 2)

def moreItems (levels : Nat) (cs : List Char) : Option (Step (List Json) cs.length) :=
  match value levels cs with
  | none => none
  | some ⟨j, rest, _⟩ =>
    match next? rest with
    | some (c, ⟨rest', _⟩) =>
      if c = ']' then some ⟨[j], rest', by omega⟩
      else if c = ',' then
        match moreItems levels rest' with
        | some ⟨js, rest'', _⟩ => some ⟨j :: js, rest'', by omega⟩
        | none => none
      else none
    | none => none
termination_by (cs.length, 1)

/-- Members behind an opening brace, and nothing if a key has no value. -/
def members (levels : Nat) (cs : List Char) :
    Option (Step (Option (List (String × Json))) cs.length) :=
  match next? cs with
  | some ('\x7d', ⟨rest, _⟩) => some ⟨some [], rest, by omega⟩
  | _ => moreMembers levels cs
termination_by (cs.length, 2)

def moreMembers (levels : Nat) (cs : List Char) :
    Option (Step (Option (List (String × Json))) cs.length) :=
  match next? cs with
  | some ('"', ⟨rest, _⟩) =>
    match string rest with
    | none => none
    | some ⟨key, rest, _⟩ =>
      match next? rest with
      | some (':', ⟨rest, _⟩) =>
        match value levels rest with
        | none => none
        | some ⟨j, rest, _⟩ =>
          match next? rest with
          | some (c, ⟨rest', _⟩) =>
            if c = '\x7d' then some ⟨key.map fun k => [(k, j)], rest', by omega⟩
            else if c = ',' then
              match moreMembers levels rest' with
              | some ⟨ms, rest'', _⟩ =>
                some ⟨key.bind fun k => ms.map ((k, j) :: ·), rest'', by omega⟩
              | none => none
            else none
          | none => none
      | _ => none
  | _ => none
termination_by (cs.length, 1)

end

end Reader

def maxDepth : Nat := 127

def read? (text : String) : Option Json :=
  match Reader.value maxDepth text.toList with
  | some ⟨j, rest, _⟩ => if (Reader.skipBlanks rest).isEmpty then some j else none
  | none => none

end Scenario.Json
