import Scenario.Expr.Node

/-!
Reading an expression off its tokens. Operands of level 0 are signed primaries; an operand of level
`n + 1` is a row of operands of level `n` with operators of that level between them, grouped from
the left. Every reader hands on tokens that are fewer than those it was given.
-/

namespace Scenario.Expr

namespace Parser

/-- What was read, and the tokens behind it, of which there are fewer than `bound`. -/
structure Step (α : Type) (bound : Nat) where
  value : α
  rest : List Lexeme
  shorter : rest.length < bound

abbrev Reader (α : Type) (bound : Nat) := Except SyntaxFault (Step α bound)

def Step.widen {α : Type} {m n : Nat} (s : Step α m) (h : m ≤ n) : Step α n :=
  ⟨s.value, s.rest, Nat.lt_of_lt_of_le s.shorter h⟩

def skip? (m : Mark) (ts : List Lexeme) :
    Option { rest : List Lexeme // rest.length < ts.length } :=
  match ts with
  | [] => none
  | t :: rest =>
    match t.token with
    | .mark m' => if m' = m then some ⟨rest, by simp⟩ else none
    | _ => none

def operator? (level : Nat) (ts : List Lexeme) :
    Option (Operator × { rest : List Lexeme // rest.length < ts.length }) :=
  match ts with
  | [] => none
  | t :: rest =>
    match t.token with
    | .mark m =>
      match m.operator? with
      | some op => if op.level = level then some (op, ⟨rest, by simp⟩) else none
      | none => none
    | _ => none

def sign? (ts : List Lexeme) : Option (Sign × { rest : List Lexeme // rest.length < ts.length }) :=
  match ts with
  | [] => none
  | t :: rest =>
    match t.token with
    | .mark m => m.sign?.map (·, ⟨rest, by simp⟩)
    | _ => none

mutual

/-- An expression: an operand of the loosest level, which may choose between two others. -/
def expression (ts : List Lexeme) : Reader Node ts.length :=
  match operand Operator.loosest ts with
  | .error e => .error e
  | .ok ⟨condition, rest, _⟩ =>
    match skip? .question rest with
    | none => .ok ⟨condition, rest, by omega⟩
    | some ⟨behind, _⟩ =>
      match expression behind with
      | .error e => .error e
      | .ok ⟨yes, rest', _⟩ =>
        match skip? .colon rest' with
        | none => .error (.expected .colon rest'.head?)
        | some ⟨behind', _⟩ =>
          match expression behind' with
          | .error e => .error e
          | .ok ⟨no, rest'', _⟩ => .ok ⟨.choose condition yes no, rest'', by omega⟩
termination_by (ts.length, Operator.loosest + 3)

def operand (level : Nat) (ts : List Lexeme) : Reader Node ts.length :=
  match level with
  | 0 => signed ts
  | level + 1 =>
    match operand level ts with
    | .error e => .error e
    | .ok ⟨left, rest, _⟩ =>
      match row level left rest with
      | .error e => .error e
      | .ok step => .ok (step.widen (by omega))
termination_by (ts.length, level + 2)

/-- The operators of level `level + 1` and their right operands, behind the operand `left`. -/
def row (level : Nat) (left : Node) (ts : List Lexeme) : Reader Node (ts.length + 1) :=
  match operator? (level + 1) ts with
  | none => .ok ⟨left, ts, by omega⟩
  | some (op, ⟨behind, _⟩) =>
    match operand level behind with
    | .error e => .error e
    | .ok ⟨right, rest, _⟩ =>
      match row level (.operator op left right) rest with
      | .error e => .error e
      | .ok step => .ok (step.widen (by omega))
termination_by (ts.length, 0)

def signed (ts : List Lexeme) : Reader Node ts.length :=
  match sign? ts with
  | some (op, ⟨behind, _⟩) =>
    match signed behind with
    | .error e => .error e
    | .ok ⟨node, rest, _⟩ => .ok ⟨.sign op node, rest, by omega⟩
  | none => primary ts
termination_by (ts.length, 1)

def primary (ts : List Lexeme) : Reader Node ts.length :=
  match ts with
  | [] => .error .endOfInput
  | t :: ts =>
    match t.token with
    | .number x => .ok ⟨.number x, ts, by simp⟩
    | .text s => .ok ⟨.text s, ts, by simp⟩
    | .name f =>
      match skip? .open ts with
      | none => .ok ⟨.name f, ts, by simp⟩
      | some ⟨behind, _⟩ =>
        match skip? .close behind with
        | some ⟨rest, _⟩ => .ok ⟨.call f [], rest, by simp; omega⟩
        | none =>
          match arguments behind with
          | .error e => .error e
          | .ok ⟨args, rest, _⟩ => .ok ⟨.call f args, rest, by simp; omega⟩
    | .mark .open =>
      match expression ts with
      | .error e => .error e
      | .ok ⟨node, rest, _⟩ =>
        match skip? .close rest with
        | none => .error (.expected .close rest.head?)
        | some ⟨behind, _⟩ => .ok ⟨node, behind, by simp; omega⟩
    | .mark _ => .error (.unexpected t)
termination_by (ts.length, 0)

def arguments (ts : List Lexeme) : Reader (List Node) ts.length :=
  match expression ts with
  | .error e => .error e
  | .ok ⟨arg, rest, _⟩ =>
    match skip? .close rest with
    | some ⟨behind, _⟩ => .ok ⟨[arg], behind, by omega⟩
    | none =>
      match skip? .comma rest with
      | none => .error (.expected .commaOrClose rest.head?)
      | some ⟨behind, _⟩ =>
        match arguments behind with
        | .error e => .error e
        | .ok ⟨args, rest', _⟩ => .ok ⟨arg :: args, rest', by omega⟩
termination_by (ts.length, Operator.loosest + 4)

end

end Parser

def parse (ts : List Lexeme) : Except SyntaxFault Node :=
  match Parser.expression ts with
  | .error e => .error e
  | .ok ⟨node, [], _⟩ => .ok node
  | .ok ⟨_, t :: _, _⟩ => .error (.unexpected t)

end Scenario.Expr
