import Scenario.Proofs.Grammar

/-!
The readers of the parser without the bounds by which they end: as computations that take tokens off
a list or fail, written the way the grammar is.
-/

namespace Scenario.Expr

def tokensOf (ts : List Lexeme) : List Token := ts.map Lexeme.token

/-- Readers without the bounds by which they end. -/
abbrev Reading := StateT (List Lexeme) (Except SyntaxFault)

namespace Reading

variable {α β : Type}

theorem bind_eq (f : Reading α) (g : α → Reading β) (ts : List Lexeme) :
    (f >>= g) ts = match f ts with
      | .ok (a, rest) => g a rest
      | .error fault => .error fault := by
  change (f ts >>= fun x => g x.1 x.2) = _
  cases f ts <;> rfl

def fail (fault : List Lexeme → SyntaxFault) : Reading α := fun ts => .error (fault ts)

/-- Takes the next token if it is a mark of some sort. -/
def next? (sort : Mark → Option α) : Reading (Option α)
  | [] => .ok (none, [])
  | t :: ts =>
    match t.token with
    | .mark m =>
      match sort m with
      | some a => .ok (some a, ts)
      | none => .ok (none, t :: ts)
    | _ => .ok (none, t :: ts)

def only (m m' : Mark) : Option Unit := if m' = m then some () else none

def ofLevel (level : Nat) (m : Mark) : Option Operator :=
  m.operator?.filter (·.level = level)

def expect (m : Mark) (wanted : Wanted) : Reading Unit := do
  match ← next? (only m) with
  | some () => return ()
  | none => fail fun ts => .expected wanted ts.head?

end Reading

/-- Two rests with the same next token. -/
def SameNext (rest rest' : List Lexeme) : Prop :=
  rest.head?.map Lexeme.token = rest'.head?.map Lexeme.token

namespace SameNext

theorem refl (rest : List Lexeme) : SameNext rest rest := rfl

theorem append {rest rest' : List Lexeme} (h : SameNext rest rest') (used : List Lexeme) :
    SameNext (used ++ rest) (used ++ rest') := by
  cases used with
  | nil => exact h
  | cons t used => rfl

theorem eq_nil {rest' : List Lexeme} (h : SameNext [] rest') : rest' = [] := by
  cases rest' with
  | nil => rfl
  | cons t rest' => cases h

theorem eq_cons {t : Lexeme} {rest rest' : List Lexeme} (h : SameNext (t :: rest) rest') :
    ∃ t' behind, rest' = t' :: behind ∧ t'.token = t.token := by
  cases rest' with
  | nil => cases h
  | cons t' behind => exact ⟨t', behind, rfl, (Option.some.inj h).symm⟩

end SameNext

namespace Reading

/-- The next token is no mark of some sort. -/
def Misses {α : Type} (sort : Mark → Option α) (ts : List Lexeme) : Prop :=
  ∀ t ∈ ts.head?, ∀ m, t.token = .mark m → sort m = none

theorem Misses.of_same {α : Type} {sort : Mark → Option α} {ts ts' : List Lexeme}
    (h : Misses sort ts) (hsame : SameNext ts ts') : Misses sort ts' := by
  intro t' ht' m hm
  have hnext : ts.head?.map Lexeme.token = some t'.token := hsame.trans (by rw [ht']; rfl)
  obtain ⟨t, ht, htoken⟩ := Option.map_eq_some_iff.1 hnext
  exact h t ht m (htoken.trans hm)

variable {α : Type} {sort : Mark → Option α} {t : Lexeme} {ts : List Lexeme}

theorem next?_some {m : Mark} {a : α} (ht : t.token = .mark m) (h : sort m = some a) :
    next? sort (t :: ts) = .ok (some a, ts) := by
  simp [next?, ht, h]

theorem next?_none (h : Misses sort ts) :
    next? sort ts = .ok (none, ts) := by
  cases ts with
  | nil => rfl
  | cons t ts =>
    cases ht : t.token with
    | mark m => simp [next?, ht, h t rfl m ht]
    | _ => simp [next?, ht]

theorem only_self (m : Mark) : only m m = some () := if_pos rfl

theorem only_of_ne {m m' : Mark} (h : m' ≠ m) : only m m' = none := if_neg h

theorem ofLevel_eq_some {level : Nat} {m : Mark} {op : Operator} :
    ofLevel level m = some op ↔ m = op.mark ∧ op.rank = level := by
  unfold ofLevel
  rw [Option.filter_eq_some_iff, Mark.operator?_eq_some, Operator.rank_eq_level]
  simp

theorem misses_only {m : Mark} (h : ∀ t ∈ ts.head?, t.token ≠ .mark m) : Misses (only m) ts := by
  rintro t ht m' hm
  apply only_of_ne
  rintro rfl
  exact h t ht hm

theorem expect_eq {m : Mark} {wanted : Wanted} (ht : t.token = .mark m) :
    expect m wanted (t :: ts) = .ok ((), ts) := by
  unfold expect
  rw [bind_eq, next?_some ht (only_self m)]
  rfl

end Reading

/-! ### The parser in these terms -/

open Reading

def Parser.Reader.plain {α : Type} {n : Nat} (r : Parser.Reader α n) :
    Except SyntaxFault (α × List Lexeme) :=
  r.map fun s => (s.value, s.rest)

def readExpression : Reading Node := fun ts => (Parser.expression ts).plain
def readOperand (level : Nat) : Reading Node := fun ts => (Parser.operand level ts).plain
def readRow (level : Nat) (left : Node) : Reading Node := fun ts => (Parser.row level left ts).plain
def readPrimary : Reading Node := fun ts => (Parser.primary ts).plain
def readArguments : Reading (List Node) := fun ts => (Parser.arguments ts).plain

theorem skip?_eq (m : Mark) (ts : List Lexeme) :
    next? (only m) ts = match Parser.skip? m ts with
      | some rest => .ok (some (), rest.1)
      | none => .ok (none, ts) := by
  unfold next? Parser.skip? only
  cases ts with
  | nil => rfl
  | cons t ts =>
    cases ht : t.token with
    | mark m' => by_cases h : m' = m <;> simp [ht, h]
    | _ => simp [ht]

theorem expect_eq_skip? (m : Mark) (wanted : Wanted) (ts : List Lexeme) :
    expect m wanted ts = match Parser.skip? m ts with
      | some rest => .ok ((), rest.1)
      | none => .error (.expected wanted ts.head?) := by
  unfold expect
  rw [bind_eq, skip?_eq]
  cases Parser.skip? m ts <;> rfl

theorem readExpression_eq : readExpression = do
    let condition ← readOperand Operator.loosest
    match ← next? (only .question) with
    | none => return condition
    | some () =>
      let yes ← readExpression
      expect .colon .colon
      let no ← readExpression
      return .choose condition yes no := by
  funext ts
  simp only [bind_eq]
  unfold readExpression readOperand
  rw [Parser.expression]
  cases Parser.operand Operator.loosest ts with
  | error fault => rfl
  | ok step =>
    obtain ⟨condition, rest, hrest⟩ := step
    simp only [Parser.Reader.plain, Except.map]
    rw [skip?_eq]
    cases Parser.skip? .question rest with
    | none => rfl
    | some behind =>
      obtain ⟨behind, hbehind⟩ := behind
      dsimp only
      rw [bind_eq]
      cases Parser.expression behind with
      | error fault => rfl
      | ok step =>
        obtain ⟨yes, rest', hrest'⟩ := step
        simp only [bind_eq, expect_eq_skip?]
        cases Parser.skip? .colon rest' with
        | none => rfl
        | some behind' =>
          obtain ⟨behind', hbehind'⟩ := behind'
          dsimp only
          cases Parser.expression behind' <;> rfl

theorem operator?_eq (level : Nat) (ts : List Lexeme) :
    next? (ofLevel level) ts = match Parser.operator? level ts with
      | some (op, rest) => .ok (some op, rest.1)
      | none => .ok (none, ts) := by
  unfold next? Parser.operator? ofLevel
  cases ts with
  | nil => rfl
  | cons t ts =>
    cases ht : t.token with
    | mark m =>
      cases hop : m.operator? with
      | none => simp [ht, hop]
      | some op => by_cases h : op.level = level <;> simp [ht, hop, h, Option.filter]
    | _ => simp [ht]

theorem sign?_eq (ts : List Lexeme) :
    next? Mark.sign? ts = match Parser.sign? ts with
      | some (op, rest) => .ok (some op, rest.1)
      | none => .ok (none, ts) := by
  unfold next? Parser.sign?
  cases ts with
  | nil => rfl
  | cons t ts =>
    cases ht : t.token with
    | mark m => cases hop : m.sign? <;> simp [ht, hop]
    | _ => simp [ht]

theorem readOperand_zero : readOperand 0 = (do
    match ← next? Mark.sign? with
    | some op =>
      let operand ← readOperand 0
      return .sign op operand
    | none => readPrimary) := by
  funext ts
  unfold readOperand readPrimary
  rw [bind_eq, sign?_eq, Parser.operand, Parser.signed]
  cases Parser.sign? ts with
  | none => rfl
  | some found =>
    obtain ⟨op, behind, hbehind⟩ := found
    dsimp only
    rw [bind_eq, Parser.operand]
    cases Parser.signed behind <;> rfl

theorem readOperand_succ (level : Nat) :
    readOperand (level + 1) = readOperand level >>= readRow level := by
  funext ts
  unfold readOperand readRow
  rw [bind_eq, Parser.operand]
  cases Parser.operand level ts with
  | error fault => rfl
  | ok step =>
    obtain ⟨left, rest, hrest⟩ := step
    dsimp only [Parser.Reader.plain, Except.map]
    cases Parser.row level left rest <;> rfl

theorem readRow_eq (level : Nat) (left : Node) : readRow level left = (do
    match ← next? (ofLevel (level + 1)) with
    | none => return left
    | some op =>
      let right ← readOperand level
      readRow level (.operator op left right)) := by
  funext ts
  unfold readOperand readRow
  rw [bind_eq, operator?_eq, Parser.row]
  cases Parser.operator? (level + 1) ts with
  | none => rfl
  | some found =>
    obtain ⟨op, behind, hbehind⟩ := found
    dsimp only
    rw [bind_eq]
    cases Parser.operand level behind with
    | error fault => rfl
    | ok step =>
      obtain ⟨right, rest, hrest⟩ := step
      dsimp only [Parser.Reader.plain, Except.map]
      cases Parser.row level (.operator op left right) rest <;> rfl

theorem readArguments_eq : readArguments = do
    let arg ← readExpression
    match ← next? (only .close) with
    | some () => return [arg]
    | none =>
      expect .comma .commaOrClose
      let args ← readArguments
      return arg :: args := by
  funext ts
  simp only [bind_eq]
  unfold readExpression readArguments
  rw [Parser.arguments]
  cases Parser.expression ts with
  | error fault => rfl
  | ok step =>
    obtain ⟨arg, rest, hrest⟩ := step
    simp only [Parser.Reader.plain, Except.map]
    rw [skip?_eq]
    cases Parser.skip? .close rest with
    | some behind => rfl
    | none =>
      dsimp only
      simp only [bind_eq, expect_eq_skip?]
      cases Parser.skip? .comma rest with
      | none => rfl
      | some behind =>
        obtain ⟨behind, hbehind⟩ := behind
        dsimp only
        cases Parser.arguments behind <;> rfl

/-- What stands behind a name. -/
def readCall (f : String) : Reading Node := do
  match ← next? (only .open) with
  | none => return .name f
  | some () =>
    match ← next? (only .close) with
    | some () => return .call f []
    | none =>
      let args ← readArguments
      return .call f args

def readParentheses : Reading Node := do
  let node ← readExpression
  expect .close .close
  return node

theorem readPrimary_nil : readPrimary [] = .error .endOfInput := by
  unfold readPrimary
  rw [Parser.primary]
  rfl

theorem readPrimary_cons (t : Lexeme) (ts : List Lexeme) :
    readPrimary (t :: ts) = match t.token with
      | .number x => .ok (.number x, ts)
      | .text s => .ok (.text s, ts)
      | .name f => readCall f ts
      | .mark .open => readParentheses ts
      | .mark _ => .error (.unexpected t) := by
  unfold readPrimary readCall readParentheses readArguments readExpression
  rw [Parser.primary]
  cases t.token with
  | number x => rfl
  | text s => rfl
  | name f =>
    dsimp only
    rw [bind_eq, skip?_eq]
    cases Parser.skip? .open ts with
    | none => rfl
    | some behind =>
      obtain ⟨behind, hbehind⟩ := behind
      dsimp only
      rw [bind_eq, skip?_eq]
      cases Parser.skip? .close behind with
      | some rest => rfl
      | none =>
        dsimp only
        rw [bind_eq]
        cases Parser.arguments behind <;> rfl
  | mark m =>
    cases m with
    | «open» =>
      simp only [bind_eq]
      cases Parser.expression ts with
      | error fault => rfl
      | ok step =>
        obtain ⟨node, rest, hrest⟩ := step
        simp only [Parser.Reader.plain, Except.map]
        rw [expect_eq_skip?]
        cases Parser.skip? .close rest <;> rfl
    | _ => rfl

theorem parse_eq (ts : List Lexeme) :
    parse ts = match readExpression ts with
      | .error fault => .error fault
      | .ok (node, []) => .ok node
      | .ok (_, t :: _) => .error (.unexpected t) := by
  unfold parse readExpression
  cases Parser.expression ts with
  | error fault => rfl
  | ok step =>
    obtain ⟨node, rest, hrest⟩ := step
    cases rest <;> rfl

end Scenario.Expr
