import Scenario.Expr.Parser

/-!
The grammar of expressions, as it is documented: a table of precedence whose rows associate to the
left, under a choice that associates to the right and over signs, names, numbers, texts, calls and
parentheses. A derivation is a value, so that there are no wrong ones; it has tokens, and it says a
tree.
-/

namespace Scenario.Expr

/-- The table of precedence, the loosest row first. -/
def precedence : List (List Operator) :=
  [[.orElse], [.andThen], [.either], [.both], [.equal, .notEqual],
    [.less, .lessEq, .greater, .greaterEq], [.add, .sub], [.mul, .div, .rem]]

/-- The row of an operator, counted from the end of the table. -/
def Operator.rank (op : Operator) : Nat :=
  precedence.length - precedence.findIdx (op ∈ ·)

def Operator.mark : Operator → Mark
  | .add => .plus
  | .sub => .minus
  | .mul => .star
  | .div => .slash
  | .rem => .percent
  | .less => .less
  | .lessEq => .lessEq
  | .greater => .greater
  | .greaterEq => .greaterEq
  | .equal => .equal
  | .notEqual => .notEqual
  | .both => .both
  | .either => .either
  | .andThen => .andThen
  | .orElse => .orElse

def Sign.mark : Sign → Mark
  | .not => .bang
  | .negate => .minus
  | .plus => .plus

theorem Operator.rank_eq_level (op : Operator) : op.rank = op.level := by
  cases op <;> rfl

theorem Mark.operator?_eq_some {m : Mark} {op : Operator} :
    m.operator? = some op ↔ m = op.mark := by
  constructor
  · cases m <;> rintro ⟨⟩ <;> rfl
  · rintro rfl
    cases op <;> rfl

theorem Mark.sign?_eq_some {m : Mark} {op : Sign} : m.sign? = some op ↔ m = op.mark := by
  constructor
  · cases m <;> rintro ⟨⟩ <;> rfl
  · rintro rfl
    cases op <;> rfl

theorem Operator.mark_injective : Function.Injective Operator.mark := by
  intro op op' h
  have hop := Mark.operator?_eq_some.2 h
  rw [Mark.operator?_eq_some.2 rfl] at hop
  cases hop
  rfl

theorem Operator.mark_ne_open (op : Operator) : op.mark ≠ .open := by
  cases op <;> decide

/-! ### Derivations -/

/-- What the grammar has rules for. An operand of a level has operators of that level or of tighter
ones. -/
inductive Category
  | expression
  | operand (level : Nat)
  | primary
  | arguments

/-- What a phrase of a category says. -/
abbrev Category.Meaning : Category → Type
  | .arguments => List Node
  | _ => Node

/-- Derivations, a constructor for each rule. -/
inductive Derivation : Category → Type
  | operand (d : Derivation (.operand precedence.length)) : Derivation .expression
  | choose (condition : Derivation (.operand precedence.length))
    (yes no : Derivation .expression) : Derivation .expression
  | tighter {level : Nat} (d : Derivation (.operand level)) : Derivation (.operand (level + 1))
  | operator {level : Nat} (op : Operator) (h : op.rank = level + 1)
    (left : Derivation (.operand (level + 1))) (right : Derivation (.operand level)) :
    Derivation (.operand (level + 1))
  | sign (op : Sign) (d : Derivation (.operand 0)) : Derivation (.operand 0)
  | primary (d : Derivation .primary) : Derivation (.operand 0)
  | number (x : Float) : Derivation .primary
  | text (s : String) : Derivation .primary
  | name (n : String) : Derivation .primary
  | emptyCall (f : String) : Derivation .primary
  | call (f : String) (args : Derivation .arguments) : Derivation .primary
  | parentheses (d : Derivation .expression) : Derivation .primary
  | last (d : Derivation .expression) : Derivation .arguments
  | more (d : Derivation .expression) (rest : Derivation .arguments) : Derivation .arguments

namespace Derivation

def tokens : {c : Category} → Derivation c → List Token
  | _, .operand d => d.tokens
  | _, .choose c a b => c.tokens ++ .mark .question :: (a.tokens ++ .mark .colon :: b.tokens)
  | _, .tighter d => d.tokens
  | _, .operator op _ l r => l.tokens ++ .mark op.mark :: r.tokens
  | _, .sign op d => .mark op.mark :: d.tokens
  | _, .primary d => d.tokens
  | _, .number x => [.number x]
  | _, .text s => [.text s]
  | _, .name n => [.name n]
  | _, .emptyCall f => [.name f, .mark .open, .mark .close]
  | _, .call f args => .name f :: .mark .open :: (args.tokens ++ [.mark .close])
  | _, .parentheses d => .mark .open :: (d.tokens ++ [.mark .close])
  | _, .last d => d.tokens
  | _, .more d rest => d.tokens ++ .mark .comma :: rest.tokens

def node : {c : Category} → Derivation c → c.Meaning
  | _, .operand d => d.node
  | _, .choose c a b => .choose c.node a.node b.node
  | _, .tighter d => d.node
  | _, .operator op _ l r => .operator op l.node r.node
  | _, .sign op d => .sign op d.node
  | _, .primary d => d.node
  | _, .number x => .number x
  | _, .text s => .text s
  | _, .name n => .name n
  | _, .emptyCall f => .call f []
  | _, .call f args => .call f args.node
  | _, .parentheses d => d.node
  | _, .last d => [d.node]
  | _, .more d rest => d.node :: rest.node

theorem exists_first_of_primary (d : Derivation .primary) :
    ∃ t ts, d.tokens = t :: ts ∧ ∀ m, t = .mark m → m = .open := by
  cases d with
  | parentheses d => exact ⟨_, _, rfl, by rintro m ⟨⟩; rfl⟩
  | _ => exact ⟨_, _, rfl, by rintro m ⟨⟩⟩

/-- Phrases begin with a name, a number, a text, a parenthesis or a sign. -/
theorem exists_first {c : Category} (d : Derivation c) :
    ∃ t ts, d.tokens = t :: ts ∧ ∀ m, t = .mark m → m = .open ∨ ∃ op, m = Sign.mark op := by
  have happend : ∀ {ts : List Token} (us : List Token),
      (∃ t ts', ts = t :: ts' ∧ ∀ m, t = .mark m → m = .open ∨ ∃ op, m = Sign.mark op) →
      ∃ t ts', ts ++ us = t :: ts' ∧ ∀ m, t = .mark m → m = .open ∨ ∃ op, m = Sign.mark op := by
    rintro _ us ⟨t, ts, rfl, h⟩
    exact ⟨t, ts ++ us, rfl, h⟩
  induction d with
  | operand _ ih | tighter _ ih | last _ ih | primary _ ih => exact ih
  | choose c a b ih _ _ => exact happend _ ih
  | operator op _ l r ih _ => exact happend _ ih
  | more d rest ih _ => exact happend _ ih
  | sign op d _ => exact ⟨_, _, rfl, by rintro m ⟨⟩; exact .inr ⟨op, rfl⟩⟩
  | parentheses d _ => exact ⟨_, _, rfl, by rintro m ⟨⟩; exact .inl rfl⟩
  | _ => exact ⟨_, _, rfl, by rintro m ⟨⟩⟩

theorem length_tokens_pos {c : Category} (d : Derivation c) : 0 < d.tokens.length := by
  obtain ⟨t, ts, htokens, -⟩ := d.exists_first
  rw [htokens]
  exact Nat.succ_pos _

/-- A derivation of any level, to complete what has begun. -/
def filler : (level : Nat) → Derivation (.operand level)
  | 0 => .primary (.number 0.0)
  | level + 1 => .tighter (filler level)

def zero : Derivation .expression := .operand (filler precedence.length)

end Derivation

/-! ### Token lists -/

def IsExpression (ts : List Token) : Prop := ∃ d : Derivation .expression, d.tokens = ts

/-- Some expression begins like this. -/
def Begins (ts : List Token) : Prop := ∃ more, IsExpression (ts ++ more)

/-! ### Weight -/

mutual

/-- How many names, numbers, texts, signs and operators a tree has. -/
def Node.weight : Node → Nat
  | .number _ | .text _ | .name _ => 1
  | .sign _ a => 1 + a.weight
  | .operator _ l r => l.weight + (1 + r.weight)
  | .choose c a b => c.weight + (a.weight + b.weight)
  | .call _ args => 1 + weights args

def Node.weights : List Node → Nat
  | [] => 0
  | a :: as => a.weight + weights as

end

def Category.weight : (c : Category) → c.Meaning → Nat
  | .expression, n => Node.weight n
  | .operand _, n => Node.weight n
  | .primary, n => Node.weight n
  | .arguments, ns => Node.weights ns

/-- A token that trees have a part for. -/
def Token.Weighs : Token → Bool
  | .mark m => m.operator?.isSome || m.sign?.isSome
  | _ => true

theorem Token.weighs_operator (op : Operator) : Token.Weighs (.mark op.mark) = true := by
  cases op <;> rfl

theorem Token.weighs_sign (op : Sign) : Token.Weighs (.mark op.mark) = true := by
  cases op <;> rfl

/-- Derivations of one tree differ in their parentheses alone. -/
theorem Derivation.countP_tokens {c : Category} (d : Derivation c) :
    d.tokens.countP Token.Weighs = c.weight d.node := by
  induction d with
  | operand d ih | tighter d ih | primary d ih | last d ih => exact ih
  | choose c a b hc ha hb =>
    simp only [tokens, List.countP_append, List.countP_cons, hc, ha, hb]
    simp [Token.Weighs, Category.weight, node, Node.weight, Mark.operator?, Mark.sign?]
  | operator op h l r hl hr =>
    simp only [tokens, List.countP_append, List.countP_cons, hl, hr, Token.weighs_operator]
    simp only [Category.weight, node, Node.weight, ↓reduceIte]
    omega
  | sign op d ih =>
    simp only [tokens, List.countP_cons, ih, Token.weighs_sign]
    simp only [Category.weight, node, Node.weight, ↓reduceIte]
    omega
  | number _ | text _ | name _ | emptyCall _ => rfl
  | call f args ih =>
    simp only [tokens, List.countP_append, List.countP_cons, List.countP_nil, ih]
    simp [Token.Weighs, Category.weight, node, Node.weight, Mark.operator?, Mark.sign?]
    omega
  | parentheses d ih =>
    simp only [tokens, List.countP_append, List.countP_cons, List.countP_nil, ih]
    simp [Token.Weighs, Category.weight, node, Mark.operator?, Mark.sign?]
  | more d rest hd hrest =>
    simp only [tokens, List.countP_append, List.countP_cons, hd, hrest]
    simp [Token.Weighs, Category.weight, node, Node.weights, Mark.operator?, Mark.sign?]

end Scenario.Expr
