import Scenario.Expr.Compiler

/-!
Modifiers and what they come to together. Contributions to one target are added up in any type of
numbers, and applied to a base in a fixed order:

    ((base * (1 + Σ relative to base)) + Σ absolute) * Π (1 + relative) ^ count

The first assignment overrides all of it.
-/

namespace Scenario

inductive ModifierKind
  | absolute
  | relative
  | relativeToBase
  | assignment
deriving Repr, DecidableEq

structure Modifier (ε : Type) where
  target : String
  kind : ModifierKind
  amount : ε
deriving Repr

/-- An item or a status: something that can be held, several times over if it is an item, and whose
modifiers count while it is. -/
structure Provider (ε : Type) where
  id : String
  modifiers : List (Modifier ε) := []
  /-- The most items of this kind in the inventory, if fewer than usual. -/
  maxStack : Option Nat := none
deriving Repr

/-- A derived number: a base with modifiers, confined to an interval. -/
structure Attribute where
  id : String
  base : Float
  min : Float := -infinity
  max : Float := infinity
deriving Repr

structure Combined (α : Type) where
  absolute : α
  relative : α
  relativeToBase : α
  assignment : Option α
deriving Repr

namespace Combined

variable {α : Type} [Add α] [Mul α] [NatCast α] [OfNat α 0] [OfNat α 1]

def neutral : Combined α := ⟨0, 1, 0, none⟩

def maxPower : Nat := 2147483647

def add (c : Combined α) (kind : ModifierKind) (amount : α) (count : Nat) : Combined α :=
  match kind with
  | .absolute => { c with absolute := c.absolute + amount * count }
  | .relativeToBase => { c with relativeToBase := c.relativeToBase + amount * count }
  | .relative => { c with relative := c.relative * power (1 + amount) (min count maxPower) }
  | .assignment => { c with assignment := c.assignment.or (some amount) }

def apply [LT α] [DecidableLT α] (c : Combined α) (base min max : α) : α :=
  match c.assignment with
  | some x => x
  | none => clamp ((base * (1 + c.relativeToBase) + c.absolute) * c.relative) min max

def effect (c : Combined α) : α :=
  match c.assignment with
  | some x => x
  | none => c.absolute * c.relative

section Collect

variable {ε τ : Type} {m : Type → Type} [Monad m] (amount : ε → m α)

def addAll (count : Nat) : Combined α → List (Modifier ε) → m (Combined α)
  | c, [] => return c
  | c, modifier :: rest => do
    let x ← amount modifier.amount
    let c := c.add modifier.kind x count
    if c.assignment.isSome then return c else addAll count c rest

/-- The modifiers for a target, of providers that are held so many times. Amounts behind the first
assignment are not looked at. -/
def collect (target : String) : Combined α → List (Provider ε × Nat) → m (Combined α)
  | c, [] => return c
  | c, (provider, count) :: rest => do
    if count = 0 then collect target c rest
    else
      let c ← addAll amount count c (provider.modifiers.filter (·.target = target))
      if c.assignment.isSome then return c else collect target c rest

end Collect

end Combined

end Scenario
