import Scenario.Modifier

/-!
What is held. Stacks of items and active statuses stand in the order in which they were acquired
since they were last gone; the order decides between assignments.
-/

namespace Scenario

section Keyed

variable {α : Type} (key : α → String)

/-- Replaces the first entry with a key by what `f` makes of it. -/
def updateFirst (id : String) (f : α → Option α) : List α → List α
  | [] => []
  | a :: as =>
    if key a = id then
      match f a with
      | some b => b :: as
      | none => as
    else a :: updateFirst id f as

end Keyed

structure Stack where
  provider : Provider Expression
  count : Nat

structure Inventory where
  entries : List Stack := []
  maxStack : Nat := 4294967295

namespace Inventory

def cap (inventory : Inventory) (maxStack : Option Nat) : Nat :=
  match maxStack with
  | some n => min n inventory.maxStack
  | none => inventory.maxStack

def count (inventory : Inventory) (id : String) : Nat :=
  ((inventory.entries.find? (·.provider.id = id)).map Stack.count).getD 0

/-- Makes the stack of a kind so large, or as large as it may be. An empty stack goes away, a new
one comes last. -/
def set (inventory : Inventory) (provider : Provider Expression) (count : Nat) : Inventory :=
  let count := min count (inventory.cap provider.maxStack)
  let entries :=
    if inventory.entries.any (·.provider.id = provider.id) then
      updateFirst (·.provider.id) provider.id
        (fun s => if count = 0 then none else some { s with count }) inventory.entries
    else if count = 0 then inventory.entries
    else inventory.entries ++ [⟨provider, count⟩]
  { inventory with entries }

/-- Integers that 64 bits hold with a sign. -/
def saturate (i : Int) : Int := max (-0x8000000000000000) (min i 0x7fffffffffffffff)

def add (inventory : Inventory) (provider : Provider Expression) (amount : Int) : Inventory :=
  let n := saturate (inventory.count provider.id + amount)
  inventory.set provider (max 0 (min n (inventory.cap provider.maxStack))).toNat

def clear (inventory : Inventory) : Inventory := { inventory with entries := [] }

def sources (inventory : Inventory) : List (Provider Expression × Nat) :=
  inventory.entries.map fun s => (s.provider, s.count)

end Inventory

structure ActiveStatus (α : Type) where
  provider : Provider Expression
  remaining : α

structure Statuses (α : Type) where
  entries : List (ActiveStatus α) := []

namespace Statuses

variable {α : Type}

def remaining? (statuses : Statuses α) (id : String) : Option α :=
  (statuses.entries.find? (·.provider.id = id)).map ActiveStatus.remaining

def contains (statuses : Statuses α) (id : String) : Bool :=
  statuses.entries.any (·.provider.id = id)

section Time

variable [OfNat α 0] [LT α] [DecidableLT α]

/-- Activates a status for a time, from now on if it was active. Without time it ends. -/
def set (statuses : Statuses α) (provider : Provider Expression) (duration : α) : Statuses α :=
  if 0 < duration then
    if statuses.contains provider.id then
      ⟨updateFirst (·.provider.id) provider.id (fun s => some { s with remaining := duration })
        statuses.entries⟩
    else ⟨statuses.entries ++ [⟨provider, duration⟩]⟩
  else ⟨updateFirst (·.provider.id) provider.id (fun _ => none) statuses.entries⟩

/-- One unit of time passes. The ids are those of the statuses that end. -/
def tick [OfNat α 1] [Sub α] (statuses : Statuses α) : List String × Statuses α :=
  let aged := statuses.entries.map fun s => { s with remaining := s.remaining - 1 }
  ((aged.filter fun s => ¬ 0 < s.remaining).map (·.provider.id),
    ⟨aged.filter fun s => 0 < s.remaining⟩)

end Time

def sources (statuses : Statuses α) : List (Provider Expression × Nat) :=
  statuses.entries.map fun s => (s.provider, 1)

end Statuses

end Scenario
