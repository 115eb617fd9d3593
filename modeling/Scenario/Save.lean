import Scenario.State

/-!
Saves: what of a state outlives the program. Definitions, pending triggers and notifications do not.
-/

namespace Scenario

/-- A variable as it is written down: alone, or with its bounds. -/
inductive SavedVariable
  | value (value : Float)
  | bounded (value min max : Float)
deriving Repr

namespace SavedVariable

def ofVariable (v : Variable) : SavedVariable :=
  if v.isUnbounded then .value v.value else .bounded v.value v.min v.max

def toVariable : SavedVariable → Variable
  | .value x => { value := x }
  | .bounded x min max => ⟨x, min, max⟩

end SavedVariable

structure Save where
  vars : Std.ExtTreeMap String SavedVariable
  inventory : List (String × Nat)
  statuses : List (String × Float)
  events : List (String × EventFlags)
  random : RandomPosition
  ending : Option Ending

def sameNumber (x y : Float) : Bool := (x.isNaN && y.isNaN) || x == y

def sameList {α : Type} (same : α → α → Bool) : List α → List α → Bool
  | [], [] => true
  | a :: as, b :: bs => same a b && sameList same as bs
  | _, _ => false

def SavedVariable.same : SavedVariable → SavedVariable → Bool
  | .value x, .value y => sameNumber x y
  | .bounded x a b, .bounded y c d => sameNumber x y && sameNumber a c && sameNumber b d
  | _, _ => false

namespace Save

def ofState (s : State) : Save where
  vars := s.vars.map fun _ v => .ofVariable v
  inventory := s.inventory.entries.map fun stack => (stack.provider.id, stack.count)
  statuses := s.statuses.entries.map fun status => (status.provider.id, status.remaining)
  events := s.registry.snapshot
  random := s.random.snapshot
  ending := s.ending

def same (a b : Save) : Bool :=
  sameList (fun (i, x) (j, y) => i = j && x.same y) a.vars.toList b.vars.toList &&
    a.inventory = b.inventory &&
    sameList (fun (i, x) (j, y) => i = j && sameNumber x y) a.statuses b.statuses &&
    a.events = b.events && a.random = b.random && a.ending = b.ending

def boundsFault? : String × SavedVariable → Option Incompatibility
  | (id, .bounded _ min max) =>
    if validBounds min max then none else some (.invalidBounds id min max)
  | (_, .value _) => none

def fault? (save : Save) (s : State) : Option Incompatibility :=
  let unknown (kind : Kind) (known : String → Bool) (ids : List String) : Option Incompatibility :=
    (ids.find? fun id => !known id).map (.unknown kind)
  unknown .variable s.vars.contains save.vars.keys
    <|> save.vars.toList.findSome? boundsFault?
    <|> unknown .item s.items.contains (save.inventory.map Prod.fst)
    <|> unknown .status s.statusKinds.contains (save.statuses.map Prod.fst)
    <|> unknown .event s.registry.index.contains (save.events.map Prod.fst)

def inventoryIn (save : Save) (s : State) : Inventory :=
  save.inventory.foldl
    (fun inventory (id, count) =>
      match s.items[id]? with
      | some provider => inventory.set provider count
      | none => inventory)
    s.inventory.clear

def statusesIn (save : Save) (s : State) : Statuses Float :=
  save.statuses.foldl
    (fun statuses (id, remaining) =>
      match s.statusKinds[id]? with
      | some provider => statuses.set provider remaining
      | none => statuses)
    {}

/-- Puts a state back to a save, all of it or, if the save does not fit, nothing. -/
def restore (save : Save) (s : State) : Except UsageError State :=
  match save.fault? s with
  | some fault => .error (.incompatibleSave fault)
  | none => do
    let registry ← s.registry.restore save.events
    return { s with
      vars := save.vars.foldl (fun vs id v => vs.insert id v.toVariable) s.vars
      inventory := save.inventoryIn s
      statuses := save.statusesIn s
      registry
      random := s.random.restore save.random
      ending := save.ending
      queue := {} }

end Save

end Scenario
