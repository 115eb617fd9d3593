import Scenario.Condition

/-!
Actions over expressions of some type.
-/

namespace Scenario

/-- Something to be shown until it is acknowledged. -/
structure Message where
  text : String
  confirm : Option String := none
  icon : Option String := none
  fx : Option String := none
deriving Repr, DecidableEq

structure Choice (ε α : Type) where
  text : String
  requirement : Option (Condition ε)
  actions : List α
deriving Repr

structure Group (ε α : Type) where
  weight : ε
  actions : List α
deriving Repr

structure Branch (ε α : Type) where
  condition : Condition ε
  actions : List α
deriving Repr

structure VariableUpdate (ε : Type) where
  id : String
  value : ε
deriving Repr

structure ItemAmount (ε : Type) where
  item : String
  amount : ε
deriving Repr

structure TriggerRequest (ε : Type) where
  trigger : String
  priority : Option Int
  probability : ε
deriving Repr

inductive Action (ε : Type)
  | message (message : Message)
  | randomMessage (texts : List String) (confirm icon : Option String)
  | choices (text : String) (icon : Option String) (choices : List (Choice ε (Action ε)))
  | random (groups : List (Group ε (Action ε)))
  | coinFlip (probability : ε) (success failure : List (Action ε))
  | switch (branches : List (Branch ε (Action ε)))
  /-- Repeats actions until a condition holds, before or behind each round, or for a number of
  rounds; zero is no limit. -/
  | loop (actions : List (Action ε)) (stop : Option (Condition ε)) (maxIterations : Nat)
    (checkAtEnd : Bool)
  /-- Ends the list that it stands in, or all lists around it as well. -/
  | stop (everywhere : Bool)
  | endGame (outcome : Option String)
  | updateVariable (update : VariableUpdate ε)
  | updateVariables (updates : List (VariableUpdate ε))
  | updateVariableLimits (id : String) (min max : Option ε)
  | giveItem (amount : ItemAmount ε)
  | updateItemAmounts (amounts : List (ItemAmount ε))
  | setStatus (status : String) (duration : ε)
  | triggerEvents (requests : List (TriggerRequest ε))
  | toggleEvents (enabled : Bool) (events : List String)
deriving Repr

inductive Flow
  | next
  | stopList
  | stopAll
deriving Repr, DecidableEq

end Scenario
