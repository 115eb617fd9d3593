import Scenario.Action

/-!
The actions of a tree: an action and all those that stand in the lists in it, at any depth.
-/

namespace Scenario.Action

variable {ε : Type}

mutual

/-- The action and all actions that stand in it. -/
def parts : Action ε → List (Action ε)
  | .choices text icon cs => .choices text icon cs :: choicesParts cs
  | .random gs => .random gs :: groupsParts gs
  | .coinFlip probability success failure =>
    .coinFlip probability success failure :: (allParts success ++ allParts failure)
  | .switch bs => .switch bs :: branchesParts bs
  | .loop as condition maxIterations checkAtEnd =>
    .loop as condition maxIterations checkAtEnd :: allParts as
  | a => [a]

def allParts : List (Action ε) → List (Action ε)
  | [] => []
  | a :: as => parts a ++ allParts as

def choicesParts : List (Choice ε (Action ε)) → List (Action ε)
  | [] => []
  | ⟨_, _, as⟩ :: cs => allParts as ++ choicesParts cs

def groupsParts : List (Group ε (Action ε)) → List (Action ε)
  | [] => []
  | ⟨_, as⟩ :: gs => allParts as ++ groupsParts gs

def branchesParts : List (Branch ε (Action ε)) → List (Action ε)
  | [] => []
  | ⟨_, as⟩ :: bs => allParts as ++ branchesParts bs

end

theorem mem_parts_self (a : Action ε) : a ∈ a.parts := by
  cases a <;> simp [parts]

end Scenario.Action
