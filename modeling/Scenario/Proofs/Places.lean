import Scenario.Proofs.Compiling
import Scenario.Proofs.Parts

/-!
The places of records at which building can fail, in the order in which it comes to them. There are
the sources of expressions, under the names of their fields, and there is what a record lacks.
-/

namespace Scenario

inductive Place
  | expression (name : String) (source : Source)
  | defect (defect : Defect)

namespace Place

/-- What building fails with at a place. -/
def error? (context : Context) (c : Compiler) : Place → Option DefinitionError
  | .expression name source =>
    match (c.compile source).1 with
    | .ok _ => none
    | .error cause => some (.field context name cause)
  | .defect d => some (.invalid context d)

/-- The place of a list that must not be empty. -/
def ofEmpty {α : Type} (d : Defect) : List α → List Place
  | [] => [.defect d]
  | _ :: _ => []

end Place

/-! ### The order of the places -/

namespace Condition

mutual

def places : Condition Source → List Place
  | .expression e => [.expression "expression" e]
  | .not c => c.places
  | .all cs | .any cs => allPlaces cs
  | .count cs min max => allPlaces cs ++ [.expression "min" min, .expression "max" max]

def allPlaces : List (Condition Source) → List Place
  | [] => []
  | c :: cs => c.places ++ allPlaces cs

end

end Condition

namespace Action

mutual

/-- A list that must not be empty comes before what is in it. -/
def places : Action Source → List Place
  | .message _ | .stop _ | .endGame _ | .toggleEvents _ _ => []
  | .randomMessage texts _ _ => Place.ofEmpty .noMessages texts
  | .choices _ _ cs => choicesPlaces cs
  | .random gs => Place.ofEmpty .noGroups gs ++ groupsPlaces gs
  | .coinFlip probability success failure =>
    .expression "probability" probability :: (allPlaces success ++ allPlaces failure)
  | .switch bs => branchesPlaces bs
  | .loop as condition _ _ => allPlaces as ++ condition.elim [] Condition.places
  | .updateVariable u => [.expression "value" u.value]
  | .updateVariables us => us.flatMap fun u => [.expression "value" u.value]
  | .updateVariableLimits _ min max =>
    (min.elim [] fun e => [.expression "min" e]) ++ max.elim [] fun e => [.expression "max" e]
  | .giveItem a => [.expression "amount" a.amount]
  | .updateItemAmounts as => as.flatMap fun a => [.expression "amount" a.amount]
  | .setStatus _ duration => [.expression "duration" duration]
  | .triggerEvents rs => rs.flatMap fun r => [.expression "probability" r.probability]

def allPlaces : List (Action Source) → List Place
  | [] => []
  | a :: as => a.places ++ allPlaces as

def choicesPlaces : List (Choice Source (Action Source)) → List Place
  | [] => []
  | ⟨_, requirement, as⟩ :: cs =>
    requirement.elim [] Condition.places ++ (allPlaces as ++ choicesPlaces cs)

def groupsPlaces : List (Group Source (Action Source)) → List Place
  | [] => []
  | ⟨weight, as⟩ :: gs => .expression "weight" weight :: (allPlaces as ++ groupsPlaces gs)

def branchesPlaces : List (Branch Source (Action Source)) → List Place
  | [] => []
  | ⟨c, as⟩ :: bs => c.places ++ (allPlaces as ++ branchesPlaces bs)

end

end Action

def Event.places (e : Event Source) : List Place :=
  Condition.allPlaces e.conditions ++
    (Action.allPlaces e.actions ++ [.expression "probability" e.probability])

/-! ### Records without faults -/

def Compiler.Accepts (c : Compiler) (source : Source) : Prop :=
  ∃ e, (c.compile source).1 = .ok e

/-- An action that can never be run: there is nothing for chance to choose from. -/
def Action.Empty {ε : Type} : Action ε → Prop
  | .random gs => gs = []
  | .randomMessage texts _ _ => texts = []
  | _ => False

section Faultless

variable (context : Context) (c : Compiler)

def Faultless (places : List Place) : Prop := ∀ place ∈ places, place.error? context c = none

@[simp] theorem faultless_nil : Faultless context c [] := List.forall_mem_nil _

@[simp] theorem faultless_append (places places' : List Place) :
    Faultless context c (places ++ places') ↔
      Faultless context c places ∧ Faultless context c places' := List.forall_mem_append

@[simp] theorem faultless_expression (name : String) (source : Source) (places : List Place) :
    Faultless context c (.expression name source :: places) ↔
      c.Accepts source ∧ Faultless context c places := by
  have hplace : Place.error? context c (.expression name source) = none ↔ c.Accepts source := by
    unfold Place.error? Compiler.Accepts
    rcases hcompiled : c.compile source with ⟨_ | _, _⟩ <;> simp [hcompiled]
  rw [Faultless, List.forall_mem_cons, hplace]
  rfl

theorem faultless_flatMap {α : Type} (name : String) (source : α → Source) (as : List α) :
    Faultless context c (as.flatMap fun a => [.expression name (source a)]) ↔
      ∀ a ∈ as, c.Accepts (source a) := by
  induction as with
  | nil => simp
  | cons a as ih => simp [ih]

theorem faultless_elim (name : String) (source : Option Source) :
    Faultless context c (source.elim [] fun s => [.expression name s]) ↔
      ∀ s ∈ source, c.Accepts s := by
  cases source <;> simp

theorem faultless_ofEmpty {α : Type} (defect : Defect) (as : List α) :
    Faultless context c (Place.ofEmpty defect as) ↔ as ≠ [] := by
  cases as with
  | nil => simp [Place.ofEmpty, Faultless, Place.error?]
  | cons a as => simp [Place.ofEmpty]

namespace Condition

mutual

theorem faultless_places : ∀ condition : Condition Source,
    Faultless context c condition.places ↔ condition.Of c.Accepts
  | .expression _ => by simp [places, Of]
  | .not condition => faultless_places condition
  | .all cs => faultless_allPlaces cs
  | .any cs => faultless_allPlaces cs
  | .count cs _ _ => by simp [places, Of, faultless_allPlaces cs]

theorem faultless_allPlaces : ∀ cs : List (Condition Source),
    Faultless context c (allPlaces cs) ↔ AllOf c.Accepts cs
  | [] => by simp [allPlaces, AllOf]
  | condition :: cs => by
    simp [allPlaces, AllOf, faultless_places condition, faultless_allPlaces cs]

end

theorem faultless_elim (condition : Option (Condition Source)) :
    Faultless context c (condition.elim [] places) ↔ ∀ d ∈ condition, d.Of c.Accepts := by
  cases condition <;> simp [faultless_places]

end Condition

namespace Action

mutual

/-- Records have no fault exactly if all their expressions compile and no action in them, at any
depth, is empty. -/
theorem faultless_places : ∀ a : Action Source,
    Faultless context c a.places ↔ a.Of c.Accepts ∧ ∀ b ∈ a.parts, ¬ b.Empty
  | .choices _ _ cs => by
    simp [places, Of, parts, Empty, faultless_choicesPlaces cs]
  | .random gs => by
    simp [places, Of, parts, Empty, faultless_ofEmpty, faultless_groupsPlaces gs]
    tauto
  | .coinFlip _ success failure => by
    simp only [places, Of, parts, Empty, faultless_expression, faultless_append,
      faultless_allPlaces success, faultless_allPlaces failure, List.forall_mem_cons,
      List.forall_mem_append]
    tauto
  | .switch bs => by
    simp [places, Of, parts, Empty, faultless_branchesPlaces bs]
  | .loop as _ _ _ => by
    simp only [places, Of, parts, Empty, faultless_append, faultless_allPlaces as,
      Condition.faultless_elim, List.forall_mem_cons]
    tauto
  | .randomMessage texts _ _ => by simp [places, Of, parts, Empty, faultless_ofEmpty]
  | .updateVariables us => by simp [places, Of, parts, Empty, faultless_flatMap]
  | .updateVariableLimits _ _ _ => by simp [places, Of, parts, Empty, faultless_elim]
  | .updateItemAmounts as => by simp [places, Of, parts, Empty, faultless_flatMap]
  | .triggerEvents rs => by simp [places, Of, parts, Empty, faultless_flatMap]
  | .message _ | .stop _ | .endGame _ | .toggleEvents _ _ | .updateVariable _ | .giveItem _
  | .setStatus _ _ => by simp [places, Of, parts, Empty]

theorem faultless_allPlaces : ∀ as : List (Action Source),
    Faultless context c (allPlaces as) ↔ AllOf c.Accepts as ∧ ∀ b ∈ allParts as, ¬ b.Empty
  | [] => by simp [allPlaces, AllOf, allParts]
  | a :: as => by
    simp only [allPlaces, AllOf, allParts, faultless_append, faultless_places a,
      faultless_allPlaces as, List.forall_mem_append]
    tauto

theorem faultless_choicesPlaces : ∀ cs : List (Choice Source (Action Source)),
    Faultless context c (choicesPlaces cs) ↔
      ChoicesOf c.Accepts cs ∧ ∀ b ∈ choicesParts cs, ¬ b.Empty
  | [] => by simp [choicesPlaces, ChoicesOf, choicesParts]
  | ⟨_, requirement, as⟩ :: cs => by
    simp only [choicesPlaces, ChoicesOf, choicesParts, faultless_append, faultless_allPlaces as,
      faultless_choicesPlaces cs, Condition.faultless_elim, List.forall_mem_append]
    tauto

theorem faultless_groupsPlaces : ∀ gs : List (Group Source (Action Source)),
    Faultless context c (groupsPlaces gs) ↔
      GroupsOf c.Accepts gs ∧ ∀ b ∈ groupsParts gs, ¬ b.Empty
  | [] => by simp [groupsPlaces, GroupsOf, groupsParts]
  | ⟨_, as⟩ :: gs => by
    simp only [groupsPlaces, GroupsOf, groupsParts, faultless_expression, faultless_append,
      faultless_allPlaces as, faultless_groupsPlaces gs, List.forall_mem_append]
    tauto

theorem faultless_branchesPlaces : ∀ bs : List (Branch Source (Action Source)),
    Faultless context c (branchesPlaces bs) ↔
      BranchesOf c.Accepts bs ∧ ∀ b ∈ branchesParts bs, ¬ b.Empty
  | [] => by simp [branchesPlaces, BranchesOf, branchesParts]
  | ⟨_, as⟩ :: bs => by
    simp only [branchesPlaces, BranchesOf, branchesParts, faultless_append,
      faultless_allPlaces as, faultless_branchesPlaces bs, Condition.faultless_places,
      List.forall_mem_append]
    tauto

end

end Action

theorem Event.faultless_places (e : Event Source) :
    Faultless context c e.places ↔
      e.Of c.Accepts ∧ ∀ a ∈ Action.allParts e.actions, ¬ a.Empty := by
  simp only [Event.places, faultless_append, faultless_expression, faultless_nil,
    Condition.faultless_allPlaces, Action.faultless_allPlaces]
  constructor
  · rintro ⟨hconditions, ⟨hactions, hempty⟩, hprobability, -⟩
    exact ⟨⟨hconditions, hactions, hprobability⟩, hempty⟩
  · rintro ⟨⟨hconditions, hactions, hprobability⟩, hempty⟩
    exact ⟨hconditions, ⟨hactions, hempty⟩, hprobability, trivial⟩

end Faultless

end Scenario
