import Mathlib.Control.Basic
import Scenario.Proofs.Exact
import Scenario.Proofs.Runs

/-!
The algebra of conditions. Negations can be pushed inward and nested lists flattened, and no scope
can tell: the same values are looked up in the same order, with the same answer or the same error.
A count says whether the number of its conditions that hold lies between its bounds.
-/

namespace Scenario.Condition

variable {ε : Type}

/-! ### Negations pushed inward -/

mutual

/-- The condition that holds if `c` does, or if it does not, with no negation but before an
expression or a count. -/
def inward (holds : Bool) : Condition ε → Condition ε
  | .expression e => if holds then .expression e else .not (.expression e)
  | .not c => inward (!holds) c
  | .all cs => if holds then .all (inwardEach true cs) else .any (inwardEach false cs)
  | .any cs => if holds then .any (inwardEach true cs) else .all (inwardEach false cs)
  | .count cs min max =>
    if holds then .count (inwardEach true cs) min max
    else .not (.count (inwardEach true cs) min max)

def inwardEach (holds : Bool) : List (Condition ε) → List (Condition ε)
  | [] => []
  | c :: cs => inward holds c :: inwardEach holds cs

end

mutual

/-- No negation stands before anything but an expression or a count. -/
def Inward : Condition ε → Prop
  | .expression _ | .not (.expression _) => True
  | .all cs | .any cs | .count cs _ _ | .not (.count cs _ _) => InwardEach cs
  | .not _ => False

def InwardEach : List (Condition ε) → Prop
  | [] => True
  | c :: cs => c.Inward ∧ InwardEach cs

end

mutual

theorem inward_inward (holds : Bool) : ∀ c : Condition ε, (c.inward holds).Inward
  | .expression _ => by cases holds <;> trivial
  | .not c => inward_inward (!holds) c
  | .all cs | .any cs => by
    cases holds
    · exact inwardEach_inward false cs
    · exact inwardEach_inward true cs
  | .count cs _ _ => by
    cases holds
    · exact inwardEach_inward true cs
    · exact inwardEach_inward true cs

theorem inwardEach_inward (holds : Bool) : ∀ cs : List (Condition ε),
    InwardEach (inwardEach holds cs)
  | [] => trivial
  | c :: cs => ⟨inward_inward holds c, inwardEach_inward holds cs⟩

end

/-! ### Nested lists flattened -/

/-- The conditions that all have to hold for a condition to hold. -/
def conjuncts : Condition ε → List (Condition ε)
  | .all cs => cs
  | c => [c]

def disjuncts : Condition ε → List (Condition ε)
  | .any cs => cs
  | c => [c]

mutual

/-- The condition without lists directly in lists of their kind. -/
def flattened : Condition ε → Condition ε
  | .expression e => .expression e
  | .not c => .not (flattened c)
  | .all cs => .all (allFlattened cs)
  | .any cs => .any (anyFlattened cs)
  | .count cs min max => .count (flattenedEach cs) min max

def allFlattened : List (Condition ε) → List (Condition ε)
  | [] => []
  | c :: cs => conjuncts (flattened c) ++ allFlattened cs

def anyFlattened : List (Condition ε) → List (Condition ε)
  | [] => []
  | c :: cs => disjuncts (flattened c) ++ anyFlattened cs

def flattenedEach : List (Condition ε) → List (Condition ε)
  | [] => []
  | c :: cs => flattened c :: flattenedEach cs

end

mutual

/-- No list of conditions stands directly in a list of its kind. -/
def Flat : Condition ε → Prop
  | .expression _ => True
  | .not c => c.Flat
  | .all cs => (∀ c ∈ cs, ∀ ds, c ≠ .all ds) ∧ FlatEach cs
  | .any cs => (∀ c ∈ cs, ∀ ds, c ≠ .any ds) ∧ FlatEach cs
  | .count cs _ _ => FlatEach cs

def FlatEach : List (Condition ε) → Prop
  | [] => True
  | c :: cs => c.Flat ∧ FlatEach cs

end

theorem flatEach_iff {cs : List (Condition ε)} : FlatEach cs ↔ ∀ c ∈ cs, c.Flat := by
  induction cs with
  | nil => simp [FlatEach]
  | cons c cs ih => simp [FlatEach, ih]

theorem Flat.conjuncts {c : Condition ε} (h : c.Flat) :
    ∀ d ∈ c.conjuncts, d.Flat ∧ ∀ ds, d ≠ .all ds := by
  cases c with
  | all cs => exact fun d hd => ⟨flatEach_iff.1 h.2 d hd, h.1 d hd⟩
  | _ =>
    intro d hd
    obtain rfl := List.mem_singleton.1 hd
    exact ⟨h, nofun⟩

theorem Flat.disjuncts {c : Condition ε} (h : c.Flat) :
    ∀ d ∈ c.disjuncts, d.Flat ∧ ∀ ds, d ≠ .any ds := by
  cases c with
  | any cs => exact fun d hd => ⟨flatEach_iff.1 h.2 d hd, h.1 d hd⟩
  | _ =>
    intro d hd
    obtain rfl := List.mem_singleton.1 hd
    exact ⟨h, nofun⟩

mutual

theorem flattened_flat : ∀ c : Condition ε, c.flattened.Flat
  | .expression _ => trivial
  | .not c => flattened_flat c
  | .all cs =>
    ⟨fun c hc => (allFlattened_flat cs c hc).2,
      flatEach_iff.2 fun c hc => (allFlattened_flat cs c hc).1⟩
  | .any cs =>
    ⟨fun c hc => (anyFlattened_flat cs c hc).2,
      flatEach_iff.2 fun c hc => (anyFlattened_flat cs c hc).1⟩
  | .count cs _ _ => flattenedEach_flat cs

theorem allFlattened_flat : ∀ cs : List (Condition ε), ∀ d ∈ allFlattened cs,
    d.Flat ∧ ∀ ds, d ≠ .all ds
  | [] => List.forall_mem_nil _
  | c :: cs => List.forall_mem_append.2 ⟨(flattened_flat c).conjuncts, allFlattened_flat cs⟩

theorem anyFlattened_flat : ∀ cs : List (Condition ε), ∀ d ∈ anyFlattened cs,
    d.Flat ∧ ∀ ds, d ≠ .any ds
  | [] => List.forall_mem_nil _
  | c :: cs => List.forall_mem_append.2 ⟨(flattened_flat c).disjuncts, anyFlattened_flat cs⟩

theorem flattenedEach_flat : ∀ cs : List (Condition ε), FlatEach (flattenedEach cs)
  | [] => trivial
  | c :: cs => ⟨flattened_flat c, flattenedEach_flat cs⟩

end

/-! ### What a scope sees -/

theorem bind_decided {m : Type → Type} [Monad m] [LawfulMonad m] (x : m Bool) :
    (do if ← x then return true else return false) = x := by
  have hpure : (fun holds : Bool => if holds then pure true else pure false) =
      (pure : Bool → m Bool) := by
    funext holds
    cases holds <;> rfl
  rw [hpure, bind_pure]

section Checks

variable {m : Type → Type} [Monad m] [MonadExceptOf EvaluationError m]
  (scope : Expr.Scope m) {cs ds : List (Condition Expression)}

/-- Lists of conditions of which each is checked like its counterpart. -/
def Alike (ds cs : List (Condition Expression)) : Prop :=
  List.Forall₂ (fun d c => check scope d = check scope c) ds cs

/-- Lists of conditions of which each holds if its counterpart does not. -/
def Opposite (ds cs : List (Condition Expression)) : Prop :=
  List.Forall₂ (fun d c => check scope d = (!·) <$> check scope c) ds cs

variable {scope}

theorem checkAll_alike (h : Alike scope ds cs) : checkAll scope ds = checkAll scope cs := by
  induction h with
  | nil => rfl
  | cons hc _ ih => simp only [checkAll, hc, ih]

theorem checkAny_alike (h : Alike scope ds cs) : checkAny scope ds = checkAny scope cs := by
  induction h with
  | nil => rfl
  | cons hc _ ih => simp only [checkAny, hc, ih]

theorem countHolding_alike (h : Alike scope ds cs) :
    countHolding scope ds = countHolding scope cs := by
  induction h with
  | nil => rfl
  | cons hc _ ih => simp only [countHolding, hc, ih]

theorem checkAny_opposite [LawfulMonad m] (h : Opposite scope ds cs) :
    checkAny scope ds = (!·) <$> checkAll scope cs := by
  induction h with
  | nil => simp [checkAny, checkAll]
  | cons hc _ ih =>
    simp only [checkAny, checkAll, hc, ih, map_bind, bind_map_left]
    congr 1
    funext holds
    cases holds <;> simp

theorem checkAll_opposite [LawfulMonad m] (h : Opposite scope ds cs) :
    checkAll scope ds = (!·) <$> checkAny scope cs := by
  induction h with
  | nil => simp [checkAny, checkAll]
  | cons hc _ ih =>
    simp only [checkAny, checkAll, hc, ih, map_bind, bind_map_left]
    congr 1
    funext holds
    cases holds <;> simp

variable (scope)

theorem check_not [LawfulMonad m] (c : Condition Expression) :
    check scope (.not c) = (!·) <$> check scope c := by
  simp only [check, map_eq_pure_bind]

mutual

theorem check_inward [LawfulMonad m] : ∀ c : Condition Expression,
    check scope (c.inward true) = check scope c ∧
      check scope (c.inward false) = (!·) <$> check scope c
  | .expression e => ⟨rfl, check_not scope (.expression e)⟩
  | .not c => by
    obtain ⟨hsame, hopposite⟩ := check_inward c
    rw [check_not]
    exact ⟨hopposite, hsame.trans (by simp)⟩
  | .all cs => by
    obtain ⟨hsame, hopposite⟩ := checkEach_inward cs
    exact ⟨checkAll_alike hsame, checkAny_opposite hopposite⟩
  | .any cs => by
    obtain ⟨hsame, hopposite⟩ := checkEach_inward cs
    exact ⟨checkAny_alike hsame, checkAll_opposite hopposite⟩
  | .count cs min max => by
    have hsame : check scope (.count (inwardEach true cs) min max) =
        check scope (.count cs min max) := by
      simp only [check, countHolding_alike (checkEach_inward cs).1]
    refine ⟨hsame, ?_⟩
    rw [← hsame]
    exact check_not scope _

theorem checkEach_inward [LawfulMonad m] : ∀ cs : List (Condition Expression),
    Alike scope (inwardEach true cs) cs ∧ Opposite scope (inwardEach false cs) cs
  | [] => ⟨.nil, .nil⟩
  | c :: cs =>
    ⟨.cons (check_inward c).1 (checkEach_inward cs).1,
      .cons (check_inward c).2 (checkEach_inward cs).2⟩

end

/-! ### Flattening -/

theorem checkAll_append [LawfulMonad m] (cs ds : List (Condition Expression)) :
    checkAll scope (cs ++ ds) =
      (do if ← checkAll scope cs then checkAll scope ds else return false) := by
  induction cs with
  | nil => simp [checkAll]
  | cons c cs ih =>
    simp only [List.cons_append, checkAll, ih, bind_assoc]
    congr 1
    funext holds
    cases holds <;> simp

theorem checkAny_append [LawfulMonad m] (cs ds : List (Condition Expression)) :
    checkAny scope (cs ++ ds) =
      (do if ← checkAny scope cs then return true else checkAny scope ds) := by
  induction cs with
  | nil => simp [checkAny]
  | cons c cs ih =>
    simp only [List.cons_append, checkAny, ih, bind_assoc]
    congr 1
    funext holds
    cases holds <;> simp

theorem checkAll_conjuncts [LawfulMonad m] (c : Condition Expression) :
    checkAll scope c.conjuncts = check scope c := by
  cases c with
  | all cs => rfl
  | _ => exact bind_decided _

theorem checkAny_disjuncts [LawfulMonad m] (c : Condition Expression) :
    checkAny scope c.disjuncts = check scope c := by
  cases c with
  | any cs => rfl
  | _ => exact bind_decided _

mutual

theorem check_flattened [LawfulMonad m] : ∀ c : Condition Expression,
    check scope c.flattened = check scope c
  | .expression _ => rfl
  | .not c => by rw [flattened, check_not, check_not, check_flattened c]
  | .all cs => checkAll_flattened cs
  | .any cs => checkAny_flattened cs
  | .count cs min max => by
    simp only [flattened, check, countHolding_alike (checkEach_flattened cs)]

theorem checkAll_flattened [LawfulMonad m] : ∀ cs : List (Condition Expression),
    checkAll scope (allFlattened cs) = checkAll scope cs
  | [] => rfl
  | c :: cs => by
    rw [allFlattened, checkAll_append, checkAll_conjuncts, check_flattened c,
      checkAll_flattened cs, checkAll]

theorem checkAny_flattened [LawfulMonad m] : ∀ cs : List (Condition Expression),
    checkAny scope (anyFlattened cs) = checkAny scope cs
  | [] => rfl
  | c :: cs => by
    rw [anyFlattened, checkAny_append, checkAny_disjuncts, check_flattened c,
      checkAny_flattened cs, checkAny]

theorem checkEach_flattened [LawfulMonad m] : ∀ cs : List (Condition Expression),
    Alike scope (flattenedEach cs) cs
  | [] => .nil
  | c :: cs => .cons (check_flattened c) (checkEach_flattened cs)

end

/-! ### Counts -/

theorem countHolding_eq_mapM [LawfulMonad m] (cs : List (Condition Expression)) :
    countHolding scope cs =
      (fun answers => UInt32.ofNat (answers.count true)) <$> cs.mapM (check scope) := by
  induction cs with
  | nil => simp [countHolding]
  | cons c cs ih =>
    simp only [countHolding, List.mapM_cons, ih, map_bind, bind_map_left, map_pure]
    congr 1
    funext holds
    congr 1
    funext answers
    cases holds <;> simp

/-- A count checks every condition, then its lower value, and its upper value only if the lower one
is met. -/
theorem check_count [LawfulMonad m] (cs : List (Condition Expression)) (min max : Expression) :
    check scope (.count cs min max) = (do
      let n := Float.ofNat ((← cs.mapM (check scope)).count true % 2 ^ 32)
      if (← min.eval scope) ≤ n then return n ≤ (← max.eval scope) else return false) := by
  simp only [check, countHolding_eq_mapM, bind_map_left, UInt32.toNat_ofNat']

end Checks

section Outcomes

variable {table : Expr.Scope (Except EvaluationError)} {cs : List (Condition Expression)}
  {min max : Expression}

theorem check_count_error {before after : List (Condition Expression)} {c : Condition Expression}
    {error : EvaluationError} (hbefore : ∀ b ∈ before, ∃ holds, check table b = .ok holds)
    (hc : check table c = .error error) :
    check table (.count (before ++ c :: after) min max) = .error error := by
  rw [check_count, mapM_eq_error hbefore hc]
  rfl

theorem check_count_ok {answers : List Bool} (h : cs.map (check table) = answers.map .ok)
    (hlength : answers.length < 2 ^ 32) : check table (.count cs min max) = (do
      if (← min.eval table) ≤ Float.ofNat (answers.count true) then
        return Float.ofNat (answers.count true) ≤ (← max.eval table)
      else return false) := by
  have hcount : answers.count true % 2 ^ 32 = answers.count true :=
    Nat.mod_eq_of_lt (Nat.lt_of_le_of_lt List.count_le_length hlength)
  rw [check_count, mapM_eq_ok_iff.2 h]
  conv_rhs => rw [← hcount]
  rfl

end Outcomes

/-- Conditions obey the laws of boolean algebra, errors included. A count is that of the conditions
which hold, in 32 bits: it is exact for any list that is not longer than these can count. -/
theorem boolean_algebra {m : Type → Type} [Monad m] [LawfulMonad m]
    [MonadExceptOf EvaluationError m] (scope : Expr.Scope m)
    (table : Expr.Scope (Except EvaluationError)) (c : Condition Expression)
    (cs : List (Condition Expression)) (min max : Expression) :
    (check scope (c.inward true) = check scope c ∧ (c.inward true).Inward) ∧
    (check scope c.flattened = check scope c ∧ c.flattened.Flat) ∧
    check scope (.count cs min max) = (do
      let n := Float.ofNat ((← cs.mapM (check scope)).count true % 2 ^ 32)
      if (← min.eval scope) ≤ n then return n ≤ (← max.eval scope) else return false) ∧
    (∀ before c after error, cs = before ++ c :: after →
      (∀ b ∈ before, ∃ holds, check table b = .ok holds) → check table c = .error error →
      check table (.count cs min max) = .error error) ∧
    ∀ answers : List Bool, cs.map (check table) = answers.map .ok → answers.length < 2 ^ 32 →
      (∀ error, min.eval table = .error error →
        check table (.count cs min max) = .error error) ∧
      ∀ low, min.eval table = .ok low →
        (((answers.count true : ℝ) : EReal) < value low →
          check table (.count cs min max) = .ok false) ∧
        (value low ≤ ((answers.count true : ℝ) : EReal) →
          (∀ error, max.eval table = .error error →
            check table (.count cs min max) = .error error) ∧
          ∀ high, max.eval table = .ok high → ∃ holds,
            check table (.count cs min max) = .ok holds ∧
            (holds = true ↔ ((answers.count true : ℝ) : EReal) ≤ value high)) := by
  refine ⟨⟨(check_inward scope c).1, inward_inward true c⟩,
    ⟨check_flattened scope c, flattened_flat c⟩, check_count scope cs min max, ?_, ?_⟩
  · rintro before c after error rfl hbefore hc
    exact check_count_error hbefore hc
  · intro answers hanswers hlength
    rw [check_count_ok hanswers hlength]
    have hcount : answers.count true < 2 ^ 53 := by
      have hle := List.count_le_length (a := true) (l := answers)
      omega
    have hnumber := isNaN_ofNat (n := answers.count true) (by omega)
    have hvalue := value_ofNat hcount
    refine ⟨fun error herror => by rw [herror]; rfl, fun low hlow => ?_⟩
    have hle := le_iff_value (eval_isNaN hlow) hnumber
    rw [hvalue] at hle
    rw [hlow]
    refine ⟨fun habove => if_neg (mt hle.1 (not_le.2 habove)), fun hbelow => ?_⟩
    have hmet := hle.2 hbelow
    refine ⟨fun error herror => ?_, fun high hhigh => ?_⟩
    · refine (if_pos hmet).trans ?_
      rw [herror]
      rfl
    · refine ⟨_, (if_pos hmet).trans (by rw [hhigh]; rfl), ?_⟩
      rw [decide_eq_true_iff, le_iff_value hnumber (eval_isNaN hhigh), hvalue]

/-! ### A masked ball -/

/-- A table that knows whether there are music and masks, and of no stranger. -/
def ball : Expr.Scope (Except EvaluationError) where
  value n :=
    if n = "music" then .ok 1 else if n = "masks" then .ok 0 else .error (.unknown .variable n)
  call _ _ := .ok 0

/-- The condition that a variable is not zero. -/
def named (n : String) : Condition Expression := .expression ⟨.text n, .name n, none⟩

/-- Nobody has heard of the stranger, wherever the negations stand and whatever the count says. -/
theorem boolean_algebra_ball :
    let unheard : Except EvaluationError Bool := .error (.unknown .variable "stranger")
    LawfulMonad (Except EvaluationError) ∧
    check ball (.not (.all [named "music", .not (.any [named "masks", named "stranger"])])) =
      unheard ∧
    check ball (.any [.not (named "music"), .any [named "masks", named "stranger"]]) = unheard ∧
    check ball (.count [named "music", named "stranger"] (.constant 0) (.constant 0)) = unheard ∧
    ∃ holds, check ball (.count [named "music", named "masks", named "music"]
      (.constant 2) (.constant 2)) = .ok holds ∧ holds = true := by
  have hmusic : check ball (named "music") = .ok true := by rfl
  have hmasks : check ball (named "masks") = .ok false := by rfl
  have hstranger : check ball (named "stranger") = .error (.unknown .variable "stranger") := by rfl
  have htwo : (Expression.constant 2).eval ball = .ok 2 := by rfl
  obtain ⟨⟨hinward, -⟩, -, -, hfirst, -⟩ := boolean_algebra ball ball
    (.not (.all [named "music", .not (.any [named "masks", named "stranger"])]))
    [named "music", named "stranger"] (.constant 0) (.constant 0)
  obtain ⟨-, -, -, -, hcount⟩ := boolean_algebra ball ball (named "music")
    [named "music", named "masks", named "music"] (.constant 2) (.constant 2)
  have hanswers : [named "music", named "masks", named "music"].map (check ball) =
      [true, false, true].map .ok := by
    simp only [List.map_cons, List.map_nil, hmusic, hmasks]
  obtain ⟨-, hlow⟩ := hcount [true, false, true] hanswers (by decide)
  have hvalue : value 2 = (((([true, false, true].count true : Nat) : ℝ)) : EReal) :=
    value_ofNat (n := 2) (by decide)
  obtain ⟨holds, hcheck, hholds⟩ := ((hlow 2 htwo).2 hvalue.le).2 2 htwo
  refine ⟨inferInstance, by rfl, hinward.trans (by rfl), ?_, holds, hcheck, hholds.2 hvalue.ge⟩
  exact hfirst [named "music"] (named "stranger") [] _ rfl
    (List.forall_mem_singleton.2 ⟨true, hmusic⟩) hstranger

end Scenario.Condition
