import Scenario.Proofs.Numbers
import Scenario.Proofs.Safe
import Scenario.Proofs.Strict

/-!
Strict evaluation in safe states. Nothing in it panics, and it comes to what evaluation comes to:
the places that draws and answers fall on are there, bounds are in order, and functions have their
arguments.
-/

namespace Scenario

/-! ### Places in lists -/

theorem firstPast?_lt {target total : Float} {weights : List Float} {i : Nat}
    (h : firstPast? target total weights = some i) : i < weights.length := by
  induction weights generalizing total i with
  | nil => cases h
  | cons w ws ih =>
    unfold firstPast? at h
    dsimp only at h
    split at h
    · cases h
      exact Nat.zero_lt_succ _
    · obtain ⟨j, hj, rfl⟩ := Option.map_eq_some_iff.1 h
      exact Nat.succ_lt_succ (ih hj)

theorem lastPositive?_lt {weights : List Float} {i : Nat} (h : lastPositive? weights = some i) :
    i < weights.length := by
  have hmem := List.mem_of_find?_eq_some h
  exact List.mem_range.1 (List.mem_reverse.1 hmem)

theorem share_lt {weights : List Float} (h : weights ≠ []) (total roll : Float) :
    share weights total roll < weights.length := by
  have hpos := List.length_pos_iff.2 h
  unfold share
  cases hfirst : firstPast? (roll * total) 0 weights with
  | some i => exact firstPast?_lt hfirst
  | none =>
    cases hlast : lastPositive? weights with
    | some i => exact lastPositive?_lt hlast
    | none => exact Nat.sub_lt hpos Nat.one_pos

theorem ne_nil_of_totalWeight {weights : List Float} (h : ¬ totalWeight weights ≤ 0.0) :
    weights ≠ [] := by
  rintro rfl
  have hnone : totalWeight [] ≤ 0.0 := by decide
  exact h hnone

theorem choose_lt {weights : List Float} {source : RandomSource} {i : Nat}
    (h : (choose weights source).1 = .ok i) : i < weights.length := by
  unfold choose at h
  split at h
  · cases h
  · dsimp only at h
    split at h
    · cases h
    · rename_i htotal
      cases hroll : (draw source).1 with
      | error cause =>
        rw [hroll] at h
        cases h
      | ok roll =>
        rw [hroll] at h
        cases h
        exact share_lt (ne_nil_of_totalWeight htotal) _ _

theorem evenShare_lt {length : Nat} (h : 0 < length) (roll : Float) :
    evenShare length roll < length :=
  Nat.lt_of_le_of_lt (Nat.min_le_right _ _) (Nat.sub_lt h Nat.one_pos)

theorem eligible_cons_eq_ok {α : Type} {s : State} {i : Nat} {c : Choice Expression α}
    {cs : List (Choice Expression α)} {options : List ChoiceOption}
    (h : eligible s i (c :: cs) = .ok options) :
    ∃ (holds : Bool) (rest : List ChoiceOption), eligible s (i + 1) cs = .ok rest ∧
      options = if holds then ⟨c.text, i⟩ :: rest else rest := by
  unfold eligible at h
  split at h
  all_goals
    obtain ⟨holds, -, h⟩ := exists_ok_of_bind h
    obtain ⟨rest, hrest, h⟩ := exists_ok_of_bind h
    cases h
    exact ⟨holds, rest, hrest, rfl⟩

theorem eligible_lt {α : Type} {s : State} {i : Nat} {cs : List (Choice Expression α)}
    {options : List ChoiceOption} (h : eligible s i cs = .ok options) :
    ∀ o ∈ options, o.index < i + cs.length := by
  induction cs generalizing i options with
  | nil =>
    cases h
    exact List.forall_mem_nil _
  | cons c cs ih =>
    obtain ⟨holds, rest, hrest, rfl⟩ := eligible_cons_eq_ok h
    have hlater : ∀ o ∈ rest, o.index < i + (c :: cs).length := by
      intro o ho
      have hlt := ih hrest o ho
      rw [List.length_cons]
      omega
    split
    · refine List.forall_mem_cons.2 ⟨?_, hlater⟩
      simp
    · exact hlater

namespace Strict

/-! ### Operations -/

theorem clamp_eq {lo hi : Float} (h : validBounds lo hi) (x : Float) :
    clamp x lo hi = some (Scenario.clamp x lo hi) :=
  if_pos (validBounds_iff.1 h)

theorem last_eq {n : Nat} (h : 0 < n) : last n = some (n - 1) := by
  cases n with
  | zero => cases h
  | succ n => rfl

theorem builtin_eq {b : Expr.Builtin} {xs : List Float} (h : b.arity.accepts xs.length) :
    builtin b xs = some (b.apply xs) := by
  cases b with
  | min | max => rfl
  | pow =>
    obtain ⟨x, y, rfl⟩ := List.length_eq_two.1 (of_decide_eq_true h)
    rfl
  | clamp =>
    obtain ⟨x, y, z, rfl⟩ := List.length_eq_three.1 (of_decide_eq_true h)
    rfl
  | _ =>
    obtain ⟨x, rfl⟩ := List.length_eq_one_iff.1 (of_decide_eq_true h)
    rfl

theorem apply_eq (c : Combined Float) (base : Float) {min max : Float} (h : validBounds min max) :
    apply c base min max = some (c.apply base min max) := by
  unfold apply Combined.apply
  cases c.assignment with
  | some x => rfl
  | none => exact clamp_eq h _

theorem share_eq {weights : List Float} (h : weights ≠ []) (total roll : Float) :
    share weights total roll = some (Scenario.share weights total roll) := by
  unfold share Scenario.share
  cases firstPast? (roll * total) 0 weights with
  | some i => rfl
  | none =>
    rw [last_eq (List.length_pos_iff.2 h)]
    rfl

theorem choose_eq (weights : List Float) (source : RandomSource) :
    choose weights source = some (Scenario.choose weights source) := by
  unfold choose Scenario.choose
  cases weights.find? fun w => !w.isFinite || w < 0.0 with
  | some w => rfl
  | none =>
    dsimp only
    by_cases htotal : totalWeight weights ≤ 0.0
    · rw [if_pos htotal, if_pos htotal]
    · rw [if_neg htotal, if_neg htotal]
      rcases draw source with ⟨cause | roll, source'⟩
      · rfl
      · dsimp only
        rw [share_eq (ne_nil_of_totalWeight htotal)]
        rfl

theorem pick_eq {texts : List String} (h : texts.isEmpty = false) (roll : Float) :
    pick texts roll = some ((texts[evenShare texts.length roll]?).getD "") := by
  have hpos : 0 < texts.length := List.length_pos_iff.2 (by simpa using h)
  have hlt := evenShare_lt hpos roll
  unfold pick
  rw [last_eq hpos]
  change texts[evenShare texts.length roll]? = _
  rw [List.getElem?_eq_getElem hlt]
  rfl

/-! ### Evaluation -/

/-- An evaluation that does not panic. -/
def sure {α : Type} (x : Except EvaluationError α) : Eval α := ExceptT.mk (some x)

theorem lockstep_sure :
    Lockstep (m := Except EvaluationError) (n := Eval) fun _ x y => y = sure x where
  pure _ := rfl
  bind := by
    rintro α β x _ f g rfl h
    cases x with
    | ok a => exact h a
    | error cause => rfl
  throw _ _ := rfl

theorem sure_bind {α β : Type} {x : Except EvaluationError α} {y : Eval α}
    {f : α → Except EvaluationError β} {g : α → Eval β} (h : y = sure x)
    (h' : ∀ a, x = .ok a → g a = sure (f a)) : y >>= g = sure (x >>= f) := by
  subst h
  cases x with
  | ok a => exact h' a rfl
  | error cause => rfl

theorem length_of_evalAll {scope : Expr.Scope (Except EvaluationError)} {codes : List Expr.Code}
    {xs : List Float} (h : Expr.Code.evalAll scope codes = .ok xs) : xs.length = codes.length := by
  induction codes generalizing xs with
  | nil =>
    cases h
    rfl
  | cons a as ih =>
    unfold Expr.Code.evalAll at h
    obtain ⟨x, -, h⟩ := exists_ok_of_bind h
    obtain ⟨rest, hrest, h⟩ := exists_ok_of_bind h
    cases h
    exact congrArg (· + 1) (ih hrest)

section Code

/-- The checked table answers every question, as the plain one does. -/
abbrev Follows (t : Expr.Scope Eval) (s : Expr.Scope (Except EvaluationError)) : Prop :=
  s.Related (fun _ x y => y = sure x) t

variable {s : Expr.Scope (Except EvaluationError)} {t : Expr.Scope Eval}

mutual

theorem eval_eq (ht : Follows t s) : ∀ code : Expr.Code, code.Saturated →
    eval t code = sure (code.eval s)
  | .number _, _ => rfl
  | .name name, _ => ht.value name
  | .not a, h => sure_bind (eval_eq ht a h) fun _ _ => rfl
  | .negate a, h => sure_bind (eval_eq ht a h) fun _ _ => rfl
  | .operator op l r, h => by
    have hl := eval_eq ht l h.1
    have hr := eval_eq ht r h.2
    cases op with
    | andThen =>
      apply sure_bind hl
      intro x _
      split
      · exact hr
      · rfl
    | orElse =>
      apply sure_bind hl
      intro x _
      split
      · rfl
      · exact hr
    | _ => exact sure_bind hl fun _ _ => sure_bind hr fun _ _ => rfl
  | .choose c a b, h => by
    have ha := eval_eq ht a h.2.1
    have hb := eval_eq ht b h.2.2
    apply sure_bind (eval_eq ht c h.1)
    intro x _
    split
    · exact ha
    · exact hb
  | .builtin b args, h => by
    apply sure_bind (evalAll_eq ht args h.2)
    intro xs hxs
    have haccepts : b.arity.accepts xs.length := by
      rw [length_of_evalAll hxs]
      exact h.1
    rw [builtin_eq haccepts]
    rfl
  | .host f args, h => sure_bind (evalArguments_eq ht args h) fun xs _ => ht.call f xs

theorem evalAll_eq (ht : Follows t s) : ∀ codes : List Expr.Code, Expr.Code.SaturatedAll codes →
    evalAll t codes = sure (Expr.Code.evalAll s codes)
  | [], _ => rfl
  | a :: as, h =>
    sure_bind (eval_eq ht a h.1) fun _ _ => sure_bind (evalAll_eq ht as h.2) fun _ _ => rfl

theorem evalArguments_eq (ht : Follows t s) : ∀ args : List (Expr.Argument Expr.Code),
    Expr.Code.SaturatedArguments args →
    evalArguments t args = sure (Expr.Code.evalArguments s args)
  | [], _ => rfl
  | a :: as, h =>
    sure_bind (evalArgument_eq ht a h.1) fun _ _ =>
      sure_bind (evalArguments_eq ht as h.2) fun _ _ => rfl

theorem evalArgument_eq (ht : Follows t s) : ∀ arg : Expr.Argument Expr.Code,
    Expr.Code.SaturatedArgument arg →
    evalArgument t arg = sure (Expr.Code.evalArgument s arg)
  | .text _, _ => rfl
  | .value a, h => sure_bind (eval_eq ht a h) fun _ _ => rfl

end

theorem expression_eq (ht : Follows t s) {e : Expression} (h : e.Made) :
    expression t e = sure (e.eval s) := by
  apply sure_bind (eval_eq ht e.code h.saturated)
  intro x _
  split <;> rfl

mutual

theorem check_eq (ht : Follows t s) : ∀ c : Condition Expression, c.Of Expression.Made →
    check t c = sure (c.check s)
  | .expression _, h => sure_bind (expression_eq ht h) fun _ _ => rfl
  | .not c, h => sure_bind (check_eq ht c h) fun _ _ => rfl
  | .all cs, h => checkAll_eq ht cs h
  | .any cs, h => checkAny_eq ht cs h
  | .count cs min max, h => by
    apply sure_bind (countHolding_eq ht cs h.1)
    intro n _
    apply sure_bind (expression_eq ht h.2.1)
    intro lower _
    split
    · exact sure_bind (expression_eq ht h.2.2) fun _ _ => rfl
    · rfl

theorem checkAll_eq (ht : Follows t s) : ∀ cs : List (Condition Expression),
    Condition.AllOf Expression.Made cs →
    checkAll t cs = sure (Condition.checkAll s cs)
  | [], _ => rfl
  | c :: cs, h => by
    have hrest := checkAll_eq ht cs h.2
    apply sure_bind (check_eq ht c h.1)
    intro holds _
    split
    · exact hrest
    · rfl

theorem checkAny_eq (ht : Follows t s) : ∀ cs : List (Condition Expression),
    Condition.AllOf Expression.Made cs →
    checkAny t cs = sure (Condition.checkAny s cs)
  | [], _ => rfl
  | c :: cs, h => by
    have hrest := checkAny_eq ht cs h.2
    apply sure_bind (check_eq ht c h.1)
    intro holds _
    split
    · rfl
    · exact hrest

theorem countHolding_eq (ht : Follows t s) : ∀ cs : List (Condition Expression),
    Condition.AllOf Expression.Made cs → countHolding t cs = sure (Condition.countHolding s cs)
  | [], _ => rfl
  | c :: cs, h =>
    sure_bind (check_eq ht c h.1) fun _ _ => sure_bind (countHolding_eq ht cs h.2) fun _ _ => rfl

end

end Code

/-! ### States -/

section States

variable {s : State} (hs : s.Safe)

include hs

section Combined

variable {combined : String → Except EvaluationError (Combined Float)}
  {combined' : String → Eval (Combined Float)} (hcombined : ∀ t, combined' t = sure (combined t))

include hcombined

theorem attributeWith_eq (id : String) :
    attributeWith s combined' id = sure (s.attributeWith combined id) := by
  unfold attributeWith State.attributeWith
  cases hid : s.attributes[id]? with
  | none => rfl
  | some a =>
    apply sure_bind (hcombined id)
    intro c _
    rw [apply_eq c a.base (hs.attributes id a hid)]
    rfl

theorem follows_scopeWith : Follows (scopeWith s combined') (s.scopeWith combined) where
  value := fun name => by
    unfold scopeWith State.scopeWith
    dsimp only
    cases s.vars[name]? with
    | some v => rfl
    | none =>
      cases hname : s.attributes.contains name with
      | true => exact attributeWith_eq hs hcombined name
      | false => rfl
  call := fun f args => by
    by_cases hf : f = "attribute"
    · subst hf
      exact sure_bind (lockstep_sure.idArgument _ args) fun id _ => attributeWith_eq hs hcombined id
    · unfold scopeWith
      dsimp only
      rw [if_neg hf]
      exact (lockstep_sure.related_scopeWith s hcombined).call f args

end Combined

theorem combinedWithin_eq (opened : List String) (target : String) :
    combinedWithin s opened target = sure (s.combinedWithin opened target) := by
  -- The targets that are left to be opened become fewer from target to target.
  induction hn : s.unopened opened using Nat.strongRecOn generalizing opened target with
  | ind n ih =>
    rw [combinedWithin, State.combinedWithin]
    by_cases hopen : target ∈ opened
    · rw [dif_pos hopen, dif_pos hopen]
      rfl
    · rw [dif_neg hopen, dif_neg hopen]
      by_cases htarget : target ∈ s.targets
      · rw [dif_pos htarget, dif_pos htarget]
        have hlt := State.unopened_cons_lt hopen htarget
        have hwithin := fun t => ih _ (hn ▸ hlt) (target :: opened) t rfl
        apply lockstep_sure.collect
        intro source hsource modifier hmodifier _
        exact expression_eq (follows_scopeWith hs hwithin)
          (hs.sources source hsource modifier hmodifier)
      · rw [dif_neg htarget, dif_neg htarget]
        rfl

theorem follows_scope : Follows (scope s) s.scope :=
  follows_scopeWith hs (combinedWithin_eq hs [])

theorem expression_scope {e : Expression} (h : e.Made) :
    expression (scope s) e = sure (s.eval e) :=
  expression_eq (follows_scope hs) h

theorem check_scope {c : Condition Expression} (h : c.Of Expression.Made) :
    check (scope s) c = sure (s.holds c) :=
  check_eq (follows_scope hs) c h

theorem read_eq (q : Reading) (hq : ∀ e, q = .expression e → e.Made) :
    read s q = sure (q.read s) := by
  cases q with
  | expression e => exact expression_scope hs (hq e rfl)
  | attributeValue id => exact attributeWith_eq hs (combinedWithin_eq hs []) id
  | effectValue id => exact lockstep_sure.effectWith (combinedWithin_eq hs []) id

theorem setVariable_eq (id : String) (x : Float) :
    setVariable s id x = sure (s.setVariable id x) := by
  rw [State.setVariable_eq]
  unfold setVariable
  cases hid : s.vars[id]? with
  | none => rfl
  | some v =>
    dsimp only
    rw [clamp_eq (hs.wellFormed.bounds id v hid)]
    exact congrArg (fun s => sure (.ok s)) (State.notifyValue_eq _ _ _)

omit hs in
theorem setVariableBounds_eq (id : String) (min max : Option Float) :
    setVariableBounds s id min max = sure (s.setVariableBounds id min max) := by
  rw [State.setVariableBounds_eq]
  unfold setVariableBounds
  cases hid : s.vars[id]? with
  | none => rfl
  | some v =>
    dsimp only
    split
    · rename_i hvalid
      rw [clamp_eq hvalid]
      exact congrArg (fun s => sure (.ok s)) (State.notifyValue_eq _ _ _)
    · rfl

theorem eligible_eq (i : Nat) (cs : List (Choice Expression (Action Expression)))
    (h : Action.ChoicesOf Expression.Made cs) :
    eligible s i cs = sure (Scenario.eligible s i cs) := by
  induction cs generalizing i with
  | nil => rfl
  | cons c cs ih =>
    obtain ⟨text, requirement, actions⟩ := c
    obtain ⟨hrequirement, -, hrest⟩ := h
    have hmore : ∀ holds : Bool,
        (do let rest ← eligible s (i + 1) cs
            return if holds then ⟨text, i⟩ :: rest else rest) =
          sure (do let rest ← Scenario.eligible s (i + 1) cs
                   return if holds then ⟨text, i⟩ :: rest else rest) :=
      fun _ => sure_bind (ih (i + 1) hrest) fun _ _ => rfl
    cases requirement with
    | none => exact hmore true
    | some requirement =>
      exact sure_bind (check_scope hs (hrequirement requirement rfl)) fun holds _ => hmore holds

end States

end Strict

end Scenario
