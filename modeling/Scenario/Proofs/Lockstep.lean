import Scenario.State

/-!
Evaluation in two monads at once. What relates the lookups of two scopes, and is kept by sequencing,
relates the values of every expression and combination of modifiers in them. Functions of the
language can be looked up beside those of the scopes.
-/

namespace Scenario

namespace EvaluationError

def cycle? : EvaluationError → Option String
  | .modifierCycle t => some t
  | _ => none

theorem cycle?_eq_some {e : EvaluationError} {t : String} :
    e.cycle? = some t ↔ e = .modifierCycle t := by
  cases e <;> simp [cycle?]

end EvaluationError

theorem Variables.find_error {vs : Variables} {id : String} {e : EvaluationError}
    (h : vs.find id = .error e) : e = .unknown .variable id := by
  unfold Variables.find at h
  split at h <;> cases h
  rfl

theorem Registry.find_error {r : Registry} {id : String} {e : EvaluationError}
    (h : r.find id = .error e) : e = .unknown .event id := by
  unfold Registry.find at h
  split at h <;> cases h
  rfl

theorem Registry.occurrences_error {r : Registry} {id : String} {e : EvaluationError}
    (h : r.occurrences id = .error e) : e = .unknown .event id := by
  unfold Registry.occurrences at h
  cases hf : r.find id with
  | ok flags =>
    rw [hf] at h
    cases h
  | error e' =>
    rw [hf] at h
    cases h
    exact find_error hf

theorem Registry.isEnabled_error {r : Registry} {id : String} {e : EvaluationError}
    (h : r.isEnabled id = .error e) : e = .unknown .event id := by
  unfold Registry.isEnabled at h
  cases hf : r.find id with
  | ok flags =>
    rw [hf] at h
    cases h
  | error e' =>
    rw [hf] at h
    cases h
    exact find_error hf

/-! ### Functions of the language, looked up -/

namespace Expr.Code

section

variable {m : Type → Type} [Monad m] (apply : Builtin → List Float → m Float) (scope : Scope m)

mutual

/-- Evaluation that leaves functions of the language to `apply`. -/
def evalWith : Code → m Float
  | .number x => pure x
  | .name n => scope.value n
  | .not a => do return flag !truthy (← evalWith a)
  | .negate a => do return -(← evalWith a)
  | .operator .andThen l r => do
    let x ← evalWith l
    if truthy x then evalWith r else return x
  | .operator .orElse l r => do
    let x ← evalWith l
    if truthy x then return x else evalWith r
  | .operator op l r => do
    let x ← evalWith l
    let y ← evalWith r
    return op.apply x y
  | .choose c a b => do
    if truthy (← evalWith c) then evalWith a else evalWith b
  | .builtin b args => do apply b (← evalAllWith args)
  | .host f args => do scope.call f (← evalArgumentsWith args)

def evalAllWith : List Code → m (List Float)
  | [] => pure []
  | a :: as => do
    let x ← evalWith a
    let xs ← evalAllWith as
    return x :: xs

def evalArgumentsWith : List (Argument Code) → m (List (Argument Float))
  | [] => pure []
  | a :: as => do
    let x ← evalArgumentWith a
    let xs ← evalArgumentsWith as
    return x :: xs

def evalArgumentWith : Argument Code → m (Argument Float)
  | .text s => pure (.text s)
  | .value a => do return .value (← evalWith a)

end

end

variable {m : Type → Type} [Monad m] (scope : Scope m)

mutual

theorem evalWith_apply : ∀ code : Code,
    code.evalWith (fun b xs => pure (b.apply xs)) scope = code.eval scope
  | .number _ | .name _ => rfl
  | .not a => by rw [evalWith, eval, evalWith_apply a]
  | .negate a => by rw [evalWith, eval, evalWith_apply a]
  | .operator op l r => by
    have hl := evalWith_apply l
    have hr := evalWith_apply r
    cases op <;> simp only [evalWith, eval, hl, hr]
  | .choose c a b => by
    rw [evalWith, eval, evalWith_apply c, evalWith_apply a, evalWith_apply b]
  | .builtin _ args => by rw [evalWith, eval, evalAllWith_apply args]
  | .host _ args => by rw [evalWith, eval, evalArgumentsWith_apply args]

theorem evalAllWith_apply : ∀ codes : List Code,
    evalAllWith (fun b xs => pure (b.apply xs)) scope codes = evalAll scope codes
  | [] => rfl
  | a :: as => by rw [evalAllWith, evalAll, evalWith_apply a, evalAllWith_apply as]

theorem evalArgumentsWith_apply : ∀ args : List (Argument Code),
    evalArgumentsWith (fun b xs => pure (b.apply xs)) scope args = evalArguments scope args
  | [] => rfl
  | a :: as => by
    rw [evalArgumentsWith, evalArguments, evalArgumentWith_apply a, evalArgumentsWith_apply as]

theorem evalArgumentWith_apply : ∀ arg : Argument Code,
    evalArgumentWith (fun b xs => pure (b.apply xs)) scope arg = evalArgument scope arg
  | .text _ => rfl
  | .value a => by rw [evalArgumentWith, evalArgument, evalWith_apply a]

end

end Expr.Code

/-! ### Two evaluations -/

/-- Two tables whose answers are related. -/
structure Expr.Scope.Related {m n : Type → Type} (R : (α : Type) → m α → n α → Prop)
    (s : Expr.Scope m) (t : Expr.Scope n) : Prop where
  value : ∀ x, R Float (s.value x) (t.value x)
  call : ∀ f args, R Float (s.call f args) (t.call f args)

variable {m n : Type → Type} [Monad m] [Monad n] [MonadExceptOf EvaluationError m]
  [MonadExceptOf EvaluationError n]

/-- A relation between computations that sequencing keeps, and in which the errors that evaluation
itself can raise are related. -/
structure Lockstep (R : (α : Type) → m α → n α → Prop) : Prop where
  pure : ∀ {α : Type} (a : α), R α (pure a) (pure a)
  bind : ∀ {α β : Type} {x : m α} {y : n α} {f : α → m β} {g : α → n β},
    R α x y → (∀ a, R β (f a) (g a)) → R β (x >>= f) (y >>= g)
  throw : ∀ {α : Type} (e : EvaluationError), e.cycle? = none → R α (throw e) (throw e)

namespace Lockstep

variable {R : (α : Type) → m α → n α → Prop}

section Code

variable {s : Expr.Scope m} {t : Expr.Scope n} {apply : Expr.Builtin → List Float → m Float}
  {apply' : Expr.Builtin → List Float → n Float}

mutual

theorem evalWith (h : Lockstep R) (hst : s.Related R t)
    (happly : ∀ b xs, R Float (apply b xs) (apply' b xs)) :
    ∀ code : Expr.Code, R Float (code.evalWith apply s) (code.evalWith apply' t)
  | .number x => h.pure x
  | .name x => hst.value x
  | .not a => h.bind (h.evalWith hst happly a) fun _ => h.pure _
  | .negate a => h.bind (h.evalWith hst happly a) fun _ => h.pure _
  | .operator op l r => by
    have hl := h.evalWith hst happly l
    have hr := h.evalWith hst happly r
    cases op with
    | andThen =>
      apply h.bind hl
      intro x
      split
      · exact hr
      · exact h.pure x
    | orElse =>
      apply h.bind hl
      intro x
      split
      · exact h.pure x
      · exact hr
    | _ => exact h.bind hl fun _ => h.bind hr fun _ => h.pure _
  | .choose c a b => by
    have ha := h.evalWith hst happly a
    have hb := h.evalWith hst happly b
    apply h.bind (h.evalWith hst happly c)
    intro x
    split
    · exact ha
    · exact hb
  | .builtin b args => h.bind (h.evalAllWith hst happly args) fun xs => happly b xs
  | .host f args => h.bind (h.evalArgumentsWith hst happly args) fun xs => hst.call f xs

theorem evalAllWith (h : Lockstep R) (hst : s.Related R t)
    (happly : ∀ b xs, R Float (apply b xs) (apply' b xs)) :
    ∀ codes : List Expr.Code,
    R (List Float) (Expr.Code.evalAllWith apply s codes) (Expr.Code.evalAllWith apply' t codes)
  | [] => h.pure []
  | a :: as =>
    h.bind (h.evalWith hst happly a) fun _ => h.bind (h.evalAllWith hst happly as) fun _ => h.pure _

theorem evalArgumentsWith (h : Lockstep R) (hst : s.Related R t)
    (happly : ∀ b xs, R Float (apply b xs) (apply' b xs)) :
    ∀ args : List (Expr.Argument Expr.Code),
    R (List (Expr.Argument Float)) (Expr.Code.evalArgumentsWith apply s args)
      (Expr.Code.evalArgumentsWith apply' t args)
  | [] => h.pure []
  | a :: as =>
    h.bind (h.evalArgumentWith hst happly a) fun _ =>
      h.bind (h.evalArgumentsWith hst happly as) fun _ => h.pure _

theorem evalArgumentWith (h : Lockstep R) (hst : s.Related R t)
    (happly : ∀ b xs, R Float (apply b xs) (apply' b xs)) :
    ∀ arg : Expr.Argument Expr.Code,
    R (Expr.Argument Float) (Expr.Code.evalArgumentWith apply s arg)
      (Expr.Code.evalArgumentWith apply' t arg)
  | .text _ => h.pure _
  | .value a => h.bind (h.evalWith hst happly a) fun _ => h.pure _

end

theorem eval (h : Lockstep R) (hst : s.Related R t) (code : Expr.Code) :
    R Float (code.eval s) (code.eval t) := by
  rw [← code.evalWith_apply s, ← code.evalWith_apply t]
  exact h.evalWith hst (fun _ _ => h.pure _) code

theorem expression (h : Lockstep R) (hst : s.Related R t) (e : Expression) :
    R Float (e.eval s) (e.eval t) := by
  apply h.bind (h.eval hst e.code)
  intro x
  split
  · exact h.throw _ rfl
  · exact h.pure x

end Code

variable (h : Lockstep R)

include h

section Collect

variable {amount : Expression → m Float} {amount' : Expression → n Float}

theorem addAll (count : Nat) (c : Combined Float) (modifiers : List (Modifier Expression))
    (hamount : ∀ modifier ∈ modifiers, R Float (amount modifier.amount) (amount' modifier.amount)) :
    R (Combined Float) (Combined.addAll amount count c modifiers)
      (Combined.addAll amount' count c modifiers) := by
  induction modifiers generalizing c with
  | nil => exact h.pure c
  | cons modifier rest ih =>
    apply h.bind (hamount modifier List.mem_cons_self)
    intro x
    dsimp only
    split
    · exact h.pure _
    · exact ih _ fun modifier hm => hamount modifier (List.mem_cons_of_mem _ hm)

theorem collect (target : String) (c : Combined Float) (sources : List (Provider Expression × Nat))
    (hamount : ∀ source ∈ sources, ∀ modifier ∈ source.1.modifiers, modifier.target = target →
      R Float (amount modifier.amount) (amount' modifier.amount)) :
    R (Combined Float) (Combined.collect amount target c sources)
      (Combined.collect amount' target c sources) := by
  induction sources generalizing c with
  | nil => exact h.pure c
  | cons source rest ih =>
    have hrest := fun c => ih c fun source hs => hamount source (List.mem_cons_of_mem _ hs)
    obtain ⟨provider, count⟩ := source
    unfold Combined.collect
    split
    · exact hrest c
    · refine h.bind (h.addAll _ _ _ fun modifier hm => ?_) fun c' => ?_
      · obtain ⟨hm, ht⟩ := List.mem_filter.1 hm
        exact hamount _ List.mem_cons_self modifier hm (by simpa using ht)
      · split
        · exact h.pure c'
        · exact hrest c'

end Collect

theorem lift {α : Type} (x : Except EvaluationError α) {kind : Kind} {id : String}
    (hx : ∀ e, x = .error e → e = .unknown kind id) : R α (liftExcept x) (liftExcept x) := by
  cases x with
  | error e =>
    have he : e.cycle? = none := by rw [hx e rfl]; rfl
    exact h.throw e he
  | ok a => exact h.pure a

section Scope

variable (s : State) {combined : String → m (Combined Float)}
  {combined' : String → n (Combined Float)}
  (hcombined : ∀ t, R (Combined Float) (combined t) (combined' t))

include hcombined

theorem attributeWith (id : String) :
    R Float (s.attributeWith combined id) (s.attributeWith combined' id) := by
  unfold State.attributeWith
  split
  · exact h.bind (hcombined id) fun _ => h.pure _
  · exact h.throw _ rfl

theorem effectWith (id : String) :
    R Float (State.effectWith combined id) (State.effectWith combined' id) :=
  h.bind (hcombined id) fun _ => h.pure _

omit hcombined in
theorem idArgument (f : String) (args : List (Expr.Argument Float)) :
    R String (State.idArgument f args) (State.idArgument f args) := by
  unfold State.idArgument
  split
  · exact h.pure _
  · exact h.throw _ rfl

theorem related_scopeWith : (s.scopeWith combined).Related R (s.scopeWith combined') where
  value := fun x => by
    unfold State.scopeWith
    dsimp only
    split
    · exact h.pure _
    · split
      · exact h.attributeWith s hcombined x
      · exact h.throw _ rfl
  call := fun f args => by
    unfold State.scopeWith
    dsimp only
    apply h.bind (h.idArgument f args)
    intro id
    split
    · exact h.pure _
    · split
      · exact h.pure _
      · exact h.throw _ rfl
    · split
      · exact h.pure _
      · exact h.throw _ rfl
    · split
      · exact h.pure _
      · exact h.throw _ rfl
    · exact h.effectWith hcombined id
    · exact h.attributeWith s hcombined id
    · exact h.bind (h.lift _ fun _ => Registry.occurrences_error) fun _ => h.pure _
    · exact h.bind (h.lift _ fun _ => Registry.isEnabled_error) fun _ => h.pure _
    · exact h.bind (h.lift _ fun _ => Variables.find_error) fun _ => h.pure _
    · exact h.bind (h.lift _ fun _ => Variables.find_error) fun _ => h.pure _
    · exact h.throw _ rfl

theorem amount (e : Expression) :
    R Float (e.eval (s.scopeWith combined)) (e.eval (s.scopeWith combined')) :=
  h.expression (h.related_scopeWith s hcombined) e

end Scope

end Lockstep

end Scenario
