import Scenario.Proofs.Lockstep

/-!
The guard against modifiers that depend on themselves. Combining targets with a stack of those in
progress is compared with combining them without any guard: the guard never changes an answer, and
it raises an error exactly where combining without it would never end.
-/

namespace Scenario

/-- Evaluation beside something that it reads and changes. It may be cut off without an answer. -/
def Metered (σ α : Type) := σ → Option (Except EvaluationError α) × σ

namespace Metered

variable {σ α β : Type}

def cut : Metered σ α := fun x => (none, x)

instance : Monad (Metered σ) where
  pure a := fun x => (some (.ok a), x)
  bind f g := fun x =>
    match f x with
    | (some (.ok a), x) => g a x
    | (some (.error e), x) => (some (.error e), x)
    | (none, x) => (none, x)

instance : MonadExceptOf EvaluationError (Metered σ) where
  throw e := fun x => (some (.error e), x)
  tryCatch f g := fun x =>
    match f x with
    | (some (.error e), x) => g e x
    | (some (.ok a), x) => (some (.ok a), x)
    | (none, x) => (none, x)

theorem bind_apply (f : Metered σ α) (g : α → Metered σ β) (x : σ) :
    (f >>= g) x =
      match f x with
      | (some (.ok a), x) => g a x
      | (some (.error e), x) => (some (.error e), x)
      | (none, x) => (none, x) := rfl

theorem bind_of_ok {f : Metered σ α} {g : α → Metered σ β} {x y : σ} {a : α}
    (h : f x = (some (.ok a), y)) : (f >>= g) x = g a y := by
  rw [bind_apply, h]

theorem bind_of_error {f : Metered σ α} {g : α → Metered σ β} {x y : σ} {e : EvaluationError}
    (h : f x = (some (.error e), y)) : (f >>= g) x = (some (.error e), y) := by
  rw [bind_apply, h]

theorem bind_of_none {f : Metered σ α} {g : α → Metered σ β} {x y : σ}
    (h : f x = (none, y)) : (f >>= g) x = (none, y) := by
  rw [bind_apply, h]

end Metered

/-- A target that starts to be combined while others are in progress, the latest first. -/
structure Opening where
  within : List String
  target : String

/-- The first target that was opened while it was in progress. -/
def firstAgain (log : List Opening) : Option String :=
  (log.find? fun opening => opening.target ∈ opening.within).map Opening.target

namespace State

variable (s : State)

/-- Combines the modifiers for a target with a stack of targets in progress. A target on the stack
is refused; any other is pushed and, whatever comes of it, popped. -/
def guarded : Nat → String → Metered (List String) (Combined Float)
  | 0, _ => .cut
  | depth + 1, target => fun stack =>
    if target ∈ stack then (some (.error (.modifierCycle target)), stack)
    else
      let (answer, stack) :=
        Combined.collect (·.eval (s.scopeWith (guarded depth))) target .neutral s.sources
          (target :: stack)
      (answer, stack.tail)

/-- Combines the modifiers for a target with no guard, and keeps a log of the targets opened. -/
def unguarded : Nat → List String → String → Metered (List Opening) (Combined Float)
  | 0, within, target => fun log => (none, log ++ [⟨within, target⟩])
  | depth + 1, within, target => fun log =>
    Combined.collect (·.eval (s.scopeWith (unguarded depth (target :: within)))) target .neutral
      s.sources (log ++ [⟨within, target⟩])

end State

inductive Reading
  | expression (expression : Expression)
  | attributeValue (id : String)
  | effectValue (id : String)

namespace Reading

def readWith {m : Type → Type} [Monad m] [MonadExceptOf EvaluationError m] (s : State)
    (combined : String → m (Combined Float)) : Reading → m Float
  | .expression e => e.eval (s.scopeWith combined)
  | .attributeValue id => s.attributeWith combined id
  | .effectValue id => State.effectWith combined id

def read (s : State) : Reading → Except EvaluationError Float
  | .expression e => s.eval e
  | .attributeValue id => s.attributeValue id
  | .effectValue id => s.effectValue id

theorem read_eq (s : State) (q : Reading) : q.read s = q.readWith s s.combined := by
  cases q <;> rfl

end Reading

theorem Lockstep.readWith {m n : Type → Type} [Monad m] [Monad n]
    [MonadExceptOf EvaluationError m] [MonadExceptOf EvaluationError n]
    {R : (α : Type) → m α → n α → Prop} (h : Lockstep R) (s : State)
    {combined : String → m (Combined Float)} {combined' : String → n (Combined Float)}
    (hcombined : ∀ t, R (Combined Float) (combined t) (combined' t)) (q : Reading) :
    R Float (q.readWith s combined) (q.readWith s combined') := by
  cases q with
  | expression e => exact h.amount s hcombined e
  | attributeValue id => exact h.attributeWith s hcombined id
  | effectValue id => exact h.effectWith hcombined id

namespace State

variable {s : State}

theorem mem_targets {t : String} :
    t ∈ s.targets ↔ ∃ source ∈ s.sources, ∃ modifier ∈ source.1.modifiers, modifier.target = t := by
  simp [targets]

end State

theorem Lockstep.combine {m n : Type → Type} [Monad m] [Monad n]
    [MonadExceptOf EvaluationError m] [MonadExceptOf EvaluationError n]
    {R : (α : Type) → m α → n α → Prop} (h : Lockstep R) (s : State)
    (combined : String → m (Combined Float)) (combined' : String → n (Combined Float)) (t : String)
    (hcombined : t ∈ s.targets → ∀ u, R (Combined Float) (combined u) (combined' u)) :
    R (Combined Float)
      (Combined.collect (·.eval (s.scopeWith combined)) t .neutral s.sources)
      (Combined.collect (·.eval (s.scopeWith combined')) t .neutral s.sources) := by
  apply h.collect t .neutral s.sources
  intro source hs modifier hm htarget
  have ht : t ∈ s.targets := State.mem_targets.2 ⟨source, hs, modifier, hm, htarget⟩
  exact h.amount s (hcombined ht) modifier.amount

namespace State

variable {s : State}

/-! ### The evaluator that runs -/

theorem collect_eq_of_no_modifier {amount : Expression → Except EvaluationError Float} {t : String}
    {c : Combined Float} {sources : List (Provider Expression × Nat)}
    (h : ∀ source ∈ sources, ∀ modifier ∈ source.1.modifiers, modifier.target ≠ t) :
    Combined.collect amount t c sources = .ok c := by
  induction sources with
  | nil => rfl
  | cons source rest ih =>
    obtain ⟨provider, count⟩ := source
    have hrest := ih fun source hs => h source (List.mem_cons_of_mem _ hs)
    have hnone : provider.modifiers.filter (·.target = t) = [] := by
      rw [List.filter_eq_nil_iff]
      intro modifier hm
      simpa using h _ List.mem_cons_self modifier hm
    unfold Combined.collect
    rw [hnone]
    split
    · exact hrest
    · change (if c.assignment.isSome then _ else _) = _
      split
      · rfl
      · exact hrest

theorem combinedWithin_of_not_mem {opened : List String} {t : String} (h : t ∉ opened) :
    s.combinedWithin opened t =
      Combined.collect (·.eval (s.scopeWith (s.combinedWithin (t :: opened)))) t .neutral
        s.sources := by
  rw [combinedWithin, dif_neg h]
  split
  · rfl
  · rename_i ht
    refine (collect_eq_of_no_modifier fun source hs modifier hm htarget => ht ?_).symm
    exact mem_targets.2 ⟨source, hs, modifier, hm, htarget⟩

theorem combinedWithin_of_mem {opened : List String} {t : String} (h : t ∈ opened) :
    s.combinedWithin opened t = .error (.modifierCycle t) := by
  rw [combinedWithin, dif_pos h]

/-- Targets of modifiers that are not in progress: what is left to be opened. -/
def unopened (s : State) (opened : List String) : Nat := (s.targets.filter (· ∉ opened)).length

theorem unopened_le (opened : List String) : s.unopened opened ≤ s.targets.length :=
  List.length_filter_le _ _

theorem unopened_cons_lt {opened : List String} {t : String} (h : t ∉ opened)
    (ht : t ∈ s.targets) : s.unopened (t :: opened) < s.unopened opened :=
  filter_length_lt ht h

/-! ### The guard as a stack -/

theorem lockstep_stack (stack : List String) :
    Lockstep fun α (x : Metered (List String) α) (y : Except EvaluationError α) =>
      x stack = (some y, stack) where
  pure _ := rfl
  bind {_ _ _ y _ _} hx hf := by
    cases y with
    | ok a => exact (Metered.bind_of_ok hx).trans (hf a)
    | error e => exact Metered.bind_of_error hx
  throw _ _ := rfl

theorem guarded_eq {depth : Nat} {stack : List String} (h : s.unopened stack < depth)
    (t : String) : s.guarded depth t stack = (some (s.combinedWithin stack t), stack) := by
  induction depth generalizing stack t with
  | zero => omega
  | succ depth ih =>
    unfold guarded
    by_cases hmem : t ∈ stack
    · rw [if_pos hmem, combinedWithin_of_mem hmem]
    · have hcollect := (lockstep_stack (t :: stack)).combine s (s.guarded depth)
        (s.combinedWithin (t :: stack)) t fun ht u => by
          have hlt := unopened_cons_lt hmem ht
          exact ih (by omega) u
      rw [if_neg hmem, hcollect, combinedWithin_of_not_mem hmem]
      rfl

/-! ### Evaluation without a guard -/

end State

def cycleOf {α : Type} : Except EvaluationError α → Option String
  | .error e => e.cycle?
  | .ok _ => none

theorem cycleOf_eq_some {α : Type} {y : Except EvaluationError α} {t : String} :
    cycleOf y = some t ↔ y = .error (.modifierCycle t) := by
  cases y with
  | ok a => simp [cycleOf]
  | error e => simp [cycleOf, EvaluationError.cycle?_eq_some]

theorem firstAgain_append (log more : List Opening) :
    firstAgain (log ++ more) = (firstAgain log).or (firstAgain more) := by
  simp only [firstAgain, List.find?_append, Option.map_or]

namespace State

variable {s : State}

/-- The unguarded side adds to its log. It opens a target again exactly if the guarded side reports
a cycle, and otherwise has the same answer. -/
theorem lockstep_log :
    Lockstep fun α (x : Metered (List Opening) α) (y : Except EvaluationError α) =>
      ∀ log, ∃ more, (x log).2 = log ++ more ∧ firstAgain more = cycleOf y ∧
        (cycleOf y = none → (x log).1 = some y) where
  pure a := fun log => ⟨[], (List.append_nil log).symm, rfl, fun _ => rfl⟩
  throw e he := fun log => ⟨[], (List.append_nil log).symm, he.symm, fun _ => rfl⟩
  bind {α β x y f g} hx hf := by
    intro log
    obtain ⟨more, hlog, hagain, hanswer⟩ := hx log
    cases hc : cycleOf y with
    | some t =>
      have hy := cycleOf_eq_some.1 hc
      subst hy
      rw [hc] at hagain
      rcases hxl : x log with ⟨_ | _ | a, log'⟩
      · rw [hxl] at hlog
        rw [Metered.bind_of_none hxl]
        exact ⟨more, hlog, hagain, fun h => nomatch h⟩
      · rw [hxl] at hlog
        rw [Metered.bind_of_error hxl]
        exact ⟨more, hlog, hagain, fun h => nomatch h⟩
      -- The guarded side has stopped here; what the other opens later comes behind the cycle.
      · rw [hxl] at hlog
        dsimp only at hlog
        obtain ⟨more', hlog', -, -⟩ := hf a log'
        rw [Metered.bind_of_ok hxl]
        refine ⟨more ++ more', ?_, ?_, fun h => nomatch h⟩
        · rw [hlog', hlog, List.append_assoc]
        · rw [firstAgain_append, hagain]
          rfl
    | none =>
      have hxl : x log = (some y, log ++ more) := Prod.ext (hanswer hc) hlog
      rw [hc] at hagain
      cases y with
      | ok a =>
        obtain ⟨more', hlog', hagain', hanswer'⟩ := hf a (log ++ more)
        rw [Metered.bind_of_ok hxl]
        refine ⟨more ++ more', ?_, ?_, hanswer'⟩
        · rw [hlog', List.append_assoc]
        · rw [firstAgain_append, hagain]
          exact hagain'
      | error e =>
        rw [Metered.bind_of_error hxl]
        exact ⟨more, rfl, hagain.trans hc.symm, fun _ => rfl⟩

theorem lockstep_grows :
    Lockstep fun α (x _ : Metered (List Opening) α) => ∀ log, ∃ more, (x log).2 = log ++ more where
  pure a := fun log => ⟨[], (List.append_nil log).symm⟩
  throw e _ := fun log => ⟨[], (List.append_nil log).symm⟩
  bind {α β x y f g} hx hf := by
    intro log
    obtain ⟨more, hlog⟩ := hx log
    rcases hxl : x log with ⟨_ | _ | a, log'⟩
    · rw [Metered.bind_of_none hxl]
      exact ⟨more, by rw [← hlog, hxl]⟩
    · rw [Metered.bind_of_error hxl]
      exact ⟨more, by rw [← hlog, hxl]⟩
    · obtain ⟨more', hlog'⟩ := hf a log'
      rw [Metered.bind_of_ok hxl]
      rw [hxl] at hlog
      exact ⟨more ++ more', by rw [hlog', ← List.append_assoc, ← hlog]⟩

theorem unguarded_grows (depth : Nat) (within : List String) (t : String) (log : List Opening) :
    ∃ more, (s.unguarded depth within t log).2 = log ++ ⟨within, t⟩ :: more := by
  induction depth generalizing within t log with
  | zero => exact ⟨[], rfl⟩
  | succ depth ih =>
    have hbelow : ∀ u log, ∃ more, (s.unguarded depth (t :: within) u log).2 = log ++ more :=
      fun u log => (ih (t :: within) u log).imp' _ fun _ hmore => hmore
    have hcollect := lockstep_grows.combine s (s.unguarded depth (t :: within))
      (s.unguarded depth (t :: within)) t fun _ => hbelow
    obtain ⟨more, hmore⟩ := hcollect (log ++ [⟨within, t⟩])
    exact ⟨more, by rw [unguarded, hmore, List.append_assoc]; rfl⟩

theorem unguarded_log {depth : Nat} {within : List String} (h : s.unopened within < depth)
    (t : String) (log : List Opening) :
    ∃ more, (s.unguarded depth within t log).2 = log ++ more ∧
      firstAgain more = cycleOf (s.combinedWithin within t) ∧
      (cycleOf (s.combinedWithin within t) = none →
        (s.unguarded depth within t log).1 = some (s.combinedWithin within t)) := by
  induction depth generalizing within t log with
  | zero => omega
  | succ depth ih =>
    by_cases hmem : t ∈ within
    · obtain ⟨more, hmore⟩ := s.unguarded_grows (depth + 1) within t log
      rw [combinedWithin_of_mem hmem]
      refine ⟨_, hmore, ?_, fun h => nomatch h⟩
      simp [firstAgain, hmem, cycleOf, EvaluationError.cycle?]
    · have hcollect := lockstep_log.combine s (s.unguarded depth (t :: within))
        (s.combinedWithin (t :: within)) t fun ht u => by
          have hlt := unopened_cons_lt hmem ht
          exact ih (by omega) u
      obtain ⟨more, hlog, hagain, hanswer⟩ := hcollect (log ++ [⟨within, t⟩])
      rw [combinedWithin_of_not_mem hmem]
      refine ⟨⟨within, t⟩ :: more, ?_, ?_, hanswer⟩
      · rw [unguarded, hlog, List.append_assoc]
        rfl
      · rw [← hagain]
        simp [firstAgain, hmem]

theorem lockstep_deeper :
    Lockstep fun α (x y : Metered (List Opening) α) =>
      ∀ log log' answer, (x log).1 = some answer → (y log').1 = some answer where
  pure a := fun _ _ _ h => h
  throw e _ := fun _ _ _ h => h
  bind {α β x y f g} hx hf := by
    intro log log' answer h
    rcases hxl : x log with ⟨_ | e | a, log₁⟩
    · rw [Metered.bind_of_none hxl] at h
      cases h
    · have hy := hx log log' (.error e) (by rw [hxl])
      rw [Metered.bind_of_error hxl] at h
      rw [Metered.bind_of_error (Prod.ext hy rfl)]
      exact h
    · have hy := hx log log' (.ok a) (by rw [hxl])
      rw [Metered.bind_of_ok hxl] at h
      rw [Metered.bind_of_ok (Prod.ext hy rfl)]
      exact hf a _ _ answer h

theorem unguarded_mono {depth depth' : Nat} (h : depth ≤ depth') {within within' : List String}
    {t : String} {log log' : List Opening} {answer : Except EvaluationError (Combined Float)}
    (hanswer : (s.unguarded depth within t log).1 = some answer) :
    (s.unguarded depth' within' t log').1 = some answer := by
  induction depth generalizing depth' within within' t log log' answer with
  | zero => cases hanswer
  | succ depth ih =>
    obtain ⟨deeper, rfl⟩ : ∃ deeper, depth' = deeper + 1 := ⟨depth' - 1, by omega⟩
    have hbelow : ∀ u log log' answer, (s.unguarded depth (t :: within) u log).1 = some answer →
        (s.unguarded deeper (t :: within') u log').1 = some answer :=
      fun u _ _ _ hu => ih (Nat.le_of_succ_le_succ h) hu
    have hcollect := lockstep_deeper.combine s (s.unguarded depth (t :: within))
      (s.unguarded deeper (t :: within')) t fun _ => hbelow
    exact hcollect _ _ answer hanswer

def Finishes (s : State) (depth : Nat) (t : String) : Prop :=
  ∃ within log answer, (s.unguarded depth within t log).1 = some answer

theorem Finishes.mono {depth depth' : Nat} {t : String} (h : s.Finishes depth t)
    (hle : depth ≤ depth') : s.Finishes depth' t := by
  obtain ⟨within, log, answer, h⟩ := h
  exact ⟨within, log, answer, unguarded_mono hle h⟩

theorem lockstep_finishes :
    Lockstep fun α (x : Metered (List Opening) α) (y : Except EvaluationError α) =>
      ∀ log answer, (x log).1 = some answer → y = answer ∧ cycleOf answer = none where
  pure a := by
    rintro log _ ⟨⟩
    exact ⟨rfl, rfl⟩
  throw e he := by
    rintro log _ ⟨⟩
    exact ⟨rfl, he⟩
  bind {α β x y f g} hx hf := by
    intro log answer h
    rcases hxl : x log with ⟨_ | e | a, log₁⟩
    · rw [Metered.bind_of_none hxl] at h
      cases h
    · obtain ⟨rfl, hcycle⟩ := hx log (.error e) (by rw [hxl])
      rw [Metered.bind_of_error hxl] at h
      cases h
      exact ⟨rfl, hcycle⟩
    · obtain ⟨rfl, -⟩ := hx log (.ok a) (by rw [hxl])
      rw [Metered.bind_of_ok hxl] at h
      exact hf a _ answer h

theorem unguarded_finishes {depth : Nat} {opened within : List String} {t : String}
    {log : List Opening} {answer : Except EvaluationError (Combined Float)}
    (hanswer : (s.unguarded depth within t log).1 = some answer)
    (hopened : ∀ u ∈ opened, ¬ s.Finishes depth u) :
    s.combinedWithin opened t = answer ∧ cycleOf answer = none := by
  induction depth generalizing opened within t log answer with
  | zero => cases hanswer
  | succ depth ih =>
    have hopened' : ∀ u ∈ opened, ¬ s.Finishes depth u := fun u hu hfinishes =>
      hopened u hu (hfinishes.mono (Nat.le_succ depth))
    by_cases hsooner : s.Finishes depth t
    · obtain ⟨within', log', answer', hanswer'⟩ := hsooner
      have hsame := hanswer.symm.trans (unguarded_mono (Nat.le_succ depth) hanswer')
      cases hsame
      exact ih hanswer' hopened'
    -- Here `t` needs the whole depth, so that no target in progress finishes in what is below it.
    · have hmem : t ∉ opened := fun hmem => hopened t hmem ⟨within, log, answer, hanswer⟩
      have hcollect := lockstep_finishes.combine s (s.unguarded depth (t :: within))
        (s.combinedWithin (t :: opened)) t fun _ u log answer hu => by
          apply ih hu
          intro v hv
          rcases List.mem_cons.1 hv with rfl | hv
          · exact hsooner
          · exact hopened' v hv
      rw [combinedWithin_of_not_mem hmem]
      exact hcollect _ answer hanswer

end State

namespace Reading

variable {s : State} (q : Reading) {depth : Nat}

theorem guarded_eq (h : s.targets.length < depth) (stack : List String) :
    q.readWith s (s.guarded depth) stack =
      (some (q.readWith s (s.combinedWithin stack)), stack) := by
  have hlt : s.unopened stack < depth := Nat.lt_of_le_of_lt (State.unopened_le stack) h
  exact (State.lockstep_stack stack).readWith s (fun t => State.guarded_eq hlt t) q

theorem unguarded_log (h : s.targets.length < depth) :
    firstAgain (q.readWith s (s.unguarded depth []) []).2 = cycleOf (q.read s) ∧
      (cycleOf (q.read s) = none →
        (q.readWith s (s.unguarded depth []) []).1 = some (q.read s)) := by
  have hlt : s.unopened [] < depth := Nat.lt_of_le_of_lt (State.unopened_le []) h
  obtain ⟨more, hmore, hagain, hanswer⟩ :=
    State.lockstep_log.readWith s (fun t => State.unguarded_log hlt t) q []
  rw [q.read_eq s, hmore]
  exact ⟨hagain, hanswer⟩

theorem unguarded_finishes {answer : Except EvaluationError Float}
    (h : (q.readWith s (s.unguarded depth []) []).1 = some answer) :
    q.read s = answer ∧ cycleOf answer = none := by
  rw [q.read_eq s]
  exact State.lockstep_finishes.readWith s
    (fun t log answer ht => State.unguarded_finishes ht (List.forall_mem_nil _)) q [] answer h

end Reading

/-- The guard is exact. Beside a stack of targets in progress, evaluation ends with an answer and
with the stack as it was; from an empty stack the answer is the one of `read`. That answer is a
cycle at `t` exactly if evaluation without a guard never ends and `t` is the first target that it
opens again while it is in progress. Any other answer is that of evaluation without a guard. -/
theorem guard_exact (s : State) (q : Reading) :
    (∀ stack depth, s.targets.length < depth →
      ∃ answer, q.readWith s (s.guarded depth) stack = (some answer, stack)) ∧
    (∀ depth, s.targets.length < depth →
      q.readWith s (s.guarded depth) [] = (some (q.read s), [])) ∧
    (∀ t, q.read s = .error (.modifierCycle t) ↔
      (∀ depth, (q.readWith s (s.unguarded depth []) []).1 = none) ∧
      ∀ depth, s.targets.length < depth →
        firstAgain (q.readWith s (s.unguarded depth []) []).2 = some t) ∧
    ((∀ t, q.read s ≠ .error (.modifierCycle t)) →
      ∀ depth, s.targets.length < depth →
        (q.readWith s (s.unguarded depth []) []).1 = some (q.read s)) := by
  refine ⟨fun stack depth h => ⟨_, q.guarded_eq h stack⟩, ?_, ?_, ?_⟩
  · intro depth h
    rw [q.read_eq s]
    exact q.guarded_eq h []
  · intro t
    constructor
    · intro hcycle
      refine ⟨fun depth => ?_, fun depth h => ?_⟩
      · cases hanswer : (q.readWith s (s.unguarded depth []) []).1 with
        | none => rfl
        | some answer =>
          obtain ⟨rfl, hnone⟩ := q.unguarded_finishes hanswer
          rw [hcycle] at hnone
          cases hnone
      · rw [(q.unguarded_log h).1, hcycle]
        rfl
    · rintro ⟨hnever, hfirst⟩
      have hagain := (q.unguarded_log (Nat.lt_succ_self s.targets.length)).1
      rw [hfirst _ (Nat.lt_succ_self _)] at hagain
      exact cycleOf_eq_some.1 hagain.symm
  · intro hno depth h
    refine (q.unguarded_log h).2 ?_
    cases hc : cycleOf (q.read s) with
    | none => rfl
    | some t => exact absurd (cycleOf_eq_some.1 hc) (hno t)

end Scenario
