import Scenario.Proofs.Compiling
import Scenario.Proofs.Lockstep

/-!
Hosts, which answer what expressions ask. A host may have a state that its answers depend on and
change. Recorded, it keeps a transcript of what it was asked and what it answered.
-/

namespace Scenario.Expr

inductive Query
  | name (name : String)
  | call (function : String) (arguments : List (Argument Float))

structure Exchange where
  query : Query
  answer : Except EvaluationError Float

abbrev Asking (σ : Type) := ExceptT EvaluationError (StateM σ)

abbrev Host (σ : Type) := Scope (Asking σ)

section Scopes

variable {m : Type → Type}

def Scope.ask (scope : Scope m) : Query → m Float
  | .name n => scope.value n
  | .call f args => scope.call f args

def Scope.ofAsk (ask : Query → m Float) : Scope m where
  value n := ask (.name n)
  call f args := ask (.call f args)

theorem Scope.ask_ofAsk (ask : Query → m Float) (q : Query) : (Scope.ofAsk ask).ask q = ask q := by
  cases q <;> rfl

end Scopes

/-! ### Evaluation, step by step -/

namespace Asking

variable {σ α β : Type} {x : Asking σ α} {s s' : σ}

theorem bind_of_ok {f : α → Asking σ β} {a : α} (h : x s = (.ok a, s')) :
    (x >>= f) s = f a s' := by
  rw [bind_apply, h]

theorem bind_of_error {f : α → Asking σ β} {e : EvaluationError} (h : x s = (.error e, s')) :
    (x >>= f) s = (.error e, s') := by
  rw [bind_apply, h]

theorem map_apply {answer : Except EvaluationError α} (h : x s = (answer, s')) (f : α → β) :
    (x >>= fun a => pure (f a)) s = (answer.map f, s') := by
  cases answer with
  | ok a => exact bind_of_ok h
  | error e => exact bind_of_error h

end Asking

/-! ### Tables -/

def Scope.stateless (scope : Scope (Except EvaluationError)) : Host Unit :=
  .ofAsk fun q s => (scope.ask q, s)

theorem lockstep_stateless :
    Lockstep fun α (x : Asking Unit α) (y : Except EvaluationError α) => x () = (y, ()) where
  pure _ := rfl
  bind {_ _ _ y _ _} hx hf := by
    cases y with
    | ok a => exact (Asking.bind_of_ok hx).trans (hf a)
    | error e => exact Asking.bind_of_error hx
  throw _ _ := rfl

theorem eval_stateless (scope : Scope (Except EvaluationError)) (e : Expression) :
    e.eval scope.stateless () = (e.eval scope, ()) :=
  lockstep_stateless.expression ⟨fun _ => rfl, fun _ _ => rfl⟩ e

/-! ### Transcripts -/

namespace Host

variable {σ : Type} (host : Host σ)

def recorded : Host (σ × List Exchange) :=
  .ofAsk fun q (s, log) =>
    let (answer, s) := host.ask q s
    (answer, s, log ++ [⟨q, answer⟩])

/-- Asked what a transcript asks, in turn, the host gives the answers in it. -/
def Gives : σ → List Exchange → σ → Prop
  | s, [], s' => s = s'
  | s, exchange :: log, s' =>
    ∃ t, host.ask exchange.query s = (exchange.answer, t) ∧ Gives t log s'

variable {host} {s s' t : σ}

theorem gives_append {log log' : List Exchange} :
    host.Gives s (log ++ log') t ↔ ∃ s', host.Gives s log s' ∧ host.Gives s' log' t := by
  induction log generalizing s with
  | nil => simp [Gives]
  | cons exchange log ih =>
    simp only [List.cons_append, Gives, ih]
    constructor
    · rintro ⟨u, hask, s', hlog, hlog'⟩
      exact ⟨s', ⟨u, hask, hlog⟩, hlog'⟩
    · rintro ⟨s', ⟨u, hask, hlog⟩, hlog'⟩
      exact ⟨u, hask, s', hlog, hlog'⟩

theorem gives_singleton {q : Query} {answer : Except EvaluationError Float} :
    host.Gives s [⟨q, answer⟩] t ↔ host.ask q s = (answer, t) := by
  simp [Gives]

theorem exists_gives (host : Host σ) (q : Query) (s : σ) :
    ∃ answer t, host.Gives s [⟨q, answer⟩] t :=
  ⟨_, _, gives_singleton.2 rfl⟩

theorem ask_recorded {q : Query} {answer : Except EvaluationError Float}
    (h : host.Gives s [⟨q, answer⟩] t) (log : List Exchange) :
    host.recorded.ask q (s, log) = (answer, t, log ++ [⟨q, answer⟩]) := by
  have hask := gives_singleton.1 h
  rw [recorded, Scope.ask_ofAsk]
  simp only [hask]

theorem gives_stateless (scope : Scope (Except EvaluationError)) {log : List Exchange} :
    scope.stateless.Gives () log () ↔
      ∀ exchange ∈ log, scope.ask exchange.query = exchange.answer := by
  induction log with
  | nil => simp [Gives]
  | cons exchange log ih =>
    rw [List.forall_mem_cons, ← ih, Gives]
    have hask : scope.stateless.ask exchange.query () = (scope.ask exchange.query, ()) := by
      rw [Scope.stateless, Scope.ask_ofAsk]
    rw [hask]
    constructor
    · rintro ⟨⟨⟩, hanswer, hlog⟩
      exact ⟨congrArg Prod.fst hanswer, hlog⟩
    · rintro ⟨hanswer, hlog⟩
      exact ⟨(), by rw [hanswer], hlog⟩

end Host

/-- What is kept beside the state of a host changes neither the answers nor the state. -/
theorem lockstep_beside {σ ρ : Type} :
    Lockstep fun α (x : Asking (σ × ρ) α) (y : Asking σ α) =>
      ∀ s kept, ((x (s, kept)).1, (x (s, kept)).2.1) = y s where
  pure _ _ _ := rfl
  bind {_ _ x y f g} hx hf := by
    intro s kept
    have hxs := hx s kept
    rcases hrun : x (s, kept) with ⟨_ | a, s', kept'⟩
    · rw [hrun] at hxs
      rw [Asking.bind_of_error hrun, Asking.bind_of_error hxs.symm]
    · rw [hrun] at hxs
      rw [Asking.bind_of_ok hrun, Asking.bind_of_ok hxs.symm]
      exact hf a s' kept'
  throw _ _ _ _ := rfl

theorem eval_recorded {σ : Type} (host : Host σ) (e : Expression) (s : σ) (log : List Exchange) :
    ((e.eval host.recorded (s, log)).1, (e.eval host.recorded (s, log)).2.1) = e.eval host s :=
  lockstep_beside.expression ⟨fun _ _ _ => rfl, fun _ _ _ _ => rfl⟩ e s log

end Scenario.Expr
