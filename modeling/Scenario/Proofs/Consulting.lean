import Scenario.Proofs.Caching
import Scenario.Proofs.Hosts

/-!
The order in which expressions ask. Rules over trees say which transcripts evaluating a tree can
have: what is asked, in which order, and what comes of the answers. What a compiled expression asks
a host is the one transcript of its tree in which the host gives the answers.
-/

namespace Scenario

namespace Expr

/-! ### Rules -/

def Sign.apply : Sign → Float → Float
  | .not, x => flag !truthy x
  | .negate, x => -x
  | .plus, x => x

theorem Sign.map_plus {ε : Type} (answer : Except ε Float) : answer.map plus.apply = answer := by
  cases answer <;> rfl

def Operator.Eager (op : Operator) : Prop := op ≠ .andThen ∧ op ≠ .orElse

theorem Operator.eager_or (op : Operator) : op = .andThen ∨ op = .orElse ∨ op.Eager := by
  cases op <;> simp [Eager]

def numbers (args : List (Argument Float)) : List Float :=
  args.filterMap fun
    | .value x => some x
    | .text _ => none

theorem map_numbers_value {ε : Type} (answers : Except ε (List (Argument Float))) (x : Float) :
    (answers.map (.value x :: ·)).map numbers = (answers.map numbers).map (x :: ·) := by
  cases answers <;> rfl

mutual

/-- Evaluating a tree can ask and be answered like this, and then comes to this. Sides are visited
from the left; `&&` visits its right side only if the left one is true, `||` only if it is false,
and a choice only the side that is chosen. A failure ends the evaluation. -/
inductive Consults : Node → List Exchange → Except EvaluationError Float → Prop
  | number (x : Float) : Consults (.number x) [] (.ok x)
  | name (n : String) (answer : Except EvaluationError Float) :
    Consults (.name n) [⟨.name n, answer⟩] answer
  | sign (op : Sign) {a : Node} {log : List Exchange} {answer : Except EvaluationError Float}
    (h : Consults a log answer) : Consults (.sign op a) log (answer.map op.apply)
  | leftFails (op : Operator) {l : Node} (r : Node) {log : List Exchange} {e : EvaluationError}
    (hl : Consults l log (.error e)) : Consults (.operator op l r) log (.error e)
  | both {op : Operator} (hop : op.Eager) {l r : Node} {log log' : List Exchange} {x : Float}
    {answer : Except EvaluationError Float} (hl : Consults l log (.ok x))
    (hr : Consults r log' answer) :
    Consults (.operator op l r) (log ++ log') (answer.map (op.apply x))
  | andSkips {l : Node} (r : Node) {log : List Exchange} {x : Float} (hl : Consults l log (.ok x))
    (hx : truthy x = false) : Consults (.operator .andThen l r) log (.ok x)
  | andGoes {l r : Node} {log log' : List Exchange} {x : Float}
    {answer : Except EvaluationError Float} (hl : Consults l log (.ok x)) (hx : truthy x = true)
    (hr : Consults r log' answer) : Consults (.operator .andThen l r) (log ++ log') answer
  | orSkips {l : Node} (r : Node) {log : List Exchange} {x : Float} (hl : Consults l log (.ok x))
    (hx : truthy x = true) : Consults (.operator .orElse l r) log (.ok x)
  | orGoes {l r : Node} {log log' : List Exchange} {x : Float}
    {answer : Except EvaluationError Float} (hl : Consults l log (.ok x)) (hx : truthy x = false)
    (hr : Consults r log' answer) : Consults (.operator .orElse l r) (log ++ log') answer
  | conditionFails {c : Node} (a b : Node) {log : List Exchange} {e : EvaluationError}
    (hc : Consults c log (.error e)) : Consults (.choose c a b) log (.error e)
  | yes {c a : Node} (b : Node) {log log' : List Exchange} {x : Float}
    {answer : Except EvaluationError Float} (hc : Consults c log (.ok x)) (hx : truthy x = true)
    (ha : Consults a log' answer) : Consults (.choose c a b) (log ++ log') answer
  | no {c : Node} (a : Node) {b : Node} {log log' : List Exchange} {x : Float}
    {answer : Except EvaluationError Float} (hc : Consults c log (.ok x)) (hx : truthy x = false)
    (hb : Consults b log' answer) : Consults (.choose c a b) (log ++ log') answer
  | argumentFails (f : String) {args : List Node} {log : List Exchange} {e : EvaluationError}
    (h : ConsultsAll args log (.error e)) : Consults (.call f args) log (.error e)
  | builtin {f : String} {b : Builtin} (hf : Builtin.ofName? f = some b) {args : List Node}
    {log : List Exchange} {xs : List (Argument Float)} (h : ConsultsAll args log (.ok xs)) :
    Consults (.call f args) log (.ok (b.apply (numbers xs)))
  | host {f : String} (hf : Builtin.ofName? f = none) {args : List Node} {log : List Exchange}
    {xs : List (Argument Float)} (h : ConsultsAll args log (.ok xs))
    (answer : Except EvaluationError Float) :
    Consults (.call f args) (log ++ [⟨.call f xs, answer⟩]) answer

inductive ConsultsAll :
    List Node → List Exchange → Except EvaluationError (List (Argument Float)) → Prop
  | nil : ConsultsAll [] [] (.ok [])
  | text (s : String) {as : List Node} {log : List Exchange}
    {answers : Except EvaluationError (List (Argument Float))} (hs : ConsultsAll as log answers) :
    ConsultsAll (.text s :: as) log (answers.map (.text s :: ·))
  | fails {a : Node} (as : List Node) {log : List Exchange} {e : EvaluationError}
    (h : Consults a log (.error e)) : ConsultsAll (a :: as) log (.error e)
  | cons {a : Node} {as : List Node} {log log' : List Exchange} {x : Float}
    {answers : Except EvaluationError (List (Argument Float))} (h : Consults a log (.ok x))
    (hs : ConsultsAll as log' answers) :
    ConsultsAll (a :: as) (log ++ log') (answers.map (.value x :: ·))

end

/-! ### The first failure -/

/-- Nothing but the last answer is an error, and it is one exactly if this is what comes of all. -/
def EndsWith {α : Type} (log : List Exchange) : Except EvaluationError α → Prop
  | .ok _ => ∀ exchange ∈ log, ∃ x, exchange.answer = .ok x
  | .error e => ∃ before q, log = before ++ [⟨q, .error e⟩] ∧
      ∀ exchange ∈ before, ∃ x, exchange.answer = .ok x

namespace EndsWith

variable {α β : Type} {log log' : List Exchange}

theorem map {answer : Except EvaluationError α} (h : EndsWith log answer) (f : α → β) :
    EndsWith log (answer.map f) := by
  cases answer with
  | ok a => exact h
  | error e => exact h

theorem append {a : α} {answer : Except EvaluationError β} (h : EndsWith log (.ok a))
    (h' : EndsWith log' answer) : EndsWith (log ++ log') answer := by
  cases answer with
  | ok b => exact List.forall_mem_append.2 ⟨h, h'⟩
  | error e =>
    obtain ⟨before, q, rfl, hbefore⟩ := h'
    exact ⟨log ++ before, q, (List.append_assoc ..).symm, List.forall_mem_append.2 ⟨h, hbefore⟩⟩

theorem singleton (q : Query) (answer : Except EvaluationError Float) :
    EndsWith [⟨q, answer⟩] answer := by
  cases answer with
  | ok x =>
    intro exchange hmem
    cases List.mem_singleton.1 hmem
    exact ⟨x, rfl⟩
  | error e => exact ⟨[], q, rfl, List.forall_mem_nil _⟩

end EndsWith

mutual

theorem Consults.endsWith {node : Node} {log : List Exchange}
    {answer : Except EvaluationError Float} : Consults node log answer → EndsWith log answer
  | .number _ => List.forall_mem_nil _
  | .name n answer => .singleton _ answer
  | .sign op h => h.endsWith.map op.apply
  | .leftFails _ _ hl => hl.endsWith
  | .both _ hl hr => hl.endsWith.append (hr.endsWith.map _)
  | .andSkips _ hl _ | .orSkips _ hl _ => hl.endsWith
  | .andGoes hl _ hr | .orGoes hl _ hr => hl.endsWith.append hr.endsWith
  | .conditionFails _ _ hc => hc.endsWith
  | .yes _ hc _ h | .no _ hc _ h => hc.endsWith.append h.endsWith
  | .argumentFails _ h => h.endsWith
  | .builtin _ h => h.endsWith
  | .host _ h answer => h.endsWith.append (.singleton _ answer)

theorem ConsultsAll.endsWith {nodes : List Node} {log : List Exchange}
    {answers : Except EvaluationError (List (Argument Float))} :
    ConsultsAll nodes log answers → EndsWith log answers
  | .nil => List.forall_mem_nil _
  | .text _ hs => hs.endsWith.map _
  | .fails _ h => h.endsWith
  | .cons h hs => h.endsWith.append (hs.endsWith.map _)

end

/-! ### Every host has a transcript -/

section Hosts

variable {functions : String → Option Arity} {σ : Type} (host : Host σ)

mutual

theorem Compiles.exists_consults {node : Node} {code : Code} : Compiles functions node code →
    ∀ s, ∃ log answer t, Consults node log answer ∧ host.Gives s log t
  | .number x, s => ⟨_, _, s, .number x, rfl⟩
  | .name n, s => by
    obtain ⟨answer, t, hgives⟩ := host.exists_gives (.name n) s
    exact ⟨_, _, t, .name n answer, hgives⟩
  | .not h, s | .negate h, s | .plus h, s => by
    obtain ⟨log, answer, t, ha, hgives⟩ := h.exists_consults s
    exact ⟨log, _, t, .sign _ ha, hgives⟩
  | .operator op hl hr, s => by
    obtain ⟨log, left, t, hleft, hgives⟩ := hl.exists_consults s
    cases left with
    | error e => exact ⟨log, _, t, .leftFails op _ hleft, hgives⟩
    | ok x =>
      obtain ⟨log', right, u, hright, hgives'⟩ := hr.exists_consults t
      have hall := Host.gives_append.2 ⟨t, hgives, hgives'⟩
      obtain rfl | rfl | hop := op.eager_or
      · cases hx : truthy x with
        | true => exact ⟨_, _, u, .andGoes hleft hx hright, hall⟩
        | false => exact ⟨_, _, t, .andSkips _ hleft hx, hgives⟩
      · cases hx : truthy x with
        | true => exact ⟨_, _, t, .orSkips _ hleft hx, hgives⟩
        | false => exact ⟨_, _, u, .orGoes hleft hx hright, hall⟩
      · exact ⟨_, _, u, .both hop hleft hright, hall⟩
  | .choose hc ha hb, s => by
    obtain ⟨log, condition, t, hcondition, hgives⟩ := hc.exists_consults s
    cases condition with
    | error e => exact ⟨log, _, t, .conditionFails _ _ hcondition, hgives⟩
    | ok x =>
      cases hx : truthy x with
      | true =>
        obtain ⟨log', answer, u, hyes, hgives'⟩ := ha.exists_consults t
        exact ⟨_, _, u, .yes _ hcondition hx hyes, Host.gives_append.2 ⟨t, hgives, hgives'⟩⟩
      | false =>
        obtain ⟨log', answer, u, hno, hgives'⟩ := hb.exists_consults t
        exact ⟨_, _, u, .no _ hcondition hx hno, Host.gives_append.2 ⟨t, hgives, hgives'⟩⟩
  | .builtin hf _ h, s => by
    obtain ⟨log, answers, t, hargs, hgives⟩ := h.exists_consults s
    cases answers with
    | error e => exact ⟨log, _, t, .argumentFails _ hargs, hgives⟩
    | ok xs => exact ⟨log, _, t, .builtin hf hargs, hgives⟩
  | .host hf _ _ h, s => by
    obtain ⟨log, answers, t, hargs, hgives⟩ := h.exists_consults s
    cases answers with
    | error e => exact ⟨log, _, t, .argumentFails _ hargs, hgives⟩
    | ok xs =>
      obtain ⟨answer, u, hgives'⟩ := host.exists_gives (.call _ xs) t
      exact ⟨_, _, u, .host hf hargs answer, Host.gives_append.2 ⟨t, hgives, hgives'⟩⟩

theorem CompilesAll.exists_consults {nodes : List Node} {codes : List Code} :
    CompilesAll functions nodes codes →
    ∀ s, ∃ log answers t, ConsultsAll nodes log answers ∧ host.Gives s log t
  | .nil, s => ⟨_, _, s, .nil, rfl⟩
  | .cons h hs, s => by
    obtain ⟨log, first, t, hfirst, hgives⟩ := h.exists_consults s
    cases first with
    | error e => exact ⟨log, _, t, .fails _ hfirst, hgives⟩
    | ok x =>
      obtain ⟨log', answers, u, hrest, hgives'⟩ := hs.exists_consults t
      exact ⟨_, _, u, .cons hfirst hrest, Host.gives_append.2 ⟨t, hgives, hgives'⟩⟩

theorem CompilesArguments.exists_consults {nodes : List Node} {codes : List (Argument Code)} :
    CompilesArguments functions nodes codes →
    ∀ s, ∃ log answers t, ConsultsAll nodes log answers ∧ host.Gives s log t
  | .nil, s => ⟨_, _, s, .nil, rfl⟩
  | .text str hs, s => by
    obtain ⟨log, answers, t, hrest, hgives⟩ := hs.exists_consults s
    exact ⟨log, _, t, .text str hrest, hgives⟩
  | .value h hs, s => by
    obtain ⟨log, first, t, hfirst, hgives⟩ := h.exists_consults s
    cases first with
    | error e => exact ⟨log, _, t, .fails _ hfirst, hgives⟩
    | ok x =>
      obtain ⟨log', answers, u, hrest, hgives'⟩ := hs.exists_consults t
      exact ⟨_, _, u, .cons hfirst hrest, Host.gives_append.2 ⟨t, hgives, hgives'⟩⟩

end

end Hosts

/-! ### Evaluation follows transcripts -/

/-- Where the host gives the answers of a transcript, a recorded evaluation writes it down and comes
to this. -/
def Transcribes {σ α : Type} (host : Host σ) (log : List Exchange)
    (answer : Except EvaluationError α) (x : Asking (σ × List Exchange) α) : Prop :=
  ∀ s t start, host.Gives s log t → x (s, start) = (answer, t, start ++ log)

namespace Transcribes

variable {σ α β : Type} {host : Host σ} {log log' : List Exchange}
  {x : Asking (σ × List Exchange) α} {f : α → Asking (σ × List Exchange) β}

protected theorem pure (a : α) : Transcribes host [] (.ok a) (pure a) := by
  rintro s _ start rfl
  rw [List.append_nil]
  rfl

theorem throw (e : EvaluationError) :
    Transcribes host [] (.error e) (throw e : Asking (σ × List Exchange) α) := by
  rintro s _ start rfl
  rw [List.append_nil]
  rfl

theorem ask (q : Query) (answer : Except EvaluationError Float) :
    Transcribes host [⟨q, answer⟩] answer (host.recorded.ask q) :=
  fun _ _ start hgives => Host.ask_recorded hgives start

theorem map {answer : Except EvaluationError α} (h : Transcribes host log answer x) (f : α → β) :
    Transcribes host log (answer.map f) (x >>= fun a => pure (f a)) :=
  fun s t start hgives => Asking.map_apply (h s t start hgives) f

theorem error {e : EvaluationError} (h : Transcribes host log (.error e) x) :
    Transcribes host log (.error e) (x >>= f) :=
  fun s t start hgives => Asking.bind_of_error (h s t start hgives)

theorem bind {a : α} {answer : Except EvaluationError β} (h : Transcribes host log (.ok a) x)
    (hf : Transcribes host log' answer (f a)) :
    Transcribes host (log ++ log') answer (x >>= f) := by
  intro s t start hgives
  obtain ⟨s', hlog, hlog'⟩ := Host.gives_append.1 hgives
  rw [Asking.bind_of_ok (h s s' start hlog), hf s' t _ hlog', List.append_assoc]

theorem bind_nil {a : α} {answer : Except EvaluationError β} (h : Transcribes host log (.ok a) x)
    (hf : Transcribes host [] answer (f a)) : Transcribes host log answer (x >>= f) := by
  have hbind := h.bind hf
  rwa [List.append_nil] at hbind

end Transcribes

theorem Code.eval_eager {m : Type → Type} [Monad m] (scope : Scope m) {op : Operator}
    (h : op.Eager) (l r : Code) :
    (Code.operator op l r).eval scope = do
      let x ← l.eval scope
      let y ← r.eval scope
      return op.apply x y := by
  cases op with
  | andThen => exact absurd rfl h.1
  | orElse => exact absurd rfl h.2
  | _ => rfl

section Evaluation

variable {functions : String → Option Arity} {σ : Type} {host : Host σ}

mutual

theorem Consults.transcribes {node : Node} {log : List Exchange}
    {answer : Except EvaluationError Float} : Consults node log answer →
    ∀ {code : Code}, Compiles functions node code →
      Transcribes host log answer (code.eval host.recorded)
  | .number x, _, .number _ => .pure x
  | .name n answer, _, .name _ => .ask (.name n) answer
  | .sign .not h, _, .not ha => (h.transcribes ha).map _
  | .sign .negate h, _, .negate ha => (h.transcribes ha).map _
  | .sign .plus h, _, .plus ha => by
    rw [Sign.map_plus]
    exact h.transcribes ha
  | .leftFails op r h, _, .operator _ hl hr => by
    have hleft := h.transcribes hl
    -- Every operator begins with its left side, those that may stop there as well.
    cases op with
    | _ => exact hleft.error
  | .both hop h h', _, .operator _ hl hr => by
    rw [Code.eval_eager _ hop]
    exact (h.transcribes hl).bind ((h'.transcribes hr).map _)
  | .andSkips _ h hx, _, .operator _ hl _ =>
    (h.transcribes hl).bind_nil (by simpa [hx] using Transcribes.pure _)
  | .andGoes h hx h', _, .operator _ hl hr =>
    (h.transcribes hl).bind (by simpa [hx] using h'.transcribes hr)
  | .orSkips _ h hx, _, .operator _ hl _ =>
    (h.transcribes hl).bind_nil (by simpa [hx] using Transcribes.pure _)
  | .orGoes h hx h', _, .operator _ hl hr =>
    (h.transcribes hl).bind (by simpa [hx] using h'.transcribes hr)
  | .conditionFails _ _ h, _, .choose hc _ _ => (h.transcribes hc).error
  | .yes _ h hx h', _, .choose hc ha _ =>
    (h.transcribes hc).bind (by simpa [hx] using h'.transcribes ha)
  | .no _ h hx h', _, .choose hc _ hb =>
    (h.transcribes hc).bind (by simpa [hx] using h'.transcribes hb)
  | .argumentFails _ h, _, .builtin _ _ hargs => (h.transcribes_all hargs).error
  | .argumentFails _ h, _, .host _ _ _ hargs => (h.transcribes hargs).error
  | .builtin hf h, _, .builtin hf' _ hargs => by
    cases hf.symm.trans hf'
    exact (h.transcribes_all hargs).map _
  | .builtin hf _, _, .host hf' _ _ _ => by cases hf.symm.trans hf'
  | .host hf _ _, _, .builtin hf' _ _ => by cases hf.symm.trans hf'
  | .host _ h answer, _, .host _ _ _ hargs => (h.transcribes hargs).bind (.ask _ answer)

theorem ConsultsAll.transcribes_all {nodes : List Node} {log : List Exchange}
    {answers : Except EvaluationError (List (Argument Float))} : ConsultsAll nodes log answers →
    ∀ {codes : List Code}, CompilesAll functions nodes codes →
      Transcribes host log (answers.map numbers) (Code.evalAll host.recorded codes)
  | .nil, _, .nil => .pure _
  | .text s _, _, .cons h _ => absurd rfl (h.ne_text s)
  | .fails _ h, _, .cons ha _ => (h.transcribes ha).error
  | .cons h hs, _, .cons ha has => by
    rw [map_numbers_value]
    exact (h.transcribes ha).bind ((hs.transcribes_all has).map _)

theorem ConsultsAll.transcribes {nodes : List Node} {log : List Exchange}
    {answers : Except EvaluationError (List (Argument Float))} : ConsultsAll nodes log answers →
    ∀ {codes : List (Argument Code)}, CompilesArguments functions nodes codes →
      Transcribes host log answers (Code.evalArguments host.recorded codes)
  | .nil, _, .nil => .pure _
  | .text s hs, _, .text _ has =>
    (Transcribes.pure (Argument.text s)).bind ((hs.transcribes has).map _)
  | .text s _, _, .value h _ => absurd rfl (h.ne_text s)
  | .fails _ h, _, hargs => by
    cases hargs with
    | text s _ => cases h
    | value ha _ => exact ((h.transcribes ha).map Argument.value).error
  | .cons h hs, _, hargs => by
    cases hargs with
    | text s _ => cases h
    | value ha has =>
      have hfirst := (h.transcribes ha).map Argument.value
      exact hfirst.bind ((hs.transcribes has).map _)

end

end Evaluation

end Expr

/-! ### Expressions -/

namespace Expression

open Scenario.Expr

variable {e : Expression} {functions : String → Option Arity} {node : Node} {log : List Exchange}
  {answer : Except EvaluationError Float} {σ : Type} {host : Host σ}

def result (e : Expression) : Except EvaluationError Float → Except EvaluationError Float
  | .ok x => if x.isNaN then .error (.notANumber e.source) else .ok x
  | .error cause => .error cause

theorem transcribes (hnode : Compiles functions node e.code) (h : Consults node log answer) :
    Transcribes host log (e.result answer) (e.eval host.recorded) := by
  have hcode : Transcribes host log answer (e.code.eval host.recorded) := h.transcribes hnode
  cases answer with
  | error cause => exact hcode.error
  | ok x =>
    apply hcode.bind_nil
    unfold result
    dsimp only
    split
    · exact .throw _
    · exact .pure x

theorem eval_of_recorded {s t : σ}
    (h : e.eval host.recorded (s, []) = (answer, t, log)) : e.eval host s = (answer, t) := by
  rw [← eval_recorded host e s [], h]

/-- What an expression asks is the one transcript of its tree in which the host gives the
answers. -/
theorem exists_transcript (hnode : Compiles functions node e.code) (host : Host σ) (s : σ) :
    ∃ log answer t, Consults node log answer ∧ host.Gives s log t ∧
      e.eval host.recorded (s, []) = (e.result answer, t, log) ∧
      ∀ log' answer' t', Consults node log' answer' → host.Gives s log' t' →
        log' = log ∧ answer' = answer ∧ t' = t := by
  obtain ⟨log, answer, t, hconsults, hgives⟩ := hnode.exists_consults host s
  refine ⟨log, answer, t, hconsults, hgives, transcribes hnode hconsults s t [] hgives, ?_⟩
  intro log' answer' t' hconsults' hgives'
  have hrun := hconsults.transcribes hnode s t [] hgives
  rw [hconsults'.transcribes hnode s t' [] hgives'] at hrun
  cases hrun
  exact ⟨rfl, rfl, rfl⟩

/-- Expressions ask in order, and only what they depend on. What one asks a host, and what comes of
it, is the one transcript of its tree in which the host gives the answers; nothing but the last
answer in it is an error, and then it is what comes of the expression. A host that gives these
answers is asked the same, and the same comes of it, whatever it would answer to anything else. -/
theorem consults_in_order (he : e.Made) :
    ∃ node, e.source.tree? = some node ∧
      (∀ (σ : Type) (host : Host σ) (s : σ), ∃ log answer t,
        e.eval host.recorded (s, []) = (e.result answer, t, log) ∧
        e.eval host s = (e.result answer, t) ∧
        (∀ log' answer' t', Consults node log' answer' ∧ host.Gives s log' t' ↔
          log' = log ∧ answer' = answer ∧ t' = t) ∧
        EndsWith log answer ∧
        ∀ (τ : Type) (other : Host τ) (u u' : τ), other.Gives u log u' →
          e.eval other.recorded (u, []) = (e.result answer, u', log) ∧
          e.eval other u = (e.result answer, u')) ∧
      ∀ scope other : Scope (Except EvaluationError),
        (∀ exchange ∈ (e.eval scope.stateless.recorded ((), [])).2.2,
          other.ask exchange.query = exchange.answer) →
        e.eval other = e.eval scope := by
  obtain ⟨c, source, hc, hmade⟩ := he
  obtain ⟨functions, node, htree, hnode⟩ := hc.exists_compiles hmade
  refine ⟨node, htree, ?_, ?_⟩
  · intro σ host s
    obtain ⟨log, answer, t, hconsults, hgives, hrun, hunique⟩ := exists_transcript hnode host s
    refine ⟨log, answer, t, hrun, eval_of_recorded hrun, ?_, hconsults.endsWith, ?_⟩
    · intro log' answer' t'
      refine ⟨fun h => hunique log' answer' t' h.1 h.2, ?_⟩
      rintro ⟨rfl, rfl, rfl⟩
      exact ⟨hconsults, hgives⟩
    · intro τ other u u' hother
      have hrun' := transcribes hnode hconsults u u' [] hother
      exact ⟨hrun', eval_of_recorded hrun'⟩
  · intro scope other hsame
    obtain ⟨log, answer, t, hconsults, -, hrun, -⟩ := exists_transcript hnode scope.stateless ()
    rw [hrun] at hsame
    have hrun' := transcribes hnode hconsults () () [] ((Host.gives_stateless other).2 hsame)
    have heval := eval_of_recorded hrun
    rw [eval_stateless] at heval
    have heval' := eval_of_recorded hrun'
    rw [eval_stateless] at heval'
    exact (congrArg Prod.fst heval').trans (congrArg Prod.fst heval).symm

/-! ### A doubt -/

/-- A table that knows `hope` and nothing else. -/
def doubt : Scope (Except EvaluationError) where
  value n := if n = "hope" then .ok 0.0 else .error (.unknown .variable n)
  call _ _ := .ok 1.0

theorem tree?_doubt : (Source.text "hope && fear").tree? =
    some (.operator .andThen (.name "hope") (.name "fear")) := by
  have hhope : ProperName "hope" := ⟨.part rfl (List.all_eq_true.1 rfl), by decide, by decide⟩
  have hfear : ProperName "fear" := ⟨.part rfl (List.all_eq_true.1 rfl), by decide, by decide⟩
  have hand : Spelling (.mark .andThen) ['&', '&'] := .mark (List.mem_cons_self ..)
  exact Source.tree?_of_written (.space (.name hhope) (.space hand (.last (.name hfear))))

/-- Without hope nobody asks for fear. -/
theorem consults_in_order_doubt :
    ∃ e, (({} : Compiler).compile (.text "hope && fear")).1 = .ok e ∧ e.Made ∧
      e.eval doubt = .ok 0.0 ∧ (e.eval doubt.stateless.recorded ((), [])).2.2.length = 1 ∧
      ∀ other : Scope (Except EvaluationError), other.value "hope" = .ok 0.0 →
        e.eval other = .ok 0.0 := by
  have hcheck : checkText (({} : Compiler).functions[·]?) "hope && fear" =
      .ok (.operator .andThen (.name "hope") (.name "fear")) :=
    checkText_eq_ok_iff.2 ⟨_, tree?_doubt, .operator .andThen (.name "hope") (.name "fear")⟩
  have hcompile : (({} : Compiler).compile (.text "hope && fear")).1 =
      .ok ⟨.text "hope && fear", .operator .andThen (.name "hope") (.name "fear"), some 0⟩ := by
    rw [Compiler.compile_of_new (by simp), hcheck]
    rfl
  refine ⟨_, hcompile, ⟨{}, _, .new, hcompile⟩, ?_⟩
  obtain ⟨node, htree, hhosts, htables⟩ := consults_in_order ⟨{}, _, .new, hcompile⟩
  cases tree?_doubt.symm.trans htree
  obtain ⟨log, answer, t, hrun, heval, hunique, -, -⟩ := hhosts Unit doubt.stateless ()
  have hfalse : truthy 0.0 = false := by decide
  have hgives : doubt.stateless.Gives () [⟨.name "hope", .ok 0.0⟩] () := by
    rw [Host.gives_stateless, List.forall_mem_singleton]
    rfl
  obtain ⟨rfl, rfl, -⟩ := (hunique _ _ _).1 ⟨.andSkips _ (.name "hope" _) hfalse, hgives⟩
  rw [eval_stateless] at heval
  have hdoubt := congrArg Prod.fst heval
  refine ⟨hdoubt, ?_, ?_⟩
  · rw [hrun]
    rfl
  · intro other hother
    rw [htables doubt other ?_]
    · exact hdoubt
    · rw [hrun]
      exact List.forall_mem_singleton.2 hother

end Expression

end Scenario
