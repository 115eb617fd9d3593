import Scenario.Proofs.Caching
import Scenario.Proofs.Hosts

/-!
What compilers reject, and what evaluation is spared by that. A watched evaluation leaves a list of
the operations that it comes to; for an expression that was accepted, all of them make sense.
-/

namespace Scenario

namespace Expr

/-! ### Operations -/

inductive Operation
  | asked (query : Query)
  | applied (function : Builtin) (values : List Float)

/-- Operations that make sense: functions of the language get as many values as they take, and
functions of the host are registered and get as many arguments as they take. -/
inductive Operation.Accepted (functions : String → Option Arity) : Operation → Prop
  | name (n : String) : Accepted functions (.asked (.name n))
  | call {f : String} {arity : Arity} {args : List (Argument Float)}
    (hf : Builtin.ofName? f = none) (harity : functions f = some arity)
    (haccepts : arity.accepts args.length) : Accepted functions (.asked (.call f args))
  | applied {b : Builtin} {values : List Float} (haccepts : b.arity.accepts values.length) :
    Accepted functions (.applied b values)

section Watching

variable {σ : Type}

def Host.watched (host : Host σ) : Host (σ × List Operation) :=
  .ofAsk fun q (s, done) =>
    let (answer, s) := host.ask q s
    (answer, s, done ++ [.asked q])

def Builtin.watched (b : Builtin) (values : List Float) : Asking (σ × List Operation) Float :=
  fun (s, done) => (.ok (b.apply values), s, done ++ [.applied b values])

def Code.watch (code : Code) (host : Host σ) : Asking (σ × List Operation) Float :=
  code.evalWith Builtin.watched host.watched

theorem Code.eval_watch (code : Code) (host : Host σ) (s : σ) (done : List Operation) :
    ((code.watch host (s, done)).1, (code.watch host (s, done)).2.1) = code.eval host s := by
  rw [← code.evalWith_apply host]
  exact lockstep_beside.evalWith ⟨fun _ _ _ => rfl, fun _ _ _ _ => rfl⟩
    (fun _ _ _ _ => rfl) code s done

end Watching

/-! ### Obedience -/

/-- All that is done makes sense, if it did so before, and what comes of it has a property. -/
def Obeys {σ α : Type} (functions : String → Option Arity) (Q : α → Prop)
    (x : Asking (σ × List Operation) α) : Prop :=
  ∀ s done, (∀ op ∈ done, op.Accepted functions) →
    (∀ op ∈ (x (s, done)).2.2, op.Accepted functions) ∧ ∀ a, (x (s, done)).1 = .ok a → Q a

namespace Obeys

variable {σ α β : Type} {functions : String → Option Arity} {Q : α → Prop} {R : β → Prop}
  {x : Asking (σ × List Operation) α} {f : α → Asking (σ × List Operation) β}

protected theorem pure {a : α} (h : Q a) :
    Obeys functions Q (pure a : Asking (σ × List Operation) α) := by
  intro s done hdone
  refine ⟨hdone, ?_⟩
  rintro _ ⟨⟩
  exact h

theorem throw (e : EvaluationError) :
    Obeys functions Q (throw e : Asking (σ × List Operation) α) :=
  fun _ _ hdone => ⟨hdone, nofun⟩

theorem bind (hx : Obeys functions Q x) (hf : ∀ a, Q a → Obeys functions R (f a)) :
    Obeys functions R (x >>= f) := by
  intro s done hdone
  obtain ⟨hdone', hresult⟩ := hx s done hdone
  rcases hrun : x (s, done) with ⟨e | a, s', done'⟩
  · rw [Asking.bind_of_error hrun]
    rw [hrun] at hdone'
    exact ⟨hdone', nofun⟩
  · rw [Asking.bind_of_ok hrun]
    rw [hrun] at hdone' hresult
    exact hf a (hresult a rfl) s' done' hdone'

theorem map (hx : Obeys functions Q x) (f : α → β) :
    Obeys functions (fun _ => True) (x >>= fun a => pure (f a)) :=
  hx.bind fun _ _ => .pure trivial

theorem ask (host : Host σ) {q : Query} (h : (Operation.asked q).Accepted functions) :
    Obeys functions (fun _ => True) (host.watched.ask q) := by
  intro s done hdone
  refine ⟨?_, fun _ _ => trivial⟩
  rw [Host.watched, Scope.ask_ofAsk]
  exact List.forall_mem_append.2 ⟨hdone, List.forall_mem_singleton.2 h⟩

theorem apply {b : Builtin} {values : List Float} (h : b.arity.accepts values.length) :
    Obeys functions (fun _ => True)
      (b.watched values : Asking (σ × List Operation) Float) := by
  intro s done hdone
  refine ⟨?_, fun _ _ => trivial⟩
  exact List.forall_mem_append.2 ⟨hdone, List.forall_mem_singleton.2 (.applied h)⟩

end Obeys

section Evaluation

variable {functions : String → Option Arity} {σ : Type} (host : Host σ)

mutual

theorem Compiles.obeys {node : Node} {code : Code} : Compiles functions node code →
    Obeys functions (fun _ => True) (code.watch host)
  | .number _ => .pure trivial
  | .name n => .ask host (.name n)
  | .not h | .negate h => h.obeys.map _
  | .plus h => h.obeys
  | .operator op hl hr => by
    have hleft := hl.obeys
    have hright := hr.obeys
    -- Two operators may leave out their right side, where nothing more is done.
    cases op with
    | andThen =>
      apply hleft.bind
      intro x _
      split
      · exact hright
      · exact .pure trivial
    | orElse =>
      apply hleft.bind
      intro x _
      split
      · exact .pure trivial
      · exact hright
    | _ => exact hleft.bind fun _ _ => hright.map _
  | .choose hc ha hb => by
    have hyes := ha.obeys
    have hno := hb.obeys
    apply hc.obeys.bind
    intro x _
    split
    · exact hyes
    · exact hno
  | .builtin _ haccepts h => h.obeys.bind fun _ hlength => .apply (hlength.symm ▸ haccepts)
  | .host hf harity haccepts h =>
    h.obeys.bind fun _ hlength => .ask host (.call hf harity (hlength.symm ▸ haccepts))

theorem CompilesAll.obeys {nodes : List Node} {codes : List Code} :
    CompilesAll functions nodes codes → Obeys functions (fun xs => xs.length = nodes.length)
      (Code.evalAllWith Builtin.watched host.watched codes)
  | .nil => .pure rfl
  | .cons h hs =>
    h.obeys.bind fun _ _ => hs.obeys.bind fun _ hlength => .pure (congrArg (· + 1) hlength)

theorem CompilesArguments.obeys {nodes : List Node} {codes : List (Argument Code)} :
    CompilesArguments functions nodes codes → Obeys functions (fun xs => xs.length = nodes.length)
      (Code.evalArgumentsWith Builtin.watched host.watched codes)
  | .nil => .pure rfl
  | .text s hs => hs.obeys.bind fun _ hlength => .pure (congrArg (· + 1) hlength)
  | .value h hs =>
    (h.obeys.map Argument.value).bind fun _ _ =>
      hs.obeys.bind fun _ hlength => .pure (congrArg (· + 1) hlength)

end

end Evaluation

end Expr

/-! ### Texts -/

namespace Expression

open Scenario.Expr

variable {σ : Type}

def watch (e : Expression) (host : Host σ) : Asking (σ × List Operation) Float := do
  let x ← e.code.watch host
  if x.isNaN then throw (.notANumber e.source) else return x

theorem eval_watch (e : Expression) (host : Host σ) (s : σ) (done : List Operation) :
    ((e.watch host (s, done)).1, (e.watch host (s, done)).2.1) = e.eval host s := by
  refine lockstep_beside.bind (e.code.eval_watch host) (fun x => ?_) s done
  split
  · exact lockstep_beside.throw _ rfl
  · exact lockstep_beside.pure x

theorem watch_accepted {functions : String → Option Arity} {node : Node} {e : Expression}
    (h : Compiles functions node e.code) (host : Host σ) (s : σ) :
    ∀ op ∈ (e.watch host (s, [])).2.2, op.Accepted functions := by
  have hobeys : Obeys functions (fun _ => True) (e.watch host) := by
    apply (h.obeys host).bind
    intro x _
    split
    · exact .throw _
    · exact .pure trivial
  exact (hobeys s [] (List.forall_mem_nil _)).1

end Expression

namespace Compiler

variable {c : Compiler}

/-- A compiler has not seen a source before, or it is one that compilers do not keep. -/
def Unseen (c : Compiler) : Source → Prop
  | .number _ => True
  | .text s => c.entries[s]? = none

theorem exists_compiles_of_unseen {source : Source} (hnew : c.Unseen source) {e : Expression}
    (he : (c.compile source).1 = .ok e) :
    ∃ node, source.tree? = some node ∧ Expr.Compiles (c.functions[·]?) node e.code := by
  cases source with
  | number x =>
    cases he
    exact ⟨_, rfl, .number x⟩
  | text s =>
    rw [compile_of_new hnew] at he
    split at he
    · cases he
    · rename_i code hcheck
      cases he
      exact checkText_eq_ok_iff.1 hcheck

/-- Compilers reject a text that they have not seen before exactly if it has no tokens, its tokens
have no tree, or a part of the tree breaks a rule: it calls what is no function, it calls a function
with more or fewer arguments than it takes, or it is text that is no direct argument of a function
of the host. They report the first of these, parts in the order in which they begin. Evaluation of
what they accept comes to no operation that makes no sense, whatever the host. -/
theorem rejects_exactly (c : Compiler) {text : String} (hnew : c.Unseen (.text text)) :
    ((∃ cause, (c.compile (.text text)).1 = .error cause) ↔
      (∃ fault, Expr.lex text = .error fault) ∨
      (∃ tokens fault, Expr.lex text = .ok tokens ∧ Expr.parse tokens = .error fault) ∨
      ∃ node, (Source.text text).tree? = some node ∧ ∃ site ∈ node.sites none, ∃ fault,
        Expr.Violation (c.functions[·]?) site fault) ∧
    (∀ cause, (c.compile (.text text)).1 = .error cause ↔
      ∃ fault, cause = .expression text fault ∧ Refuses (c.functions[·]?) text fault) ∧
    ∀ source e, c.Unseen source → (c.compile source).1 = .ok e →
      ∀ (σ : Type) (host : Expr.Host σ) (s : σ),
        ((e.watch host (s, [])).1, (e.watch host (s, [])).2.1) = e.eval host s ∧
        ∀ op ∈ (e.watch host (s, [])).2.2, op.Accepted (c.functions[·]?) := by
  have hfails (cause : DefinitionError) : (c.compile (.text text)).1 = .error cause ↔
      ∃ fault, cause = .expression text fault ∧ Refuses (c.functions[·]?) text fault :=
    compile_eq_error_iff.trans (and_iff_right hnew)
  refine ⟨?_, hfails, ?_⟩
  · constructor
    · rintro ⟨cause, hcause⟩
      obtain ⟨fault, -, hrefuses⟩ := (hfails cause).1 hcause
      cases hrefuses with
      | characters h => exact .inl ⟨_, h⟩
      | grammar hlex h => exact .inr (.inl ⟨_, _, hlex, h⟩)
      | part htree hsites _ h =>
        refine .inr (.inr ⟨_, htree, _, ?_, _, h⟩)
        rw [hsites]
        exact List.mem_append_right _ List.mem_cons_self
    · intro h
      cases hresult : (c.compile (.text text)).1 with
      | error cause => exact ⟨cause, rfl⟩
      | ok e =>
        obtain ⟨node, htree, hsound⟩ := (exists_ok_iff_of_new hnew).1 ⟨e, hresult⟩
        obtain ⟨tokens, hlex, hparse⟩ := Source.tree?_text_eq_some.1 htree
        obtain ⟨fault, hfault⟩ | ⟨tokens', fault, hlex', hfault⟩ |
          ⟨node', htree', site, hsite, fault, hviolation⟩ := h
        · cases hfault.symm.trans hlex
        · cases hlex'.symm.trans hlex
          cases hfault.symm.trans hparse
        · cases htree'.symm.trans htree
          exact absurd ⟨fault, hviolation⟩ (hsound site hsite)
  · intro source e hsource he σ host s
    obtain ⟨node, -, hnode⟩ := exists_compiles_of_unseen hsource he
    exact ⟨e.eval_watch host s [], Expression.watch_accepted hnode host s⟩

/-! ### The greatest of a text and nothing -/

theorem tree?_greatest : (Source.text "max ( 'a' , g ( ) )").tree? =
    some (.call "max" [.text "a", .call "g" []]) := by
  have hmax : Expr.ProperName "max" := ⟨.part rfl (List.all_eq_true.1 rfl), by decide, by decide⟩
  have hg : Expr.ProperName "g" := ⟨.part rfl (List.all_eq_true.1 rfl), by decide, by decide⟩
  have htext : Expr.Spelling (.text "a") _ := .text (.inr rfl) "a"
  have hopen : Expr.Spelling (.mark .open) ['('] := .mark (List.mem_cons_self ..)
  have hclose : Expr.Spelling (.mark .close) [')'] := .mark (List.mem_cons_self ..)
  have hcomma : Expr.Spelling (.mark .comma) [','] := .mark (List.mem_cons_self ..)
  have hcall := Expr.Written.space (.name hg) (.space hopen (.space hclose (.last hclose)))
  exact Source.tree?_of_written
    (.space (.name hmax) (.space hopen (.space htext (.space hcomma hcall))))

/-- The text is blamed, which comes before the call of what is no function. -/
theorem rejects_exactly_greatest :
    Compiler.Unseen {} (.text "max ( 'a' , g ( ) )") ∧
      (({} : Compiler).compile (.text "max ( 'a' , g ( ) )")).1 =
        .error (.expression "max ( 'a' , g ( ) )" (.grammar .strayText)) := by
  have hnew : Compiler.Unseen {} (.text "max ( 'a' , g ( ) )") := by simp [Unseen]
  have hmax : ∀ earlier ∈ [Expr.Site.mk none (.call "max" [.text "a", .call "g" []])], ∀ fault,
      ¬ Expr.Violation (({} : Compiler).functions[·]?) earlier fault := by
    intro earlier hmem fault h
    cases List.mem_singleton.1 hmem
    cases Expr.Site.fault?_eq_some_iff.2 h
  have htext :
      Expr.Violation (({} : Compiler).functions[·]?) ⟨some "max", .text "a"⟩ .strayText := by
    apply Expr.Violation.strayText
    rintro _ ⟨⟩ ⟨hbuiltin, -⟩
    cases hbuiltin
  exact ⟨hnew, ((rejects_exactly {} hnew).2.1 _).2 ⟨_, rfl, .part tree?_greatest rfl hmax htext⟩⟩

end Compiler

end Scenario
