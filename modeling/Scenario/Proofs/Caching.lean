import Mathlib.Data.Finset.Card
import Scenario.Proofs.Building

/-!
What compilers remember. As long as no function is registered anew, a compiler makes of every source
what a new one would make of it that knows the same functions, however long it has been in use; and
it gives the very same expression for a text whenever it is asked for it.
-/

namespace Scenario

/-! ### Expressions that nobody can tell apart -/

theorem Expression.eval_congr {m : Type → Type} [Monad m] [MonadExceptOf EvaluationError m]
    {e e' : Expression} (hsource : e.source = e'.source) (hcode : e.code = e'.code)
    (scope : Expr.Scope m) : e.eval scope = e'.eval scope := by
  unfold eval
  rw [hsource, hcode]

/-- Compiling failed alike, or it gave expressions of one source that have the same value in every
scope. -/
inductive Indistinct :
    Except DefinitionError Expression → Except DefinitionError Expression → Prop
  | error (cause : DefinitionError) : Indistinct (.error cause) (.error cause)
  | ok {e e' : Expression} (hsource : e.source = e'.source)
    (heval : ∀ {m : Type → Type} [Monad m] [MonadExceptOf EvaluationError m] (scope : Expr.Scope m),
      e.eval scope = e'.eval scope) : Indistinct (.ok e) (.ok e')

/-! ### A function more -/

namespace Expr

variable {functions : String → Option Arity} {name : String} {arity : Arity}

def withFunction (functions : String → Option Arity) (name : String) (arity : Arity) :
    String → Option Arity :=
  fun f => if name = f then some arity else functions f

theorem withFunction_of_some (hnew : functions name = none) {f : String} {a : Arity}
    (h : functions f = some a) : withFunction functions name arity f = some a := by
  have hne : name ≠ f := by
    rintro rfl
    cases hnew.symm.trans h
  rw [withFunction, if_neg hne, h]

theorem arity?_withFunction (hname : Builtin.ofName? name = none) (f : String) :
    arity? (withFunction functions name arity) f =
      if name = f then some arity else arity? functions f := by
  unfold arity? withFunction
  by_cases hsame : name = f
  · subst hsame
    simp [hname]
  · simp [hsame]

theorem IsHost.withFunction (hnew : functions name = none) {f : String}
    (h : IsHost functions f) : IsHost (withFunction functions name arity) f := by
  obtain ⟨a, ha⟩ := Option.isSome_iff_exists.1 h.2
  exact ⟨h.1, Option.isSome_iff_exists.2 ⟨a, withFunction_of_some hnew ha⟩⟩

theorem isHost_withFunction (hname : Builtin.ofName? name = none) :
    IsHost (Expr.withFunction functions name arity) name :=
  ⟨hname, by simp [Expr.withFunction]⟩

/-- What is wrong with a part of an expression only as long as a function is missing. -/
inductive Site.NeedsFunction (name : String) (arity : Arity) : Site → Prop
  | call (caller : Option String) {args : List Node} (h : arity.accepts args.length) :
    NeedsFunction name arity ⟨caller, .call name args⟩
  | text (s : String) : NeedsFunction name arity ⟨some name, .text s⟩

theorem Violation.of_withFunction (hname : Builtin.ofName? name = none)
    (hnew : functions name = none) {site : Site} {fault : CodeFault}
    (h : Violation (withFunction functions name arity) site fault) :
    (∃ fault, Violation functions site fault) ∧ ¬ site.NeedsFunction name arity := by
  cases h with
  | @unknown caller f args h =>
    rw [arity?_withFunction hname] at h
    split at h
    · cases h
    · rename_i hne
      refine ⟨⟨_, .unknown h⟩, ?_⟩
      rintro ⟨⟩
      exact hne rfl
  | @arity caller f args a h hcount =>
    rw [arity?_withFunction hname] at h
    split at h
    · rename_i hsame
      subst hsame
      cases h
      refine ⟨⟨_, .unknown (arity?_eq_none.2 ⟨hname, hnew⟩)⟩, ?_⟩
      rintro ⟨_, haccepts⟩
      rw [hcount] at haccepts
      cases haccepts
    · rename_i hne
      refine ⟨⟨_, .arity h hcount⟩, ?_⟩
      rintro ⟨⟩
      exact hne rfl
  | strayText h =>
    refine ⟨⟨_, .strayText fun f hf hhost => h f hf (hhost.withFunction hnew)⟩, ?_⟩
    rintro ⟨⟩
    exact h name rfl (isHost_withFunction hname)

theorem Violation.withFunction (hname : Builtin.ofName? name = none)
    (hnew : functions name = none) {site : Site} {fault : CodeFault}
    (h : Violation functions site fault) (hneedless : ¬ site.NeedsFunction name arity) :
    ∃ fault, Violation (Expr.withFunction functions name arity) site fault := by
  cases h with
  | @unknown caller f args h =>
    by_cases hsame : name = f
    · -- The function is there now, but it does not take so many arguments.
      subst hsame
      have hcount : arity.accepts args.length = false :=
        Bool.eq_false_iff.2 fun haccepts => hneedless (.call caller haccepts)
      exact ⟨_, .arity (by rw [arity?_withFunction hname, if_pos rfl]) hcount⟩
    · exact ⟨_, .unknown (by rwa [arity?_withFunction hname, if_neg hsame])⟩
  | @arity caller f args a h hcount =>
    have hne : name ≠ f := by
      rintro rfl
      cases (arity?_eq_none.2 ⟨hname, hnew⟩).symm.trans h
    exact ⟨_, .arity (by rwa [arity?_withFunction hname, if_neg hne]) hcount⟩
  | @strayText caller s h =>
    refine ⟨_, .strayText fun f hf hhost => ?_⟩
    have hne : name ≠ f := by
      rintro rfl
      cases hf
      exact hneedless (.text s)
    apply h f hf
    rwa [IsHost, Expr.withFunction, if_neg hne] at hhost

/-- With a function more, just those parts are still wrong that were wrong before, and not for want
of the function. -/
theorem exists_violation_withFunction_iff (hname : Builtin.ofName? name = none)
    (hnew : functions name = none) {site : Site} :
    (∃ fault, Violation (withFunction functions name arity) site fault) ↔
      (∃ fault, Violation functions site fault) ∧ ¬ site.NeedsFunction name arity := by
  constructor
  · rintro ⟨fault, h⟩
    exact h.of_withFunction hname hnew
  · rintro ⟨⟨fault, h⟩, hneedless⟩
    exact h.withFunction hname hnew hneedless

end Expr

namespace Compiler

variable {c : Compiler}

theorem functions_register (c : Compiler) (name : String) (arity : Expr.Arity) :
    ((c.register name arity).functions[·]?) = Expr.withFunction (c.functions[·]?) name arity := by
  funext f
  exact getElem?_insert_id ..

/-! ### Logs -/

/-- What a compiler was asked to compile so far and what came of it, if no function was registered
that was registered before. -/
inductive Logged : List (Source × Except DefinitionError Expression) → Compiler → Prop
  | new : Logged [] {}
  | compile {log : List (Source × Except DefinitionError Expression)} {c : Compiler}
    (h : Logged log c) (source : Source) :
    Logged (log ++ [(source, (c.compile source).1)]) (c.compile source).2
  | register {log : List (Source × Except DefinitionError Expression)} {c : Compiler}
    (h : Logged log c) {name : String} (hnew : c.functions[name]? = none) (arity : Expr.Arity) :
    Logged log (c.register name arity)

/-- Entries are what their texts are checked to now, they are what was accepted so far, and each of
them has a number of its own. -/
structure Faithful (log : List (Source × Except DefinitionError Expression)) (c : Compiler) :
    Prop where
  checked : ∀ (text : String) (e : Expression), c.entries[text]? = some e →
    e.source = .text text ∧ checkText (c.functions[·]?) text = .ok e.code
  logged : ∀ (text : String) (e : Expression),
    c.entries[text]? = some e ↔ (Source.text text, .ok e) ∈ log
  numbered : ∀ (text : String) (e : Expression), c.entries[text]? = some e →
    ∃ n < c.size, e.entry = some n
  apart : ∀ (text text' : String) (e e' : Expression), c.entries[text]? = some e →
    c.entries[text']? = some e' → e.entry = e'.entry → text = text'

namespace Faithful

variable {log : List (Source × Except DefinitionError Expression)}

theorem new : Faithful [] {} where
  checked _ _ h := by simp at h
  logged _ _ := by simp
  numbered _ _ h := by simp at h
  apart _ _ _ _ h := by simp at h

theorem register (h : Faithful log c) {name : String} (hnew : c.functions[name]? = none)
    (arity : Expr.Arity) : Faithful log (c.register name arity) where
  checked text e he := by
    obtain ⟨hsource, hcheck⟩ := h.checked text e he
    obtain ⟨node, htree, hnode⟩ := checkText_eq_ok_iff.1 hcheck
    rw [functions_register]
    have hmore (f : String) (a : Expr.Arity) (ha : c.functions[f]? = some a) :
        Expr.withFunction (c.functions[·]?) name arity f = some a :=
      Expr.withFunction_of_some hnew ha
    exact ⟨hsource, checkText_eq_ok_iff.2 ⟨node, htree, hnode.mono hmore⟩⟩
  logged := h.logged
  numbered := h.numbered
  apart := h.apart

/-- What is compiled again, or fails, leaves the entries as they are. -/
theorem again (h : Faithful log c) {source : Source} {answer : Except DefinitionError Expression}
    (hanswer : ∀ text e, source = .text text → answer = .ok e → c.entries[text]? = some e) :
    Faithful (log ++ [(source, answer)]) c where
  checked := h.checked
  logged text e := by
    rw [h.logged, List.mem_append, List.mem_singleton, Prod.mk.injEq]
    constructor
    · exact .inl
    · rintro (hlog | ⟨hsource, he⟩)
      · exact hlog
      · exact (h.logged text e).1 (hanswer text e hsource.symm he.symm)
  numbered := h.numbered
  apart := h.apart

theorem add (h : Faithful log c) {text : String} {code : Expr.Code}
    (hnew : c.entries[text]? = none) (hcode : checkText (c.functions[·]?) text = .ok code) :
    Faithful (log ++ [(.text text, .ok ⟨.text text, code, some c.size⟩)])
      { c with entries := c.entries.insert text ⟨.text text, code, some c.size⟩ } := by
  have hsize : Compiler.size
      { c with entries := c.entries.insert text ⟨.text text, code, some c.size⟩ } = c.size + 1 := by
    have habsent : c.entries.contains text = false := by rw [contains_eq_isSome, hnew]; rfl
    unfold Compiler.size
    rw [Std.ExtTreeMap.size_insert, habsent]
    rfl
  constructor
  · intro t e he
    dsimp only at he
    rw [getElem?_insert_id] at he
    split at he
    · rename_i hsame
      subst hsame
      cases he
      exact ⟨rfl, hcode⟩
    · exact h.checked t e he
  · intro t e
    dsimp only
    rw [getElem?_insert_id, List.mem_append, List.mem_singleton, ← h.logged]
    split
    · rename_i hsame
      subst hsame
      simp [hnew, eq_comm]
    · rename_i hne
      simp [Ne.symm hne]
  · intro t e he
    dsimp only at he
    rw [getElem?_insert_id] at he
    rw [hsize]
    split at he
    · cases he
      exact ⟨c.size, Nat.lt_succ_self _, rfl⟩
    · obtain ⟨n, hn, hentry⟩ := h.numbered t e he
      exact ⟨n, Nat.lt_succ_of_lt hn, hentry⟩
  · intro t t' e e' he he' hentry
    dsimp only at he he'
    rw [getElem?_insert_id] at he he'
    split at he <;> split at he'
    · rename_i hsame hsame'
      exact hsame.symm.trans hsame'
    -- The number of the new entry is greater than those of the others.
    · cases he
      obtain ⟨n, hn, hnumber⟩ := h.numbered t' e' he'
      cases hentry.trans hnumber
      exact absurd hn (Nat.lt_irrefl _)
    · cases he'
      obtain ⟨n, hn, hnumber⟩ := h.numbered t e he
      cases hnumber.symm.trans hentry
      exact absurd hn (Nat.lt_irrefl _)
    · exact h.apart t t' e e' he he' hentry

theorem compile (h : Faithful log c) (source : Source) :
    Faithful (log ++ [(source, (c.compile source).1)]) (c.compile source).2 := by
  cases source with
  | number x => exact h.again nofun
  | text s =>
    obtain ⟨e, hentry, hc⟩ | ⟨hnew, ⟨fault, -, hc⟩ | ⟨code, hcode, hc⟩⟩ := compile_text c s
    · rw [hc]
      apply h.again
      rintro _ _ ⟨⟩ ⟨⟩
      exact hentry
    · rw [hc]
      exact h.again nofun
    · rw [hc]
      exact h.add hnew hcode

end Faithful

theorem Logged.faithful {log : List (Source × Except DefinitionError Expression)}
    (h : Logged log c) : Faithful log c := by
  induction h with
  | new => exact .new
  | compile _ source ih => exact ih.compile source
  | register _ hnew arity ih => exact ih.register hnew arity

/-! ### What is remembered -/

def acceptedTexts (log : List (Source × Except DefinitionError Expression)) : List String :=
  log.filterMap fun
    | (.text s, .ok _) => some s
    | _ => none

theorem mem_acceptedTexts {log : List (Source × Except DefinitionError Expression)}
    {text : String} : text ∈ acceptedTexts log ↔ ∃ e, (Source.text text, .ok e) ∈ log := by
  unfold acceptedTexts
  rw [List.mem_filterMap]
  constructor
  · rintro ⟨⟨source, answer⟩, hmem, hentry⟩
    split at hentry
    · rename_i heq
      cases hentry
      cases heq
      exact ⟨_, hmem⟩
    · cases hentry
  · rintro ⟨e, hmem⟩
    exact ⟨_, hmem, rfl⟩

namespace Faithful

variable {log : List (Source × Except DefinitionError Expression)}

theorem indistinct (h : Faithful log c) (source : Source) :
    Indistinct (c.compile source).1
      (Compiler.compile { functions := c.functions } source).1 := by
  cases source with
  | number x => exact .ok rfl fun _ => rfl
  | text s =>
    rw [compile_of_new (c := { functions := c.functions }) (by simp)]
    cases hentry : c.entries[s]? with
    | some e =>
      obtain ⟨hsource, hcheck⟩ := h.checked s e hentry
      rw [compile_of_entry hentry, hcheck]
      exact .ok hsource fun scope => Expression.eval_congr hsource (by rfl) scope
    | none =>
      rw [compile_of_new hentry]
      cases checkText (c.functions[·]?) s with
      | error fault => exact .error _
      | ok code => exact .ok rfl fun scope => Expression.eval_congr rfl rfl scope

theorem size_eq (h : Faithful log c) : c.size = (acceptedTexts log).toFinset.card := by
  have hkeys : (acceptedTexts log).toFinset = c.entries.keys.toFinset := by
    ext text
    rw [List.mem_toFinset, List.mem_toFinset, mem_acceptedTexts, Std.ExtTreeMap.mem_keys,
      Std.ExtTreeMap.mem_iff_isSome_getElem?, Option.isSome_iff_exists]
    exact exists_congr fun e => (h.logged text e).symm
  rw [hkeys, List.toFinset_card_of_nodup Std.ExtTreeMap.nodup_keys, Std.ExtTreeMap.length_keys]
  rfl

end Faithful

theorem compile_eq_error_iff {text : String} {cause : DefinitionError} :
    (c.compile (.text text)).1 = .error cause ↔ c.entries[text]? = none ∧
      ∃ fault, cause = .expression text fault ∧ Refuses (c.functions[·]?) text fault := by
  constructor
  · intro h
    obtain ⟨e, -, hc⟩ | ⟨hnew, ⟨fault, hcheck, hc⟩ | ⟨code, -, hc⟩⟩ := compile_text c text
    · rw [hc] at h
      cases h
    · rw [hc] at h
      cases h
      exact ⟨hnew, fault, rfl, checkText_eq_error_iff.1 hcheck⟩
    · rw [hc] at h
      cases h
  · rintro ⟨hnew, fault, rfl, hrefuses⟩
    rw [compile_of_new hnew, checkText_eq_error_iff.2 hrefuses]

theorem exists_ok_iff_of_new {text : String} (hnew : c.entries[text]? = none) :
    (∃ e, (c.compile (.text text)).1 = .ok e) ↔
      ∃ node, (Source.text text).tree? = some node ∧
        ∀ site ∈ node.sites none, ¬ ∃ fault, Expr.Violation (c.functions[·]?) site fault := by
  simp only [not_exists, ← Expr.exists_compiles_iff]
  rw [compile_of_new hnew]
  constructor
  · rintro ⟨e, he⟩
    split at he
    · cases he
    · rename_i code hcheck
      obtain ⟨node, htree, hnode⟩ := checkText_eq_ok_iff.1 hcheck
      exact ⟨node, htree, code, hnode⟩
  · rintro ⟨node, htree, code, hnode⟩
    rw [checkText_eq_ok_iff.2 ⟨node, htree, hnode⟩]
    exact ⟨_, rfl⟩

/-- A text without an entry is accepted when a function is registered exactly if nothing else is
wrong with it than that this function is missing. -/
theorem compile_register_iff {text name : String} {arity : Expr.Arity} {node : Expr.Node}
    (hnew : c.entries[text]? = none) (hbuiltin : Expr.Builtin.ofName? name = none)
    (hname : c.functions[name]? = none) (htree : (Source.text text).tree? = some node) :
    (∃ e, ((c.register name arity).compile (.text text)).1 = .ok e) ↔
      ∀ site ∈ node.sites none, ∀ fault,
        Expr.Violation (c.functions[·]?) site fault → site.NeedsFunction name arity := by
  rw [exists_ok_iff_of_new (c := c.register name arity) hnew, htree, functions_register]
  simp only [Option.some.injEq, exists_eq_left',
    Expr.exists_violation_withFunction_iff hbuiltin hname, not_and, not_not, forall_exists_index]

/-- Compilers forget nothing and mix nothing up, as long as no function is registered anew. They
make of every source what a new compiler would that knows the same functions, and they give the very
same expression for a text once they have accepted it. Numbers and failures leave nothing behind: a
text that was rejected for an unknown function is accepted as soon as this function is registered,
unless something else is wrong with it. There are as many entries as texts were accepted. -/
theorem cache_transparent {log : List (Source × Except DefinitionError Expression)}
    (h : Logged log c) :
    (∀ source, Indistinct (c.compile source).1
      (Compiler.compile { functions := c.functions } source).1) ∧
    (∀ text e, (Source.text text, .ok e) ∈ log → c.compile (.text text) = (.ok e, c)) ∧
    (∀ text text' e e', (Source.text text, .ok e) ∈ log → (Source.text text', .ok e') ∈ log →
      (e.entry = e'.entry ↔ text = text')) ∧
    (∀ x, (c.compile (.number x)).2 = c) ∧
    (∀ source cause, (c.compile source).1 = .error cause → (c.compile source).2 = c) ∧
    (∀ text name, (c.compile (.text text)).1 =
        .error (.expression text (.unknownFunction name)) →
      c.functions[name]? = none ∧ ∃ node, (Source.text text).tree? = some node ∧ ∀ arity,
        ((∃ e, ((c.register name arity).compile (.text text)).1 = .ok e) ↔
          ∀ site ∈ node.sites none, ∀ fault,
            Expr.Violation (c.functions[·]?) site fault → site.NeedsFunction name arity)) ∧
    c.size = (acceptedTexts log).toFinset.card := by
  have hfaithful := h.faithful
  refine ⟨hfaithful.indistinct, ?_, ?_, fun _ => rfl, ?_, ?_, hfaithful.size_eq⟩
  · intro text e hlog
    exact compile_of_entry ((hfaithful.logged text e).2 hlog)
  · intro text text' e e' hlog hlog'
    have he := (hfaithful.logged text e).2 hlog
    have he' := (hfaithful.logged text' e').2 hlog'
    refine ⟨hfaithful.apart text text' e e' he he', ?_⟩
    rintro rfl
    cases he.symm.trans he'
    rfl
  · intro source cause hcause
    cases source with
    | number x => rfl
    | text s =>
      obtain hkept | ⟨hnew, code, hcode, -⟩ := compile_snd c s
      · exact hkept
      · rw [compile_of_new hnew, hcode] at hcause
        cases hcause
  · intro text name hunknown
    obtain ⟨hnew, fault, hcause, hrefuses⟩ := compile_eq_error_iff.1 hunknown
    cases hcause
    obtain ⟨hbuiltin, hname, node, htree⟩ := hrefuses.unknown
    exact ⟨hname, node, htree, fun arity => compile_register_iff hnew hbuiltin hname htree⟩

/-! ### A bell -/

theorem tree?_ring : (Source.text "ring ( )").tree? = some (.call "ring" []) := by
  have hring : Expr.ProperName "ring" := ⟨.part rfl (List.all_eq_true.1 rfl), by decide, by decide⟩
  have hopen : Expr.Spelling (.mark .open) ['('] := .mark (List.mem_cons_self ..)
  have hclose : Expr.Spelling (.mark .close) [')'] := .mark (List.mem_cons_self ..)
  exact Source.tree?_of_written (.space (.name hring) (.space hopen (.last hclose)))

theorem compile_ring : (({} : Compiler).compile (.text "ring ( )")).1 =
    .error (.expression "ring ( )" (.unknownFunction "ring")) := by
  have hunknown : Expr.Violation (({} : Compiler).functions[·]?) ⟨none, .call "ring" []⟩
      (.unknownFunction "ring") := .unknown (Expr.arity?_eq_none.2 ⟨rfl, by simp⟩)
  exact compile_eq_error_iff.2 ⟨by simp, _, rfl,
    .part tree?_ring (List.nil_append _).symm (List.forall_mem_nil _) hunknown⟩

/-- A call to a bell that is not there yet, and then to the bell. -/
theorem cache_transparent_bell : ∃ log c e, Logged log c ∧
    log = [(.text "ring ( )", .error (.expression "ring ( )" (.unknownFunction "ring"))),
      (.text "ring ( )", .ok e)] ∧
    c.compile (.text "ring ( )") = (.ok e, c) ∧ c.size = 1 := by
  obtain ⟨-, -, -, -, hfailure, hmissing, -⟩ := cache_transparent .new
  have hkept := hfailure (.text "ring ( )") _ compile_ring
  obtain ⟨hnew, node, htree, haccepted⟩ := hmissing "ring ( )" "ring" compile_ring
  cases tree?_ring.symm.trans htree
  have hneeds : ∀ site ∈ (Expr.Node.call "ring" []).sites none, ∀ fault,
      Expr.Violation (({} : Compiler).functions[·]?) site fault →
        site.NeedsFunction "ring" (.exactly 0) := by
    intro site hsite _ _
    cases List.mem_singleton.1 hsite
    exact .call none rfl
  obtain ⟨e, he⟩ := (haccepted (.exactly 0)).2 hneeds
  have hlogged := ((Logged.new.compile (.text "ring ( )")).register (by rw [hkept]; exact hnew)
    (.exactly 0)).compile (.text "ring ( )")
  rw [hkept, compile_ring, he] at hlogged
  obtain ⟨-, hagain, -, -, -, -, hsize⟩ := cache_transparent hlogged
  refine ⟨_, _, e, hlogged, rfl, hagain _ e (by simp), ?_⟩
  rw [hsize]
  rfl

end Compiler

end Scenario
