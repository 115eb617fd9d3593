import Scenario.Expr.Compiler
import Scenario.Proofs.Printing
import Scenario.Proofs.Tables

/-!
What checking accepts and what it blames. A judgement says which code a tree is checked to; the
sites of a tree are its parts in the order in which they begin, and the first of them that breaks a
rule of calls is the one that is reported.
-/

namespace Scenario

namespace Expr

/-! ### What is accepted -/

section Judgement

variable (functions : String → Option Arity)

mutual

/-- A tree is checked to a code: a rule for each kind of tree that makes sense where it stands. -/
inductive Compiles : Node → Code → Prop
  | number (x : Float) : Compiles (.number x) (.number x)
  | name (n : String) : Compiles (.name n) (.name n)
  | not {a : Node} {a' : Code} (h : Compiles a a') : Compiles (.sign .not a) (.not a')
  | negate {a : Node} {a' : Code} (h : Compiles a a') : Compiles (.sign .negate a) (.negate a')
  | plus {a : Node} {a' : Code} (h : Compiles a a') : Compiles (.sign .plus a) a'
  | operator (op : Operator) {l r : Node} {l' r' : Code} (hl : Compiles l l')
    (hr : Compiles r r') : Compiles (.operator op l r) (.operator op l' r')
  | choose {c a b : Node} {c' a' b' : Code} (hc : Compiles c c') (ha : Compiles a a')
    (hb : Compiles b b') : Compiles (.choose c a b) (.choose c' a' b')
  | builtin {f : String} {b : Builtin} {args : List Node} {codes : List Code}
    (hf : Builtin.ofName? f = some b) (haccepts : b.arity.accepts args.length)
    (h : CompilesAll args codes) : Compiles (.call f args) (.builtin b codes)
  | host {f : String} {arity : Arity} {args : List Node} {codes : List (Argument Code)}
    (hf : Builtin.ofName? f = none) (harity : functions f = some arity)
    (haccepts : arity.accepts args.length) (h : CompilesArguments args codes) :
    Compiles (.call f args) (.host f codes)

inductive CompilesAll : List Node → List Code → Prop
  | nil : CompilesAll [] []
  | cons {a : Node} {a' : Code} {as : List Node} {as' : List Code} (h : Compiles a a')
    (hs : CompilesAll as as') : CompilesAll (a :: as) (a' :: as')

inductive CompilesArguments : List Node → List (Argument Code) → Prop
  | nil : CompilesArguments [] []
  | text (s : String) {as : List Node} {as' : List (Argument Code)}
    (hs : CompilesArguments as as') : CompilesArguments (.text s :: as) (.text s :: as')
  | value {a : Node} {a' : Code} {as : List Node} {as' : List (Argument Code)}
    (h : Compiles a a') (hs : CompilesArguments as as') :
    CompilesArguments (a :: as) (.value a' :: as')

end

end Judgement

variable {functions : String → Option Arity}

namespace Code

theorem ofArguments_cons {a : Node} (h : ∀ s, a ≠ .text s) (as : List Node) :
    ofArguments functions (a :: as) = do
      let a ← ofNode functions a
      let as ← ofArguments functions as
      return .value a :: as := by
  cases a with
  | text s => exact absurd rfl (h s)
  | _ => rfl

mutual

theorem compiles_ofNode : ∀ (node : Node) (code : Code),
    ofNode functions node = .ok code → Compiles functions node code
  | .number x, _, h => by
    cases h
    exact .number x
  | .text _, _, h => by cases h
  | .name n, _, h => by
    cases h
    exact .name n
  | .sign .not a, _, h => by
    obtain ⟨a', ha, h⟩ := exists_ok_of_bind h
    cases h
    exact .not (compiles_ofNode a a' ha)
  | .sign .negate a, _, h => by
    obtain ⟨a', ha, h⟩ := exists_ok_of_bind h
    cases h
    exact .negate (compiles_ofNode a a' ha)
  | .sign .plus a, code, h => .plus (compiles_ofNode a code h)
  | .operator op l r, _, h => by
    obtain ⟨l', hl, h⟩ := exists_ok_of_bind h
    obtain ⟨r', hr, h⟩ := exists_ok_of_bind h
    cases h
    exact .operator op (compiles_ofNode l l' hl) (compiles_ofNode r r' hr)
  | .choose c a b, _, h => by
    obtain ⟨c', hc, h⟩ := exists_ok_of_bind h
    obtain ⟨a', ha, h⟩ := exists_ok_of_bind h
    obtain ⟨b', hb, h⟩ := exists_ok_of_bind h
    cases h
    exact .choose (compiles_ofNode c c' hc) (compiles_ofNode a a' ha) (compiles_ofNode b b' hb)
  | .call f args, _, h => by
    have hall := compiles_ofNodes args
    have harguments := compiles_ofArguments args
    unfold ofNode at h
    split at h
    · rename_i b hb
      split at h
      · rename_i haccepts
        obtain ⟨codes, hcodes, h⟩ := exists_ok_of_bind h
        cases h
        exact .builtin hb haccepts (hall codes hcodes)
      · cases h
    · rename_i hb
      split at h
      · cases h
      · rename_i arity harity
        split at h
        · rename_i haccepts
          obtain ⟨codes, hcodes, h⟩ := exists_ok_of_bind h
          cases h
          exact .host hb harity haccepts (harguments codes hcodes)
        · cases h

theorem compiles_ofNodes : ∀ (nodes : List Node) (codes : List Code),
    ofNodes functions nodes = .ok codes → CompilesAll functions nodes codes
  | [], _, h => by
    cases h
    exact .nil
  | a :: as, _, h => by
    obtain ⟨a', ha, h⟩ := exists_ok_of_bind h
    obtain ⟨as', has, h⟩ := exists_ok_of_bind h
    cases h
    exact .cons (compiles_ofNode a a' ha) (compiles_ofNodes as as' has)

theorem compiles_ofArguments : ∀ (nodes : List Node) (codes : List (Argument Code)),
    ofArguments functions nodes = .ok codes → CompilesArguments functions nodes codes
  | [], _, h => by
    cases h
    exact .nil
  | a :: as, _, h => by
    have hfirst := compiles_ofNode a
    have hrest := compiles_ofArguments as
    -- Text is taken as it is; anything else is checked as an expression.
    by_cases htext : ∃ s, a = .text s
    · obtain ⟨s, rfl⟩ := htext
      obtain ⟨as', has, h⟩ := exists_ok_of_bind h
      cases h
      exact .text s (hrest as' has)
    · rw [ofArguments_cons (not_exists.1 htext)] at h
      obtain ⟨a', ha, h⟩ := exists_ok_of_bind h
      obtain ⟨as', has, h⟩ := exists_ok_of_bind h
      cases h
      exact .value (hfirst a' ha) (hrest as' has)

end

end Code

theorem CompilesAll.length_eq {nodes : List Node} {codes : List Code} :
    CompilesAll functions nodes codes → codes.length = nodes.length
  | .nil => rfl
  | .cons _ hs => congrArg (· + 1) hs.length_eq

theorem Compiles.ne_text {node : Node} {code : Code} (h : Compiles functions node code)
    (s : String) : node ≠ .text s := by
  rintro rfl
  cases h

mutual

theorem Compiles.ofNode_eq {node : Node} {code : Code} :
    Compiles functions node code → Code.ofNode functions node = .ok code
  | .number _ => rfl
  | .name _ => rfl
  | .not h => by
    rw [Code.ofNode, h.ofNode_eq]
    rfl
  | .negate h => by
    rw [Code.ofNode, h.ofNode_eq]
    rfl
  | .plus h => h.ofNode_eq
  | .operator _ hl hr => by
    rw [Code.ofNode, hl.ofNode_eq, hr.ofNode_eq]
    rfl
  | .choose hc ha hb => by
    rw [Code.ofNode, hc.ofNode_eq, ha.ofNode_eq, hb.ofNode_eq]
    rfl
  | .builtin hf haccepts h => by
    rw [Code.ofNode, hf, h.ofNodes_eq]
    exact if_pos haccepts
  | .host hf harity haccepts h => by
    rw [Code.ofNode, hf, harity, h.ofArguments_eq]
    exact if_pos haccepts

theorem CompilesAll.ofNodes_eq {nodes : List Node} {codes : List Code} :
    CompilesAll functions nodes codes → Code.ofNodes functions nodes = .ok codes
  | .nil => rfl
  | .cons h hs => by
    rw [Code.ofNodes, h.ofNode_eq, hs.ofNodes_eq]
    rfl

theorem CompilesArguments.ofArguments_eq {nodes : List Node} {codes : List (Argument Code)} :
    CompilesArguments functions nodes codes → Code.ofArguments functions nodes = .ok codes
  | .nil => rfl
  | .text s hs => by
    rw [Code.ofArguments, hs.ofArguments_eq]
    rfl
  | .value h hs => by
    rw [Code.ofArguments_cons h.ne_text, h.ofNode_eq, hs.ofArguments_eq]
    rfl

end

theorem Code.ofNode_eq_ok_iff {node : Node} {code : Code} :
    ofNode functions node = .ok code ↔ Compiles functions node code :=
  ⟨compiles_ofNode node code, Compiles.ofNode_eq⟩

/-! ### More functions -/

section More

variable {more : String → Option Arity}

mutual

theorem Compiles.mono (hmore : ∀ f arity, functions f = some arity → more f = some arity)
    {node : Node} {code : Code} : Compiles functions node code → Compiles more node code
  | .number x => .number x
  | .name n => .name n
  | .not h => .not (h.mono hmore)
  | .negate h => .negate (h.mono hmore)
  | .plus h => .plus (h.mono hmore)
  | .operator op hl hr => .operator op (hl.mono hmore) (hr.mono hmore)
  | .choose hc ha hb => .choose (hc.mono hmore) (ha.mono hmore) (hb.mono hmore)
  | .builtin hf haccepts h => .builtin hf haccepts (h.mono hmore)
  | .host hf harity haccepts h => .host hf (hmore _ _ harity) haccepts (h.mono hmore)

theorem CompilesAll.mono (hmore : ∀ f arity, functions f = some arity → more f = some arity)
    {nodes : List Node} {codes : List Code} :
    CompilesAll functions nodes codes → CompilesAll more nodes codes
  | .nil => .nil
  | .cons h hs => .cons (h.mono hmore) (hs.mono hmore)

theorem CompilesArguments.mono
    (hmore : ∀ f arity, functions f = some arity → more f = some arity)
    {nodes : List Node} {codes : List (Argument Code)} :
    CompilesArguments functions nodes codes → CompilesArguments more nodes codes
  | .nil => .nil
  | .text s hs => .text s (hs.mono hmore)
  | .value h hs => .value (h.mono hmore) (hs.mono hmore)

end

end More

/-! ### What is blamed -/

/-- A part of an expression, with the function of which it is a direct argument, if of any. -/
structure Site where
  caller : Option String
  node : Node

mutual

/-- The parts of a tree, itself first, in the order in which they begin. -/
def Node.sites (caller : Option String) : Node → List Site
  | .number x => [⟨caller, .number x⟩]
  | .text s => [⟨caller, .text s⟩]
  | .name n => [⟨caller, .name n⟩]
  | .sign op a => ⟨caller, .sign op a⟩ :: a.sites none
  | .operator op l r => ⟨caller, .operator op l r⟩ :: (l.sites none ++ r.sites none)
  | .choose c a b =>
    ⟨caller, .choose c a b⟩ :: (c.sites none ++ (a.sites none ++ b.sites none))
  | .call f args => ⟨caller, .call f args⟩ :: Node.argumentSites f args

def Node.argumentSites (f : String) : List Node → List Site
  | [] => []
  | a :: as => a.sites (some f) ++ Node.argumentSites f as

end

section Violations

variable (functions : String → Option Arity)

/-- How many arguments a function takes, if there is one of this name. Functions of the language
hide those of the host. -/
def arity? (f : String) : Option Arity :=
  match Builtin.ofName? f with
  | some b => some b.arity
  | none => functions f

def IsHost (f : String) : Prop := Builtin.ofName? f = none ∧ (functions f).isSome

/-- A part of an expression breaks a rule by itself, whatever is in it. -/
inductive Violation : Site → CodeFault → Prop
  | unknown {caller : Option String} {f : String} {args : List Node}
    (h : arity? functions f = none) : Violation ⟨caller, .call f args⟩ (.unknownFunction f)
  | arity {caller : Option String} {f : String} {args : List Node} {arity : Arity}
    (h : arity? functions f = some arity) (hcount : arity.accepts args.length = false) :
    Violation ⟨caller, .call f args⟩ (.arity f arity.minimum args.length)
  | strayText {caller : Option String} {s : String}
    (h : ∀ f, caller = some f → ¬ IsHost functions f) : Violation ⟨caller, .text s⟩ .strayText

instance (f : String) : Decidable (IsHost functions f) := inferInstanceAs (Decidable (_ ∧ _))

def Site.fault? : Site → Option CodeFault
  | ⟨_, .call f args⟩ =>
    match arity? functions f with
    | none => some (.unknownFunction f)
    | some arity =>
      if arity.accepts args.length then none
      else some (.arity f arity.minimum args.length)
  | ⟨some f, .text _⟩ => if IsHost functions f then none else some .strayText
  | ⟨none, .text _⟩ => some .strayText
  | _ => none

end Violations

theorem arity?_eq_none {f : String} :
    arity? functions f = none ↔ Builtin.ofName? f = none ∧ functions f = none := by
  unfold arity?
  cases Builtin.ofName? f <;> simp

theorem Site.fault?_eq_some_iff {site : Site} {fault : CodeFault} :
    site.fault? functions = some fault ↔ Violation functions site fault := by
  constructor
  · intro h
    obtain ⟨caller, node⟩ := site
    cases node with
    | call f args =>
      cases harity : arity? functions f with
      | none =>
        simp only [fault?, harity] at h
        cases h
        exact .unknown harity
      | some arity =>
        simp only [fault?, harity] at h
        cases hcount : arity.accepts args.length with
        | true => simp [hcount] at h
        | false =>
          simp only [hcount] at h
          cases h
          exact .arity harity hcount
    | text s =>
      cases caller with
      | none =>
        cases h
        exact .strayText nofun
      | some f =>
        by_cases hhost : IsHost functions f
        · cases (if_pos hhost).symm.trans h
        · cases (if_neg hhost).symm.trans h
          apply Violation.strayText
          rintro _ ⟨⟩
          exact hhost
    | _ => cases caller <;> cases h
  · intro h
    cases h with
    | unknown h => simp [fault?, h]
    | arity h hcount => simp [fault?, h, hcount]
    | @strayText caller s h =>
      cases caller with
      | none => rfl
      | some f => exact if_neg (h f rfl)

/-- Checking fails exactly if one of these parts breaks a rule, and then with what the first of
them does that. -/
def Reports {α : Type} (functions : String → Option Arity) (x : Except CodeFault α)
    (sites : List Site) : Prop :=
  ∀ fault, x = .error fault ↔ sites.findSome? (Site.fault? functions) = some fault

namespace Reports

variable {α β : Type}

theorem pure (a : α) : Reports functions (.ok a) [] := fun _ => ⟨nofun, nofun⟩

theorem error {site : Site} {fault : CodeFault} (h : Violation functions site fault)
    (sites : List Site) :
    Reports functions (.error fault : Except CodeFault α) (site :: sites) := by
  intro fault'
  rw [List.findSome?_cons, Site.fault?_eq_some_iff.2 h]
  simp

theorem cons {x : Except CodeFault α} {site : Site} {sites : List Site}
    (hsite : site.fault? functions = none) (h : Reports functions x sites) :
    Reports functions x (site :: sites) := by
  intro fault
  rw [List.findSome?_cons, hsite]
  exact h fault

theorem bind {x : Except CodeFault α} {f : α → Except CodeFault β} {sites sites' : List Site}
    (hx : Reports functions x sites) (hf : ∀ a, Reports functions (f a) sites') :
    Reports functions (x >>= f) (sites ++ sites') := by
  intro fault
  rw [List.findSome?_append]
  cases x with
  | error fault' =>
    rw [(hx fault').1 rfl]
    have hstop : (Except.error fault' >>= f) = Except.error fault' := rfl
    simp [hstop]
  | ok a =>
    have hnone : sites.findSome? (Site.fault? functions) = none := by
      cases hfault : sites.findSome? (Site.fault? functions) with
      | none => rfl
      | some fault' => cases (hx fault').2 hfault
    rw [hnone]
    exact hf a fault

theorem map {x : Except CodeFault α} {sites : List Site} (f : α → β)
    (hx : Reports functions x sites) : Reports functions (x >>= fun a => .ok (f a)) sites := by
  have hbind := hx.bind fun a => pure (f a)
  rwa [List.append_nil] at hbind

end Reports

namespace Code

mutual

/-- Text is reported unless it is a direct argument of a function of the host, where checking does
not come to it as an expression. -/
theorem reports_ofNode : ∀ (node : Node) (caller : Option String),
    (∀ s f, node = .text s → caller = some f → ¬ IsHost functions f) →
    Reports functions (ofNode functions node) (node.sites caller)
  | .number x, _, _ => .cons rfl (.pure _)
  | .text s, caller, h => .error (.strayText fun f => h s f rfl) []
  | .name n, _, _ => .cons rfl (.pure _)
  | .sign .not a, _, _ => .cons rfl ((reports_ofNode a none nofun).map _)
  | .sign .negate a, _, _ => .cons rfl ((reports_ofNode a none nofun).map _)
  | .sign .plus a, _, _ => .cons rfl (reports_ofNode a none nofun)
  | .operator _ l r, _, _ =>
    .cons rfl <| (reports_ofNode l none nofun).bind fun _ => (reports_ofNode r none nofun).map _
  | .choose c a b, _, _ =>
    .cons rfl <| (reports_ofNode c none nofun).bind fun _ =>
      (reports_ofNode a none nofun).bind fun _ => (reports_ofNode b none nofun).map _
  | .call f args, caller, _ => by
    have hall := reports_ofNodes f args
    have harguments := reports_ofArguments f args
    unfold ofNode Node.sites
    split
    · rename_i b hb
      have harity : arity? functions f = some b.arity := by rw [arity?, hb]
      split
      · rename_i haccepts
        refine .cons ?_ ((hall fun hhost => ?_).map _)
        · simp [Site.fault?, harity, haccepts]
        · rw [hhost.1] at hb
          cases hb
      · rename_i haccepts
        exact .error (.arity harity (Bool.eq_false_iff.2 haccepts)) _
    · rename_i hb
      have harity : arity? functions f = functions f := by rw [arity?, hb]
      split
      · rename_i hf
        exact .error (.unknown (harity.trans hf)) _
      · rename_i arity hf
        split
        · rename_i haccepts
          refine .cons ?_ ((harguments ⟨hb, ?_⟩).map _)
          · simp [Site.fault?, harity, hf, haccepts]
          · rw [hf]
            rfl
        · rename_i haccepts
          exact .error (.arity (harity.trans hf) (Bool.eq_false_iff.2 haccepts)) _

theorem reports_ofNodes (f : String) : ∀ args : List Node, ¬ IsHost functions f →
    Reports functions (ofNodes functions args) (Node.argumentSites f args)
  | [], _ => .pure _
  | a :: as, hf => by
    have hfirst := reports_ofNode a (some f) (by rintro _ _ _ ⟨⟩; exact hf)
    exact hfirst.bind fun _ => (reports_ofNodes f as hf).map _

theorem reports_ofArguments (f : String) : ∀ args : List Node, IsHost functions f →
    Reports functions (ofArguments functions args) (Node.argumentSites f args)
  | [], _ => .pure _
  | a :: as, hf => by
    have hfirst := reports_ofNode a (some f)
    have hrest := reports_ofArguments f as hf
    by_cases htext : ∃ s, a = .text s
    · obtain ⟨s, rfl⟩ := htext
      exact .cons (if_pos hf) (hrest.map _)
    · rw [ofArguments_cons (not_exists.1 htext)]
      exact (hfirst fun s _ hs => absurd ⟨s, hs⟩ htext).bind fun _ => hrest.map _

end

end Code

theorem Code.ofNode_eq_error_iff {node : Node} {fault : CodeFault} :
    Code.ofNode functions node = .error fault ↔
      ∃ before site after, node.sites none = before ++ site :: after ∧
        (∀ earlier ∈ before, ∀ fault, ¬ Violation functions earlier fault) ∧
        Violation functions site fault := by
  have hreports : Reports functions (Code.ofNode functions node) (node.sites none) :=
    Code.reports_ofNode node none nofun
  rw [hreports, List.findSome?_eq_some_iff]
  simp only [Option.eq_none_iff_forall_ne_some, ne_eq, Site.fault?_eq_some_iff]
  grind

/-- A tree makes sense exactly if no part of it breaks a rule. -/
theorem exists_compiles_iff {node : Node} : (∃ code, Compiles functions node code) ↔
    ∀ site ∈ node.sites none, ∀ fault, ¬ Violation functions site fault := by
  have hreports : Reports functions (Code.ofNode functions node) (node.sites none) :=
    Code.reports_ofNode node none nofun
  simp only [← Code.ofNode_eq_ok_iff, ← Site.fault?_eq_some_iff,
    ← Option.eq_none_iff_forall_ne_some, ← List.findSome?_eq_none_iff]
  cases hnode : Code.ofNode functions node with
  | ok code =>
    refine iff_of_true ⟨code, rfl⟩ (Option.eq_none_iff_forall_ne_some.2 fun fault hfault => ?_)
    cases hnode.symm.trans ((hreports fault).2 hfault)
  | error fault =>
    rw [(hreports fault).1 hnode]
    exact iff_of_false nofun nofun

end Expr

/-! ### Texts -/

open Scenario.Expr

theorem Expr.Written.space {t : Token} {ts : List Token} {cs ds : List Char} (h : Spelling t cs)
    (hds : Written ts ds) : Written (t :: ts) (cs ++ ([' '] ++ ds)) :=
  .more h (List.cons_ne_nil ' ' []) (List.all_eq_true.1 rfl) hds

def Source.tree? : Source → Option Node
  | .number x => some (.number x)
  | .text s =>
    match lex s with
    | .error _ => none
    | .ok tokens =>
      match parse tokens with
      | .error _ => none
      | .ok node => some node

variable {functions : String → Option Arity} {text : String}

theorem Source.tree?_text_eq_some {node : Node} : (Source.text text).tree? = some node ↔
    ∃ tokens, lex text = .ok tokens ∧ parse tokens = .ok node := by
  unfold tree?
  dsimp only
  cases lex text with
  | error fault => simp
  | ok tokens => cases hparse : parse tokens <;> simp [hparse]

/-- Whatever is written of a printed tree has that tree. -/
theorem Source.tree?_of_written {n : Node} (h : Written (n.print Node.top) text.toList) :
    (Source.text text).tree? = some n := by
  obtain ⟨d, hd, rfl⟩ := (phraseAt_print n Node.top).whole
  obtain ⟨ls, hls, htokens⟩ := lex_written h
  exact tree?_text_eq_some.2 ⟨ls, hls, parse_eq_ok (hd.trans htokens.symm)⟩

theorem checkText_eq_ok_iff {code : Code} : checkText functions text = .ok code ↔
    ∃ node, (Source.text text).tree? = some node ∧ Compiles functions node code := by
  unfold checkText Source.tree?
  dsimp only
  cases lex text with
  | error fault => simp
  | ok tokens =>
    dsimp only
    cases parse tokens with
    | error fault => simp
    | ok node =>
      simp only [Option.some.injEq, exists_eq_left', ← Code.ofNode_eq_ok_iff]
      cases Code.ofNode functions node with
      | ok code' => simp
      | error fault => cases fault <;> simp

def Expr.CodeFault.told : CodeFault → ExpressionFault
  | .strayText => .grammar .strayText
  | .unknownFunction f => .unknownFunction f
  | .arity f minimum actual => .arity f minimum actual

section Refusals

variable (functions text)

/-- Why a text is no expression: it has no tokens, its tokens have no tree, or a part of the tree
breaks a rule and no earlier part does. -/
inductive Refuses : ExpressionFault → Prop
  | characters {fault : Lexer.Fault} (h : lex text = .error fault) :
    Refuses (.characters fault.slice fault.offset)
  | grammar {tokens : List Lexeme} {fault : SyntaxFault} (hlex : lex text = .ok tokens)
    (h : parse tokens = .error fault) : Refuses (.grammar fault)
  | part {node : Node} {before after : List Site} {site : Site} {fault : CodeFault}
    (htree : (Source.text text).tree? = some node)
    (hsites : node.sites none = before ++ site :: after)
    (hbefore : ∀ earlier ∈ before, ∀ fault, ¬ Violation functions earlier fault)
    (h : Violation functions site fault) : Refuses fault.told

end Refusals

theorem Refuses.unknown {f : String} (h : Refuses functions text (.unknownFunction f)) :
    Builtin.ofName? f = none ∧ functions f = none ∧
      ∃ node, (Source.text text).tree? = some node := by
  generalize hcause : ExpressionFault.unknownFunction f = cause at h
  cases h with
  | characters h => cases hcause
  | grammar hlex h => cases hcause
  | @part node before after site fault htree hsites hbefore h =>
    cases h with
    | unknown harity =>
      cases hcause
      obtain ⟨hbuiltin, hf⟩ := arity?_eq_none.1 harity
      exact ⟨hbuiltin, hf, node, htree⟩
    | arity harity hcount => cases hcause
    | strayText hcaller => cases hcause

theorem checkText_eq_error_iff {fault : ExpressionFault} :
    checkText functions text = .error fault ↔ Refuses functions text fault := by
  constructor
  · intro h
    unfold checkText at h
    split at h
    · rename_i hlex
      cases h
      exact .characters hlex
    · rename_i tokens hlex
      split at h
      · rename_i hparse
        cases h
        exact .grammar hlex hparse
      · rename_i node hparse
        have htree := Source.tree?_text_eq_some.2 ⟨tokens, hlex, hparse⟩
        have hpart {fault : CodeFault} (hnode : Code.ofNode functions node = .error fault) :
            Refuses functions text fault.told := by
          obtain ⟨before, site, after, hsites, hbefore, hviolation⟩ :=
            Code.ofNode_eq_error_iff.1 hnode
          exact .part htree hsites hbefore hviolation
        split at h
        · cases h
        all_goals
          rename_i hnode
          cases h
          exact hpart hnode
  · intro h
    unfold checkText
    cases h with
    | characters h => simp only [h]
    | grammar hlex h => simp only [hlex, h]
    | @part node before after site fault htree hsites hbefore h =>
      obtain ⟨tokens, hlex, hparse⟩ := Source.tree?_text_eq_some.1 htree
      have hnode := Code.ofNode_eq_error_iff.2 ⟨before, site, after, hsites, hbefore, h⟩
      simp only [hlex, hparse, hnode]
      cases fault <;> rfl

end Scenario
