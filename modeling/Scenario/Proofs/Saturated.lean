import Scenario.Content
import Scenario.Proofs.Acceptance

/-!
Expressions whose calls have as many arguments as they take. Compilers make no others, and hosts get
their expressions from compilers.
-/

namespace Scenario

namespace Expr.Code

mutual

/-- Every function of the language is called with as many arguments as it takes. -/
def Saturated : Code → Prop
  | .number _ | .name _ => True
  | .not a | .negate a => a.Saturated
  | .operator _ l r => l.Saturated ∧ r.Saturated
  | .choose c a b => c.Saturated ∧ a.Saturated ∧ b.Saturated
  | .builtin b args => b.arity.accepts args.length ∧ SaturatedAll args
  | .host _ args => SaturatedArguments args

def SaturatedAll : List Code → Prop
  | [] => True
  | a :: as => a.Saturated ∧ SaturatedAll as

def SaturatedArguments : List (Argument Code) → Prop
  | [] => True
  | a :: as => SaturatedArgument a ∧ SaturatedArguments as

def SaturatedArgument : Argument Code → Prop
  | .text _ => True
  | .value a => a.Saturated

end

end Expr.Code

namespace Expr

variable {functions : String → Option Arity}

mutual

theorem Compiles.saturated {node : Node} {code : Code} :
    Compiles functions node code → code.Saturated
  | .number _ | .name _ => trivial
  | .not h | .negate h | .plus h => h.saturated
  | .operator _ hl hr => ⟨hl.saturated, hr.saturated⟩
  | .choose hc ha hb => ⟨hc.saturated, ha.saturated, hb.saturated⟩
  | .builtin _ haccepts h => ⟨h.length_eq.symm ▸ haccepts, h.saturated⟩
  | .host _ _ _ h => h.saturated

theorem CompilesAll.saturated {nodes : List Node} {codes : List Code} :
    CompilesAll functions nodes codes → Code.SaturatedAll codes
  | .nil => trivial
  | .cons h hs => ⟨h.saturated, hs.saturated⟩

theorem CompilesArguments.saturated {nodes : List Node} {codes : List (Argument Code)} :
    CompilesArguments functions nodes codes → Code.SaturatedArguments codes
  | .nil => trivial
  | .text _ hs => ⟨trivial, hs.saturated⟩
  | .value h hs => ⟨h.saturated, hs.saturated⟩

end

end Expr

def Expression.Saturated (e : Expression) : Prop := e.code.Saturated

/-! ### Compilers -/

namespace Compiler

variable {c : Compiler}

theorem compile_of_entry {text : String} {e : Expression} (h : c.entries[text]? = some e) :
    c.compile (.text text) = (.ok e, c) := by
  unfold Compiler.compile
  simp only [h]

/-- A text without an entry is checked against the functions of the time. -/
theorem compile_of_new {text : String} (h : c.entries[text]? = none) :
    (c.compile (.text text)).1 =
      match checkText (c.functions[·]?) text with
      | .error fault => .error (.expression text fault)
      | .ok code => .ok ⟨.text text, code, some c.size⟩ := by
  unfold Compiler.compile
  simp only [h]
  cases checkText (c.functions[·]?) text <;> rfl

/-- A text that has an entry is found there, and else it is checked. What is accepted is added. -/
theorem compile_text (c : Compiler) (text : String) :
    (∃ e, c.entries[text]? = some e ∧ c.compile (.text text) = (.ok e, c)) ∨
      c.entries[text]? = none ∧
        ((∃ fault, checkText (c.functions[·]?) text = .error fault ∧
            c.compile (.text text) = (.error (.expression text fault), c)) ∨
          ∃ code, checkText (c.functions[·]?) text = .ok code ∧
            c.compile (.text text) = (.ok ⟨.text text, code, some c.size⟩,
              { c with entries := c.entries.insert text ⟨.text text, code, some c.size⟩ })) := by
  unfold Compiler.compile
  dsimp only
  cases c.entries[text]? with
  | some e => exact .inl ⟨e, rfl, rfl⟩
  | none =>
    refine .inr ⟨rfl, ?_⟩
    dsimp only
    cases checkText (c.functions[·]?) text with
    | error fault => exact .inl ⟨fault, rfl, rfl⟩
    | ok code => exact .inr ⟨code, rfl, rfl⟩

/-- Compiling adds an entry for what it accepts, if there is none yet, and nothing else. -/
theorem compile_snd (c : Compiler) (text : String) :
    (c.compile (.text text)).2 = c ∨
      c.entries[text]? = none ∧ ∃ code, checkText (c.functions[·]?) text = .ok code ∧
        (c.compile (.text text)).2 =
          { c with entries := c.entries.insert text ⟨.text text, code, some c.size⟩ } := by
  obtain ⟨e, -, h⟩ | ⟨hnew, ⟨fault, -, h⟩ | ⟨code, hcode, h⟩⟩ := compile_text c text
  · exact .inl (congrArg Prod.snd h)
  · exact .inl (congrArg Prod.snd h)
  · exact .inr ⟨hnew, code, hcode, congrArg Prod.snd h⟩

/-- The compilers that hosts can have. -/
inductive Used : Compiler → Prop
  | new : Used {}
  | register {c : Compiler} (h : c.Used) (name : String) (arity : Expr.Arity) :
    Used (c.register name arity)
  | compile {c : Compiler} (h : c.Used) (source : Source) : Used (c.compile source).2

/-- Entries are what their texts were checked to when they were made. -/
theorem Used.of_entry {P : String → Expression → Prop}
    (hnew : ∀ functions text code entry, checkText functions text = .ok code →
      P text ⟨.text text, code, entry⟩)
    (h : c.Used) {text : String} {e : Expression} (he : c.entries[text]? = some e) : P text e := by
  induction h generalizing text e with
  | new => simp at he
  | register _ name arity ih => exact ih he
  | @compile c _ source ih =>
    cases source with
    | number x => exact ih he
    | text s =>
      obtain hkept | ⟨-, code, hcode, hadded⟩ := compile_snd c s
      · rw [hkept] at he
        exact ih he
      · rw [hadded] at he
        dsimp only at he
        rw [getElem?_insert_id] at he
        split at he
        · rename_i hsame
          subst hsame
          cases he
          exact hnew _ s code _ hcode
        · exact ih he

/-- Expressions are checked from the trees of their sources. -/
theorem Used.exists_compiles (h : c.Used) {source : Source} {e : Expression}
    (he : (c.compile source).1 = .ok e) :
    ∃ functions node, e.source.tree? = some node ∧ Expr.Compiles functions node e.code := by
  have hchecked (functions : String → Option Expr.Arity) (text : String) (code : Expr.Code)
      (hcode : checkText functions text = .ok code) : ∃ functions node,
      (Source.text text).tree? = some node ∧ Expr.Compiles functions node code :=
    ⟨functions, checkText_eq_ok_iff.1 hcode⟩
  cases source with
  | number x =>
    cases he
    exact ⟨fun _ => none, _, rfl, .number x⟩
  | text s =>
    obtain ⟨e', hentry, hc⟩ | ⟨-, ⟨fault, -, hc⟩ | ⟨code, hcode, hc⟩⟩ := compile_text c s
    · rw [hc] at he
      cases he
      exact h.of_entry (P := fun _ e => ∃ functions node, e.source.tree? = some node ∧
        Expr.Compiles functions node e.code)
        (fun functions text code _ => hchecked functions text code) hentry
    · rw [hc] at he
      cases he
    · rw [hc] at he
      cases he
      exact hchecked _ s code hcode

end Compiler

/-- The expressions that hosts can have: what compilers give for some source. -/
def Expression.Made (e : Expression) : Prop :=
  ∃ (c : Compiler) (source : Source), c.Used ∧ (c.compile source).1 = .ok e

theorem Expression.Made.saturated {e : Expression} (h : e.Made) : e.Saturated := by
  obtain ⟨c, source, hc, he⟩ := h
  obtain ⟨_, _, -, hnode⟩ := hc.exists_compiles he
  exact hnode.saturated

theorem Expression.made_constant (x : Float) : (Expression.constant x).Made :=
  ⟨{}, .number x, .new, rfl⟩

/-! ### Trees of expressions -/

section Trees

variable {ε : Type} (P : ε → Prop)

namespace Condition

mutual

/-- All expressions of a condition have a property. -/
def Of : Condition ε → Prop
  | .expression e => P e
  | .not c => c.Of
  | .all cs | .any cs => AllOf cs
  | .count cs min max => AllOf cs ∧ P min ∧ P max

def AllOf : List (Condition ε) → Prop
  | [] => True
  | c :: cs => c.Of ∧ AllOf cs

end

end Condition

namespace Action

mutual

/-- All expressions of an action have a property. -/
def Of : Action ε → Prop
  | .message _ | .randomMessage _ _ _ | .stop _ | .endGame _ | .toggleEvents _ _ => True
  | .choices _ _ cs => ChoicesOf cs
  | .random gs => GroupsOf gs
  | .coinFlip probability success failure => P probability ∧ AllOf success ∧ AllOf failure
  | .switch bs => BranchesOf bs
  | .loop as condition _ _ => AllOf as ∧ ∀ c ∈ condition, c.Of P
  | .updateVariable u => P u.value
  | .updateVariables us => ∀ u ∈ us, P u.value
  | .updateVariableLimits _ min max => (∀ e ∈ min, P e) ∧ ∀ e ∈ max, P e
  | .giveItem a => P a.amount
  | .updateItemAmounts as => ∀ a ∈ as, P a.amount
  | .setStatus _ duration => P duration
  | .triggerEvents rs => ∀ r ∈ rs, P r.probability

def AllOf : List (Action ε) → Prop
  | [] => True
  | a :: as => a.Of ∧ AllOf as

def ChoicesOf : List (Choice ε (Action ε)) → Prop
  | [] => True
  | ⟨_, requirement, as⟩ :: cs => (∀ c ∈ requirement, c.Of P) ∧ AllOf as ∧ ChoicesOf cs

def GroupsOf : List (Group ε (Action ε)) → Prop
  | [] => True
  | ⟨weight, as⟩ :: gs => P weight ∧ AllOf as ∧ GroupsOf gs

def BranchesOf : List (Branch ε (Action ε)) → Prop
  | [] => True
  | ⟨c, as⟩ :: bs => c.Of P ∧ AllOf as ∧ BranchesOf bs

end

end Action

structure Event.Of (e : Event ε) : Prop where
  conditions : Condition.AllOf P e.conditions
  actions : Action.AllOf P e.actions
  probability : P e.probability

def Provider.Of (p : Provider ε) : Prop := ∀ m ∈ p.modifiers, P m.amount

section Parts

variable {P}

theorem Action.weight_of_groupsOf {gs : List (Group ε (Action ε))} (h : Action.GroupsOf P gs) :
    ∀ g ∈ gs, P g.weight := by
  induction gs with
  | nil => exact List.forall_mem_nil _
  | cons g gs ih => exact List.forall_mem_cons.2 ⟨h.1, ih h.2.2⟩

end Parts

section Imp

variable {P} {Q : ε → Prop}

mutual

theorem Condition.Of.imp (h : ∀ e, P e → Q e) : ∀ c : Condition ε, c.Of P → c.Of Q
  | .expression e, hc => h e hc
  | .not c, hc => Condition.Of.imp h c hc
  | .all cs, hc => Condition.AllOf.imp h cs hc
  | .any cs, hc => Condition.AllOf.imp h cs hc
  | .count cs min max, hc => ⟨Condition.AllOf.imp h cs hc.1, h min hc.2.1, h max hc.2.2⟩

theorem Condition.AllOf.imp (h : ∀ e, P e → Q e) : ∀ cs : List (Condition ε),
    Condition.AllOf P cs → Condition.AllOf Q cs
  | [], _ => trivial
  | c :: cs, hcs => ⟨Condition.Of.imp h c hcs.1, Condition.AllOf.imp h cs hcs.2⟩

end

mutual

theorem Action.Of.imp (h : ∀ e, P e → Q e) : ∀ a : Action ε, a.Of P → a.Of Q
  | .message _, _ | .randomMessage _ _ _, _ | .stop _, _ | .endGame _, _
  | .toggleEvents _ _, _ => trivial
  | .choices _ _ cs, ha => Action.ChoicesOf.imp h cs ha
  | .random gs, ha => Action.GroupsOf.imp h gs ha
  | .coinFlip p success failure, ha =>
    ⟨h p ha.1, Action.AllOf.imp h success ha.2.1, Action.AllOf.imp h failure ha.2.2⟩
  | .switch bs, ha => Action.BranchesOf.imp h bs ha
  | .loop as _ _ _, ha => ⟨Action.AllOf.imp h as ha.1, fun c hc => Condition.Of.imp h c (ha.2 c hc)⟩
  | .updateVariable u, ha => h u.value ha
  | .updateVariables _, ha => fun u hu => h u.value (ha u hu)
  | .updateVariableLimits _ _ _, ha => ⟨fun e he => h e (ha.1 e he), fun e he => h e (ha.2 e he)⟩
  | .giveItem a, ha => h a.amount ha
  | .updateItemAmounts _, ha => fun a hmem => h a.amount (ha a hmem)
  | .setStatus _ duration, ha => h duration ha
  | .triggerEvents _, ha => fun r hr => h r.probability (ha r hr)

theorem Action.AllOf.imp (h : ∀ e, P e → Q e) :
    ∀ as : List (Action ε), Action.AllOf P as → Action.AllOf Q as
  | [], _ => trivial
  | a :: as, has => ⟨Action.Of.imp h a has.1, Action.AllOf.imp h as has.2⟩

theorem Action.ChoicesOf.imp (h : ∀ e, P e → Q e) : ∀ cs : List (Choice ε (Action ε)),
    Action.ChoicesOf P cs → Action.ChoicesOf Q cs
  | [], _ => trivial
  | ⟨_, _, as⟩ :: cs, hcs => ⟨fun c hc => Condition.Of.imp h c (hcs.1 c hc),
    Action.AllOf.imp h as hcs.2.1, Action.ChoicesOf.imp h cs hcs.2.2⟩

theorem Action.GroupsOf.imp (h : ∀ e, P e → Q e) : ∀ gs : List (Group ε (Action ε)),
    Action.GroupsOf P gs → Action.GroupsOf Q gs
  | [], _ => trivial
  | ⟨weight, as⟩ :: gs, hgs =>
    ⟨h weight hgs.1, Action.AllOf.imp h as hgs.2.1, Action.GroupsOf.imp h gs hgs.2.2⟩

theorem Action.BranchesOf.imp (h : ∀ e, P e → Q e) : ∀ bs : List (Branch ε (Action ε)),
    Action.BranchesOf P bs → Action.BranchesOf Q bs
  | [], _ => trivial
  | ⟨c, as⟩ :: bs, hbs =>
    ⟨Condition.Of.imp h c hbs.1, Action.AllOf.imp h as hbs.2.1, Action.BranchesOf.imp h bs hbs.2.2⟩

end

theorem Event.Of.imp (h : ∀ e, P e → Q e) {event : Event ε} (hevent : event.Of P) : event.Of Q where
  conditions := Condition.AllOf.imp h event.conditions hevent.conditions
  actions := Action.AllOf.imp h event.actions hevent.actions
  probability := h event.probability hevent.probability

theorem Provider.Of.imp (h : ∀ e, P e → Q e) {p : Provider ε} (hp : p.Of P) :
    p.Of Q := fun m hm => h m.amount (hp m hm)

end Imp

end Trees

structure Definitions.Of (P : Expression → Prop) (d : Definitions) : Prop where
  vars : ∀ entry ∈ d.vars, validBounds entry.2.min entry.2.max
  attributes : ∀ a ∈ d.attributes, validBounds a.min a.max
  items : ∀ p ∈ d.items, p.Of P
  statuses : ∀ p ∈ d.statuses, p.Of P
  events : ∀ e ∈ d.events, e.Of P

end Scenario
