import Scenario.Proofs.CycleGuard
import Scenario.Proofs.Saturated
import Scenario.Proofs.WellFormed

/-!
Well-scoped content names only what is defined. Its evaluation may fail, but never for a name that
nothing stands for, and definitions stay for good.
-/

namespace Scenario

/-! ### Names -/

/-- What names of each kind stand for something. -/
abbrev Names := Kind → String → Prop

def Names.Within (names names' : Names) : Prop := ∀ ⦃kind : Kind⦄ ⦃id : String⦄,
  names kind id → names' kind id

theorem Names.Within.refl (names : Names) : names.Within names := fun _ _ h => h

def State.names (s : State) : Names
  | .variable, id => s.vars.contains id
  | .attribute, id => s.attributes.contains id
  | .item, id => s.items.contains id
  | .status, id => s.statusKinds.contains id
  | .event, id => ∃ event ∈ s.registry.events, event.id = id

/-- The catalog that a function of the engine reads. -/
def hostKind? : String → Option Kind
  | "item" => some .item
  | "status" | "hasStatus" => some .status
  | "attribute" => some .attribute
  | "occurrences" | "enabled" => some .event
  | "lowerBound" | "upperBound" => some .variable
  | _ => none

/-! ### Scoped content -/

namespace Expr.Code

variable (names : Names)

mutual

/-- Names are variables or attributes, and functions of the engine have one quoted id out of the
catalog that they read. -/
def Scoped : Code → Prop
  | .number _ => True
  | .name n => names .variable n ∨ names .attribute n
  | .not a | .negate a => a.Scoped
  | .operator _ l r => l.Scoped ∧ r.Scoped
  | .choose c a b => c.Scoped ∧ a.Scoped ∧ b.Scoped
  | .builtin _ args => AllScoped args
  | .host f args => f ∈ Engine.hostFunctions ∧
    ∃ id, args = [.text id] ∧ ∀ kind ∈ hostKind? f, names kind id

def AllScoped : List Code → Prop
  | [] => True
  | a :: as => a.Scoped ∧ AllScoped as

end

end Expr.Code

def Expression.Scoped (names : Names) (e : Expression) : Prop := e.code.Scoped names

namespace Action

variable {ε : Type} (names : Names)

mutual

/-- What an action changes is there. -/
def ChangesIn : Action ε → Prop
  | .message _ | .randomMessage _ _ _ | .stop _ | .endGame _ | .triggerEvents _ => True
  | .choices _ _ cs => ChoicesChangeIn cs
  | .random gs => GroupsChangeIn gs
  | .coinFlip _ success failure => AllChangeIn success ∧ AllChangeIn failure
  | .switch bs => BranchesChangeIn bs
  | .loop as _ _ _ => AllChangeIn as
  | .updateVariable u => names .variable u.id
  | .updateVariables us => ∀ u ∈ us, names .variable u.id
  | .updateVariableLimits id _ _ => names .variable id
  | .giveItem a => names .item a.item
  | .updateItemAmounts as => ∀ a ∈ as, names .item a.item
  | .setStatus status _ => names .status status
  | .toggleEvents _ events => ∀ id ∈ events, names .event id

def AllChangeIn : List (Action ε) → Prop
  | [] => True
  | a :: as => a.ChangesIn ∧ AllChangeIn as

def ChoicesChangeIn : List (Choice ε (Action ε)) → Prop
  | [] => True
  | ⟨_, _, as⟩ :: cs => AllChangeIn as ∧ ChoicesChangeIn cs

def GroupsChangeIn : List (Group ε (Action ε)) → Prop
  | [] => True
  | ⟨_, as⟩ :: gs => AllChangeIn as ∧ GroupsChangeIn gs

def BranchesChangeIn : List (Branch ε (Action ε)) → Prop
  | [] => True
  | ⟨_, as⟩ :: bs => AllChangeIn as ∧ BranchesChangeIn bs

end

end Action

structure Event.Scoped (names : Names) (e : Event Expression) : Prop where
  expressions : e.Of (Expression.Scoped names)
  changes : Action.AllChangeIn names e.actions

/-- The amounts of all modifiers are well-scoped. -/
structure State.Scoped (s : State) : Prop where
  items : ∀ (id : String) (p : Provider Expression), s.items[id]? = some p →
    p.Of (Expression.Scoped s.names)
  statusKinds : ∀ (id : String) (p : Provider Expression), s.statusKinds[id]? = some p →
    p.Of (Expression.Scoped s.names)

/-! ### More names -/

section More

variable {names names' : Names}

mutual

theorem Expr.Code.Scoped.mono (h : names.Within names') : ∀ code : Expr.Code,
    code.Scoped names → code.Scoped names'
  | .number _, _ => trivial
  | .name _, hcode => hcode.imp (h ·) (h ·)
  | .not a, hcode => Expr.Code.Scoped.mono h a hcode
  | .negate a, hcode => Expr.Code.Scoped.mono h a hcode
  | .operator _ l r, hcode =>
    ⟨Expr.Code.Scoped.mono h l hcode.1, Expr.Code.Scoped.mono h r hcode.2⟩
  | .choose c a b, hcode => ⟨Expr.Code.Scoped.mono h c hcode.1,
    Expr.Code.Scoped.mono h a hcode.2.1, Expr.Code.Scoped.mono h b hcode.2.2⟩
  | .builtin _ args, hcode => Expr.Code.AllScoped.mono h args hcode
  | .host _ _, ⟨hf, id, hargs, hid⟩ => ⟨hf, id, hargs, fun kind hkind => h (hid kind hkind)⟩

theorem Expr.Code.AllScoped.mono (h : names.Within names') : ∀ codes : List Expr.Code,
    Expr.Code.AllScoped names codes → Expr.Code.AllScoped names' codes
  | [], _ => trivial
  | a :: as, hcodes =>
    ⟨Expr.Code.Scoped.mono h a hcodes.1, Expr.Code.AllScoped.mono h as hcodes.2⟩

end

theorem Provider.Of.mono (h : names.Within names') {p : Provider Expression}
    (hp : p.Of (Expression.Scoped names)) : p.Of (Expression.Scoped names') :=
  Provider.Of.imp (fun e => Expr.Code.Scoped.mono h (Expression.code e)) hp

end More

/-! ### Evaluation -/

/-- The errors of content that names what is not there. -/
def EvaluationError.OutOfScope : EvaluationError → Prop
  | .unknown _ _ | .hostFunction _ _ => True
  | _ => False

/-- An evaluation that does not fail for a name. -/
def InScope {α : Type} (x : Except EvaluationError α) : Prop :=
  ∀ e, x = .error e → ¬ e.OutOfScope

/-- A table that does not fail for some names. -/
structure Names.AnsweredBy (names : Names) (scope : Expr.Scope (Except EvaluationError)) :
    Prop where
  value : ∀ n, names .variable n ∨ names .attribute n → InScope (scope.value n)
  call : ∀ f id, f ∈ Engine.hostFunctions → (∀ kind ∈ hostKind? f, names kind id) →
    InScope (scope.call f [.text id])

namespace InScope

variable {α β : Type}

theorem ok (a : α) : InScope (.ok a) := by
  rintro e ⟨⟩

theorem error {e : EvaluationError} (h : ¬ e.OutOfScope) : InScope (.error e : Except _ α) := by
  rintro _ ⟨⟩
  exact h

theorem bind {x : Except EvaluationError α} {f : α → Except EvaluationError β} (hx : InScope x)
    (hf : ∀ a, InScope (f a)) : InScope (x >>= f) := by
  cases x with
  | ok a => exact hf a
  | error e => exact error (hx e rfl)

theorem mapM {f : α → Except EvaluationError β} {as : List α} (h : ∀ a ∈ as, InScope (f a)) :
    InScope (as.mapM f) := by
  induction as with
  | nil => exact ok []
  | cons a as ih =>
    obtain ⟨ha, has⟩ := List.forall_mem_cons.1 h
    rw [List.mapM_cons]
    exact ha.bind fun _ => (ih has).bind fun _ => ok _

theorem optionMapM {f : α → Except EvaluationError β} {a : Option α}
    (h : ∀ x ∈ a, InScope (f x)) : InScope (a.mapM f) := by
  cases a with
  | none => exact ok none
  | some a => exact (h a rfl).bind fun _ => ok _

section Code

variable {names : Names} {scope : Expr.Scope (Except EvaluationError)}

mutual

theorem code (hnames : names.AnsweredBy scope) : ∀ code : Expr.Code, code.Scoped names →
    InScope (code.eval scope)
  | .number _, _ => ok _
  | .name n, h => hnames.value n h
  | .not a, h => (code hnames a h).bind fun _ => ok _
  | .negate a, h => (code hnames a h).bind fun _ => ok _
  | .operator op l r, h => by
    have hl := code hnames l h.1
    have hr := code hnames r h.2
    cases op with
    | andThen =>
      apply hl.bind
      intro x
      split
      · exact hr
      · exact ok x
    | orElse =>
      apply hl.bind
      intro x
      split
      · exact ok x
      · exact hr
    | _ => exact hl.bind fun _ => hr.bind fun _ => ok _
  | .choose c a b, h => by
    have ha := code hnames a h.2.1
    have hb := code hnames b h.2.2
    apply (code hnames c h.1).bind
    intro x
    split
    · exact ha
    · exact hb
  | .builtin b args, h => (codes hnames args h).bind fun _ => ok _
  | .host f _, ⟨hf, id, hargs, hid⟩ => by
    subst hargs
    exact hnames.call f id hf hid

theorem codes (hnames : names.AnsweredBy scope) : ∀ codes : List Expr.Code,
    Expr.Code.AllScoped names codes → InScope (Expr.Code.evalAll scope codes)
  | [], _ => ok _
  | a :: as, h => (code hnames a h.1).bind fun _ => (codes hnames as h.2).bind fun _ => ok _

end

theorem expression (hnames : names.AnsweredBy scope) {e : Expression} (h : e.Scoped names) :
    InScope (e.eval scope) := by
  apply (code hnames e.code h).bind
  intro x
  split
  · exact error fun h => h
  · exact ok x

mutual

theorem condition (hnames : names.AnsweredBy scope) : ∀ c : Condition Expression,
    c.Of (Expression.Scoped names) → InScope (c.check scope)
  | .expression _, h => (expression hnames h).bind fun _ => ok _
  | .not c, h => (condition hnames c h).bind fun _ => ok _
  | .all cs, h => all hnames cs h
  | .any cs, h => any hnames cs h
  | .count cs min max, h => by
    apply (counted hnames cs h.1).bind
    intro n
    apply (expression hnames h.2.1).bind
    intro lower
    split
    · exact (expression hnames h.2.2).bind fun _ => ok _
    · exact ok _

theorem all (hnames : names.AnsweredBy scope) : ∀ cs : List (Condition Expression),
    Condition.AllOf (Expression.Scoped names) cs → InScope (Condition.checkAll scope cs)
  | [], _ => ok _
  | c :: cs, h => by
    have hrest := all hnames cs h.2
    apply (condition hnames c h.1).bind
    intro holds
    split
    · exact hrest
    · exact ok _

theorem any (hnames : names.AnsweredBy scope) : ∀ cs : List (Condition Expression),
    Condition.AllOf (Expression.Scoped names) cs → InScope (Condition.checkAny scope cs)
  | [], _ => ok _
  | c :: cs, h => by
    have hrest := any hnames cs h.2
    apply (condition hnames c h.1).bind
    intro holds
    split
    · exact ok _
    · exact hrest

theorem counted (hnames : names.AnsweredBy scope) : ∀ cs : List (Condition Expression),
    Condition.AllOf (Expression.Scoped names) cs → InScope (Condition.countHolding scope cs)
  | [], _ => ok _
  | c :: cs, h => (condition hnames c h.1).bind fun _ => (counted hnames cs h.2).bind fun _ => ok _

end

end Code

section Collect

variable {amount : Expression → Except EvaluationError Float}

theorem addAll (count : Nat) (c : Combined Float) {modifiers : List (Modifier Expression)}
    (h : ∀ m ∈ modifiers, InScope (amount m.amount)) :
    InScope (Combined.addAll amount count c modifiers) := by
  induction modifiers generalizing c with
  | nil => exact ok c
  | cons m modifiers ih =>
    obtain ⟨hm, hrest⟩ := List.forall_mem_cons.1 h
    apply hm.bind
    intro x
    dsimp only
    split
    · exact ok _
    · exact ih _ hrest

theorem collect (target : String) (c : Combined Float) {sources : List (Provider Expression × Nat)}
    (h : ∀ source ∈ sources, ∀ m ∈ source.1.modifiers, InScope (amount m.amount)) :
    InScope (Combined.collect amount target c sources) := by
  induction sources generalizing c with
  | nil => exact ok c
  | cons source sources ih =>
    obtain ⟨hsource, hrest⟩ := List.forall_mem_cons.1 h
    obtain ⟨provider, count⟩ := source
    unfold Combined.collect
    split
    · exact ih c hrest
    · apply (addAll count c fun m hm => hsource m (List.mem_filter.1 hm).1).bind
      intro c'
      split
      · exact ok c'
      · exact ih c' hrest

end Collect

end InScope

/-! ### States -/

namespace State

variable {s s' : State} {names : Names}

theorem exists_of_contains {α : Type} {t : Std.ExtTreeMap String α} {id : String}
    (h : t.contains id = true) : ∃ a, t[id]? = some a :=
  Option.isSome_iff_exists.1 ((contains_eq_isSome t id).symm.trans h)

theorem find_variable {id : String} (h : s.names .variable id) : ∃ v, s.vars.find id = .ok v := by
  obtain ⟨v, hv⟩ := exists_of_contains h
  refine ⟨v, ?_⟩
  unfold Variables.find
  rw [hv]

theorem exists_flags (h : s.WellFormed) {id : String} (hid : s.names .event id) :
    ∃ flags, s.registry.flags? id = some flags :=
  Option.isSome_iff_exists.1 (h.indexed.isSome_flags?.2 hid)

theorem find_event (h : s.WellFormed) {id : String} (hid : s.names .event id) :
    ∃ flags, s.registry.find id = .ok flags := by
  obtain ⟨flags, hflags⟩ := exists_flags h hid
  refine ⟨flags, ?_⟩
  unfold Registry.find
  rw [hflags]

theorem Scoped.sources (h : s.Scoped) (hw : s.WellFormed) :
    ∀ source ∈ s.sources, source.1.Of (Expression.Scoped s.names) := by
  intro source hsource
  rcases List.mem_append.1 hsource with hitem | hstatus
  · obtain ⟨stack, hstack, rfl⟩ := List.mem_map.1 hitem
    exact h.items _ _ (hw.stocked.known stack hstack)
  · obtain ⟨status, hactive, rfl⟩ := List.mem_map.1 hstatus
    exact h.statusKinds _ _ (hw.running.known status hactive)

section Scope

variable (hw : s.WellFormed) {combined : String → Except EvaluationError (Combined Float)}
  (hcombined : ∀ target, InScope (combined target))

include hcombined

theorem attributeWith_inScope {id : String} (hid : s.names .attribute id) :
    InScope (s.attributeWith combined id) := by
  obtain ⟨a, ha⟩ := exists_of_contains hid
  unfold attributeWith
  rw [ha]
  exact (hcombined id).bind fun _ => .ok _

include hw

theorem answeredBy_scopeWith : s.names.AnsweredBy (s.scopeWith combined) where
  value := fun name h => by
    unfold scopeWith
    dsimp only
    split
    · exact .ok _
    · rename_i hvar
      have hattribute : s.attributes.contains name = true := by
        rcases h with hname | hname
        · obtain ⟨v, hv⟩ := exists_of_contains hname
          rw [hvar] at hv
          cases hv
        · exact hname
      rw [if_pos hattribute]
      exact attributeWith_inScope hcombined hattribute
  call := fun f id hf h => by
    simp only [Engine.hostFunctions, List.mem_cons, List.not_mem_nil, or_false] at hf
    rcases hf with rfl | rfl | rfl | rfl | rfl | rfl | rfl | rfl | rfl | rfl
    · exact .ok _
    · have hid : s.items.contains id = true := h .item rfl
      change InScope (if s.items.contains id then .ok _ else .error _)
      rw [if_pos hid]
      exact .ok _
    · have hid : s.statusKinds.contains id = true := h .status rfl
      change InScope (if s.statusKinds.contains id then .ok _ else .error _)
      rw [if_pos hid]
      exact .ok _
    · have hid : s.statusKinds.contains id = true := h .status rfl
      change InScope (if s.statusKinds.contains id then .ok _ else .error _)
      rw [if_pos hid]
      exact .ok _
    · exact (hcombined id).bind fun _ => .ok _
    · exact attributeWith_inScope hcombined (h .attribute rfl)
    · obtain ⟨flags, hflags⟩ := find_event hw (h .event rfl)
      change InScope ((liftExcept (s.registry.find id >>= fun _ => _)) >>= fun _ => _)
      rw [hflags]
      exact .ok _
    · obtain ⟨flags, hflags⟩ := find_event hw (h .event rfl)
      change InScope ((liftExcept (s.registry.find id >>= fun _ => _)) >>= fun _ => _)
      rw [hflags]
      exact .ok _
    · obtain ⟨v, hv⟩ := find_variable (h .variable rfl)
      change InScope ((liftExcept (s.vars.find id)) >>= fun _ => _)
      rw [hv]
      exact .ok _
    · obtain ⟨v, hv⟩ := find_variable (h .variable rfl)
      change InScope ((liftExcept (s.vars.find id)) >>= fun _ => _)
      rw [hv]
      exact .ok _

end Scope

/-! ### Scoped states -/

/-- A state in which all modifiers are well-scoped, and in which some names stand for something. -/
structure Covers (names : Names) (s : State) : Prop where
  wellFormed : s.WellFormed
  modifiers : s.Scoped
  within : names.Within s.names

namespace Covers

variable (h : s.Covers names)

include h

theorem combinedWithin (opened : List String) (target : String) :
    InScope (s.combinedWithin opened target) := by
  -- The targets that are left to be opened become fewer from target to target.
  induction hn : s.unopened opened using Nat.strongRecOn generalizing opened target with
  | ind n ih =>
    rw [State.combinedWithin]
    by_cases hopen : target ∈ opened
    · rw [dif_pos hopen]
      exact .error fun h => h
    · rw [dif_neg hopen]
      by_cases htarget : target ∈ s.targets
      · rw [dif_pos htarget]
        have hlt := unopened_cons_lt hopen htarget
        have hwithin := fun t => ih _ (hn ▸ hlt) (target :: opened) t rfl
        apply InScope.collect
        intro source hsource m hm
        exact InScope.expression (answeredBy_scopeWith h.wellFormed hwithin)
          (h.modifiers.sources h.wellFormed source hsource m hm)
      · rw [dif_neg htarget]
        exact .ok _

theorem answeredBy : names.AnsweredBy s.scope :=
  have hscope := answeredBy_scopeWith h.wellFormed (h.combinedWithin [])
  { value := fun name hname => hscope.value name (hname.imp (h.within ·) (h.within ·))
    call := fun f id hf hid => hscope.call f id hf fun kind hkind => h.within (hid kind hkind) }

theorem eval {e : Expression} (he : e.Scoped names) : InScope (s.eval e) :=
  InScope.expression h.answeredBy he

theorem holds {c : Condition Expression} (hc : c.Of (Expression.Scoped names)) :
    InScope (s.holds c) :=
  InScope.condition h.answeredBy c hc

theorem checkAll {cs : List (Condition Expression)}
    (hcs : Condition.AllOf (Expression.Scoped names) cs) :
    InScope (Condition.checkAll s.scope cs) :=
  InScope.all h.answeredBy cs hcs

end Covers

end State

end Scenario
