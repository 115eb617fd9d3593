import Scenario.Proofs.CycleGuard
import Scenario.Proofs.Numbers
import Scenario.Proofs.PassReports

/-!
Attributes within their range. Whatever is held, the value of an attribute is confined to bounds
that are in order, unless something assigns it. There is one gap: arithmetic that comes to no number
compares with neither bound, and is handed on as it is. Expressions that read an attribute have no
value then.
-/

namespace Scenario

namespace Combined

/-- What modifiers make of a base before it is confined. -/
def raise (c : Combined Float) (base : Float) : Float :=
  (base * (1 + c.relativeToBase) + c.absolute) * c.relative

theorem apply_of_unassigned {c : Combined Float} (h : c.assignment = none)
    (base min max : Float) : c.apply base min max = clamp (c.raise base) min max := by
  unfold apply
  rw [h]
  rfl

theorem add_assignment (c : Combined Float) {kind : ModifierKind} (h : kind ≠ .assignment)
    (x : Float) (count : Nat) : (c.add kind x count).assignment = c.assignment := by
  cases kind with
  | assignment => exact absurd rfl h
  | absolute | relative | relativeToBase => rfl

variable {amount : Expression → Except EvaluationError Float} {c c' : Combined Float}

theorem addAll_assignment {count : Nat} {modifiers : List (Modifier Expression)}
    (hfree : ∀ modifier ∈ modifiers, modifier.kind ≠ .assignment)
    (h : addAll amount count c modifiers = .ok c') : c'.assignment = c.assignment := by
  induction modifiers generalizing c with
  | nil =>
    cases h
    rfl
  | cons modifier rest ih =>
    obtain ⟨x, -, h⟩ := exists_ok_of_bind h
    have hadd := c.add_assignment (hfree modifier List.mem_cons_self) x count
    dsimp only at h
    split at h
    · cases h
      exact hadd
    · exact (ih (fun m hm => hfree m (List.mem_cons_of_mem _ hm)) h).trans hadd

theorem collect_assignment {target : String} {sources : List (Provider Expression × Nat)}
    (hfree : ∀ source ∈ sources, ∀ modifier ∈ source.1.modifiers, modifier.target = target →
      modifier.kind ≠ .assignment)
    (h : collect amount target c sources = .ok c') : c'.assignment = c.assignment := by
  induction sources generalizing c with
  | nil =>
    cases h
    rfl
  | cons source sources ih =>
    have hrest {c : Combined Float} := ih (c := c) fun source hsource =>
      hfree source (List.mem_cons_of_mem _ hsource)
    obtain ⟨provider, count⟩ := source
    unfold collect at h
    split at h
    · exact hrest h
    · obtain ⟨c₁, hadded, h⟩ := exists_ok_of_bind h
      have hadd := addAll_assignment (fun modifier hmodifier => by
        obtain ⟨hmem, htarget⟩ := List.mem_filter.1 hmodifier
        exact hfree _ List.mem_cons_self modifier hmem (by simpa using htarget)) hadded
      split at h
      · cases h
        exact hadd
      · exact (hrest h).trans hadd

end Combined

theorem clamp_isNaN {x lo hi : Float} (h : lo ≤ hi) : (clamp x lo hi).isNaN = x.isNaN := by
  cases hx : x.isNaN with
  | false => exact (isNaN_of_le (clamp_bounds h hx).1).2
  | true =>
    have hbelow : ¬ x < lo := fun hlt => by
      rw [lt_iff_parts, isNaN_iff_parts.1 hx] at hlt
      cases hlt
    have habove : ¬ hi < x := fun hlt => by
      rw [lt_iff_parts, compare_swap, isNaN_iff_parts.1 hx] at hlt
      cases hlt
    unfold clamp
    rw [if_neg hbelow, if_neg habove, hx]

theorem code_eval_of_eval {scope : Expr.Scope (Except EvaluationError)} {e : Expression} {x : Float}
    (h : e.eval scope = .ok x) : e.code.eval scope = .ok x := by
  obtain ⟨y, hy, h⟩ := exists_ok_of_bind h
  split at h
  · cases h
  · cases h
    exact hy

theorem eval_constant {scope : Expr.Scope (Except EvaluationError)} {x : Float}
    (h : x.isNaN = false) : (Expression.constant x).eval scope = .ok x := by
  change (if x.isNaN then _ else _) = _
  rw [if_neg (Bool.eq_false_iff.1 h)]
  rfl

/-! ### States -/

namespace State

variable {s s' : State}

/-- Something that is held takes it on itself what a target is. -/
def Assigns (s : State) (target : String) : Prop :=
  ∃ source ∈ s.sources, ∃ modifier ∈ source.1.modifiers,
    modifier.target = target ∧ modifier.kind = .assignment

theorem combined_assignment {target : String} {c : Combined Float} (hfree : ¬ s.Assigns target)
    (h : s.combined target = .ok c) : c.assignment = none := by
  unfold combined at h
  rw [combinedWithin_of_not_mem List.not_mem_nil] at h
  refine Combined.collect_assignment (fun source hsource modifier hmodifier htarget hkind => ?_) h
  exact hfree ⟨source, hsource, modifier, hmodifier, htarget, hkind⟩

theorem attributeValue_eq_ok {id : String} {a : Attribute} {v : Float}
    (ha : s.attributes[id]? = some a) (hfree : ¬ s.Assigns id) (h : s.attributeValue id = .ok v) :
    ∃ c, s.combined id = .ok c ∧ v = clamp (c.raise a.base) a.min a.max := by
  unfold attributeValue attributeWith at h
  rw [ha] at h
  obtain ⟨c, hc, h⟩ := exists_ok_of_bind h
  cases h
  exact ⟨c, hc, c.apply_of_unassigned (combined_assignment hfree hc) _ _ _⟩

theorem scope_value_attribute {id : String} {a : Attribute} (ha : s.attributes[id]? = some a)
    (hunshadowed : s.vars[id]? = none) : s.scope.value id = s.attributeValue id := by
  have hknown : s.attributes.contains id = true := by
    rw [contains_eq_isSome, ha]
    rfl
  unfold scope scopeWith
  dsimp only
  rw [hunshadowed]
  exact if_pos hknown

theorem scope_call_attribute (id : String) :
    s.scope.call "attribute" [.text id] = s.attributeValue id := rfl

/-- The bounds of attributes are in order. -/
def Ranged (s : State) : Prop :=
  ∀ (id : String) (a : Attribute), s.attributes[id]? = some a → a.min ≤ a.max

theorem Ranged.becomes {sort : Mutation → Prop} (h : s.Ranged) (hs : s.Becomes sort s') :
    s'.Ranged :=
  hs.keeps (fun _ _ _ _ h hm => by
    unfold Ranged
    rw [(definitions_of_mutate hm).1]
    exact h) h

end State

/-! ### Engines -/

namespace Engine

variable {e e' : Engine}

theorem keptByDefining_ranged : KeptByDefining (·.state.Ranged) where
  compiler _ h := h
  defineVariable h hx := by
    obtain ⟨-, -, rfl⟩ := defineVariable_eq_ok hx
    exact h
  registerAttribute {_ _ a} h hx := by
    obtain ⟨-, hvalid, rfl⟩ := registerAttribute_eq_ok hx
    intro id b hb
    change (Std.ExtTreeMap.insert _ a.id a)[id]? = some b at hb
    rw [getElem?_insert_id] at hb
    split at hb
    · cases hb
      exact validBounds_iff.1 hvalid
    · exact h id b hb
  registerItem h hx := by
    obtain ⟨-, rfl⟩ := registerItem_eq_ok hx
    exact h
  registerStatus h hx := by
    obtain ⟨-, rfl⟩ := registerStatus_eq_ok hx
    exact h
  registerEvent h hx := by
    obtain ⟨registry, -, rfl⟩ := registerEvent_eq_ok hx
    exact h

theorem perform_ranged (h : e.state.Ranged) (screen : Screen) (call : Call) :
    (e.perform screen call).2.state.Ranged := by
  cases call with
  | load _ | defineVariable _ _ | registerAttribute _ | registerItem _ | registerStatus _
  | registerEvent _ => exact keptByDefining_ranged.perform h screen trivial
  | registerFunction _ _ | drain => exact h
  | reset =>
    refine attempt_keeps (Q := (·.state.Ranged)) h fun e' he => ?_
    rw [reset_eq_ok he]
    exact h
  | restore save =>
    refine attempt_keeps (Q := (·.state.Ranged)) h fun e' he => ?_
    obtain ⟨s, hs, rfl⟩ := restore_eq_ok he
    obtain ⟨-, registry, -, rfl⟩ := Save.restore_eq_ok.1 hs
    exact h
  | _ => exact h.becomes (perform_becomes screen trivial)

theorem ReachableBy.ranged {sort : Call → Prop} (h : e.ReachableBy sort) : e.state.Ranged := by
  induction h with
  | start config random hplaced =>
    intro id a ha
    simp [withRandom, state, State.initial] at ha
  | perform _ screen call _ ih => exact perform_ranged ih screen call

/-- In every engine that hosts get to, an attribute that nothing held assigns is what its modifiers
make of its base, confined to its bounds. So it is between them, unless the arithmetic comes to no
number: then, and only then, its value is none either. Names read the same value where no variable
has its id, and an expression that reads the attribute gives a value between the bounds or fails. -/
theorem attribute_in_range (he : e.Reachable) {id : String} {a : Attribute}
    (ha : e.state.attributes[id]? = some a) (hfree : ¬ e.state.Assigns id) :
    (∀ v, e.state.attributeValue id = .ok v → ∃ c, e.state.combined id = .ok c ∧
      v = clamp (c.raise a.base) a.min a.max ∧ v.isNaN = (c.raise a.base).isNaN ∧
        (v.isNaN = false → a.min ≤ v ∧ v ≤ a.max)) ∧
    (e.state.vars[id]? = none →
      e.value id = (e.state.attributeValue id).mapError .evaluation) ∧
    ∀ (reading : Expression) (v : Float), reading.code = .host "attribute" [.text id] ∨
      reading.code = .name id ∧ e.state.vars[id]? = none →
      e.state.eval reading = .ok v → a.min ≤ v ∧ v ≤ a.max := by
  have hbounds : a.min ≤ a.max := he.ranged id a ha
  have hvalue : ∀ v, e.state.attributeValue id = .ok v → v.isNaN = false →
      a.min ≤ v ∧ v ≤ a.max := by
    intro v hv hnumber
    obtain ⟨c, -, rfl⟩ := State.attributeValue_eq_ok ha hfree hv
    exact clamp_bounds hbounds (by rwa [clamp_isNaN hbounds] at hnumber)
  refine ⟨fun v hv => ?_, fun hunshadowed => ?_, fun reading v hreads heval => ?_⟩
  · obtain ⟨c, hc, hclamp⟩ := State.attributeValue_eq_ok ha hfree hv
    refine ⟨c, hc, hclamp, ?_, hvalue v hv⟩
    rw [hclamp, clamp_isNaN hbounds]
  · unfold value
    rw [State.scope_value_attribute ha hunshadowed]
  · -- the check at the end of an expression is the one that closes the gap
    refine hvalue v ?_ (eval_isNaN heval)
    have hread := code_eval_of_eval heval
    rcases hreads with hcode | ⟨hcode, hunshadowed⟩
    · rw [hcode] at hread
      exact (State.scope_call_attribute id).symm.trans hread
    · rw [hcode] at hread
      exact (State.scope_value_attribute ha hunshadowed).symm.trans hread

end Engine

/-! ### Attributes without a limit -/

def luck : Attribute := ⟨"luck", infinity, 0, 10⟩

def wit : Attribute := ⟨"wit", infinity, 0, 10⟩

/-- A spell that gives as much wit as there is, and takes as much luck. -/
def spell : Provider Expression :=
  { id := "spell"
    modifiers :=
      [⟨"luck", .relativeToBase, .constant (-1)⟩, ⟨"wit", .relativeToBase, .constant 1⟩] }

def enchanted : Engine :=
  ((Engine.new {}).performAll quiet [.registerAttribute luck, .registerAttribute wit,
    .registerStatus spell, .setStatus "spell" 5]).2

theorem enchanted_reachable : enchanted.Reachable :=
  Engine.ReachableBy.performAll (.start {} (.ofSeed "default") (.ofSeed "default")) quiet
    fun _ _ => trivial

theorem enchanted_sources : enchanted.state.sources = [(spell, 1)] := rfl

theorem enchanted_unassigned (target : String) : ¬ enchanted.state.Assigns target := by
  rintro ⟨source, hsource, modifier, hmodifier, -, hkind⟩
  rw [enchanted_sources, List.mem_singleton] at hsource
  subst hsource
  have hkinds : ∀ modifier ∈ spell.modifiers, modifier.kind ≠ .assignment := by
    simp [spell]
  exact hkinds modifier hmodifier hkind

theorem enchanted_combined :
    enchanted.state.combined "luck" = .ok (Combined.neutral.add .relativeToBase (-1) 1) ∧
      enchanted.state.combined "wit" = .ok (Combined.neutral.add .relativeToBase 1 1) := by
  have hless : (-1 : Float).isNaN = false := rfl
  have hmore : (1 : Float).isNaN = false := rfl
  unfold State.combined
  rw [State.combinedWithin_of_not_mem List.not_mem_nil,
    State.combinedWithin_of_not_mem List.not_mem_nil, enchanted_sources]
  simp [Combined.collect, Combined.addAll, spell, eval_constant hless, eval_constant hmore, bind,
    Except.bind, pure, Except.pure, Combined.add, Combined.neutral]

theorem enchanted_values : enchanted.state.attributeValue "wit" = .ok 10 ∧
    enchanted.state.attributeValue "luck" = .ok notANumber := by
  have hwit : (Combined.neutral.add .relativeToBase 1 1).apply wit.base wit.min wit.max = 10 := by
    decide +kernel
  have hluck : ((Combined.neutral.add .relativeToBase (-1) 1).apply
      luck.base luck.min luck.max).isNaN := by
    decide +kernel
  unfold State.attributeValue State.attributeWith
  rw [show enchanted.state.attributes["wit"]? = some wit from rfl,
    show enchanted.state.attributes["luck"]? = some luck from rfl, enchanted_combined.1,
    enchanted_combined.2]
  exact ⟨congrArg Except.ok hwit, congrArg Except.ok (eq_notANumber hluck)⟩

theorem attribute_in_range_enchanted :
    enchanted.state.attributeValue "wit" = .ok 10 ∧ wit.min ≤ 10 ∧ (10 : Float) ≤ wit.max ∧
      ∀ v, enchanted.state.eval ⟨.text "wit", .name "wit", none⟩ = .ok v →
        wit.min ≤ v ∧ v ≤ wit.max := by
  have hwit : enchanted.state.attributes["wit"]? = some wit := rfl
  obtain ⟨hvalues, -, hreadings⟩ :=
    Engine.attribute_in_range enchanted_reachable hwit (enchanted_unassigned "wit")
  obtain ⟨c, -, -, -, hbounds⟩ := hvalues 10 enchanted_values.1
  exact ⟨enchanted_values.1, (hbounds rfl).1, (hbounds rfl).2,
    fun v => hreadings _ v (.inr ⟨rfl, rfl⟩)⟩

theorem attribute_out_of_range : enchanted.Reachable ∧
    enchanted.state.attributes["luck"]? = some luck ∧ ¬ enchanted.state.Assigns "luck" ∧
    enchanted.state.vars["luck"]? = none ∧
    enchanted.state.attributeValue "luck" = .ok notANumber ∧
    enchanted.value "luck" = .ok notANumber ∧
    ¬ (luck.min ≤ notANumber ∧ notANumber ≤ luck.max) := by
  have hluck : enchanted.state.attributes["luck"]? = some luck := rfl
  refine ⟨enchanted_reachable, hluck, enchanted_unassigned "luck", rfl, enchanted_values.2, ?_,
    by decide⟩
  unfold Engine.value
  rw [State.scope_value_attribute hluck rfl, enchanted_values.2]
  rfl

end Scenario
