import Mathlib.Algebra.BigOperators.Group.List.Basic
import Mathlib.Algebra.Order.Ring.Rat
import Mathlib.Data.Nat.BitIndices
import Mathlib.Tactic.NormNum
import Scenario.Proofs.CycleGuard

/-!
Totals of modifiers in exact arithmetic. As long as nothing is assigned, what modifiers come to is a
sum in a commutative monoid, one summand for each modifier of each source. So it does not depend on
the order of anything, or on how the sources are grouped.
-/

namespace Scenario

/-! ### Powers -/

section Powers

variable {α : Type}

section Digits

variable [Mul α] (r a : α)

theorem powerOnto_zero : powerOnto r a 0 = r := by
  rw [powerOnto]
  rfl

theorem powerOnto_bit (b : Bool) (n : Nat) :
    powerOnto r a (Nat.bit b n) = powerOnto (if b then r * a else r) (a * a) n := by
  have hmod : Nat.bit b n % 2 = 1 ↔ b = true := by cases b <;> simp [Nat.bit_val]
  have hless : Nat.bit b n < 2 ↔ n = 0 := by cases b <;> simp [Nat.bit_val]; omega
  rw [powerOnto]
  simp only [hmod, hless, Nat.bit_div_two]
  split
  · rename_i hzero
    rw [hzero, powerOnto_zero]
  · rfl

/-- Powers are products of repeated squares, one for each binary digit that is set. -/
theorem powerOnto_eq_foldl (n : Nat) :
    powerOnto r a n = n.bitIndices.foldl (fun r i => r * (fun x => x * x)^[i] a) r := by
  induction n using Nat.binaryRec generalizing r a with
  | zero => rw [powerOnto_zero, Nat.bitIndices_zero, List.foldl_nil]
  | bit b n ih =>
    rw [powerOnto_bit, ih]
    cases b
    · simp [Nat.bit_val, List.foldl_map]
    · simp [Nat.bit_val, List.foldl_map]

end Digits

theorem powerOnto_eq [Monoid α] (r a : α) (n : Nat) : powerOnto r a n = r * a ^ n := by
  induction n using Nat.binaryRec generalizing r a with
  | zero => rw [powerOnto_zero, pow_zero, mul_one]
  | bit b n ih =>
    rw [powerOnto_bit, ih, ← pow_two, ← pow_mul]
    cases b
    · simp [Nat.bit_val]
    · simp [Nat.bit_val, mul_assoc, pow_succ']

theorem power_eq_pow [Monoid α] (a : α) (n : Nat) : power a n = a ^ n := by
  rw [power, powerOnto_eq, one_mul]

theorem clamp_eq_max_min [LinearOrder α] (x : α) {lo hi : α} (h : lo ≤ hi) :
    clamp x lo hi = max lo (min x hi) := by
  unfold clamp
  rcases lt_or_ge x lo with hlow | hlow
  · rw [if_pos hlow, min_eq_left (hlow.le.trans h), max_eq_left hlow.le]
  · rw [if_neg hlow.not_gt]
    rcases lt_or_ge hi x with hhigh | hhigh
    · rw [if_pos hhigh, min_eq_right hhigh.le, max_eq_right h]
    · rw [if_neg hhigh.not_gt, min_eq_left hhigh, max_eq_right hlow]

end Powers

/-! ### Totals -/

/-- What modifiers come to that assign nothing. -/
@[ext]
structure Totals (α : Type) where
  absolute : α
  relativeToBase : α
  relative : α

namespace Totals

variable {α : Type} [CommSemiring α]

instance : Add (Totals α) :=
  ⟨fun t u => ⟨t.absolute + u.absolute, t.relativeToBase + u.relativeToBase,
    t.relative * u.relative⟩⟩

instance : Zero (Totals α) := ⟨⟨0, 0, 1⟩⟩

@[simp] theorem absolute_add (t u : Totals α) : (t + u).absolute = t.absolute + u.absolute := rfl

@[simp] theorem relativeToBase_add (t u : Totals α) :
    (t + u).relativeToBase = t.relativeToBase + u.relativeToBase := rfl

@[simp] theorem relative_add (t u : Totals α) : (t + u).relative = t.relative * u.relative := rfl

@[simp] theorem absolute_zero : (0 : Totals α).absolute = 0 := rfl

@[simp] theorem relativeToBase_zero : (0 : Totals α).relativeToBase = 0 := rfl

@[simp] theorem relative_zero : (0 : Totals α).relative = 1 := rfl

instance : AddCommMonoid (Totals α) where
  add_assoc t u v := by ext <;> simp [add_assoc, mul_assoc]
  zero_add t := by ext <;> simp
  add_zero t := by ext <;> simp
  add_comm t u := by ext <;> simp [add_comm, mul_comm]
  nsmul := nsmulRec

theorem sum_eq (ts : List (Totals α)) :
    ts.sum = ⟨(ts.map absolute).sum, (ts.map relativeToBase).sum, (ts.map relative).prod⟩ := by
  induction ts with
  | nil => rfl
  | cons t ts ih =>
    rw [List.sum_cons, ih]
    rfl

/-- What one modifier contributes that is held `n` times. -/
def of (kind : ModifierKind) (x : α) (n : Nat) : Totals α :=
  match kind with
  | .absolute => ⟨x * n, 0, 1⟩
  | .relativeToBase => ⟨0, x * n, 1⟩
  | .relative => ⟨0, 0, (1 + x) ^ min n Combined.maxPower⟩
  | .assignment => 0

theorem of_zero (kind : ModifierKind) (x : α) : of kind x 0 = 0 := by
  cases kind <;> ext <;> simp [of]

theorem of_add (kind : ModifierKind) (x : α) {m n : Nat} (h : m + n ≤ Combined.maxPower) :
    of kind x (m + n) = of kind x m + of kind x n := by
  have hm : m ≤ Combined.maxPower := (Nat.le_add_right m n).trans h
  have hn : n ≤ Combined.maxPower := (Nat.le_add_left n m).trans h
  cases kind <;> ext <;> simp [of, mul_add, pow_add, h, hm, hn]

variable {ε : Type} (value : ε → α) (target : String)

def share (source : Provider ε × Nat) : Totals α :=
  ((source.1.modifiers.filter (·.target = target)).map fun modifier =>
    of modifier.kind (value modifier.amount) source.2).sum

theorem share_zero (p : Provider ε) : share value target (p, 0) = 0 := by
  unfold share
  simp [of_zero]

theorem share_add (p : Provider ε) {m n : Nat} (h : m + n ≤ Combined.maxPower) :
    share value target (p, m + n) = share value target (p, m) + share value target (p, n) := by
  unfold share
  simp only [of_add _ _ h]
  rw [List.sum_map_add]

theorem share_perm (p : Provider ε) {modifiers : List (Modifier ε)}
    (h : p.modifiers.Perm modifiers) (n : Nat) :
    share value target (p, n) = share value target ({ p with modifiers }, n) :=
  ((h.filter _).map _).sum_eq

end Totals

/-! ### Sums -/

section Sums

variable {α ε : Type}

/-- Whatever is held has an amount for the target, and nothing is assigned. -/
def Plain (amount : ε → Except EvaluationError α) (value : ε → α) (target : String)
    (sources : List (Provider ε × Nat)) : Prop :=
  ∀ source ∈ sources, source.2 ≠ 0 → ∀ modifier ∈ source.1.modifiers, modifier.target = target →
    modifier.kind ≠ .assignment ∧ amount modifier.amount = .ok (value modifier.amount)

variable [CommSemiring α]

namespace Combined

def plus (c : Combined α) (t : Totals α) : Combined α :=
  ⟨c.absolute + t.absolute, c.relative * t.relative, c.relativeToBase + t.relativeToBase,
    c.assignment⟩

theorem plus_zero (c : Combined α) : c.plus 0 = c := by simp [plus]

theorem plus_plus (c : Combined α) (t u : Totals α) : (c.plus t).plus u = c.plus (t + u) := by
  simp [plus, add_assoc, mul_assoc]

theorem add_eq_plus {kind : ModifierKind} (h : kind ≠ .assignment) (c : Combined α) (x : α)
    (n : Nat) : c.add kind x n = c.plus (.of kind x n) := by
  cases kind with
  | assignment => exact absurd rfl h
  | relative => simp [add, plus, Totals.of, power_eq_pow]
  | _ => simp [add, plus, Totals.of]

variable {amount : ε → Except EvaluationError α} {value : ε → α} {target : String}

theorem addAll_eq (n : Nat) {c : Combined α} (hc : c.assignment = none)
    {modifiers : List (Modifier ε)}
    (h : ∀ modifier ∈ modifiers,
      modifier.kind ≠ .assignment ∧ amount modifier.amount = .ok (value modifier.amount)) :
    addAll amount n c modifiers = .ok (c.plus (modifiers.map fun modifier =>
      Totals.of modifier.kind (value modifier.amount) n).sum) := by
  induction modifiers generalizing c with
  | nil => rw [List.map_nil, List.sum_nil, plus_zero]; rfl
  | cons modifier modifiers ih =>
    obtain ⟨⟨hkind, hamount⟩, hrest⟩ := List.forall_mem_cons.1 h
    have hnone : (c.add modifier.kind (value modifier.amount) n).assignment = none := by
      rw [add_eq_plus hkind]
      exact hc
    have hgoes : ¬ (c.add modifier.kind (value modifier.amount) n).assignment.isSome := by
      rw [hnone]
      nofun
    rw [addAll, hamount, List.map_cons, List.sum_cons, ← plus_plus, ← add_eq_plus hkind]
    exact (if_neg hgoes).trans (ih hnone hrest)

end Combined

variable {amount : ε → Except EvaluationError α} {value : ε → α} {target : String}

theorem Combined.collect_eq {sources : List (Provider ε × Nat)} {c : Combined α}
    (hc : c.assignment = none) (h : Plain amount value target sources) :
    collect amount target c sources =
      .ok (c.plus (sources.map (Totals.share value target)).sum) := by
  induction sources generalizing c with
  | nil => rw [List.map_nil, List.sum_nil, plus_zero]; rfl
  | cons source sources ih =>
    obtain ⟨p, n⟩ := source
    obtain ⟨hfirst, hrest⟩ := List.forall_mem_cons.1 h
    rw [collect, List.map_cons, List.sum_cons]
    -- What is not held is passed over, and it would contribute nothing.
    by_cases hn : n = 0
    · rw [if_pos hn, hn, Totals.share_zero, zero_add]
      exact ih hc hrest
    · rw [if_neg hn, addAll_eq n hc fun modifier hmem => by
        obtain ⟨hmem, htarget⟩ := List.mem_filter.1 hmem
        exact hfirst hn modifier hmem (of_decide_eq_true htarget)]
      have hnone : (c.plus (Totals.share value target (p, n))).assignment = none := hc
      have hgoes : ¬ (c.plus (Totals.share value target (p, n))).assignment.isSome := by
        rw [hnone]
        nofun
      rw [← plus_plus]
      exact (if_neg hgoes).trans (ih hnone hrest)

end Sums

/-! ### Regrouping -/

section Regrouping

variable {α ε : Type}

/-- The same is held: sources in another order, their modifiers in another order, or a stack in two
parts. -/
inductive Regrouping : List (Provider ε × Nat) → List (Provider ε × Nat) → Prop
  | reorder {xs ys : List (Provider ε × Nat)} (h : xs.Perm ys) : Regrouping xs ys
  | shuffle (p : Provider ε) (n : Nat) {modifiers : List (Modifier ε)}
    (h : p.modifiers.Perm modifiers) (xs : List (Provider ε × Nat)) :
    Regrouping ((p, n) :: xs) (({ p with modifiers }, n) :: xs)
  | split (p : Provider ε) {m n : Nat} (h : m + n ≤ 2147483647) (xs : List (Provider ε × Nat)) :
    Regrouping ((p, m + n) :: xs) ((p, m) :: (p, n) :: xs)
  | trans {xs ys zs : List (Provider ε × Nat)} (h : Regrouping xs ys) (h' : Regrouping ys zs) :
    Regrouping xs zs

namespace Regrouping

variable {value : ε → α} {target : String} {xs ys : List (Provider ε × Nat)}

theorem sum_share [CommSemiring α] (h : Regrouping xs ys) :
    (xs.map (Totals.share value target)).sum = (ys.map (Totals.share value target)).sum := by
  induction h with
  | reorder h => exact (h.map _).sum_eq
  | shuffle p n h xs =>
    rw [List.map_cons, List.map_cons, List.sum_cons, List.sum_cons, Totals.share_perm _ _ p h n]
  | split p h xs => simp only [List.map_cons, List.sum_cons, Totals.share_add _ _ p h, add_assoc]
  | trans _ _ ih ih' => exact ih.trans ih'

theorem plain {amount : ε → Except EvaluationError α} (h : Regrouping xs ys)
    (hplain : Plain amount value target xs) : Plain amount value target ys := by
  induction h with
  | reorder h => exact fun source hsource => hplain source (h.mem_iff.2 hsource)
  | shuffle p n h xs =>
    obtain ⟨hfirst, hrest⟩ := List.forall_mem_cons.1 hplain
    exact List.forall_mem_cons.2
      ⟨fun hn modifier hmem => hfirst hn modifier (h.mem_iff.2 hmem), hrest⟩
  | @split p m n h xs =>
    obtain ⟨hfirst, hrest⟩ := List.forall_mem_cons.1 hplain
    -- Of a part that is held, the whole is held.
    have hm (hne : m ≠ 0) : m + n ≠ 0 := by omega
    have hn (hne : n ≠ 0) : m + n ≠ 0 := by omega
    exact List.forall_mem_cons.2 ⟨fun hne => hfirst (hm hne),
      List.forall_mem_cons.2 ⟨fun hne => hfirst (hn hne), hrest⟩⟩
  | trans _ _ ih ih' => exact ih' (ih hplain)

end Regrouping

end Regrouping

/-! ### What is held -/

def Provider.modifiersOf {ε : Type} (p : Provider ε) (target : String) (kind : ModifierKind) :
    List (Modifier ε) :=
  p.modifiers.filter fun modifier => modifier.target = target ∧ modifier.kind = kind

section Share

variable {α ε : Type} [CommSemiring α] (value : ε → α) (target : String)

theorem Totals.share_eq (source : Provider ε × Nat) :
    share value target source =
      ⟨((source.1.modifiersOf target .absolute).map fun modifier =>
          value modifier.amount * source.2).sum,
        ((source.1.modifiersOf target .relativeToBase).map fun modifier =>
          value modifier.amount * source.2).sum,
        ((source.1.modifiersOf target .relative).map fun modifier =>
          (1 + value modifier.amount) ^ min source.2 2147483647).prod⟩ := by
  unfold share Provider.modifiersOf
  induction source.1.modifiers with
  | nil => rfl
  | cons modifier modifiers ih =>
    by_cases htarget : modifier.target = target
    · rw [List.filter_cons_of_pos (by simpa using htarget), List.map_cons, List.sum_cons, ih]
      cases hkind : modifier.kind <;> ext <;> simp [of, htarget, hkind, Combined.maxPower]
    · rw [List.filter_cons_of_neg (by simpa using htarget), ih]
      simp [htarget]

theorem Totals.sum_share (sources : List (Provider ε × Nat)) :
    (sources.map (share value target)).sum =
      ⟨(sources.map fun source =>
          ((source.1.modifiersOf target .absolute).map fun modifier =>
            value modifier.amount * source.2).sum).sum,
        (sources.map fun source =>
          ((source.1.modifiersOf target .relativeToBase).map fun modifier =>
            value modifier.amount * source.2).sum).sum,
        (sources.map fun source =>
          ((source.1.modifiersOf target .relative).map fun modifier =>
            (1 + value modifier.amount) ^ min source.2 2147483647).prod).prod⟩ := by
  simp only [sum_eq, List.map_map, Function.comp_def, share_eq]

end Share

namespace State

/-- What the held modifiers for a target come to, with amounts in any type of numbers. -/
def combinedBy {α : Type} [Add α] [Mul α] [NatCast α] [OfNat α 0] [OfNat α 1] (s : State)
    (amount : Expression → Except EvaluationError α) (target : String) :
    Except EvaluationError (Combined α) :=
  Combined.collect amount target .neutral s.sources

/-- The engine combines modifiers like this, with amounts that are doubles. -/
theorem combined_eq_combinedBy (s : State) (target : String) :
    s.combined target =
      s.combinedBy (·.eval (s.scopeWith (s.combinedWithin [target]))) target :=
  combinedWithin_of_not_mem List.not_mem_nil

theorem attributeValue_eq (s : State) {id : String} {a : Attribute}
    (ha : s.attributes[id]? = some a) :
    s.attributeValue id = (s.combined id).map (·.apply a.base a.min a.max) := by
  unfold attributeValue attributeWith
  rw [ha]
  cases s.combined id <;> rfl

theorem effectValue_eq (s : State) (id : String) :
    s.effectValue id = (s.combined id).map Combined.effect := by
  unfold effectValue effectWith
  cases s.combined id <;> rfl

theorem sources_perm {s s' : State} (hinventory : s.inventory.entries.Perm s'.inventory.entries)
    (hstatuses : s.statuses.entries.Perm s'.statuses.entries) : s.sources.Perm s'.sources :=
  (hinventory.map _).append (hstatuses.map _)

variable {α : Type}

/-- In exact arithmetic, modifiers of which none assigns come to the sums and the product of their
formula, with powers that are products of repeated squares, and attributes and effects are what the
formula makes of these. Neither the order of stacks, statuses and modifiers changes anything, nor
does it when a stack is held in two parts. The engine has the same totals with doubles. -/
theorem combined_in_any_order [CommRing α] [LinearOrder α] (s : State) (target : String)
    (amount : Expression → Except EvaluationError α) (value : Expression → α)
    (h : Plain amount value target s.sources) :
    (∃ c : Combined α, s.combinedBy amount target = .ok c ∧ c.assignment = none ∧
      c.absolute = (s.sources.map fun (p, n) =>
        ((p.modifiersOf target .absolute).map fun modifier => value modifier.amount * n).sum).sum ∧
      c.relativeToBase = (s.sources.map fun (p, n) =>
        ((p.modifiersOf target .relativeToBase).map fun modifier =>
          value modifier.amount * n).sum).sum ∧
      c.relative = (s.sources.map fun (p, n) =>
        ((p.modifiersOf target .relative).map fun modifier =>
          (1 + value modifier.amount) ^ min n 2147483647).prod).prod ∧
      (∀ (a : α) (n : Nat), power a n =
        n.bitIndices.foldl (fun product i => product * (fun x => x * x)^[i] a) 1) ∧
      (∀ base lo hi : α, lo ≤ hi → c.apply base lo hi =
        max lo (min ((base * (1 + c.relativeToBase) + c.absolute) * c.relative) hi)) ∧
      c.effect = c.absolute * c.relative ∧
      (∀ sources, Regrouping s.sources sources →
        Combined.collect amount target .neutral sources = .ok c) ∧
      ∀ s' : State, s.inventory.entries.Perm s'.inventory.entries →
        s.statuses.entries.Perm s'.statuses.entries → s'.combinedBy amount target = .ok c) ∧
    s.combined target = s.combinedBy (·.eval (s.scopeWith (s.combinedWithin [target]))) target ∧
    (∀ a, s.attributes[target]? = some a →
      s.attributeValue target = (s.combined target).map (·.apply a.base a.min a.max)) ∧
    s.effectValue target = (s.combined target).map Combined.effect := by
  have hneutral : (Combined.neutral : Combined α).assignment = none := rfl
  have hregrouped (sources : List (Provider Expression × Nat))
      (hsources : Regrouping s.sources sources) : Combined.collect amount target .neutral sources =
        .ok (Combined.neutral.plus (s.sources.map (Totals.share value target)).sum) := by
    rw [Combined.collect_eq hneutral (hsources.plain h), hsources.sum_share]
  have htotal := Totals.sum_share value target s.sources
  refine ⟨?_, s.combined_eq_combinedBy target, fun _ => s.attributeValue_eq,
    s.effectValue_eq target⟩
  refine ⟨_, Combined.collect_eq hneutral h, rfl, ?_, ?_, ?_, fun a n => powerOnto_eq_foldl 1 a n,
    fun base lo hi hbounds => clamp_eq_max_min _ hbounds, rfl, hregrouped,
    fun s' hinventory hstatuses => hregrouped _ (.reorder (sources_perm hinventory hstatuses))⟩
  · exact (zero_add _).trans (congrArg Totals.absolute htotal)
  · exact (zero_add _).trans (congrArg Totals.relativeToBase htotal)
  · exact (one_mul _).trans (congrArg Totals.relative htotal)

end State

/-! ### A torch under a curse -/

def Expression.exact (e : Expression) : Except EvaluationError ℚ :=
  match e.code with
  | .number x =>
    match Binary.ofFloat? x with
    | some b => .ok ((if b.negative then -1 else 1) * b.significand * 2 ^ b.exponent)
    | none => .error (.notANumber e.source)
  | _ => .error (.notANumber e.source)

def torch : Provider Expression where
  id := "torch"
  modifiers := [⟨"light", .absolute, .constant 2.0⟩, ⟨"light", .relative, .constant 0.5⟩]

def curse : Provider Expression where
  id := "curse"
  modifiers := [⟨"light", .relativeToBase, .constant (-0.5)⟩]

def night : State where
  inventory := { entries := [⟨torch, 3⟩] }
  statuses := ⟨[⟨curse, 1.0⟩]⟩
  random := .scripted [] 0

theorem exact_torch : (Expression.constant 2.0).exact = .ok 2 ∧
    (Expression.constant 0.5).exact = .ok (1 / 2) ∧
    (Expression.constant (-0.5)).exact = .ok (-1 / 2) := by
  have htwo : Binary.ofFloat? 2.0 = some ⟨false, 0x10000000000000, -51⟩ := by decide
  have hhalf : Binary.ofFloat? 0.5 = some ⟨false, 0x10000000000000, -53⟩ := by decide
  have hless : Binary.ofFloat? (-0.5) = some ⟨true, 0x10000000000000, -53⟩ := by decide
  refine ⟨?_, ?_, ?_⟩
  · simp only [Expression.exact, Expression.constant, htwo]
    norm_num
  · simp only [Expression.exact, Expression.constant, hhalf]
    norm_num
  · simp only [Expression.exact, Expression.constant, hless]
    norm_num

def Expression.exactValue (e : Expression) : ℚ := e.exact.toOption.getD 0

theorem Expression.exactValue_eq {e : Expression} {x : ℚ} (h : e.exact = .ok x) :
    e.exactValue = x := by
  rw [exactValue, h]
  rfl

theorem plain_night : Plain Expression.exact Expression.exactValue "light" night.sources := by
  obtain ⟨htwo, hhalf, hless⟩ := exact_torch
  have hvalue {e : Expression} {x : ℚ} (he : e.exact = .ok x) : e.exact = .ok e.exactValue := by
    rw [Expression.exactValue_eq he, he]
  have hsources : night.sources = [(torch, 3), (curse, 1)] := rfl
  rw [hsources]
  intro source hsource _ modifier hmem _
  simp only [List.mem_cons, List.not_mem_nil, or_false] at hsource
  obtain rfl | rfl := hsource
  · simp only [torch, List.mem_cons, List.not_mem_nil, or_false] at hmem
    obtain rfl | rfl := hmem
    · exact ⟨nofun, hvalue htwo⟩
    · exact ⟨nofun, hvalue hhalf⟩
  · simp only [curse, List.mem_cons, List.not_mem_nil, or_false] at hmem
    obtain rfl := hmem
    exact ⟨nofun, hvalue hless⟩

/-- Three torches under a curse, and the same torches in two parts and behind the curse. -/
theorem combined_in_any_order_torch :
    Plain Expression.exact Expression.exactValue "light" night.sources ∧
      ∃ c : Combined ℚ, night.combinedBy Expression.exact "light" = .ok c ∧
        c.apply 4 0 100 = 27 ∧ c.effect = 81 / 4 ∧
        Combined.collect Expression.exact "light" .neutral [(curse, 1), (torch, 1), (torch, 2)] =
          .ok c := by
  obtain ⟨⟨c, hc, -, habsolute, hbase, hrelative, -, happly, heffect, hregrouped, -⟩, -⟩ :=
    night.combined_in_any_order "light" Expression.exact Expression.exactValue plain_night
  obtain ⟨htwo, hhalf, hless⟩ := exact_torch
  have hsources : night.sources = [(torch, 1 + 2), (curse, 1)] := rfl
  rw [hsources] at habsolute hbase hrelative hregrouped
  have habsolute : c.absolute = 2 * 3 := by
    rw [habsolute]
    simp [torch, curse, Provider.modifiersOf, Expression.exactValue_eq htwo]
  have hbase : c.relativeToBase = -1 / 2 := by
    rw [hbase]
    simp [torch, curse, Provider.modifiersOf, Expression.exactValue_eq hless]
  have hrelative : c.relative = (1 + 1 / 2) ^ 3 := by
    rw [hrelative]
    simp [torch, curse, Provider.modifiersOf, Expression.exactValue_eq hhalf]
  have hparts : Regrouping [(torch, 1 + 2), (curse, 1)] [(curse, 1), (torch, 1), (torch, 2)] :=
    .trans (.split torch (by decide) _)
      (.reorder (List.perm_append_singleton (curse, 1) [(torch, 1), (torch, 2)]))
  refine ⟨plain_night, c, hc, ?_, ?_, hregrouped _ hparts⟩
  · have hvalue : (4 * (1 + -1 / 2) + 2 * 3) * (1 + 1 / 2) ^ 3 = (27 : ℚ) := by norm_num
    rw [happly 4 0 100 (by norm_num), habsolute, hbase, hrelative, hvalue,
      min_eq_left (show (27 : ℚ) ≤ 100 by norm_num), max_eq_right (show (0 : ℚ) ≤ 27 by norm_num)]
  · rw [heffect, habsolute, hrelative]
    norm_num

end Scenario
