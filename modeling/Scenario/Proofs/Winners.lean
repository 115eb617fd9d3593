import Scenario.Proofs.Acquisition
import Scenario.Proofs.Attributes
import Scenario.Proofs.Totals

/-!
The first assignment. Where something that is held assigns a target, the target is what the first
assignment says, and nothing behind it is looked at. Which one is the first depends on nothing but
the order in which things were acquired.
-/

namespace Scenario

namespace Combined

variable {amount : Expression → Except EvaluationError Float} {c c' : Combined Float}
  {before after : List (Modifier Expression × Nat)} {m : Modifier Expression × Nat} {x : Float}

/-- Adds modifiers one by one, with how many times each is held, up to the first assignment. -/
def addEach (amount : Expression → Except EvaluationError Float) : Combined Float →
    List (Modifier Expression × Nat) → Except EvaluationError (Combined Float)
  | c, [] => return c
  | c, (modifier, count) :: rest => do
    let x ← amount modifier.amount
    let c := c.add modifier.kind x count
    if c.assignment.isSome then return c else addEach amount c rest

theorem addEach_append (hc : c.assignment = none) (count : Nat)
    (modifiers : List (Modifier Expression)) (rest : List (Modifier Expression × Nat)) :
    addEach amount c (modifiers.map (·, count) ++ rest) = (do
      let c ← addAll amount count c modifiers
      if c.assignment.isSome then return c else addEach amount c rest) := by
  induction modifiers generalizing c with
  | nil =>
    have hgoes : ¬ c.assignment.isSome := by simp [hc]
    exact (if_neg hgoes).symm
  | cons modifier modifiers ih =>
    simp only [List.map_cons, List.cons_append, addEach, addAll]
    cases amount modifier.amount with
    | error cause => rfl
    | ok x =>
      simp only [bind, Except.bind]
      cases hadded : (c.add modifier.kind x count).assignment with
      | some y => simp [pure, Except.pure, hadded]
      | none => simpa [bind, Except.bind] using ih hadded

theorem collect_eq_addEach (hc : c.assignment = none) (target : String)
    (sources : List (Provider Expression × Nat)) :
    collect amount target c sources = addEach amount c (contributions target sources) := by
  induction sources generalizing c with
  | nil => rfl
  | cons source sources ih =>
    obtain ⟨provider, count⟩ := source
    rw [collect]
    by_cases hcount : count = 0
    · rw [if_pos hcount, ih hc, contributions, contributions,
        List.filter_cons_of_neg (by simpa using hcount)]
    · have hflat : contributions target ((provider, count) :: sources) =
          (provider.modifiers.filter (·.target = target)).map (·, count) ++
            contributions target sources := by
        rw [contributions, contributions, List.filter_cons_of_pos (by simpa using hcount),
          List.flatMap_cons]
      rw [if_neg hcount, hflat, addEach_append hc]
      congr 1
      funext c'
      split
      · rfl
      · rename_i hnone
        exact ih (by simpa using hnone)

theorem addEach_congr {amount' : Expression → Except EvaluationError Float}
    {modifiers : List (Modifier Expression × Nat)}
    (h : ∀ m ∈ modifiers, amount m.1.amount = amount' m.1.amount) (c : Combined Float) :
    addEach amount c modifiers = addEach amount' c modifiers := by
  induction modifiers generalizing c with
  | nil => rfl
  | cons m modifiers ih =>
    obtain ⟨hm, hrest⟩ := List.forall_mem_cons.1 h
    simp only [addEach, hm, ih hrest]

theorem addEach_of_first (after : List (Modifier Expression × Nat)) (hc : c.assignment = none)
    (hbefore : ∀ b ∈ before, b.1.kind ≠ .assignment ∧ ∃ y, amount b.1.amount = .ok y)
    (hm : m.1.kind = .assignment) (hx : amount m.1.amount = .ok x) : ∃ c' : Combined Float,
      c'.assignment = some x ∧ addEach amount c (before ++ m :: after) = .ok c' := by
  induction before generalizing c with
  | nil =>
    refine ⟨c.add m.1.kind x m.2, by simp [hm, add, hc], ?_⟩
    simp [addEach, hx, hm, add, hc, bind, Except.bind, pure, Except.pure]
  | cons b before ih =>
    obtain ⟨⟨hkind, y, hy⟩, hrest⟩ := List.forall_mem_cons.1 hbefore
    have hadded : (c.add b.1.kind y b.2).assignment = none := by
      rw [add_assignment c hkind, hc]
    obtain ⟨c', hc', hrun⟩ := ih hadded hrest
    refine ⟨c', hc', ?_⟩
    simpa [addEach, hy, hadded, bind, Except.bind] using hrun

theorem exists_amount_of_addEach (hc : c.assignment = none)
    (hbefore : ∀ b ∈ before, b.1.kind ≠ .assignment)
    (h : addEach amount c (before ++ m :: after) = .ok c') :
    (∀ b ∈ before, ∃ y, amount b.1.amount = .ok y) ∧ ∃ y, amount m.1.amount = .ok y := by
  induction before generalizing c with
  | nil =>
    obtain ⟨y, hy, -⟩ := exists_ok_of_bind h
    exact ⟨List.forall_mem_nil _, y, hy⟩
  | cons b before ih =>
    obtain ⟨hkind, hrest⟩ := List.forall_mem_cons.1 hbefore
    obtain ⟨y, hy, h⟩ := exists_ok_of_bind h
    have hadded : (c.add b.1.kind y b.2).assignment = none := by
      rw [add_assignment c hkind, hc]
    have hgoes : ¬ (c.add b.1.kind y b.2).assignment.isSome := by simp [hadded]
    obtain ⟨hamounts, hlast⟩ := ih hadded hrest ((if_neg hgoes).symm.trans h)
    exact ⟨List.forall_mem_cons.2 ⟨⟨y, hy⟩, hamounts⟩, hlast⟩

end Combined

namespace State

variable {s s' : State} {opened opened' : List String} {target t : String} {c : Combined Float}

theorem combinedWithin_eq_addEach (h : t ∉ opened) : s.combinedWithin opened t =
    Combined.addEach (·.eval (s.scopeWith (s.combinedWithin (t :: opened)))) .neutral
      (contributions t s.sources) := by
  rw [combinedWithin_of_not_mem h]
  exact Combined.collect_eq_addEach rfl t s.sources

theorem contributions_eq_nil (h : t ∉ s.targets) : contributions t s.sources = [] := by
  apply List.flatMap_eq_nil_iff.2
  intro source hsource
  rw [List.map_eq_nil_iff, List.filter_eq_nil_iff]
  intro modifier hmodifier htarget
  have hheld := (List.mem_filter.1 hsource).1
  exact h (mem_targets.2 ⟨source, hheld, modifier, hmodifier, by simpa using htarget⟩)

/-! ### Fewer targets in progress -/

theorem lockstep_ok_or (Q : Prop) : Lockstep fun α (x y : Except EvaluationError α) =>
    ∀ a, x = .ok a → y = .ok a ∨ Q where
  pure _ _ h := .inl h
  bind hx hf := by
    intro b h
    obtain ⟨a, ha, hb⟩ := exists_ok_of_bind h
    rcases hx a ha with ha | hQ
    · rw [ha]
      exact hf a b hb
    · exact .inr hQ
  throw _ _ := nofun

theorem lockstep_ok : Lockstep fun α (x y : Except EvaluationError α) =>
    ∀ a, x = .ok a → y = .ok a := by
  simpa only [or_false] using lockstep_ok_or False

theorem combinedWithin_mono (h : opened' ⊆ opened) (hc : s.combinedWithin opened t = .ok c) :
    s.combinedWithin opened' t = .ok c := by
  generalize hn : s.unopened opened' = n
  induction n using Nat.strongRecOn generalizing opened opened' t c with
  | ind n ih =>
    by_cases hmem : t ∈ opened
    · rw [combinedWithin_of_mem hmem] at hc
      cases hc
    · have hmem' : t ∉ opened' := fun hmem' => hmem (h hmem')
      rw [combinedWithin_of_not_mem hmem] at hc
      rw [combinedWithin_of_not_mem hmem']
      refine lockstep_ok.combine s _ _ t (fun ht u c hu => ?_) c hc
      exact ih _ (hn ▸ unopened_cons_lt hmem' ht) (List.cons_subset_cons t h) hu rfl

theorem eval_mono (h : opened' ⊆ opened) {e : Expression} {x : Float}
    (hx : e.eval (s.scopeWith (s.combinedWithin opened)) = .ok x) :
    e.eval (s.scopeWith (s.combinedWithin opened')) = .ok x :=
  lockstep_ok.amount s (fun _ _ => combinedWithin_mono h) e x hx

/-! ### One more target in progress -/

/-- What is combined while others are in progress needs none of the target, or it has combined the
target as well. -/
theorem combinedWithin_or (h : ∀ u, u ∈ opened' ↔ u = target ∨ u ∈ opened)
    (hc : s.combinedWithin opened t = .ok c) : s.combinedWithin opened' t = .ok c ∨
      ∃ within c, target ∉ within ∧ s.combinedWithin within target = .ok c := by
  generalize hn : s.unopened opened = n
  induction n using Nat.strongRecOn generalizing opened opened' t c with
  | ind n ih =>
    by_cases hmem : t ∈ opened
    · rw [combinedWithin_of_mem hmem] at hc
      cases hc
    · by_cases htarget : t = target
      · subst htarget
        exact .inr ⟨opened, c, hmem, hc⟩
      · have hmem' : t ∉ opened' := fun hmem' => ((h t).1 hmem').elim htarget hmem
        rw [combinedWithin_of_not_mem hmem] at hc
        rw [combinedWithin_of_not_mem hmem']
        refine (lockstep_ok_or _).combine s _ _ t (fun ht u c hu => ?_) c hc
        refine ih _ (hn ▸ unopened_cons_lt hmem ht) (fun v => ?_) hu rfl
        rw [List.mem_cons, List.mem_cons, h]
        exact or_left_comm

/-! ### The first assignment -/

variable {before after : List (Modifier Expression)} {m : Modifier Expression} {x : Float}

/-- The modifiers for a target begin with these, of which the last assigns it, and all of them have
amounts. -/
structure FirstAssigns (s : State) (target : String)
    (amount : Expression → Except EvaluationError Float) (before : List (Modifier Expression))
    (m : Modifier Expression) (x : Float) : Prop where
  first : ∃ after, s.modifiersFor target = before ++ m :: after
  free : ∀ b ∈ before, b.kind ≠ .assignment
  assigns : m.kind = .assignment
  amounts : ∀ b ∈ before, ∃ y, amount b.amount = .ok y
  value : amount m.amount = .ok x

theorem FirstAssigns.contributions_eq {amount : Expression → Except EvaluationError Float}
    (h : s.FirstAssigns target amount before m x) : ∃ before' m' after',
      contributions target s.sources = before' ++ m' :: after' ∧
      before'.map Prod.fst = before ∧ m'.1 = m := by
  obtain ⟨after, hlist⟩ := h.first
  obtain ⟨before', rest, hsplit, hbefore, hrest⟩ := List.map_eq_append_iff.1 hlist
  obtain ⟨m', after', rfl, hm, -⟩ := List.map_eq_cons_iff.1 hrest
  exact ⟨before', m', after', hsplit, hbefore, hm⟩

/-- The amounts up to the first assignment have their values while the target is in progress. -/
theorem FirstAssigns.within (h : s.FirstAssigns target s.eval before m x) :
    s.FirstAssigns target (·.eval (s.scopeWith (s.combinedWithin [target]))) before m x := by
  obtain ⟨before', m', after', hsplit, rfl, rfl⟩ := h.contributions_eq
  have hfree : ∀ b ∈ before', b.1.kind ≠ .assignment := by simpa using h.free
  have hwithin : ∀ e y, s.eval e = .ok y →
      (e = m'.1.amount ∨ ∃ b ∈ before', e = b.1.amount) →
      e.eval (s.scopeWith (s.combinedWithin [target])) = .ok y := by
    intro e y hy he
    have hmore : ∀ t c, s.combined t = .ok c → s.combinedWithin [target] t = .ok c ∨
        ∃ within c, target ∉ within ∧ s.combinedWithin within target = .ok c := fun t c =>
      combinedWithin_or (by simp)
    rcases (lockstep_ok_or _).amount s hmore e y hy with hy | ⟨within, c, hnot, hc⟩
    · exact hy
    -- The target has been combined on the way, so that this very amount has been as well.
    · rw [combinedWithin_eq_addEach hnot, hsplit] at hc
      obtain ⟨hbefore, hlast⟩ := Combined.exists_amount_of_addEach rfl hfree hc
      obtain ⟨y', hy'⟩ : ∃ y', e.eval (s.scopeWith (s.combinedWithin (target :: within))) =
          .ok y' := by
        rcases he with rfl | ⟨b, hb, rfl⟩
        · exact hlast
        · exact hbefore b hb
      have hsame : s.eval e = .ok y' := eval_mono (List.nil_subset _) hy'
      rw [hy] at hsame
      cases hsame
      exact eval_mono (by simp) hy'
  refine { h with amounts := fun b hb => ?_, value := hwithin _ x h.value (.inl rfl) }
  obtain ⟨y, hy⟩ := h.amounts b hb
  obtain ⟨b', hb', rfl⟩ := List.mem_map.1 hb
  exact ⟨y, hwithin _ y hy (.inr ⟨b', hb', rfl⟩)⟩

theorem FirstAssigns.values
    (h : s.FirstAssigns target (·.eval (s.scopeWith (s.combinedWithin [target]))) before m x) :
    s.effectValue target = .ok x ∧
      ∀ a, s.attributes[target]? = some a → s.attributeValue target = .ok x := by
  obtain ⟨before', m', after', hsplit, rfl, rfl⟩ := h.contributions_eq
  have hamounts : ∀ b ∈ before', b.1.kind ≠ .assignment ∧
      ∃ y, b.1.amount.eval (s.scopeWith (s.combinedWithin [target])) = .ok y := fun b hb =>
    ⟨h.free _ (List.mem_map_of_mem hb), h.amounts _ (List.mem_map_of_mem hb)⟩
  obtain ⟨c, hc, hrun⟩ :=
    Combined.addEach_of_first (c := .neutral) after' rfl hamounts h.assigns h.value
  have hcombined : s.combined target = .ok c := by
    unfold combined
    rw [combinedWithin_eq_addEach List.not_mem_nil, hsplit, hrun]
  constructor
  · rw [effectValue_eq, hcombined]
    simp [Except.map, Combined.effect, hc]
  · intro a ha
    rw [s.attributeValue_eq ha, hcombined]
    simp [Except.map, Combined.apply, hc]

/-! ### Other modifiers behind it -/

/-- States that differ in nothing that counts up to these modifiers for a target. The modifiers for
other targets are the same, and so is what their amounts and those of the given ones come to, given
what each target comes to. -/
structure AlikeUpTo (target : String) (first : List (Modifier Expression)) (s s' : State) :
    Prop where
  others : ∀ t, t ≠ target → contributions t s'.sources = contributions t s.sources
  amounts : ∀ modifier, (modifier ∈ first ∨ ∃ t, t ≠ target ∧ modifier ∈ s.modifiersFor t) →
    ∀ combined : String → Except EvaluationError (Combined Float),
      modifier.amount.eval (s'.scopeWith combined) = modifier.amount.eval (s.scopeWith combined)

namespace AlikeUpTo

variable {first : List (Modifier Expression)}

theorem combinedWithin (h : AlikeUpTo target first s s') (hopened : target ∈ opened) :
    s'.combinedWithin opened = s.combinedWithin opened := by
  funext t
  generalize hn : s.unopened opened = n
  induction n using Nat.strongRecOn generalizing opened t with
  | ind n ih =>
    by_cases hmem : t ∈ opened
    · rw [combinedWithin_of_mem hmem, combinedWithin_of_mem hmem]
    · have hne : t ≠ target := fun htarget => hmem (htarget ▸ hopened)
      rw [combinedWithin_eq_addEach hmem, combinedWithin_eq_addEach hmem, h.others t hne]
      by_cases ht : t ∈ s.targets
      · have hlt := unopened_cons_lt hmem ht
        have hbelow : s'.combinedWithin (t :: opened) = s.combinedWithin (t :: opened) :=
          funext fun u => ih _ (hn ▸ hlt) (List.mem_cons_of_mem t hopened) u rfl
        rw [hbelow]
        apply Combined.addEach_congr
        intro m hm
        exact h.amounts m.1 (.inr ⟨t, hne, List.mem_map_of_mem hm⟩) _
      · rw [contributions_eq_nil ht]
        rfl

theorem firstAssigns (h : AlikeUpTo target (before ++ [m]) s s')
    (hs : s.FirstAssigns target (·.eval (s.scopeWith (s.combinedWithin [target]))) before m x)
    (hfirst : ∃ after, s'.modifiersFor target = before ++ m :: after) :
    s'.FirstAssigns target (·.eval (s'.scopeWith (s'.combinedWithin [target]))) before m x := by
  have hsame : ∀ modifier ∈ before ++ [m],
      modifier.amount.eval (s'.scopeWith (s'.combinedWithin [target])) =
        modifier.amount.eval (s.scopeWith (s.combinedWithin [target])) := by
    intro modifier hmodifier
    rw [h.combinedWithin List.mem_cons_self, h.amounts modifier (.inl hmodifier)]
  refine { hs with first := hfirst, amounts := fun b hb => ?_, value := ?_ }
  · obtain ⟨y, hy⟩ := hs.amounts b hb
    exact ⟨y, (hsame b (List.mem_append_left _ hb)).trans hy⟩
  · exact (hsame m (by simp)).trans hs.value

end AlikeUpTo

end State

/-! ### Engines -/

namespace Engine

variable {e : Engine} {past : List State}

/-- The first assignment wins, and acquisition alone decides which one that is. Through whatever an
engine has gone, the modifiers for a target are those of the items that it holds, in the order in
which they were acquired since they were last gone, and then those of the active statuses in theirs.
If the first assignment among them has an amount, and all before it have, the effect and the
attribute are that amount, within bounds or not. Whatever comes behind it changes nothing about
this, whether it has amounts or not. Topping up a stack or renewing a status leaves the order as it
is. -/
theorem first_assignment_wins (h : e.Lived past) (target : String) :
    (∃ items, InOrder (fun s id => 0 < s.inventory.count id) past items) ∧
    (∃ statuses, InOrder (fun s id => s.statuses.contains id) past statuses) ∧
    (∀ items statuses, InOrder (fun s id => 0 < s.inventory.count id) past items →
      InOrder (fun s id => s.statuses.contains id) past statuses →
      e.state.modifiersFor target =
        (items.filterMap (e.state.items[·]?) ++
          statuses.filterMap (e.state.statusKinds[·]?)).flatMap
          fun provider => provider.modifiers.filter (·.target = target)) ∧
    (∀ before m after x, e.state.modifiersFor target = before ++ m :: after →
      (∀ b ∈ before, b.kind ≠ .assignment ∧ ∃ y, e.state.eval b.amount = .ok y) →
      m.kind = .assignment → e.state.eval m.amount = .ok x →
      (e.state.effectValue target = .ok x ∧
        ∀ a, e.state.attributes[target]? = some a → e.state.attributeValue target = .ok x) ∧
      ∀ s' after', s'.modifiersFor target = before ++ m :: after' →
        (e.state.AlikeUpTo target (before ++ [m]) s' ∨
          (∀ b ∈ before, ∃ y, s'.eval b.amount = .ok y) ∧ s'.eval m.amount = .ok x) →
        s'.effectValue target = .ok x ∧
          ∀ a, s'.attributes[target]? = some a → s'.attributeValue target = .ok x) ∧
    (∀ id amount s', e.state.giveItem id amount = .ok s' → 0 < e.state.inventory.count id →
      0 < s'.inventory.count id → s'.modifiersFor target = e.state.modifiersFor target) ∧
    (∀ id duration s', e.state.setStatus id duration = .ok s' → e.state.statuses.contains id →
      s'.statuses.contains id → s'.modifiersFor target = e.state.modifiersFor target) := by
  have hs := h.reachable.wellFormed
  obtain ⟨hitems, hstatuses⟩ := h.acquired
  refine ⟨⟨_, hitems⟩, ⟨_, hstatuses⟩, ?_, ?_, ?_, ?_⟩
  · intro items statuses hitems' hstatuses'
    rw [hs.modifiersFor_eq, hitems.unique hitems', hstatuses.unique hstatuses']
  · intro before m after x hlist hbefore hm hx
    have hfirst : e.state.FirstAssigns target e.state.eval before m x :=
      ⟨⟨after, hlist⟩, fun b hb => (hbefore b hb).1, hm, fun b hb => (hbefore b hb).2, hx⟩
    refine ⟨hfirst.within.values, fun s' after' hlist' hsame => ?_⟩
    rcases hsame with halike | ⟨hamounts, hvalue⟩
    · exact (halike.firstAssigns hfirst.within ⟨after', hlist'⟩).values
    · have hfirst' : s'.FirstAssigns target s'.eval before m x :=
        { hfirst with first := ⟨after', hlist'⟩, amounts := hamounts, value := hvalue }
      exact hfirst'.within.values
  · intro id amount s' hgiven hbefore hafter
    exact State.modifiersFor_giveItem hs hgiven hbefore hafter target
  · intro id duration s' hset hbefore hafter
    exact State.modifiersFor_setStatus hs hset hbefore hafter target

end Engine

/-! ### A reign with a break -/

def reign : Provider Expression where
  id := "reign"
  modifiers := [⟨"rank", .assignment, .constant 9⟩]

def regency : Provider Expression where
  id := "regency"
  modifiers := [⟨"rank", .absolute, .constant 1⟩, ⟨"rank", .assignment, .constant 4⟩]

/-- A mirror that shows the rank of those who look into it. -/
def mirror : Provider Expression where
  id := "mirror"
  modifiers := [⟨"rank", .relative, ⟨.text "effect('rank')", .host "effect" [.text "rank"], none⟩⟩]

def court : Engine :=
  ((Engine.new {}).performAll quiet [.registerStatus reign, .registerStatus regency,
    .registerStatus mirror, .setStatus "reign" 7, .setStatus "regency" 7, .setStatus "mirror" 7,
    .setStatus "reign" 0, .tick, .setStatus "reign" 7]).2

/-- The court when the mirror is gone. -/
def mirrorless : State := (court.perform quiet (.setStatus "mirror" 0)).2.state

theorem court_reachable : court.Reachable :=
  Engine.ReachableBy.performAll (.start {} (.ofSeed "default") (.ofSeed "default")) quiet
    fun _ _ => trivial

theorem court_alikeUpTo_mirrorless : court.state.AlikeUpTo "rank"
    [⟨"rank", .absolute, .constant 1⟩, ⟨"rank", .assignment, .constant 4⟩] mirrorless := by
  have hsources : court.state.sources = [(regency, 1), (mirror, 1), (reign, 1)] := rfl
  have hmirrorless : mirrorless.sources = [(regency, 1), (reign, 1)] := rfl
  refine ⟨fun t ht => ?_, fun modifier hmodifier combined => ?_⟩
  · rw [hsources, hmirrorless]
    simp [contributions, regency, mirror, reign, ht.symm]
  · rcases hmodifier with hmodifier | ⟨t, ht, hmodifier⟩
    · simp only [List.mem_cons, List.not_mem_nil, or_false] at hmodifier
      rcases hmodifier with rfl | rfl <;> rfl
    · rw [State.modifiersFor, hsources] at hmodifier
      simp [contributions, regency, mirror, reign, ht.symm] at hmodifier

/-- The reign began first, but it was over in between. The mirror stands behind the regency, so that
the cycle in it is never found, and nothing changes when it goes. -/
theorem first_assignment_wins_court : ∃ past, court.Lived past ∧
    court.state.effectValue "rank" = .ok 4 ∧ mirrorless.effectValue "rank" = .ok 4 ∧
    ∀ s', court.state.setStatus "regency" 9 = .ok s' → s'.statuses.contains "regency" →
      s'.modifiersFor "rank" = court.state.modifiersFor "rank" := by
  obtain ⟨past, hpast⟩ := court_reachable.exists_lived
  obtain ⟨-, -, -, hfirst, -, hrenewed⟩ := Engine.first_assignment_wins hpast "rank"
  have hlist : court.state.modifiersFor "rank" =
      [⟨"rank", .absolute, .constant 1⟩] ++ ⟨"rank", .assignment, .constant 4⟩ ::
        (mirror.modifiers ++ reign.modifiers) := rfl
  have hlist' : mirrorless.modifiersFor "rank" =
      [⟨"rank", .absolute, .constant 1⟩] ++ ⟨"rank", .assignment, .constant 4⟩ ::
        reign.modifiers := rfl
  have hbefore : ∀ b ∈ [(⟨"rank", .absolute, .constant 1⟩ : Modifier Expression)],
      b.kind ≠ .assignment ∧ ∃ y, court.state.eval b.amount = .ok y := by
    intro b hb
    obtain rfl := List.mem_singleton.1 hb
    exact ⟨nofun, 1, rfl⟩
  obtain ⟨hvalues, hbehind⟩ := hfirst _ _ _ 4 hlist hbefore rfl rfl
  exact ⟨past, hpast, hvalues.1, (hbehind _ _ hlist' (.inl court_alikeUpTo_mirrorless)).1,
    fun s' hs' => hrenewed _ _ s' hs' rfl⟩

end Scenario
