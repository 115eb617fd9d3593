import Mathlib.Data.List.Sort
import Scenario.Proofs.Restoring

/-!
The order in which things were acquired. What is held stands in the order in which it was acquired
since it was last gone. So topping up a stack or renewing a status moves nothing, while what comes
back comes last.
-/

namespace Scenario

/-! ### Seniority -/

section Seniority

variable {α : Type} {holds : α → String → Bool} {past : List α} {a : α} {ids ids' : List String}

/-- How many times in a row, up to now, something was held. The past has the latest first. -/
def tenure (holds : α → String → Bool) (past : List α) (id : String) : Nat :=
  (past.takeWhile (holds · id)).length

theorem tenure_cons (id : String) :
    tenure holds (a :: past) id = if holds a id then tenure holds past id + 1 else 0 := by
  unfold tenure
  rw [List.takeWhile_cons]
  split <;> rfl

/-- The ids of what is held now, those first that have been held for longer. -/
structure InOrder (holds : α → String → Bool) (past : List α) (ids : List String) : Prop where
  mem_iff : ∀ id, id ∈ ids ↔ 0 < tenure holds past id
  senior : ids.Pairwise fun id id' => tenure holds past id' < tenure holds past id

/-- At most one thing comes, in the last place, or others go. -/
def Follows (ids ids' : List String) : Prop :=
  ids'.Sublist ids ∨ ∃ id, id ∉ ids ∧ ids' = ids ++ [id]

theorem Follows.refl (ids : List String) : Follows ids ids := .inl (List.Sublist.refl ids)

theorem Follows.eq_of_mem_iff (h : Follows ids ids') (hids : ids.Nodup)
    (hmem : ∀ id, id ∈ ids' ↔ id ∈ ids) : ids' = ids := by
  rcases h with hsub | ⟨id, hnew, rfl⟩
  · apply hsub.eq_of_length_le
    exact hids.length_le_of_subset fun id hid => (hmem id).2 hid
  · exact absurd ((hmem id).1 (by simp)) hnew

namespace InOrder

protected theorem nil : InOrder holds [] [] where
  mem_iff := by simp [tenure]
  senior := .nil

/-- Only one order is in order. -/
theorem unique (h : InOrder holds past ids) (h' : InOrder holds past ids') : ids = ids' := by
  have : Std.Irrefl fun id id' => tenure holds past id' < tenure holds past id :=
    ⟨fun id => Nat.lt_irrefl _⟩
  have : IsTrans String fun id id' => tenure holds past id' < tenure holds past id :=
    ⟨fun _ _ _ hab hbc => Nat.lt_trans hbc hab⟩
  apply h.senior.eq_of_mem_iff h'.senior
  intro id
  rw [h.mem_iff, h'.mem_iff]

theorem next (h : InOrder holds past ids) (hids : Follows ids ids')
    (hholds : ∀ id, holds a id ↔ id ∈ ids') : InOrder holds (a :: past) ids' where
  mem_iff id := by
    rw [tenure_cons, ← hholds]
    split <;> simp_all
  senior := by
    have hlonger : ∀ id ∈ ids', tenure holds (a :: past) id = tenure holds past id + 1 := by
      intro id hid
      rw [tenure_cons, if_pos ((hholds id).2 hid)]
    suffices hpast : ids'.Pairwise fun id id' => tenure holds past id' < tenure holds past id by
      apply hpast.imp_of_mem
      intro id id' hid hid' hlt
      rw [hlonger id hid, hlonger id' hid']
      omega
    rcases hids with hsub | ⟨new, hnew, rfl⟩
    · exact h.senior.sublist hsub
    · have hnone : tenure holds past new = 0 := by
        rw [h.mem_iff] at hnew
        omega
      refine List.pairwise_append.2 ⟨h.senior, List.pairwise_singleton _ _, ?_⟩
      intro id hid id' hid'
      rw [List.mem_singleton] at hid'
      rw [hid', hnone]
      exact (h.mem_iff id).1 hid

end InOrder

end Seniority

/-! ### Single changes -/

namespace Inventory

variable {inventory : Inventory} {items : Std.ExtTreeMap String (Provider Expression)}

theorem set_follows (provider : Provider Expression) (n : Nat) :
    Follows inventory.ids (inventory.set provider n).ids := by
  unfold ids
  by_cases hmem : provider.id ∈ inventory.ids
  · rw [set_of_mem hmem]
    left
    apply updateFirst_keys_sublist
    intro a b hab
    split at hab
    · cases hab
    · cases hab
      rfl
  · rw [set_of_not_mem hmem]
    split
    · exact .refl _
    · exact .inr ⟨provider.id, hmem, by simp⟩

theorem Stocked.count_pos_iff (h : inventory.Stocked items) (id : String) :
    0 < inventory.count id ↔ id ∈ inventory.ids := by
  unfold count
  constructor
  · intro hpos
    by_contra hmem
    rw [find?_key_eq_none hmem] at hpos
    exact Nat.lt_irrefl 0 hpos
  · intro hmem
    obtain ⟨stack, hstack⟩ := exists_find?_key hmem
    rw [hstack]
    exact h.count_pos stack (List.mem_of_find?_eq_some hstack)

end Inventory

namespace Statuses

variable {statuses : Statuses Float}

theorem set_follows (provider : Provider Expression) (duration : Float) :
    Follows statuses.ids (statuses.set provider duration).ids := by
  unfold ids
  by_cases hpos : 0 < duration
  · by_cases hmem : provider.id ∈ statuses.ids
    · rw [set_of_mem hpos hmem]
      exact .inl (updateFirst_keys_sublist (by rintro a b ⟨⟩; rfl))
    · rw [set_of_not_mem hpos hmem]
      exact .inr ⟨provider.id, hmem, by simp⟩
  · rw [set_of_not_pos hpos]
    exact .inl (updateFirst_keys_sublist (by rintro a b ⟨⟩))

end Statuses

namespace State

variable {s s' : State} {past : List State}

theorem follows_of_mutate {m : Mutation} (hm : s.mutate m = .ok s') :
    Follows s.inventory.ids s'.inventory.ids ∧ Follows s.statuses.ids s'.statuses.ids := by
  cases m with
  | giveItem id amount =>
    obtain ⟨provider, inventory, -, rfl, rfl⟩ := giveItem_eq_ok.1 hm
    exact ⟨Inventory.set_follows provider _, .refl _⟩
  | setStatus id duration =>
    obtain ⟨provider, statuses, -, rfl, rfl⟩ := setStatus_eq_ok.1 hm
    exact ⟨.refl _, Statuses.set_follows provider duration⟩
  | tick =>
    simp only [State.mutate, tick_eq] at hm
    cases hm
    exact ⟨.refl _, .inl Statuses.tick_sublist⟩
  | setVariable id x =>
    obtain ⟨v, -, rfl⟩ := setVariable_eq_ok.1 hm
    exact ⟨.refl _, .refl _⟩
  | setBounds id min max =>
    obtain ⟨v, w, -, -, -, rfl⟩ := setVariableBounds_eq_ok.1 hm
    exact ⟨.refl _, .refl _⟩
  | toggle id enabled =>
    obtain ⟨flags, -, rfl⟩ := setEventEnabled_eq_ok.1 hm
    exact ⟨.refl _, .refl _⟩
  | fire id trigger =>
    obtain ⟨-, rfl⟩ := fireEvent_eq_ok.1 hm
    exact ⟨.refl _, .refl _⟩
  | request _ _ _ | endGame _ | draw | pop =>
    cases hm
    exact ⟨.refl _, .refl _⟩

/-- What is held in a state is in the order in which it was acquired. -/
structure Acquired (past : List State) (s : State) : Prop where
  items : InOrder (fun s id => 0 < s.inventory.count id) past s.inventory.ids
  statuses : InOrder (fun s id => s.statuses.contains id) past s.statuses.ids

theorem Acquired.next (h : s.Acquired past) (hs' : s'.WellFormed)
    (hitems : Follows s.inventory.ids s'.inventory.ids)
    (hstatuses : Follows s.statuses.ids s'.statuses.ids) : s'.Acquired (s' :: past) where
  items := by
    apply h.items.next hitems
    intro id
    rw [decide_eq_true_iff]
    exact hs'.stocked.count_pos_iff id
  statuses := by
    apply h.statuses.next hstatuses
    intro id
    rw [Statuses.contains_eq, decide_eq_true_iff]

/-! ### Rows of changes -/

/-- Mutations, with the states that they lead to, the latest first. -/
inductive Leads (s : State) : List State → State → Prop
  | refl : Leads s [] s
  | tail {during : List State} {s₁ s₂ : State} {m : Mutation} (h : Leads s during s₁)
    (hm : s₁.mutate m = .ok s₂) : Leads s (s₂ :: during) s₂

theorem Becomes.exists_leads {sort : Mutation → Prop} (h : s.Becomes sort s') :
    ∃ during, s.Leads during s' := by
  induction h with
  | refl => exact ⟨[], .refl⟩
  | tail _ hm ih =>
    obtain ⟨during, hduring⟩ := ih
    obtain ⟨m, -, hm⟩ := hm
    exact ⟨_, hduring.tail hm⟩

theorem Leads.acquired {during : List State} (h : s.Leads during s') (hs : s.WellFormed)
    (hpast : s.Acquired past) : s'.WellFormed ∧ s'.Acquired (during ++ past) := by
  induction h with
  | refl => exact ⟨hs, hpast⟩
  | tail _ hm ih =>
    obtain ⟨hs₁, hpast₁⟩ := ih
    obtain ⟨hitems, hstatuses⟩ := follows_of_mutate hm
    have hs₂ := hs₁.mutate hm
    exact ⟨hs₂, hpast₁.next hs₂ hitems hstatuses⟩

section Through

variable {α : Type} {change : State → α → State}

/-- The states on the way when one change after the other is made, the latest first. -/
def through (change : State → α → State) : List α → State → List State
  | [], _ => []
  | a :: as, s => through change as (change s a) ++ [change s a]

theorem Acquired.through (as : List α) (h : s.Acquired past) (hs : s.WellFormed)
    (hchange : ∀ (s : State) (a : α), s.WellFormed → (change s a).WellFormed ∧
      Follows s.inventory.ids (change s a).inventory.ids ∧
      Follows s.statuses.ids (change s a).statuses.ids) :
    (as.foldl change s).WellFormed ∧
      (as.foldl change s).Acquired (State.through change as s ++ past) := by
  induction as generalizing s past with
  | nil => exact ⟨hs, h⟩
  | cons a as ih =>
    obtain ⟨hs', hitems, hstatuses⟩ := hchange s a hs
    rw [State.through, List.append_assoc]
    exact ih (h.next hs' hitems hstatuses) hs'

end Through

/-! ### Saves -/

theorem WellFormed.putItem (h : s.WellFormed) (entry : String × Nat) :
    (s.putItem entry).WellFormed ∧ Follows s.inventory.ids (s.putItem entry).inventory.ids ∧
      Follows s.statuses.ids (s.putItem entry).statuses.ids := by
  unfold State.putItem
  cases hp : s.items[entry.1]? with
  | none => exact ⟨h, .refl _, .refl _⟩
  | some provider =>
    exact ⟨{ h with stocked := h.stocked.set (h.item_known hp) _ },
      Inventory.set_follows provider _, .refl _⟩

theorem WellFormed.putStatus (h : s.WellFormed) (entry : String × Float) :
    (s.putStatus entry).WellFormed ∧ Follows s.inventory.ids (s.putStatus entry).inventory.ids ∧
      Follows s.statuses.ids (s.putStatus entry).statuses.ids := by
  unfold State.putStatus
  cases hp : s.statusKinds[entry.1]? with
  | none => exact ⟨h, .refl _, .refl _⟩
  | some provider =>
    exact ⟨{ h with running := h.running.set (h.status_known hp) _ }, .refl _,
      Statuses.set_follows provider _⟩

def emptied (s : State) : State := { s with inventory := s.inventory.clear, statuses := {} }

end State

/-- The states on the way to a save, the latest first: everything is gone, and then the items and
the statuses of the save come in their order. -/
def Save.stages (save : Save) (s : State) : List State :=
  State.through State.putStatus save.statuses (save.inventory.foldl State.putItem s.emptied) ++
    (State.through State.putItem save.inventory s.emptied ++ [s.emptied])

namespace State

variable {s s' : State} {past : List State}

theorem Acquired.restore (h : s.Acquired past) (hs : s.WellFormed) {save : Save}
    (hs' : save.restore s = .ok s') : s'.Acquired (save.stages s ++ past) := by
  have hemptied : s.emptied.WellFormed := { hs with stocked := .clear, running := .empty }
  have hgone : s.emptied.Acquired (s.emptied :: past) :=
    h.next hemptied (.inl (List.nil_sublist _)) (.inl (List.nil_sublist _))
  obtain ⟨hstocked, hitems⟩ :=
    hgone.through save.inventory hemptied fun _ entry h => h.putItem entry
  obtain ⟨-, hstatuses⟩ :=
    hitems.through save.statuses hstocked fun _ entry h => h.putStatus entry
  obtain ⟨-, registry, -, rfl⟩ := Save.restore_eq_ok.1 hs'
  rw [foldl_putItem, foldl_putStatus] at hstatuses
  rw [Save.stages, List.append_assoc, List.append_assoc, foldl_putItem]
  exact ⟨hstatuses.items, hstatuses.statuses⟩

end State

/-! ### Engines -/

namespace Engine

/-- Engines with the states that they have gone through, the latest first: one for each change,
whoever makes it. A save that is restored is put together on the way. What defines, resets or drains
changes nothing that is held. -/
inductive Lived : Engine → List State → Prop
  | start (config : Config) (random : RandomSource) (h : random.Placed) :
    Lived (.withRandom config random) []
  | play {e : Engine} {past during : List State} (h : e.Lived past) (screen : Screen) {call : Call}
    (hcall : call.Plays) (hduring : e.state.Leads during (e.perform screen call).2.state) :
    Lived (e.perform screen call).2 (during ++ past)
  | restore {e : Engine} {past : List State} (h : e.Lived past) (screen : Screen) (save : Save) :
    Lived (e.perform screen (.restore save)).2
      ((if (e.restore save).isOk then save.stages e.state else []) ++ past)
  | other {e : Engine} {past : List State} (h : e.Lived past) (screen : Screen) {call : Call}
    (hcall : ¬ call.Plays) (hrestore : ∀ save, call ≠ .restore save) :
    Lived (e.perform screen call).2 past

variable {e e' : Engine} {past : List State}

theorem keptByDefining_holdings (inventory : Inventory) (statuses : Statuses Float) :
    KeptByDefining fun e => e.state.inventory = inventory ∧ e.state.statuses = statuses where
  compiler _ h := h
  defineVariable h hx := by
    obtain ⟨-, -, rfl⟩ := defineVariable_eq_ok hx
    exact h
  registerAttribute h hx := by
    obtain ⟨-, -, rfl⟩ := registerAttribute_eq_ok hx
    exact h
  registerItem h hx := by
    obtain ⟨-, rfl⟩ := registerItem_eq_ok hx
    exact h
  registerStatus h hx := by
    obtain ⟨-, rfl⟩ := registerStatus_eq_ok hx
    exact h
  registerEvent h hx := by
    obtain ⟨registry, -, rfl⟩ := registerEvent_eq_ok hx
    exact h

theorem perform_holdings (screen : Screen) {call : Call} (hcall : ¬ call.Plays)
    (hrestore : ∀ save, call ≠ .restore save) :
    (e.perform screen call).2.state.inventory = e.state.inventory ∧
      (e.perform screen call).2.state.statuses = e.state.statuses := by
  cases call with
  | load _ | defineVariable _ _ | registerAttribute _ | registerItem _ | registerStatus _
  | registerEvent _ => exact (keptByDefining_holdings _ _).perform ⟨rfl, rfl⟩ screen trivial
  | registerFunction _ _ | drain => exact ⟨rfl, rfl⟩
  | reset =>
    refine attempt_keeps (Q := fun e' => e'.state.inventory = e.state.inventory ∧
      e'.state.statuses = e.state.statuses) ⟨rfl, rfl⟩ fun e' he => ?_
    rw [reset_eq_ok he]
    exact ⟨rfl, rfl⟩
  | restore save => exact absurd rfl (hrestore save)
  | _ => exact absurd trivial hcall

theorem Lived.reachable (h : e.Lived past) : e.Reachable := by
  induction h with
  | start config random hplaced => exact .start config random hplaced
  | play _ screen _ _ ih | other _ screen _ _ ih => exact .perform ih screen _ trivial
  | restore _ screen save ih => exact .perform ih screen _ trivial

/-- What holds of all reachable engines, by what calls do to what is held: they let a game go on,
restore a save, or leave it as it is. -/
theorem ReachableBy.induction_holdings {sort : Call → Prop} {P : Engine → Prop}
    (h : e.ReachableBy sort)
    (hstart : ∀ (config : Config) (random : RandomSource), random.Placed →
      P (.withRandom config random))
    (hplay : ∀ (e : Engine) (screen : Screen) (call : Call), P e → call.Plays →
      P (e.perform screen call).2)
    (hrestore : ∀ (e : Engine) (screen : Screen) (save : Save), P e →
      P (e.perform screen (.restore save)).2)
    (hother : ∀ (e : Engine) (screen : Screen) (call : Call), P e → ¬ call.Plays →
      (∀ save, call ≠ .restore save) → P (e.perform screen call).2) : P e := by
  induction h with
  | start config random hplaced => exact hstart config random hplaced
  | perform _ screen call _ ih =>
    by_cases hcall : call.Plays
    · exact hplay _ screen call ih hcall
    · by_cases hsaved : ∃ save, call = .restore save
      · obtain ⟨save, rfl⟩ := hsaved
        exact hrestore _ screen save ih
      · exact hother _ screen call ih hcall fun save hsave => hsaved ⟨save, hsave⟩

theorem ReachableBy.exists_lived {sort : Call → Prop} (h : e.ReachableBy sort) :
    ∃ past, e.Lived past := by
  refine h.induction_holdings (P := fun e => ∃ past, e.Lived past)
    (fun config random hplaced => ⟨[], .start config random hplaced⟩) ?play ?restore ?other
  case play =>
    rintro e screen call ⟨past, hpast⟩ hcall
    obtain ⟨during, hduring⟩ := (perform_becomes screen hcall).exists_leads
    exact ⟨_, hpast.play screen hcall hduring⟩
  case restore =>
    rintro e screen save ⟨past, hpast⟩
    exact ⟨_, hpast.restore screen save⟩
  case other =>
    rintro e screen call ⟨past, hpast⟩ hcall hrestore
    exact ⟨_, hpast.other screen hcall hrestore⟩

/-- Whatever hosts and events do with an engine, what it holds is in the order of acquisition. -/
theorem Lived.acquired (h : e.Lived past) : e.state.Acquired past := by
  induction h with
  | start config random hplaced => exact ⟨.nil, .nil⟩
  | play h screen _ hduring ih => exact (hduring.acquired h.reachable.wellFormed ih).2
  | @restore e past h screen save ih =>
    cases hrestore : e.restore save with
    | ok e' =>
      obtain ⟨s, hs, rfl⟩ := restore_eq_ok hrestore
      rw [perform, hrestore]
      exact ih.restore h.reachable.wellFormed hs
    | error cause =>
      rw [perform, hrestore]
      exact ih
  | @other e past h screen call hcall hrestore ih =>
    obtain ⟨hinventory, hstatuses⟩ := perform_holdings (e := e) screen hcall hrestore
    constructor
    · rw [hinventory]
      exact ih.items
    · rw [hstatuses]
      exact ih.statuses

end Engine

/-! ### Modifiers in their order -/

/-- The modifiers for a target, with how many times each is held. -/
def contributions {ε : Type} (target : String) (sources : List (Provider ε × Nat)) :
    List (Modifier ε × Nat) :=
  (sources.filter (·.2 ≠ 0)).flatMap fun source =>
    (source.1.modifiers.filter (·.target = target)).map (·, source.2)

namespace State

variable {s s' : State}

/-- The modifiers for a target of all that is held, in the order that decides between them. -/
def modifiersFor (s : State) (target : String) : List (Modifier Expression) :=
  (contributions target s.sources).map Prod.fst

theorem filterMap_known {α : Type} (provider : α → Provider Expression) {entries : List α}
    {kinds : Std.ExtTreeMap String (Provider Expression)}
    (h : ∀ entry ∈ entries, kinds[(provider entry).id]? = some (provider entry)) :
    (entries.map fun entry => (provider entry).id).filterMap (kinds[·]?) =
      entries.map provider := by
  rw [List.filterMap_map]
  exact (List.filterMap_congr h).trans (congrFun List.filterMap_eq_map' entries)

theorem WellFormed.modifiersFor_eq (h : s.WellFormed) (target : String) :
    s.modifiersFor target =
      (s.inventory.ids.filterMap (s.items[·]?) ++
        s.statuses.ids.filterMap (s.statusKinds[·]?)).flatMap
        fun provider => provider.modifiers.filter (·.target = target) := by
  have hitems := filterMap_known Stack.provider h.stocked.known
  have hstatuses := filterMap_known ActiveStatus.provider h.running.known
  have hheld : s.sources.filter (·.2 ≠ 0) = s.sources := by
    apply List.filter_eq_self.2
    intro source hsource
    rcases List.mem_append.1 hsource with hsource | hsource
    · obtain ⟨stack, hstack, rfl⟩ := List.mem_map.1 hsource
      simpa using Nat.ne_of_gt (h.stocked.count_pos stack hstack)
    · obtain ⟨status, -, rfl⟩ := List.mem_map.1 hsource
      rfl
  rw [modifiersFor, contributions, hheld, Inventory.ids, Statuses.ids, hitems, hstatuses]
  simp [sources, Inventory.sources, Statuses.sources, List.map_flatMap, List.flatMap_map,
    Function.comp_def]

/-- A change after which the same is held leaves all modifiers in their order. -/
theorem modifiersFor_of_mutate (h : s.WellFormed) {m : Mutation} (hm : s.mutate m = .ok s')
    (hitems : ∀ id, 0 < s'.inventory.count id ↔ 0 < s.inventory.count id)
    (hstatuses : ∀ id, s'.statuses.contains id = s.statuses.contains id) (target : String) :
    s'.modifiersFor target = s.modifiersFor target := by
  have hs' := h.mutate hm
  obtain ⟨hstacks, hactive⟩ := follows_of_mutate hm
  obtain ⟨-, hknown, hkinds⟩ := definitions_of_mutate hm
  have hstacks := hstacks.eq_of_mem_iff h.stocked.nodup fun id => by
    rw [← hs'.stocked.count_pos_iff, ← h.stocked.count_pos_iff, hitems]
  have hactive := hactive.eq_of_mem_iff h.running.nodup fun id => by
    have hsame := hstatuses id
    rwa [Statuses.contains_eq, Statuses.contains_eq, decide_eq_decide] at hsame
  rw [h.modifiersFor_eq, hs'.modifiersFor_eq, hstacks, hactive, hknown, hkinds]

theorem modifiersFor_giveItem (h : s.WellFormed) {id : String} {amount : Float}
    (hs : s.giveItem id amount = .ok s') (hbefore : 0 < s.inventory.count id)
    (hafter : 0 < s'.inventory.count id) (target : String) :
    s'.modifiersFor target = s.modifiersFor target := by
  apply modifiersFor_of_mutate (m := .giveItem id amount) h hs
  · intro id'
    by_cases hid : id = id'
    · subst hid
      exact iff_of_true hafter hbefore
    · obtain ⟨provider, inventory, hp, rfl, rfl⟩ := giveItem_eq_ok.1 hs
      have hne : provider.id ≠ id' := by rwa [h.items id provider hp]
      change 0 < (s.inventory.set provider _).count id' ↔ _
      rw [Inventory.count_set h.stocked.nodup, if_neg hne]
  · obtain ⟨provider, inventory, -, rfl, rfl⟩ := giveItem_eq_ok.1 hs
    exact fun _ => rfl

theorem modifiersFor_setStatus (h : s.WellFormed) {id : String} {duration : Float}
    (hs : s.setStatus id duration = .ok s') (hbefore : s.statuses.contains id)
    (hafter : s'.statuses.contains id) (target : String) :
    s'.modifiersFor target = s.modifiersFor target := by
  apply modifiersFor_of_mutate (m := .setStatus id duration) h hs
  · obtain ⟨provider, statuses, -, rfl, rfl⟩ := setStatus_eq_ok.1 hs
    exact fun _ => Iff.rfl
  · intro id'
    by_cases hid : id = id'
    · subst hid
      rw [hafter, hbefore]
    · obtain ⟨provider, statuses, hp, rfl, rfl⟩ := setStatus_eq_ok.1 hs
      have hne : provider.id ≠ id' := by rwa [h.statusKinds id provider hp]
      change (s.statuses.set provider _).contains id' = _
      rw [Statuses.contains_set h.running.nodup, if_neg hne]

end State

end Scenario
