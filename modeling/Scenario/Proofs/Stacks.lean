import Scenario.Proofs.Acquisition
import Scenario.Proofs.Exact
import Scenario.Proofs.Ranges

/-!
Stacks of items. In every engine that a host can get to they make an ordered multiset: one stack for
an item, neither empty nor too large, in the order of acquisition. Giving an item adds whole numbers
as if there were no limits to integers, and what goes beyond the limits of the stack is lost.
-/

namespace Scenario

/-- The largest stack of an item. -/
def stackLimit (maxStack : Option Nat) (maxItemStack : Nat) : Nat :=
  min (maxStack.getD maxItemStack) maxItemStack

namespace Inventory

variable {inventory : Inventory} {items : Std.ExtTreeMap String (Provider Expression)}
  {provider : Provider Expression}

theorem cap_eq (maxStack : Option Nat) :
    inventory.cap maxStack = stackLimit maxStack inventory.maxStack := by
  cases maxStack with
  | none => exact (Nat.min_self _).symm
  | some n => rfl

theorem Stocked.count_le_cap (h : inventory.Stocked items)
    (hp : items[provider.id]? = some provider) :
    inventory.count provider.id ≤ inventory.cap provider.maxStack := by
  by_cases hmem : provider.id ∈ inventory.ids
  · obtain ⟨stack, hs, hid⟩ := List.mem_map.1 hmem
    have hknown := h.known stack hs
    rw [hid, hp] at hknown
    rw [← hid, count_of_mem h.nodup hs, Option.some.inj hknown]
    exact h.count_le stack hs
  · rw [count_of_not_mem hmem]
    exact Nat.zero_le _

/-- A stack that is made as large as it is stays the same, in its place. -/
theorem Stocked.set_count (h : inventory.Stocked items)
    (hp : items[provider.id]? = some provider) :
    inventory.set provider (inventory.count provider.id) = inventory := by
  have hcap := Nat.min_eq_left (h.count_le_cap hp)
  suffices hentries : (inventory.set provider (inventory.count provider.id)).entries =
      inventory.entries from congrArg (fun entries => { inventory with entries }) hentries
  by_cases hmem : provider.id ∈ inventory.ids
  · rw [set_of_mem hmem, hcap]
    refine updateFirst_eq_self fun stack hs hid => ?_
    have hcount := count_of_mem h.nodup hs
    rw [hid] at hcount
    rw [hcount, if_neg (Nat.ne_of_gt (h.count_pos stack hs))]
  · rw [set_of_not_mem hmem, hcap, count_of_not_mem hmem]
    rfl

/-! ### Adding -/

theorem count_add (h : inventory.ids.Nodup) (amount : Int) (id : String) :
    (inventory.add provider amount).count id =
      if provider.id = id then
        (clamp (saturate (inventory.count provider.id + amount)) 0
          (inventory.cap provider.maxStack)).toNat
      else inventory.count id := by
  unfold add
  rw [count_set h]
  split
  · unfold clamp
    omega
  · rfl

/-- Within 32 bits, what 64 bits cannot hold is beyond the limits of the stack anyway. -/
theorem clamp_saturate {old cap : Nat} {amount : Int} (hold : old ≤ 4294967295)
    (hcap : cap ≤ 4294967295) :
    clamp (saturate (old + max (-0x8000000000000000) (min amount 0x7fffffffffffffff))) 0
      (cap : Int) = clamp (old + amount) 0 cap := by
  unfold clamp saturate
  omega

end Inventory

namespace State

variable {s : State} {id : String} {provider : Provider Expression} {amount : Float}

/-- The largest stack of an item in a state. -/
def limit (s : State) (provider : Provider Expression) : Nat :=
  stackLimit provider.maxStack s.config.maxItemStack

theorem WellFormed.cap_eq (h : s.WellFormed) :
    s.inventory.cap provider.maxStack = s.limit provider := by
  rw [Inventory.cap_eq, h.maxStack]
  rfl

/-! ### Giving -/

theorem WellFormed.count_add (h : s.WellFormed) (hp : s.items[id]? = some provider) (n : Int)
    (other : String) :
    ((s.inventory.add provider n).count other : ℤ) =
      if id = other then
        clamp (Inventory.saturate (s.inventory.count id + n)) 0 (s.limit provider : ℤ)
      else s.inventory.count other := by
  rw [Inventory.count_add h.stocked.nodup, h.items id provider hp, h.cap_eq]
  split
  · rw [Int.toNat_of_nonneg]
    unfold clamp
    omega
  · rfl

theorem exists_giveItem (hp : s.items[id]? = some provider) (amount : Float) :
    ∃ s', s.giveItem id amount = .ok s' ∧
      s' = { s with inventory := s'.inventory, notifications := s'.notifications } ∧
      s'.inventory = s.inventory.add provider (wholePart amount) := by
  obtain ⟨s', hs'⟩ : ∃ s', s.giveItem id amount = .ok s' := by
    rw [giveItem_eq, hp]
    exact ⟨_, rfl⟩
  obtain ⟨provider', inventory, hp', rfl, rfl⟩ := giveItem_eq_ok.1 hs'
  cases hp.symm.trans hp'
  exact ⟨_, hs', rfl, rfl⟩

section Within

variable (h : s.WellFormed) (hmax : s.config.maxItemStack ≤ 4294967295)
  (hp : s.items[id]? = some provider)

include h hmax hp

theorem WellFormed.count_le_limit : s.inventory.count id ≤ s.limit provider ∧
    s.limit provider ≤ 4294967295 := by
  have hknown := h.item_known hp
  have hle := h.stocked.count_le_cap hknown
  rw [h.items id provider hp, h.cap_eq] at hle
  exact ⟨hle, Nat.le_trans (Nat.min_le_right _ _) hmax⟩

/-- Nothing is lost in 64 bits that the limits of the stack would have left. -/
theorem WellFormed.count_add_within (n : Int) :
    ((s.inventory.add provider
      (max (-0x8000000000000000) (min n 0x7fffffffffffffff))).count id : ℤ) =
      clamp (s.inventory.count id + n) 0 (s.limit provider : ℤ) := by
  obtain ⟨hcount, hlimit⟩ := h.count_le_limit hmax hp
  rw [h.count_add hp, if_pos rfl, Inventory.clamp_saturate (Nat.le_trans hcount hlimit) hlimit]

theorem WellFormed.giveItem_isNaN (hamount : amount.isNaN) : s.giveItem id amount = .ok s := by
  obtain ⟨hcount, hlimit⟩ := h.count_le_limit hmax hp
  have hsame : s.inventory.add provider (wholePart amount) = s.inventory := by
    have hset := h.stocked.set_count (h.item_known hp)
    unfold Inventory.add
    dsimp only
    rw [wholePart_of_isNaN hamount, h.cap_eq]
    rw [h.items id provider hp] at hset ⊢
    have hn : (max 0 (min (Inventory.saturate (s.inventory.count id + 0))
        (s.limit provider))).toNat = s.inventory.count id := by
      unfold Inventory.saturate
      omega
    rw [hn, hset]
  rw [giveItem_eq, hp]
  dsimp only
  rw [hsame]
  unfold countChange
  rw [if_pos rfl]
  rfl

end Within

/-! ### Putting back -/

theorem WellFormed.count_putItem (h : s.WellFormed) (hp : s.items[id]? = some provider)
    (entry : String × Nat) :
    (s.putItem entry).inventory.count id =
      if entry.1 = id then min entry.2 (s.limit provider) else s.inventory.count id := by
  unfold State.putItem
  by_cases hid : entry.1 = id
  · rw [if_pos hid, hid, hp]
    dsimp only
    rw [Inventory.count_set h.stocked.nodup, if_pos (h.items id provider hp), h.cap_eq]
  · rw [if_neg hid]
    cases hother : s.items[entry.1]? with
    | none => rfl
    | some other =>
      dsimp only
      rw [Inventory.count_set h.stocked.nodup, if_neg]
      rwa [h.items entry.1 other hother]

theorem WellFormed.count_foldl_putItem (h : s.WellFormed) (hp : s.items[id]? = some provider)
    (entries : List (String × Nat)) :
    (entries.foldl State.putItem s).inventory.count id =
      match entries.reverse.find? (·.1 = id) with
      | some entry => min entry.2 (s.limit provider)
      | none => s.inventory.count id := by
  induction entries using List.reverseRecOn with
  | nil => rfl
  | append_singleton entries entry ih =>
    have hkept : (entries.foldl State.putItem s).WellFormed :=
      List.foldlRecOn (motive := State.WellFormed) entries State.putItem h
        fun s hs entry _ => (hs.putItem entry).1
    have hknown : (entries.foldl State.putItem s).items[id]? = some provider := by
      rw [foldl_putItem]
      exact hp
    have hlimit : (entries.foldl State.putItem s).limit provider = s.limit provider := by
      rw [foldl_putItem]
      rfl
    rw [List.foldl_append, List.foldl_cons, List.foldl_nil, List.reverse_append,
      hkept.count_putItem hknown, hlimit, ih]
    by_cases hid : entry.1 = id
    · simp [hid]
    · simp [hid]

/-- Of the entries of a save for an item the last counts. -/
theorem WellFormed.count_restore (h : s.WellFormed) (hp : s.items[id]? = some provider)
    {save : Save} {s' : State} (hs' : save.restore s = .ok s') :
    s'.inventory.count id =
      min (((save.inventory.reverse.find? (·.1 = id)).map Prod.snd).getD 0) (s.limit provider) := by
  have hemptied : s.emptied.WellFormed := { h with stocked := .clear, running := .empty }
  have hcount := hemptied.count_foldl_putItem hp save.inventory
  obtain ⟨-, registry, -, rfl⟩ := Save.restore_eq_ok.1 hs'
  rw [foldl_putItem] at hcount
  refine hcount.trans ?_
  cases save.inventory.reverse.find? (·.1 = id) with
  | some entry => rfl
  | none => exact (Nat.zero_min _).symm

end State

namespace Engine

/-- The items that an engine holds are an ordered multiset within limits, whatever has been given,
taken and restored. -/
theorem capped_multiset {e : Engine} {past : List State} (h : e.Lived past)
    (hmax : e.state.config.maxItemStack ≤ 4294967295) :
    e.state.inventory.ids.Nodup ∧
    (∀ stack ∈ e.state.inventory.entries,
      e.state.items[stack.provider.id]? = some stack.provider ∧
      1 ≤ stack.count ∧ stack.count ≤ e.state.limit stack.provider) ∧
    InOrder (fun s id => 0 < s.inventory.count id) past e.state.inventory.ids ∧
    (∀ save e', e.restore save = .ok e' →
      ∀ (id : String) (provider : Provider Expression), e.state.items[id]? = some provider →
        e'.state.inventory.count id =
          min (((save.inventory.reverse.find? (·.1 = id)).map Prod.snd).getD 0)
            (e.state.limit provider)) ∧
    ∀ (id : String) (amount : Float),
      (e.state.items[id]? = none → e.state.giveItem id amount = .error (.unknown .item id)) ∧
      ∀ provider, e.state.items[id]? = some provider → ∃ s',
        e.state.giveItem id amount = .ok s' ∧
        s' = { e.state with inventory := s'.inventory, notifications := s'.notifications } ∧
        (∀ other, other ≠ id → s'.inventory.count other = e.state.inventory.count other) ∧
        (amount.isFinite → (s'.inventory.count id : ℤ) =
          clamp (e.state.inventory.count id + towardZero (rational amount.toModel.unpack)) 0
            (e.state.limit provider : ℤ)) ∧
        (amount = infinity → s'.inventory.count id = e.state.limit provider) ∧
        (amount = -infinity → s'.inventory.count id = 0) ∧
        (amount.isNaN → s' = e.state) := by
  have hs := h.reachable.wellFormed
  refine ⟨hs.stocked.nodup, fun stack hstack => ?_, h.acquired.items, fun save e' he' => ?_,
    fun id amount => ⟨fun hnone => ?_, fun provider hp => ?_⟩⟩
  · refine ⟨hs.stocked.known stack hstack, hs.stocked.count_pos stack hstack, ?_⟩
    rw [← hs.cap_eq]
    exact hs.stocked.count_le stack hstack
  · intro id provider hp
    obtain ⟨s, hrestored, rfl⟩ := restore_eq_ok he'
    exact hs.count_restore hp hrestored
  · rw [State.giveItem_eq, hnone]
  · obtain ⟨s', hgive, hframe, hinventory⟩ := State.exists_giveItem hp amount
    obtain ⟨hcount, hlimit⟩ := hs.count_le_limit hmax hp
    have hwithin := hs.count_add_within hmax hp
    refine ⟨s', hgive, hframe, fun other hother => ?_, fun hfinite => ?_, ?_, ?_, fun hnan => ?_⟩
    · have hadd := hs.count_add hp (wholePart amount) other
      rw [if_neg hother.symm] at hadd
      rw [hinventory]
      exact_mod_cast hadd
    · rw [hinventory, wholePart_of_isFinite hfinite, hwithin]
    · rintro rfl
      have hadd := hs.count_add hp (wholePart infinity) id
      rw [if_pos rfl, ← hinventory, wholePart_infinity] at hadd
      unfold clamp Inventory.saturate at hadd
      omega
    · rintro rfl
      have hadd := hs.count_add hp (wholePart (-infinity)) id
      rw [if_pos rfl, ← hinventory, wholePart_neg_infinity] at hadd
      unfold clamp Inventory.saturate at hadd
      omega
    · have hsame := hs.giveItem_isNaN hmax hp hnan
      rw [hgive] at hsame
      exact Except.ok.inj hsame

end Engine

/-! ### A larder -/

def apples : Provider Expression where
  id := "apples"
  maxStack := some 5

def pears : Provider Expression where
  id := "pears"

/-- A larder in which the apples ran out once. -/
def larder : Engine :=
  ((Engine.new {}).performAll quiet [.registerItem apples, .registerItem pears,
    .giveItem "apples" 2.9, .giveItem "pears" 1, .giveItem "apples" (-2), .giveItem "apples" 9]).2

theorem larder_reachable : larder.Reachable :=
  Engine.ReachableBy.performAll (.start {} (.ofSeed "default") (.ofSeed "default")) quiet
    fun _ _ => trivial

/-- A save that says twice how many apples there are. -/
def recount : Save := { larder.save with inventory := [("apples", 0), ("pears", 3), ("apples", 7)] }

set_option maxRecDepth 8000 in
/-- An apple and a half are one apple, and more than five do not fit. -/
theorem capped_multiset_larder : ∃ past, larder.Lived past ∧
    larder.state.config.maxItemStack ≤ 4294967295 ∧
    larder.state.inventory.ids = ["pears", "apples"] ∧
    (∃ s', larder.state.giveItem "apples" (-1.5) = .ok s' ∧ s'.inventory.count "apples" = 4) ∧
    (∃ s', larder.state.giveItem "pears" infinity = .ok s' ∧
      s'.inventory.count "pears" = 4294967295) ∧
    ∃ e', larder.restore recount = .ok e' ∧ e'.state.inventory.count "apples" = 5 := by
  obtain ⟨past, hpast⟩ := larder_reachable.exists_lived
  obtain ⟨-, -, -, hrestored, hgiven⟩ := Engine.capped_multiset hpast (by decide)
  have happles : larder.state.items["apples"]? = some apples := by rfl
  have hpears : larder.state.items["pears"]? = some pears := by rfl
  have hfive : larder.state.inventory.count "apples" = 5 := by rfl
  have hhalf : (-1.5 : Float).toModel.unpack =
      .finite .negative 6755399441055744 (-52) (by decide) := by rfl
  obtain ⟨s, hs, -, -, hwhole, -⟩ := (hgiven "apples" (-1.5)).2 apples happles
  obtain ⟨t, ht, -, -, -, hfull, -⟩ := (hgiven "pears" infinity).2 pears hpears
  have hleft := hwhole (by decide)
  rw [hhalf, ← roundToInt_eq, hfive] at hleft
  refine ⟨past, hpast, by decide, by rfl, ⟨s, hs, ?_⟩, ⟨t, ht, hfull rfl⟩, ?_⟩
  · have hfour : (s.inventory.count "apples" : ℤ) = 4 := hleft.trans (by decide)
    exact_mod_cast hfour
  · exact ⟨_, by rfl, hrestored recount _ (by rfl) "apples" apples happles⟩

end Scenario
