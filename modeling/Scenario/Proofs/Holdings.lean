import Mathlib.Data.List.Nodup
import Scenario.Inventory
import Scenario.Proofs.Tables

/-!
What is held, by id. No id stands twice among the stacks or the statuses, so that setting one of
them changes the number of that id and of no other.
-/

namespace Scenario

section Keyed

variable {α : Type} {key : α → String} {id : String} {f : α → Option α} {l : List α}

theorem mem_updateFirst {b : α} (h : b ∈ updateFirst key id f l) :
    b ∈ l ∨ ∃ a ∈ l, key a = id ∧ f a = some b := by
  induction l with
  | nil => cases h
  | cons a as ih =>
    unfold updateFirst at h
    by_cases ha : key a = id
    · rw [if_pos ha] at h
      cases hf : f a with
      | none =>
        rw [hf] at h
        exact .inl (List.mem_cons_of_mem _ h)
      | some c =>
        rw [hf] at h
        rcases List.mem_cons.1 h with rfl | h
        · exact .inr ⟨a, List.mem_cons_self, ha, hf⟩
        · exact .inl (List.mem_cons_of_mem _ h)
    · rw [if_neg ha] at h
      rcases List.mem_cons.1 h with rfl | h
      · exact .inl List.mem_cons_self
      · rcases ih h with h | ⟨c, hc, hkey, hf⟩
        · exact .inl (List.mem_cons_of_mem _ h)
        · exact .inr ⟨c, List.mem_cons_of_mem _ hc, hkey, hf⟩

theorem updateFirst_eq_self (h : ∀ a ∈ l, key a = id → f a = some a) :
    updateFirst key id f l = l := by
  induction l with
  | nil => rfl
  | cons a l ih =>
    obtain ⟨ha, hrest⟩ := List.forall_mem_cons.1 h
    unfold updateFirst
    split
    · rename_i hid
      rw [ha hid]
    · rw [ih hrest]

theorem updateFirst_map {β : Type} {key' : β → String} {f' : β → Option β} (g : α → β)
    (hkey : ∀ a, key' (g a) = key a) (hf : ∀ a, f' (g a) = (f a).map g) (l : List α) :
    updateFirst key' id f' (l.map g) = (updateFirst key id f l).map g := by
  induction l with
  | nil => rfl
  | cons a as ih =>
    simp only [List.map_cons, updateFirst, hkey, hf]
    split
    · cases f a with
      | none => rfl
      | some b => rfl
    · rw [ih, List.map_cons]

theorem updateFirst_keys_sublist (hf : ∀ a b, f a = some b → key b = key a) :
    ((updateFirst key id f l).map key).Sublist (l.map key) := by
  induction l with
  | nil => exact List.Sublist.refl _
  | cons a as ih =>
    unfold updateFirst
    split
    · cases hfa : f a with
      | none => exact List.sublist_cons_self _ _
      | some b =>
        rw [List.map_cons, List.map_cons, hf a b hfa]
    · exact ih.cons_cons _

theorem updateFirst_keys_eq (hf : ∀ a, (f a).map key = some (key a)) :
    (updateFirst key id f l).map key = l.map key := by
  induction l with
  | nil => rfl
  | cons a as ih =>
    unfold updateFirst
    split
    · obtain ⟨b, hb, hkey⟩ := Option.map_eq_some_iff.1 (hf a)
      rw [hb, List.map_cons, List.map_cons, hkey]
    · rw [List.map_cons, List.map_cons, ih]

theorem find?_updateFirst (hl : (l.map key).Nodup) (hf : ∀ a b, f a = some b → key b = key a)
    (id' : String) :
    (updateFirst key id f l).find? (key · = id') =
      if id = id' then (l.find? (key · = id)).bind f else l.find? (key · = id') := by
  induction l with
  | nil => simp [updateFirst]
  | cons a as ih =>
    rw [List.map_cons, List.nodup_cons] at hl
    unfold updateFirst
    by_cases ha : key a = id
    · rw [if_pos ha]
      -- Where an entry goes away, no later one of the same key takes its place.
      have hgone : as.find? (key · = id) = none := find?_key_eq_none (ha ▸ hl.1)
      by_cases hid : id = id'
      · subst hid
        rw [if_pos rfl, List.find?_cons_of_pos (by simpa using ha)]
        cases hfa : f a with
        | none => simpa [hfa] using hgone
        | some b =>
          have hb : key b = id := (hf a b hfa).trans ha
          simp [hfa, hb]
      · have hne : key a ≠ id' := fun h => hid (ha.symm.trans h)
        rw [if_neg hid, List.find?_cons_of_neg (by simpa using hne)]
        cases hfa : f a with
        | none => rfl
        | some b =>
          have hb : key b ≠ id' := by
            rw [hf a b hfa]
            exact hne
          simp [hb]
    · rw [if_neg ha]
      by_cases ha' : key a = id'
      · have hid : id ≠ id' := fun h => ha (ha'.trans h.symm)
        rw [if_neg hid]
        simp [ha']
      · rw [List.find?_cons_of_neg (by simpa using ha'), ih hl.2,
          List.find?_cons_of_neg (by simpa using ha), List.find?_cons_of_neg (by simpa using ha')]

theorem exists_find?_key (h : id ∈ l.map key) : ∃ a, l.find? (key · = id) = some a := by
  obtain ⟨a, ha, hid⟩ := List.mem_map.1 h
  rw [← Option.isSome_iff_exists, List.find?_isSome]
  exact ⟨a, ha, by simpa using hid⟩

theorem find?_concat_key {a : α} (h : key a ∉ l.map key) (id : String) :
    (l ++ [a]).find? (key · = id) = if key a = id then some a else l.find? (key · = id) := by
  rw [List.find?_append]
  by_cases hid : key a = id
  · subst hid
    rw [find?_key_eq_none h, if_pos rfl, Option.none_or]
    simp
  · rw [if_neg hid, List.find?_cons_of_neg (by simpa using hid), List.find?_nil, Option.or_none]

theorem nodup_keys_concat {a : α} (hl : (l.map key).Nodup) (h : key a ∉ l.map key) :
    ((l ++ [a]).map key).Nodup := by
  rw [List.map_append, List.map_singleton, ← List.concat_eq_append]
  exact hl.concat h

theorem any_key {id : String} : l.any (key · = id) = decide (id ∈ l.map key) := by
  rw [Bool.eq_iff_iff]
  simp [List.any_eq_true]

end Keyed

/-! ### Stacks -/

namespace Inventory

variable {inventory : Inventory} {items : Std.ExtTreeMap String (Provider Expression)}
  {provider : Provider Expression}

def ids (inventory : Inventory) : List String := inventory.entries.map (·.provider.id)

/-- All stacks are of known items, one for each, and neither empty nor too large. -/
structure Stocked (items : Std.ExtTreeMap String (Provider Expression)) (inventory : Inventory) :
    Prop where
  nodup : inventory.ids.Nodup
  known : ∀ stack ∈ inventory.entries, items[stack.provider.id]? = some stack.provider
  count_pos : ∀ stack ∈ inventory.entries, 0 < stack.count
  count_le : ∀ stack ∈ inventory.entries, stack.count ≤ inventory.cap stack.provider.maxStack

theorem count_of_mem (h : inventory.ids.Nodup) {stack : Stack} (hs : stack ∈ inventory.entries) :
    inventory.count stack.provider.id = stack.count := by
  unfold count
  rw [find?_key_of_mem h hs]
  rfl

theorem count_of_not_mem {id : String} (h : id ∉ inventory.ids) : inventory.count id = 0 := by
  unfold count
  rw [find?_key_eq_none h]
  rfl

theorem set_of_mem {n : Nat} (h : provider.id ∈ inventory.ids) :
    (inventory.set provider n).entries =
      updateFirst (·.provider.id) provider.id
        (fun s => if min n (inventory.cap provider.maxStack) = 0 then none
          else some { s with count := min n (inventory.cap provider.maxStack) })
        inventory.entries := by
  unfold set
  dsimp only
  rw [any_key, if_pos (by simpa [ids] using h)]

theorem set_of_not_mem {n : Nat} (h : provider.id ∉ inventory.ids) :
    (inventory.set provider n).entries =
      if min n (inventory.cap provider.maxStack) = 0 then inventory.entries
      else inventory.entries ++ [⟨provider, min n (inventory.cap provider.maxStack)⟩] := by
  unfold set
  dsimp only
  rw [any_key, if_neg (by simpa [ids] using h)]

theorem count_set (h : inventory.ids.Nodup) (n : Nat) (id : String) :
    (inventory.set provider n).count id =
      if provider.id = id then min n (inventory.cap provider.maxStack) else inventory.count id := by
  unfold count
  by_cases hmem : provider.id ∈ inventory.ids
  · rw [set_of_mem hmem, find?_updateFirst h]
    · split
      · obtain ⟨stack, hstack⟩ := exists_find?_key hmem
        rw [hstack, Option.bind_some]
        split
        · rename_i hzero
          rw [hzero]
          rfl
        · rfl
      · rfl
    · intro a b hab
      split at hab
      · cases hab
      · cases hab
        rfl
  · rw [set_of_not_mem hmem]
    split
    · rename_i hzero
      split
      · rename_i hid
        rw [← hid, find?_key_eq_none hmem, hzero]
        rfl
      · rfl
    · rw [find?_concat_key hmem]
      split
      · rfl
      · rfl

theorem nodup_ids_set (h : inventory.ids.Nodup) (n : Nat) :
    (inventory.set provider n).ids.Nodup := by
  unfold ids
  by_cases hmem : provider.id ∈ inventory.ids
  · rw [set_of_mem hmem]
    refine (updateFirst_keys_sublist fun a b hab => ?_).nodup h
    split at hab
    · cases hab
    · cases hab
      rfl
  · rw [set_of_not_mem hmem]
    split
    · exact h
    · exact nodup_keys_concat h hmem

theorem Stocked.clear : (inventory.clear).Stocked items where
  nodup := List.nodup_nil
  known := List.forall_mem_nil _
  count_pos := List.forall_mem_nil _
  count_le := List.forall_mem_nil _

theorem Stocked.mem_set (h : inventory.Stocked items) (hp : items[provider.id]? = some provider)
    {n : Nat} {stack : Stack} (hs : stack ∈ (inventory.set provider n).entries) :
    stack ∈ inventory.entries ∨ min n (inventory.cap provider.maxStack) ≠ 0 ∧
      stack = ⟨provider, min n (inventory.cap provider.maxStack)⟩ := by
  by_cases hmem : provider.id ∈ inventory.ids
  · rw [set_of_mem hmem] at hs
    rcases mem_updateFirst hs with hs | ⟨old, hold, hid, hf⟩
    · exact .inl hs
    · have hknown := h.known old hold
      rw [hid, hp] at hknown
      split at hf
      · cases hf
      · rename_i hzero
        rw [← Option.some.inj hf, ← Option.some.inj hknown]
        exact .inr ⟨hzero, rfl⟩
  · rw [set_of_not_mem hmem] at hs
    split at hs
    · exact .inl hs
    · rename_i hzero
      rcases List.mem_append.1 hs with hs | hs
      · exact .inl hs
      · exact .inr ⟨hzero, List.mem_singleton.1 hs⟩

theorem Stocked.set (h : inventory.Stocked items) (hp : items[provider.id]? = some provider)
    (n : Nat) : (inventory.set provider n).Stocked items := by
  refine ⟨nodup_ids_set h.nodup n, fun stack hs => ?_, fun stack hs => ?_, fun stack hs => ?_⟩
  · rcases h.mem_set hp hs with hs | ⟨-, rfl⟩
    · exact h.known stack hs
    · exact hp
  · rcases h.mem_set hp hs with hs | ⟨hzero, rfl⟩
    · exact h.count_pos stack hs
    · exact Nat.pos_of_ne_zero hzero
  · rcases h.mem_set hp hs with hs | ⟨-, rfl⟩
    · exact h.count_le stack hs
    · exact Nat.min_le_right _ _

theorem Stocked.mono {items' : Std.ExtTreeMap String (Provider Expression)}
    (h : inventory.Stocked items)
    (hitems : ∀ (id : String) (p : Provider Expression),
      items[id]? = some p → items'[id]? = some p) :
    inventory.Stocked items' :=
  { h with known := fun stack hs => hitems _ _ (h.known stack hs) }

end Inventory

/-! ### Statuses -/

namespace Statuses

variable {α : Type} {statuses : Statuses α} {kinds : Std.ExtTreeMap String (Provider Expression)}
  {provider : Provider Expression}

def ids (statuses : Statuses α) : List String := statuses.entries.map (·.provider.id)

theorem contains_eq (id : String) : statuses.contains id = decide (id ∈ statuses.ids) := any_key

theorem isSome_remaining? (id : String) :
    (statuses.remaining? id).isSome = statuses.contains id := by
  unfold remaining? contains
  rw [Option.isSome_map, List.isSome_find?]

theorem remaining?_eq_some_iff (h : statuses.ids.Nodup) {id : String} {r : α} :
    statuses.remaining? id = some r ↔
      ∃ status ∈ statuses.entries, status.provider.id = id ∧ status.remaining = r := by
  unfold remaining?
  rw [Option.map_eq_some_iff]
  constructor
  · rintro ⟨status, hstatus, hr⟩
    exact ⟨status, List.mem_of_find?_eq_some hstatus, by simpa using List.find?_some hstatus, hr⟩
  · rintro ⟨status, hs, rfl, hr⟩
    exact ⟨status, find?_key_of_mem h hs, hr⟩

section Time

variable [OfNat α 0] [LT α]

/-- All statuses are known ones, each at most once, and have time left. -/
structure Running (kinds : Std.ExtTreeMap String (Provider Expression))
    (statuses : Statuses α) : Prop where
  nodup : statuses.ids.Nodup
  known : ∀ status ∈ statuses.entries, kinds[status.provider.id]? = some status.provider
  remaining_pos : ∀ status ∈ statuses.entries, 0 < status.remaining

theorem Running.empty : ({} : Statuses α).Running kinds where
  nodup := List.nodup_nil
  known := List.forall_mem_nil _
  remaining_pos := List.forall_mem_nil _

theorem Running.mono {kinds' : Std.ExtTreeMap String (Provider Expression)}
    (h : statuses.Running kinds)
    (hkinds : ∀ (id : String) (p : Provider Expression),
      kinds[id]? = some p → kinds'[id]? = some p) :
    statuses.Running kinds' :=
  { h with known := fun status hs => hkinds _ _ (h.known status hs) }

variable [DecidableLT α]

theorem set_of_not_pos {duration : α} (h : ¬ 0 < duration) :
    (statuses.set provider duration).entries =
      updateFirst (·.provider.id) provider.id (fun _ => none) statuses.entries := by
  unfold set
  rw [if_neg h]

theorem set_of_mem {duration : α} (h : 0 < duration) (hmem : provider.id ∈ statuses.ids) :
    (statuses.set provider duration).entries =
      updateFirst (·.provider.id) provider.id (fun s => some { s with remaining := duration })
        statuses.entries := by
  unfold set
  rw [if_pos h, contains_eq, if_pos (by simpa using hmem)]

theorem set_of_not_mem {duration : α} (h : 0 < duration) (hmem : provider.id ∉ statuses.ids) :
    (statuses.set provider duration).entries = statuses.entries ++ [⟨provider, duration⟩] := by
  unfold set
  rw [if_pos h, contains_eq, if_neg (by simpa using hmem)]

theorem remaining?_set (h : statuses.ids.Nodup) (duration : α) (id : String) :
    (statuses.set provider duration).remaining? id =
      if provider.id = id then if 0 < duration then some duration else none
      else statuses.remaining? id := by
  unfold remaining?
  by_cases hpos : 0 < duration
  · rw [if_pos hpos]
    by_cases hmem : provider.id ∈ statuses.ids
    · rw [set_of_mem hpos hmem, find?_updateFirst h (by rintro a b ⟨⟩; rfl)]
      split
      · obtain ⟨status, hstatus⟩ := exists_find?_key hmem
        rw [hstatus]
        rfl
      · rfl
    · rw [set_of_not_mem hpos hmem, find?_concat_key hmem]
      split
      · rfl
      · rfl
  · rw [if_neg hpos, set_of_not_pos hpos, find?_updateFirst h (by rintro a b ⟨⟩)]
    split
    · rw [Option.bind_fun_none, Option.map_none]
    · rfl

theorem contains_set (h : statuses.ids.Nodup) (duration : α) (id : String) :
    (statuses.set provider duration).contains id =
      if provider.id = id then decide (0 < duration) else statuses.contains id := by
  rw [← isSome_remaining?, ← isSome_remaining?, remaining?_set h]
  by_cases hid : provider.id = id
  · by_cases hpos : 0 < duration <;> simp [hid, hpos]
  · rw [if_neg hid, if_neg hid]

/-- A status that is renewed stays in its place. -/
theorem ids_set_of_mem {duration : α} (hpos : 0 < duration) (hmem : provider.id ∈ statuses.ids) :
    (statuses.set provider duration).ids = statuses.ids := by
  unfold ids
  rw [set_of_mem hpos hmem]
  exact updateFirst_keys_eq fun _ => rfl

theorem nodup_ids_set (h : statuses.ids.Nodup) (duration : α) :
    (statuses.set provider duration).ids.Nodup := by
  unfold ids
  by_cases hpos : 0 < duration
  · by_cases hmem : provider.id ∈ statuses.ids
    · rw [set_of_mem hpos hmem]
      exact (updateFirst_keys_sublist (by rintro a b ⟨⟩; rfl)).nodup h
    · rw [set_of_not_mem hpos hmem]
      exact nodup_keys_concat h hmem
  · rw [set_of_not_pos hpos]
    exact (updateFirst_keys_sublist (by rintro a b ⟨⟩)).nodup h

theorem mem_set {duration : α} {status : ActiveStatus α}
    (hs : status ∈ (statuses.set provider duration).entries) :
    status ∈ statuses.entries ∨ 0 < duration ∧ status.remaining = duration ∧
      (status.provider = provider ∨
        ∃ old ∈ statuses.entries, old.provider.id = provider.id ∧
          status.provider = old.provider) := by
  by_cases hpos : 0 < duration
  · by_cases hmem : provider.id ∈ statuses.ids
    · rw [set_of_mem hpos hmem] at hs
      rcases mem_updateFirst hs with hs | ⟨old, hold, hid, hf⟩
      · exact .inl hs
      · cases hf
        exact .inr ⟨hpos, rfl, .inr ⟨old, hold, hid, rfl⟩⟩
    · rw [set_of_not_mem hpos hmem] at hs
      rcases List.mem_append.1 hs with hs | hs
      · exact .inl hs
      · cases List.mem_singleton.1 hs
        exact .inr ⟨hpos, rfl, .inl rfl⟩
  · rw [set_of_not_pos hpos] at hs
    rcases mem_updateFirst hs with hs | ⟨_, _, _, hf⟩
    · exact .inl hs
    · cases hf

theorem Running.mem_set (h : statuses.Running kinds) (hp : kinds[provider.id]? = some provider)
    {duration : α} {status : ActiveStatus α}
    (hs : status ∈ (statuses.set provider duration).entries) :
    status ∈ statuses.entries ∨ 0 < duration ∧ status = ⟨provider, duration⟩ := by
  obtain ⟨kind, remaining⟩ := status
  rcases Statuses.mem_set hs with hs | ⟨hpos, rfl, rfl | ⟨old, hold, hid, rfl⟩⟩
  · exact .inl hs
  · exact .inr ⟨hpos, rfl⟩
  · have hknown := h.known old hold
    rw [hid, hp] at hknown
    rw [← Option.some.inj hknown]
    exact .inr ⟨hpos, rfl⟩

theorem Running.set (h : statuses.Running kinds) (hp : kinds[provider.id]? = some provider)
    (duration : α) : (statuses.set provider duration).Running kinds := by
  refine ⟨nodup_ids_set h.nodup duration, fun status hs => ?_, fun status hs => ?_⟩
  · rcases h.mem_set hp hs with hs | ⟨-, rfl⟩
    · exact h.known status hs
    · exact hp
  · rcases h.mem_set hp hs with hs | ⟨hpos, rfl⟩
    · exact h.remaining_pos status hs
    · exact hpos

variable [OfNat α 1] [Sub α]

theorem mem_tick {status : ActiveStatus α} :
    status ∈ statuses.tick.2.entries ↔ ∃ old ∈ statuses.entries,
      status = { old with remaining := old.remaining - 1 } ∧ 0 < status.remaining := by
  simp only [tick, List.mem_filter, List.mem_map, decide_eq_true_eq]
  constructor
  · rintro ⟨⟨old, hold, rfl⟩, hpos⟩
    exact ⟨old, hold, rfl, hpos⟩
  · rintro ⟨old, hold, rfl, hpos⟩
    exact ⟨⟨old, hold, rfl⟩, hpos⟩

theorem mem_expired {id : String} :
    id ∈ statuses.tick.1 ↔
      ∃ status ∈ statuses.entries, status.provider.id = id ∧ ¬ 0 < status.remaining - 1 := by
  simp only [tick, List.mem_map, List.mem_filter, decide_eq_true_eq]
  constructor
  · rintro ⟨_, ⟨⟨old, hold, rfl⟩, hpos⟩, rfl⟩
    exact ⟨old, hold, rfl, hpos⟩
  · rintro ⟨old, hold, rfl, hpos⟩
    exact ⟨_, ⟨⟨old, hold, rfl⟩, hpos⟩, rfl⟩

theorem tick_sublist : statuses.tick.2.ids.Sublist statuses.ids := by
  have hfilter := (List.filter_sublist (p := fun s : ActiveStatus α => 0 < s.remaining)
    (l := statuses.entries.map fun s => { s with remaining := s.remaining - 1 })).map
    (·.provider.id)
  rw [List.map_map] at hfilter
  exact hfilter

theorem Running.tick (h : statuses.Running kinds) : statuses.tick.2.Running kinds := by
  refine ⟨tick_sublist.nodup h.nodup, fun status hs => ?_, fun status hs => ?_⟩
  · obtain ⟨old, hold, rfl, -⟩ := mem_tick.1 hs
    exact h.known old hold
  · obtain ⟨old, -, -, hpos⟩ := mem_tick.1 hs
    exact hpos

theorem contains_tick (h : statuses.ids.Nodup) (id : String) :
    statuses.tick.2.contains id = (statuses.contains id && decide (id ∉ statuses.tick.1)) := by
  rw [contains_eq, contains_eq, Bool.eq_iff_iff]
  simp only [Bool.and_eq_true, decide_eq_true_eq, ids, List.mem_map]
  constructor
  · rintro ⟨status, hs, rfl⟩
    obtain ⟨old, hold, rfl, hpos⟩ := mem_tick.1 hs
    refine ⟨⟨old, hold, rfl⟩, fun hexpired => ?_⟩
    obtain ⟨other, hother, hid, hnot⟩ := mem_expired.1 hexpired
    have hsame : other = old := List.inj_on_of_nodup_map h hother hold hid
    subst hsame
    exact hnot hpos
  · rintro ⟨⟨old, hold, rfl⟩, hexpired⟩
    refine ⟨_, mem_tick.2 ⟨old, hold, rfl, ?_⟩, rfl⟩
    by_contra hpos
    exact hexpired (mem_expired.2 ⟨old, hold, rfl, hpos⟩)

end Time

end Statuses

end Scenario
