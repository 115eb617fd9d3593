import Std.Data.ExtTreeMap.Lemmas

/-!
Tables by id, read entry by entry, and results, step by step.
-/

namespace Scenario

theorem exists_ok_of_bind {ε α β : Type} {x : Except ε α} {f : α → Except ε β} {b : β}
    (h : x >>= f = .ok b) : ∃ a, x = .ok a ∧ f a = .ok b := by
  cases x with
  | error cause => cases h
  | ok a => exact ⟨a, rfl, h⟩

section Rows

variable {ε α β : Type} {f : α → Except ε β} {as : List α} {bs : List β}

theorem mapM_eq_ok_iff : as.mapM f = .ok bs ↔ as.map f = bs.map .ok := by
  induction as generalizing bs with
  | nil => cases bs <;> simp [pure, Except.pure]
  | cons a as ih =>
    rw [List.mapM_cons, List.map_cons]
    constructor
    · intro h
      obtain ⟨b, hb, h⟩ := exists_ok_of_bind h
      obtain ⟨rest, hrest, h⟩ := exists_ok_of_bind h
      cases h
      rw [hb, ih.1 hrest, List.map_cons]
    · intro h
      cases bs with
      | nil => cases h
      | cons b bs =>
        obtain ⟨hb, hrest⟩ := List.cons.inj h
        rw [hb, ih.2 hrest]
        rfl

theorem mapM_eq_error {before after : List α} {a : α} {cause : ε}
    (hbefore : ∀ b ∈ before, ∃ x, f b = .ok x) (ha : f a = .error cause) :
    (before ++ a :: after).mapM f = .error cause := by
  induction before with
  | nil =>
    rw [List.nil_append, List.mapM_cons, ha]
    rfl
  | cons b before ih =>
    obtain ⟨⟨x, hx⟩, hrest⟩ := List.forall_mem_cons.1 hbefore
    rw [List.cons_append, List.mapM_cons, hx, ih hrest]
    rfl

theorem of_mapM_eq_ok (h : as.mapM f = .ok bs) : ∀ b ∈ bs, ∃ a ∈ as, f a = .ok b := by
  intro b hb
  have hmem := List.mem_map_of_mem (f := (Except.ok : β → Except ε β)) hb
  rw [← mapM_eq_ok_iff.1 h] at hmem
  exact List.mem_map.1 hmem

theorem ok_of_mapM_eq_ok (h : as.mapM f = .ok bs) : ∀ a ∈ as, ∃ b, f a = .ok b := by
  intro a ha
  have hmem := List.mem_map_of_mem (f := f) ha
  rw [mapM_eq_ok_iff.1 h] at hmem
  obtain ⟨b, -, hb⟩ := List.mem_map.1 hmem
  exact ⟨b, hb.symm⟩

theorem length_of_mapM_eq_ok (h : as.mapM f = .ok bs) : bs.length = as.length := by
  have hlength := congrArg List.length (mapM_eq_ok_iff.1 h)
  simpa using hlength.symm

end Rows

theorem bind_apply {ε σ α β : Type} (x : ExceptT ε (StateM σ) α) (f : α → ExceptT ε (StateM σ) β)
    (s : σ) :
    (x >>= f) s =
      match x s with
      | (.ok a, s) => f a s
      | (.error e, s) => (.error e, s) := by
  simp only [bind, ExceptT.bind, ExceptT.mk, StateT.bind]
  rcases x s with ⟨_ | _, _⟩ <;> rfl

theorem modify_apply {ε σ : Type} (f : σ → σ) (s : σ) :
    (modify f : ExceptT ε (StateM σ) Unit) s = (.ok (), f s) := rfl

theorem get_apply {ε σ : Type} (s : σ) : (get : ExceptT ε (StateM σ) σ) s = (.ok s, s) := rfl

theorem forM_modify {ε σ α : Type} (f : σ → α → σ) (as : List α) (s : σ) :
    (as.forM fun a => (modify (f · a) : ExceptT ε (StateM σ) Unit)) s =
      (.ok (), as.foldl f s) := by
  induction as generalizing s with
  | nil => rfl
  | cons a as ih => exact ih (f s a)

variable {α β : Type}

section Keyed

variable {key : α → String} {l : List α}

theorem find?_key_eq_none {id : String} (h : id ∉ l.map key) : l.find? (key · = id) = none := by
  rw [List.find?_eq_none]
  intro a ha
  have hne : key a ≠ id := by
    rintro rfl
    exact h (List.mem_map_of_mem ha)
  simpa using hne

theorem find?_key_of_mem (hl : (l.map key).Nodup) {a : α} (h : a ∈ l) :
    l.find? (key · = key a) = some a := by
  induction l with
  | nil => cases h
  | cons b l ih =>
    rw [List.map_cons, List.nodup_cons] at hl
    rcases List.mem_cons.1 h with rfl | h
    · simp
    · have hne : key b ≠ key a := by
        intro heq
        exact hl.1 (heq ▸ List.mem_map_of_mem h)
      rw [List.find?_cons_of_neg (by simpa using hne), ih hl.2 h]

end Keyed

theorem getElem?_insert_id (t : Std.ExtTreeMap String α) (id id' : String) (a : α) :
    (t.insert id a)[id']? = if id = id' then some a else t[id']? := by
  rw [Std.ExtTreeMap.getElem?_insert]
  simp only [Std.compare_eq_iff_eq]

theorem getElem?_insert_of_new {t : Std.ExtTreeMap String α} {id : String}
    (h : t.contains id = false) (a : α) {id' : String} {b : α} (hb : t[id']? = some b) :
    (t.insert id a)[id']? = some b := by
  rw [getElem?_insert_id]
  split
  · rename_i hid
    subst hid
    rw [Std.ExtTreeMap.getElem?_eq_none_of_contains_eq_false h] at hb
    cases hb
  · exact hb

theorem contains_eq_isSome (t : Std.ExtTreeMap String α) (id : String) :
    t.contains id = (t[id]?).isSome := Std.ExtTreeMap.contains_eq_isSome_getElem?

theorem contains_insert_id (t : Std.ExtTreeMap String α) (id id' : String) (a : α) :
    (t.insert id a).contains id' = (decide (id = id') || t.contains id') := by
  rw [contains_eq_isSome, contains_eq_isSome, getElem?_insert_id]
  by_cases h : id = id' <;> simp [h]

theorem forall_of_extension {t t' : Std.ExtTreeMap String α} {P : α → Prop}
    (hkeeps : ∀ (id : String) (a : α), t[id]? = some a → t'[id]? = some a)
    (hadds : ∀ (id : String) (a : α), t'[id]? = some a → t[id]? = none → P a)
    (h : ∀ (id : String) (a : α), t[id]? = some a → P a) (id : String) (a : α)
    (ha : t'[id]? = some a) : P a := by
  cases hold : t[id]? with
  | none => exact hadds id a ha hold
  | some b =>
    have hb := hkeeps id b hold
    rw [ha] at hb
    cases hb
    exact h id a hold

theorem find?_toList (t : Std.ExtTreeMap String α) (id : String) :
    (t.toList.find? (·.1 = id)).map Prod.snd = t[id]? := by
  cases h : t.toList.find? (·.1 = id) with
  | some entry =>
    have hid : entry.1 = id := by simpa using List.find?_some h
    have hmem := List.mem_of_find?_eq_some h
    rw [show entry = (entry.1, entry.2) from rfl, hid,
      Std.ExtTreeMap.mem_toList_iff_getElem?_eq_some] at hmem
    exact hmem.symm
  | none =>
    cases ha : t[id]? with
    | none => rfl
    | some a =>
      have hmem := Std.ExtTreeMap.mem_toList_iff_getElem?_eq_some.2 ha
      have hne := List.find?_eq_none.1 h _ hmem
      simp at hne

theorem foldl_insert_list (f : α → β) (l : List (String × α))
    (hl : l.Pairwise fun a b => a.1 ≠ b.1) (t : Std.ExtTreeMap String β) (id : String) :
    (l.foldl (fun t entry => t.insert entry.1 (f entry.2)) t)[id]? =
      (((l.find? (·.1 = id)).map Prod.snd).map f).or t[id]? := by
  induction l generalizing t with
  | nil => rfl
  | cons entry l ih =>
    rw [List.pairwise_cons] at hl
    rw [List.foldl_cons, ih hl.2, getElem?_insert_id]
    by_cases hid : entry.1 = id
    · have hnone : l.find? (·.1 = id) = none := by
        rw [List.find?_eq_none]
        intro other hother
        have hne := hl.1 other hother
        rw [hid] at hne
        simpa using hne.symm
      rw [if_pos hid, hnone, List.find?_cons_of_pos (by simpa using hid)]
      rfl
    · rw [if_neg hid, List.find?_cons_of_neg (by simpa using hid)]

theorem foldl_insert (f : α → β) (s : Std.ExtTreeMap String α) (t : Std.ExtTreeMap String β)
    (id : String) :
    (s.foldl (fun t id a => t.insert id (f a)) t)[id]? = ((s[id]?).map f).or t[id]? := by
  rw [Std.ExtTreeMap.foldl_eq_foldl_toList, foldl_insert_list f, find?_toList]
  refine Std.ExtTreeMap.distinct_keys_toList.imp fun h => ?_
  simpa only [Std.compare_eq_iff_eq] using h

theorem contains_of_map_eq {f : α → β} {t u : Std.ExtTreeMap String α}
    (h : (t.map fun _ => f) = u.map fun _ => f) (id : String) : t.contains id = u.contains id := by
  have hcontains := congrArg (·.contains id) h
  simpa only [Std.ExtTreeMap.contains_map] using hcontains

theorem exists_of_map_eq {f : α → β} {t u : Std.ExtTreeMap String α}
    (h : (t.map fun _ => f) = u.map fun _ => f) {id : String} {a : α} (ha : t[id]? = some a) :
    ∃ b : α, u[id]? = some b ∧ f b = f a := by
  have hentry : (t.map fun _ => f)[id]? = (u.map fun _ => f)[id]? := by rw [h]
  rw [Std.ExtTreeMap.getElem?_map, Std.ExtTreeMap.getElem?_map, ha] at hentry
  exact Option.map_eq_some_iff.1 hentry.symm

end Scenario
