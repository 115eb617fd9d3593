import Mathlib.Data.List.Forall2
import Scenario.Proofs.Shapes
import Scenario.Proofs.Tables

/-!
Records have no members but those that their shape declares. What decodes as a record fits the
roster of its shape: every member is one of the roster, and what a field holds decodes in turn.
Since this goes on to any depth, a member that is not declared spoils everything around it.
-/

namespace Scenario

/-! ### What decodes -/

/-- Records decode: those of an event when its members are sorted, at some depth, and those of a
document that are events together with it. -/
def Shape.Accepts : Shape → Json → Prop
  | .document, j => ∃ c, Json.Decoder.content j = .ok c ∧
      ∀ e ∈ c.events, ∃ r, Json.Decoder.event e.canonical = .ok r
  | .attr, j => ∃ a, Json.Decoder.attributeRecord j = .ok a
  | .provider, j => ∃ p, Json.Decoder.provider j = .ok p
  | .modifier, j => ∃ m, Json.Decoder.modifier j = .ok m
  | .event, j => ∃ r, Json.Decoder.event j.canonical = .ok r
  | .condition, j => ∃ numbered depth c, Json.Decoder.condition numbered depth j.canonical = .ok c
  | .action, j => ∃ numbered depth a, Json.Decoder.action numbered depth j.canonical = .ok a
  | .choice, j => ∃ depth c, Json.Decoder.choice (Json.Decoder.condition true depth)
      (Json.Decoder.action true depth) j.canonical = .ok c
  | .group, j => ∃ depth g, Json.Decoder.group (Json.Decoder.action true depth) j.canonical = .ok g
  | .branch, j => ∃ depth b, Json.Decoder.branch (Json.Decoder.condition true depth)
      (Json.Decoder.action true depth) j.canonical = .ok b
  | .update, j => ∃ u, Json.Decoder.update j.canonical = .ok u
  | .amount, j => ∃ a, Json.Decoder.amount j.canonical = .ok a
  | .request, j => ∃ r, Json.Decoder.request j.canonical = .ok r

def Holding.Accepts : Holding → Json → Prop
  | .plain, _ => True
  | .one s, j => s.Accepts j
  | .optional s, j => j = .null ∨ s.Accepts j
  | .many s, j => ∃ js, j = .array js ∧ ∀ i ∈ js, s.Accepts i

/-! ### Rosters -/

/-- A value has the members of a roster and no others, and each of them holds what it should. -/
def Roster.Fits (P : Holding → Json → Prop) (roster : Roster) : Json → Prop
  | .object ms => ∀ key ∈ ms.map Prod.fst, ∃ holding, roster.lookup key = some holding ∧
      ∀ j ∈ Json.lastOf key ms, P holding j
  | .array js => ∀ (n : Nat) key holding,
      roster[n]? = some (key, holding) → ∀ j ∈ js[n]?, P holding j
  | _ => False

namespace Roster.Fits

variable {P Q : Holding → Json → Prop} {roster : Roster} {key : String} {j : Json}
  {holding : Holding}

theorem mono (hPQ : ∀ holding j, P holding j → Q holding j) (h : roster.Fits P j) :
    roster.Fits Q j := by
  cases j with
  | object ms =>
    intro key hkey
    obtain ⟨holding, hlookup, hholds⟩ := h key hkey
    exact ⟨holding, hlookup, fun j hj => hPQ holding j (hholds j hj)⟩
  | array js => exact fun n key holding hn j hj => hPQ holding j (h n key holding hn j hj)
  | _ => exact h.elim

theorem declared {ms : List (String × Json)} (h : roster.Fits P (.object ms))
    (hkey : key ∈ ms.map Prod.fst) : key ∈ roster.map Prod.fst := by
  obtain ⟨holding, hlookup, -⟩ := h key hkey
  obtain ⟨before, after, rfl, -⟩ := List.lookup_eq_some_iff.1 hlookup
  simp

theorem member {before after : List (String × Json)}
    (h : roster.Fits P (.object (before ++ (key, j) :: after)))
    (hkey : roster.lookup key = some holding) (hlast : key ∉ after.map Prod.fst) :
    P holding j := by
  obtain ⟨holding', hlookup, hholds⟩ := h key (by simp)
  obtain rfl : holding' = holding := Option.some.inj (hlookup.symm.trans hkey)
  exact hholds j (Json.lastOf_append_cons key before j hlast)

theorem entry {before after : List Json} (h : roster.Fits P (.array (before ++ j :: after)))
    (hkey : roster[before.length]? = some (key, holding)) : P holding j :=
  h before.length key holding hkey j (by simp)

end Roster.Fits

namespace Json

section Rosters

variable {P : Holding → Json → Prop} {α : Type} {αs : List Type}

/-- The fields of a record are those of a roster, and they decode nothing but what they should hold.
Of some fields that is only so because of what is known about their values. -/
inductive Fields.Holds (P : Holding → Json → Prop) :
    {αs : List Type} → Fields αs → Roster → (Values αs → Prop) → Prop
  | nil : Holds P .nil [] fun _ => True
  | known {α : Type} {αs : List Type} {field : Field α} {fields : Fields αs} {holding : Holding}
    {roster : Roster} {Q : Values αs → Prop} {R : α → Prop}
    (h : ∀ j a, field.decode j = .ok a → R a → P holding j) (hs : Holds P fields roster Q) :
    Holds P (.cons field fields) ((field.name, holding) :: roster) fun values =>
      R values.1 ∧ Q values.2

namespace Fields

variable {fields : Fields αs} {roster : Roster} {Q : Values αs → Prop} {values : Values αs}

theorem gather_cons {field : Field α} {ms : List (String × Json)} {values : Values (α :: αs)}
    (h : (cons field fields).gather ms = some values) :
    (∀ j ∈ lastOf field.name ms, field.decode j = .ok values.1) ∧
      fields.gather ms = some values.2 := by
  obtain ⟨hvalue, hrest⟩ := gather_eq_some h
  refine ⟨?_, hrest⟩
  unfold lastOf
  obtain ⟨hnone, -⟩ | ⟨j, hone, hdecode⟩ := Field.value?_eq_some hvalue
  · rw [hnone]
    exact nofun
  · rw [hone]
    rintro j' ⟨⟩
    exact hdecode

theorem ofItems_cons {field : Field α} {j : Json} {js : List Json} {values : Values (α :: αs)}
    (h : (cons field fields).ofItems (j :: js) = .ok values) :
    field.decode j = .ok values.1 ∧ fields.ofItems js = .ok values.2 := by
  obtain ⟨a, ha, h⟩ := exists_ok_of_bind h
  obtain ⟨rest, hrest, h⟩ := exists_ok_of_bind h
  cases h
  exact ⟨ha, hrest⟩

theorem Holds.cons {field : Field α} {holding : Holding}
    (h : ∀ j a, field.decode j = .ok a → P holding j) (hs : Holds P fields roster Q) :
    Holds P (.cons field fields) ((field.name, holding) :: roster) fun values =>
      True ∧ Q values.2 :=
  .known (R := fun _ => True) (fun j a hdecode _ => h j a hdecode) hs

theorem Holds.names (h : fields.Holds P roster Q) : fields.names = roster.map Prod.fst := by
  induction h with
  | nil => rfl
  | known _ _ ih => exact congrArg (_ :: ·) ih

theorem Holds.object (h : fields.Holds P roster Q) {ms : List (String × Json)}
    (hgather : fields.gather ms = some values) (hknown : Q values) (key : String)
    (hkey : key ∈ fields.names) :
    ∃ holding, roster.lookup key = some holding ∧ ∀ j ∈ lastOf key ms, P holding j := by
  induction h with
  | nil => cases hkey
  | @known α αs field fields holding roster Q R hdecode _ ih =>
    obtain ⟨hfirst, hrest⟩ := gather_cons hgather
    by_cases hname : key = field.name
    · subst hname
      exact ⟨holding, List.lookup_cons_self, fun j hj => hdecode j _ (hfirst j hj) hknown.1⟩
    · obtain ⟨holding', hlookup, hholds⟩ :=
        ih hrest hknown.2 ((List.mem_cons.1 hkey).resolve_left hname)
      refine ⟨holding', ?_, hholds⟩
      rwa [List.lookup_cons, beq_false_of_ne hname]

theorem Holds.array (h : fields.Holds P roster Q) {js : List Json}
    (hitems : fields.ofItems js = .ok values) (hknown : Q values) (n : Nat) (key : String)
    (holding : Holding) (hn : roster[n]? = some (key, holding)) : ∀ j ∈ js[n]?, P holding j := by
  induction h generalizing js n with
  | nil => cases hn
  | @known α αs field fields holding roster Q R hdecode _ ih =>
    cases js with
    | nil => exact nofun
    | cons i is =>
      obtain ⟨hfirst, hrest⟩ := ofItems_cons hitems
      cases n with
      | zero =>
        cases hn
        rintro j ⟨⟩
        exact hdecode _ _ hfirst hknown.1
      | succ n => exact ih hrest hknown.2 n hn

end Fields

theorem record_fits {fields : Fields αs} {roster : Roster} {Q : Values αs → Prop}
    {build : Values αs → α} {j : Json} {a : α} (h : Decoder.record true fields build j = .ok a)
    (hholds : fields.Holds P roster Q) (hkeys : (roster.map Prod.fst).Nodup)
    (hknown : ∀ values, build values = a → Q values) : roster.Fits P j := by
  cases j with
  | object ms =>
    rw [← hholds.names] at hkeys
    obtain ⟨values, hadmits, hgather, hbuild⟩ := record_object_eq_ok h hkeys
    exact fun key hkey => hholds.object hgather (hknown values hbuild) key (hadmits key hkey)
  | array js =>
    obtain ⟨values, hitems, hbuild⟩ := record_array_eq_ok h
    exact hholds.array hitems (hknown values hbuild)
  | _ => cases h

/-! ### Tags -/

theorem untag_eq_ok {numbered : Bool} {tag : String} {kinds : List (String × Decoder α)}
    {ms others : List (String × Json)} {d : Decoder α}
    (h : Decoder.untag numbered tag kinds ms = .ok (some d, others)) :
    ∃ before j after, ms = before ++ (tag, j) :: after ∧ others = before ++ after ∧
      tag ∉ before.map Prod.fst ∧ tag ∉ after.map Prod.fst ∧
      Decoder.kind? numbered kinds j = .ok d := by
  induction ms generalizing others with
  | nil => cases h
  | cons m ms ih =>
    obtain ⟨key, j⟩ := m
    unfold Decoder.untag at h
    split at h
    · rename_i hkey
      subst hkey
      obtain ⟨d', hkind, h⟩ := exists_ok_of_bind h
      split at h
      · cases h
      · rename_i hlookup
        cases h
        refine ⟨[], j, ms, rfl, rfl, List.not_mem_nil, ?_, hkind⟩
        rw [lookup_eq_head?_valuesOf] at hlookup
        rw [mem_keys_iff, not_not]
        simpa using hlookup
    · rename_i hne
      obtain ⟨⟨d', others'⟩, huntag, h⟩ := exists_ok_of_bind h
      cases h
      obtain ⟨before, j', after, rfl, rfl, hbefore, hafter, hkind⟩ := ih huntag
      exact ⟨(key, j) :: before, j', after, rfl, rfl, by simp [Ne.symm hne, hbefore], hafter, hkind⟩

/-- The decoders of kinds find what fits their rosters. -/
def KindsFit (P : Holding → Json → Prop) (kinds : List (String × Decoder α))
    (rosters : List (String × Roster)) : Prop :=
  List.Forall₂ (fun kind entry => kind.1 = entry.1 ∧
    ∀ j a, kind.2 j = .ok a → Roster.Fits P entry.2 j) kinds rosters

section Kinds

variable {numbered : Bool} {kinds : List (String × Decoder α)} {rosters : List (String × Roster)}
  {d : Decoder α}

theorem KindsFit.lookup (h : KindsFit P kinds rosters) {name : String}
    (hname : kinds.lookup name = some d) :
    ∃ roster, rosters.lookup name = some roster ∧ ∀ j a, d j = .ok a → roster.Fits P j := by
  induction h with
  | nil => cases hname
  | @cons kind entry kinds rosters hkind _ ih =>
    obtain ⟨name', d'⟩ := kind
    obtain ⟨_, roster⟩ := entry
    obtain ⟨rfl, hfits⟩ := hkind
    rw [List.lookup_cons] at hname ⊢
    cases hsame : name == name' with
    | true =>
      rw [hsame] at hname
      cases hname
      exact ⟨roster, rfl, hfits⟩
    | false =>
      rw [hsame] at hname
      exact ih hname

theorem KindsFit.getElem? (h : KindsFit P kinds rosters) {n : Nat} {name : String}
    (hn : kinds[n]? = some (name, d)) :
    ∃ roster, (rosters[n]?).map Prod.snd = some roster ∧ ∀ j a, d j = .ok a → roster.Fits P j := by
  induction h generalizing n with
  | nil => cases hn
  | @cons kind entry kinds rosters hkind _ ih =>
    cases n with
    | zero =>
      cases hn
      exact ⟨entry.2, rfl, hkind.2⟩
    | succ n => exact ih hn

theorem kind?_fits (hkinds : KindsFit P kinds rosters) {tag : Json}
    (h : Decoder.kind? numbered kinds tag = .ok d) :
    ∃ roster, kindRoster? rosters tag = some roster ∧ ∀ j a, d j = .ok a → roster.Fits P j := by
  cases tag with
  | string name =>
    unfold Decoder.kind? at h
    dsimp only at h
    split at h
    · rename_i d' hlookup
      cases h
      exact hkinds.lookup hlookup
    · cases h
  | integer negative n =>
    unfold Decoder.kind? at h
    cases negative with
    | true => cases h
    | false =>
      dsimp only at h
      split at h
      · rename_i name' d' hn
        cases h
        exact hkinds.getElem? hn
      · cases h
  | _ => cases h

theorem tagged_fits (hkinds : KindsFit P kinds rosters) (hplain : ∀ j, P .plain j) {j : Json}
    {a : α} (h : Decoder.tagged numbered "id" kinds j = .ok a) :
    ∃ roster, j.tag?.bind (kindRoster? rosters) = some roster ∧
      Roster.Fits P (("id", .plain) :: roster) j := by
  cases j with
  | object ms =>
    obtain ⟨⟨kind, others⟩, huntag, h⟩ := exists_ok_of_bind h
    cases kind with
    | none => cases h
    | some d =>
      obtain ⟨before, tag, after, rfl, rfl, -, hafter, hkind⟩ := untag_eq_ok huntag
      -- The decoder of the kind sees the other members alone, so the tag is told apart here.
      obtain ⟨roster, hroster, hfits⟩ := kind?_fits hkinds hkind
      have hothers := hfits _ a h
      refine ⟨roster, ?_, ?_⟩
      · rw [tag?, lastOf_append_cons "id" before tag hafter]
        exact hroster
      · intro key hkey
        by_cases hid : key = "id"
        · subst hid
          exact ⟨.plain, List.lookup_cons_self, fun j _ => hplain j⟩
        · have hmem : key ∈ (before ++ after).map Prod.fst := by
            simpa [hid] using hkey
          obtain ⟨holding, hlookup, hholds⟩ := hothers key hmem
          refine ⟨holding, ?_, ?_⟩
          · rwa [List.lookup_cons, beq_false_of_ne hid]
          · rwa [lastOf_of_ne (Ne.symm hid)]
  | array js =>
    cases js with
    | nil => cases h
    | cons tag js =>
      obtain ⟨d, hkind, h⟩ := exists_ok_of_bind h
      obtain ⟨roster, hroster, hfits⟩ := kind?_fits hkinds hkind
      refine ⟨roster, hroster, ?_⟩
      intro n key holding hn j hj
      cases n with
      | zero =>
        cases hn
        exact hplain j
      | succ n => exact hfits _ a h n key holding hn j hj
  | _ => cases h

end Kinds

end Rosters

/-! ### Sorted members -/

def SortedMembers (ms : List (String × Json)) : Prop :=
  ms.Pairwise fun m m' => compare m.1 m'.1 = .lt

theorem mem_keys_insertMember {key key' : String} {v : Json} {ms : List (String × Json)}
    (h : key ∈ (insertMember key' v ms).map Prod.fst) : key = key' ∨ key ∈ ms.map Prod.fst := by
  induction ms with
  | nil => simpa [insertMember] using h
  | cons m ms ih =>
    obtain ⟨a, b⟩ := m
    unfold insertMember at h
    split at h
    · simpa using h
    · exact .inr h
    · rcases List.mem_cons.1 h with rfl | hrest
      · exact .inr List.mem_cons_self
      · exact (ih hrest).imp_right (List.mem_cons_of_mem a)

theorem SortedMembers.insertMember {ms : List (String × Json)} (h : SortedMembers ms)
    (key : String) (v : Json) : SortedMembers (insertMember key v ms) := by
  induction ms with
  | nil => exact List.pairwise_singleton _ _
  | cons m ms ih =>
    obtain ⟨a, b⟩ := m
    obtain ⟨hfirst, hrest⟩ := List.pairwise_cons.1 h
    unfold Json.insertMember
    split
    · rename_i hlt
      refine List.pairwise_cons.2 ⟨List.forall_mem_cons.2 ⟨hlt, ?_⟩, h⟩
      intro m hm
      exact Std.TransCmp.lt_trans hlt (hfirst m hm)
    · exact h
    · rename_i hgt
      refine List.pairwise_cons.2 ⟨?_, ih hrest⟩
      intro m hm
      rcases mem_keys_insertMember (List.mem_map_of_mem hm) with hkey | hkey
      · rw [hkey]
        exact Std.OrientedCmp.gt_iff_lt.1 hgt
      · obtain ⟨m', hm', hsame⟩ := List.mem_map.1 hkey
        rw [← hsame]
        exact hfirst m' hm'

theorem valuesOf_insertMember {ms : List (String × Json)} (h : SortedMembers ms)
    (key key' : String) (v : Json) :
    valuesOf key (insertMember key' v ms) =
      if key' = key ∧ valuesOf key ms = [] then [v] else valuesOf key ms := by
  induction ms with
  | nil =>
    rw [Json.insertMember, valuesOf_cons]
    simp [valuesOf]
  | cons m ms ih =>
    obtain ⟨a, b⟩ := m
    obtain ⟨hfirst, hrest⟩ := List.pairwise_cons.1 h
    unfold Json.insertMember
    split
    · rename_i hlt
      rw [valuesOf_cons]
      by_cases hkey : key' = key
      · subst hkey
        have hnone : valuesOf key' ((a, b) :: ms) = [] := by
          by_contra hsome
          obtain ⟨m, hm, hsame⟩ := List.mem_map.1 ((mem_keys_iff key' _).2 hsome)
          rcases List.mem_cons.1 hm with rfl | hm
          · simp [← hsame] at hlt
          · have hlater := Std.TransCmp.lt_trans hlt (hfirst m hm)
            simp [← hsame] at hlater
        simp [hnone]
      · simp [hkey]
    · rename_i heq
      obtain rfl := Std.compare_eq_iff_eq.1 heq
      rw [valuesOf_cons]
      by_cases hkey : key' = key <;> simp [hkey]
    · rename_i hgt
      rw [valuesOf_cons, valuesOf_cons, ih hrest]
      by_cases ha : a = key
      · subst ha
        have hne : key' ≠ a := by
          rintro rfl
          simp at hgt
        simp [hne]
      · simp [ha]

theorem sorted_canonicalMembers (ms : List (String × Json)) :
    SortedMembers (canonicalMembers ms) := by
  induction ms with
  | nil => exact .nil
  | cons m ms ih => exact ih.insertMember m.1 m.2.canonical

/-- Of each key the last value stays. -/
theorem valuesOf_canonicalMembers (key : String) (ms : List (String × Json)) :
    valuesOf key (canonicalMembers ms) = ((lastOf key ms).map canonical).toList := by
  induction ms with
  | nil => rfl
  | cons m ms ih =>
    obtain ⟨k, j⟩ := m
    rw [canonicalMembers, valuesOf_insertMember (sorted_canonicalMembers ms), ih]
    unfold lastOf
    rw [valuesOf_cons]
    by_cases hkey : k = key
    · subst hkey
      rw [if_pos rfl, List.getLast?_cons]
      cases (valuesOf k ms).getLast? <;> simp
    · simp [hkey]

theorem canonicalItems_eq_map (js : List Json) : canonicalItems js = js.map canonical := by
  induction js with
  | nil => rfl
  | cons j js ih => rw [canonicalItems, ih, List.map_cons]

theorem canonical_integer (negative : Bool) (n : Nat) :
    (integer negative n).canonical = integer negative n ∨
      (∃ x, (integer negative n).canonical = double x) ∨
      (integer negative n).canonical = unreadable := by
  unfold canonical
  split
  · exact .inl rfl
  · cases ofInteger? negative n with
    | none => exact .inr (.inr rfl)
    | some x => exact .inr (.inl ⟨x, rfl⟩)

theorem eq_null_of_canonical {j : Json} (h : j.canonical = .null) : j = .null := by
  cases j with
  | null => rfl
  | integer negative n =>
    obtain hsame | ⟨x, hdouble⟩ | hnone := canonical_integer negative n
    · rwa [hsame] at h
    · rw [hdouble] at h
      cases h
    · rw [hnone] at h
      cases h
  | _ => cases h

theorem eq_array_of_canonical {j : Json} {js : List Json} (h : j.canonical = .array js) :
    ∃ is, j = .array is ∧ js = is.map canonical := by
  cases j with
  | array is =>
    cases h
    exact ⟨is, rfl, canonicalItems_eq_map is⟩
  | integer negative n =>
    obtain hsame | ⟨x, hdouble⟩ | hnone := canonical_integer negative n
    · rw [hsame] at h
      cases h
    · rw [hdouble] at h
      cases h
    · rw [hnone] at h
      cases h
  | _ => cases h

theorem kindRoster?_canonical {rosters : List (String × Roster)} {tag : Json} {roster : Roster}
    (h : kindRoster? rosters tag.canonical = some roster) :
    kindRoster? rosters tag = some roster := by
  cases tag with
  | integer negative n =>
    obtain hsame | ⟨x, hdouble⟩ | hnone := canonical_integer negative n
    · rwa [hsame] at h
    · rw [hdouble] at h
      cases h
    · rw [hnone] at h
      cases h
  | _ => exact h

theorem tag?_canonical {j tag : Json} (h : j.canonical.tag? = some tag) :
    ∃ tag', j.tag? = some tag' ∧ tag'.canonical = tag := by
  cases j with
  | object ms =>
    change lastOf "id" (canonicalMembers ms) = some tag at h
    rw [lastOf, valuesOf_canonicalMembers] at h
    cases hlast : lastOf "id" ms with
    | none =>
      rw [hlast] at h
      cases h
    | some tag' =>
      rw [hlast] at h
      cases h
      exact ⟨tag', hlast, rfl⟩
  | array js =>
    cases js with
    | nil => cases h
    | cons tag' js =>
      cases h
      exact ⟨tag', rfl, rfl⟩
  | integer negative n =>
    obtain hsame | ⟨x, hdouble⟩ | hnone := canonical_integer negative n
    · rw [hsame] at h
      cases h
    · rw [hdouble] at h
      cases h
    · rw [hnone] at h
      cases h
  | _ => cases h

/-- The kind of a record is the kind that its sorted form tells. -/
theorem kind_of_canonical {rosters : List (String × Roster)} {j : Json} {roster : Roster}
    (h : j.canonical.tag?.bind (kindRoster? rosters) = some roster) :
    j.tag?.bind (kindRoster? rosters) = some roster := by
  obtain ⟨tag, htag, hroster⟩ := Option.bind_eq_some_iff.1 h
  obtain ⟨tag', htag', rfl⟩ := tag?_canonical htag
  exact Option.bind_eq_some_iff.2 ⟨tag', htag', kindRoster?_canonical hroster⟩

end Json

/-- What is in an event is decoded when its members are sorted. -/
def Holding.AcceptsSorted (holding : Holding) (v : Json) : Prop :=
  ∀ j, v = Json.canonical j → holding.Accepts j

theorem Roster.fits_of_canonical {roster : Roster} {j : Json}
    (h : roster.Fits Holding.AcceptsSorted j.canonical) : roster.Fits Holding.Accepts j := by
  cases j with
  | object ms =>
    intro key hkey
    have hvalues := Json.valuesOf_canonicalMembers key ms
    cases hlast : Json.lastOf key ms with
    | none =>
      rw [Json.mem_keys_iff] at hkey
      exact absurd (List.getLast?_eq_none_iff.1 hlast) hkey
    | some j =>
      rw [hlast] at hvalues
      have hmem : key ∈ (Json.canonicalMembers ms).map Prod.fst := by
        rw [Json.mem_keys_iff, hvalues]
        exact nofun
      obtain ⟨holding, hlookup, hholds⟩ := h key hmem
      refine ⟨holding, hlookup, ?_⟩
      rintro j' ⟨⟩
      refine hholds j.canonical ?_ j rfl
      rw [Json.lastOf, hvalues]
      rfl
  | array js =>
    intro n key holding hn j hj
    refine h n key holding hn j.canonical ?_ j rfl
    rw [Json.canonicalItems_eq_map, List.getElem?_map, hj]
    rfl
  | integer negative n =>
    obtain hsame | ⟨x, hdouble⟩ | hnone := Json.canonical_integer negative n
    · rwa [hsame] at h
    · rw [hdouble] at h
      exact h
    · rw [hnone] at h
      exact h
  | _ => exact h

end Scenario
