import Mathlib.Data.List.Forall2
import Scenario.Content
import Scenario.Proofs.Records
import Scenario.Proofs.Tables

/-!
Documents that differ in the order of the members of their objects only. Decoders of content make
the same of both, and sorting the members of events makes one value of both.
-/

namespace Scenario.Json

/-- JSON values that differ in nothing but the order in which objects hold their members, somewhere
or other. Members that have changed places must not share a key. -/
inductive Reordered : Json → Json → Prop
  | refl (j : Json) : Reordered j j
  | trans {j₁ j₂ j₃ : Json} (h : Reordered j₁ j₂) (h' : Reordered j₂ j₃) : Reordered j₁ j₃
  | perm {ms ms' : List (String × Json)} (h : ms.Perm ms') (hkeys : (ms.map Prod.fst).Nodup) :
    Reordered (.object ms) (.object ms')
  | item {j j' : Json} (before after : List Json) (h : Reordered j j') :
    Reordered (.array (before ++ j :: after)) (.array (before ++ j' :: after))
  | member {j j' : Json} (before : List (String × Json)) (key : String)
    (after : List (String × Json)) (h : Reordered j j') :
    Reordered (.object (before ++ (key, j) :: after)) (.object (before ++ (key, j') :: after))

/-! ### Canonical values -/

theorem insertMember_comm_of_lt {k k' : String} (h : compare k k' = .lt) (v v' : Json)
    (ms : List (String × Json)) :
    insertMember k v (insertMember k' v' ms) = insertMember k' v' (insertMember k v ms) := by
  have hgt : compare k' k = .gt := Std.OrientedCmp.gt_iff_lt.2 h
  induction ms with
  | nil => simp [insertMember, h, hgt]
  | cons m ms ih =>
    obtain ⟨a, b⟩ := m
    cases ha' : compare k' a with
    | lt =>
      have ha : compare k a = .lt := Std.TransCmp.lt_trans h ha'
      simp [insertMember, h, hgt, ha, ha']
    | eq =>
      obtain rfl := Std.compare_eq_iff_eq.1 ha'
      simp [insertMember, h, hgt]
    | gt =>
      cases ha : compare k a with
      | lt => simp [insertMember, hgt, ha, ha']
      | eq => simp [insertMember, ha, ha']
      | gt => simp [insertMember, ha, ha', ih]

/-- Members with different keys come to stand in the same places, whichever comes first. -/
theorem insertMember_comm {k k' : String} (hne : k ≠ k') (v v' : Json)
    (ms : List (String × Json)) :
    insertMember k v (insertMember k' v' ms) = insertMember k' v' (insertMember k v ms) := by
  cases h : compare k k' with
  | lt => exact insertMember_comm_of_lt h v v' ms
  | eq => exact absurd (Std.compare_eq_iff_eq.1 h) hne
  | gt => exact (insertMember_comm_of_lt (Std.OrientedCmp.gt_iff_lt.1 h) v' v ms).symm

theorem canonicalMembers_append (ms ms' : List (String × Json)) :
    canonicalMembers (ms ++ ms') =
      ms.foldr (fun m => insertMember m.1 m.2.canonical) (canonicalMembers ms') := by
  induction ms with
  | nil => rfl
  | cons m ms ih =>
    obtain ⟨k, j⟩ := m
    rw [List.cons_append, canonicalMembers, ih]
    rfl

theorem canonicalItems_append (js js' : List Json) :
    canonicalItems (js ++ js') = canonicalItems js ++ canonicalItems js' := by
  induction js with
  | nil => rfl
  | cons j js ih => rw [List.cons_append, canonicalItems, ih, canonicalItems, List.cons_append]

theorem canonicalMembers_perm {ms ms' : List (String × Json)} (h : ms.Perm ms')
    (hkeys : (ms.map Prod.fst).Nodup) : canonicalMembers ms = canonicalMembers ms' := by
  induction h with
  | nil => rfl
  | cons m _ ih =>
    obtain ⟨k, j⟩ := m
    rw [canonicalMembers, canonicalMembers, ih (List.nodup_cons.1 hkeys).2]
  | swap m m' ms =>
    obtain ⟨k, j⟩ := m
    obtain ⟨k', j'⟩ := m'
    have hne : k' ≠ k := by
      rintro rfl
      simp at hkeys
    simp only [canonicalMembers]
    exact insertMember_comm hne _ _ _
  | trans h _ ih ih' => exact (ih hkeys).trans (ih' ((h.map Prod.fst).nodup_iff.1 hkeys))

theorem Reordered.canonical {j j' : Json} (h : Reordered j j') : j.canonical = j'.canonical := by
  induction h with
  | refl j => rfl
  | trans _ _ ih ih' => exact ih.trans ih'
  | perm h hkeys => exact congrArg Json.object (canonicalMembers_perm h hkeys)
  | item before after _ ih =>
    simp only [Json.canonical, canonicalItems_append, canonicalItems, ih]
  | member before key after _ ih =>
    simp only [Json.canonical, canonicalMembers_append, canonicalMembers, ih]

theorem allReadable_eq_all (js : List Json) : allReadable js = js.all readable := by
  induction js with
  | nil => rfl
  | cons j js ih => rw [allReadable, ih, List.all_cons]

theorem membersReadable_eq_all (ms : List (String × Json)) :
    membersReadable ms = ms.all (·.2.readable) := by
  induction ms with
  | nil => rfl
  | cons m ms ih =>
    obtain ⟨k, j⟩ := m
    rw [membersReadable, ih, List.all_cons]

theorem Reordered.readable {j j' : Json} (h : Reordered j j') : j.readable = j'.readable := by
  induction h with
  | refl j => rfl
  | trans _ _ ih ih' => exact ih.trans ih'
  | perm h _ => simp only [Json.readable, membersReadable_eq_all, h.all_eq]
  | item before after _ ih =>
    simp only [Json.readable, allReadable_eq_all, List.all_append, List.all_cons, ih]
  | member before key after _ ih =>
    simp only [Json.readable, membersReadable_eq_all, List.all_append, List.all_cons, ih]

theorem Reordered.eq_null {j j' : Json} (h : Reordered j j') : j = .null ↔ j' = .null := by
  induction h with
  | refl j => rfl
  | trans _ _ ih ih' => exact ih.trans ih'
  | perm _ _ | item _ _ _ _ | member _ _ _ _ _ => exact ⟨nofun, nofun⟩

/-! ### What fields find -/

/-- Under every key there is the same, up to the order of members inside. -/
def AlikeMembers (ms ms' : List (String × Json)) : Prop :=
  ∀ key, List.Forall₂ Reordered (valuesOf key ms) (valuesOf key ms')

theorem forall₂_reordered_refl (js : List Json) : List.Forall₂ Reordered js js :=
  List.forall₂_same.2 fun j _ => .refl j

theorem valuesOf_perm {ms ms' : List (String × Json)} (h : ms.Perm ms')
    (hkeys : (ms.map Prod.fst).Nodup) (key : String) : valuesOf key ms = valuesOf key ms' := by
  induction h with
  | nil => rfl
  | cons m _ ih =>
    obtain ⟨k, j⟩ := m
    rw [valuesOf_cons, valuesOf_cons, ih (List.nodup_cons.1 hkeys).2]
  | swap m m' ms =>
    obtain ⟨k, j⟩ := m
    obtain ⟨k', j'⟩ := m'
    have hne : k' ≠ k := by
      rintro rfl
      simp at hkeys
    simp only [valuesOf_cons]
    by_cases hk : k = key
    · subst hk
      rw [if_neg hne, if_neg hne]
    · rw [if_neg hk, if_neg hk]
  | trans h _ ih ih' => exact (ih hkeys).trans (ih' ((h.map Prod.fst).nodup_iff.1 hkeys))

theorem alikeMembers_perm {ms ms' : List (String × Json)} (h : ms.Perm ms')
    (hkeys : (ms.map Prod.fst).Nodup) : AlikeMembers ms ms' := by
  intro key
  rw [valuesOf_perm h hkeys key]
  exact forall₂_reordered_refl _

theorem alikeMembers_member {j j' : Json} (before : List (String × Json)) (key : String)
    (after : List (String × Json)) (h : Reordered j j') :
    AlikeMembers (before ++ (key, j) :: after) (before ++ (key, j') :: after) := by
  intro key'
  rw [valuesOf_append, valuesOf_append, valuesOf_cons, valuesOf_cons]
  refine List.rel_append (forall₂_reordered_refl _) ?_
  split
  · exact .cons h (forall₂_reordered_refl _)
  · exact forall₂_reordered_refl _

/-! ### Decoders -/

section Decoders

variable {α β γ : Type} {αs : List Type}

/-- A decoder does not care about the order of members, as far as can be seen of what it finds. -/
def Indifferent (view : α → β) (d : Decoder α) : Prop :=
  ∀ j j', Reordered j j' → (d j).toOption.map view = (d j').toOption.map view

/-- A record all of whose decoders do not care. -/
inductive Fields.Indifferent : {αs : List Type} → {γ : Type} → Fields αs → (Values αs → γ) → Prop
  | nil : Indifferent .nil id
  | cons {α β γ : Type} {αs : List Type} {field : Field α} {fields : Fields αs} {view : α → β}
    {views : Values αs → γ} (h : Json.Indifferent view field.decode)
    (hs : Indifferent fields views) :
    Indifferent (.cons field fields) fun values => (view values.1, views values.2)

theorem Indifferent.of_steps {view : α → β} {d : Decoder α}
    (hperm : ∀ ms ms', ms.Perm ms' → (ms.map Prod.fst).Nodup →
      (d (.object ms)).toOption.map view = (d (.object ms')).toOption.map view)
    (hitem : ∀ before after j j', Reordered j j' →
      (d (.array (before ++ j :: after))).toOption.map view =
        (d (.array (before ++ j' :: after))).toOption.map view)
    (hmember : ∀ before key after j j', Reordered j j' →
      (d (.object (before ++ (key, j) :: after))).toOption.map view =
        (d (.object (before ++ (key, j') :: after))).toOption.map view) :
    Indifferent view d := by
  intro j j' h
  induction h with
  | refl j => rfl
  | trans _ _ ih ih' => exact ih.trans ih'
  | perm h hkeys => exact hperm _ _ h hkeys
  | item before after h => exact hitem before after _ _ h
  | member before key after h => exact hmember before key after _ _ h

/-- Decoders that find nothing in containers do not care about what is in them. -/
theorem Indifferent.of_plain {view : α → β} {d : Decoder α}
    (hobject : ∀ ms, (d (.object ms)).toOption = none)
    (harray : ∀ js, (d (.array js)).toOption = none) : Indifferent view d :=
  .of_steps (fun _ _ _ _ => by rw [hobject, hobject]) (fun _ _ _ _ _ => by rw [harray, harray])
    fun _ _ _ _ _ _ => by rw [hobject, hobject]

theorem Indifferent.option {view : α → β} {d : Decoder α} (h : Indifferent view d) :
    Indifferent (Option.map view) d.option := by
  intro j j' hreordered
  have hsome (j : Json) : ((d j).map some).toOption.map (Option.map view) =
      ((d j).toOption.map view).map some := by
    cases d j <;> rfl
  by_cases hnull : j = .null
  · rw [hnull, hreordered.eq_null.1 hnull]
  · rw [option_of_ne_null hnull, option_of_ne_null (mt hreordered.eq_null.2 hnull), hsome, hsome,
      h j j' hreordered]

theorem toOption_mapM_cons (view : α → β) (d : Decoder α) (j : Json) (js : List Json) :
    ((j :: js).mapM d).toOption.map (List.map view) =
      ((d j).toOption.map view).bind fun a =>
        ((js.mapM d).toOption.map (List.map view)).map (a :: ·) := by
  rw [List.mapM_cons]
  cases d j with
  | error fault => rfl
  | ok a => cases js.mapM d <;> rfl

theorem Indifferent.list {view : α → β} {d : Decoder α} (h : Indifferent view d) :
    Indifferent (List.map view) d.list := by
  refine .of_steps (fun _ _ _ _ => rfl) ?_ fun _ _ _ _ _ _ => rfl
  intro before after j j' hreordered
  change ((before ++ j :: after).mapM d).toOption.map _ =
    ((before ++ j' :: after).mapM d).toOption.map _
  induction before with
  | nil =>
    rw [List.nil_append, List.nil_append, toOption_mapM_cons, toOption_mapM_cons,
      h j j' hreordered]
  | cons i before ih =>
    rw [List.cons_append, List.cons_append, toOption_mapM_cons, toOption_mapM_cons, ih]

namespace Fields

theorem fill_reordered {view : α → β} {field : Field α} (h : Json.Indifferent view field.decode)
    {js js' : List Json} (hjs : List.Forall₂ Reordered js js') :
    (field.fill none js).map (Option.map view) = (field.fill none js').map (Option.map view) := by
  cases hjs with
  | nil => rfl
  | @cons j j' js js' hfirst hrest =>
    have hdecode := h j j' hfirst
    unfold Field.fill
    cases hrest with
    | nil =>
      have hone (o : Option α) : (o.bind fun a => field.fill (some a) []).map (Option.map view) =
          (o.map view).map some := by
        cases o <;> rfl
      rw [hone, hone, hdecode]
    | cons _ _ =>
      -- A field that is there twice is refused, whatever its values are.
      have hmany (o : Option α) (i : Json) (is : List Json) :
          (o.bind fun a => field.fill (some a) (i :: is)) = none := by
        cases o <;> rfl
      rw [hmany, hmany]

theorem replace_congr {view : α → β} (absence : Absence α) {slot slot' : Option α}
    (h : slot.map view = slot'.map view) :
    (absence.replace slot).map view = (absence.replace slot').map view := by
  cases slot with
  | none =>
    cases slot' with
    | none => rfl
    | some a' => cases h
  | some a =>
    cases slot' with
    | none => cases h
    | some a' => exact h

/-- The first field and the others, as far as can be seen of them. -/
theorem map_pair (view : α → β) (views : Values αs → γ) (first : Option α)
    (rest : Option (Values αs)) :
    (first.bind fun a => rest.map fun values => (a, values)).map
        (fun values : Values (α :: αs) => (view values.1, views values.2)) =
      (first.map view).bind fun b => (rest.map views).map fun c => (b, c) := by
  cases first <;> cases rest <;> rfl

theorem gather_reordered {fields : Fields αs} {views : Values αs → γ}
    (h : fields.Indifferent views) {ms ms' : List (String × Json)} (hms : AlikeMembers ms ms') :
    (fields.gather ms).map views = (fields.gather ms').map views := by
  induction h with
  | nil => rfl
  | @cons α β γ αs field fields view views hfield _ ih =>
    have hslot := fill_reordered hfield (hms field.name)
    have hfirst : (field.value? ms).map view = (field.value? ms').map view := by
      unfold Field.value?
      generalize field.fill none (valuesOf field.name ms) = o at hslot
      generalize field.fill none (valuesOf field.name ms') = o' at hslot
      cases o with
      | none =>
        cases o' with
        | none => rfl
        | some slot' => cases hslot
      | some slot =>
        cases o' with
        | none => cases hslot
        | some slot' => exact replace_congr field.absence (Option.some.inj hslot)
    have hgather (ms : List (String × Json)) : (cons field fields).gather ms =
        (field.value? ms).bind fun a => (fields.gather ms).map fun values => (a, values) := rfl
    rw [hgather, hgather, map_pair, map_pair, hfirst, ih]

theorem ofItems_reordered {fields : Fields αs} {views : Values αs → γ}
    (h : fields.Indifferent views) (before after : List Json) {j j' : Json}
    (hreordered : Reordered j j') :
    (fields.ofItems (before ++ j :: after)).toOption.map views =
      (fields.ofItems (before ++ j' :: after)).toOption.map views := by
  induction h generalizing before with
  | nil => cases before <;> rfl
  | @cons α β γ αs field fields view views hfield _ ih =>
    have hitems (i : Json) (is : List Json) : ((cons field fields).ofItems (i :: is)).toOption =
        (field.decode i).toOption.bind fun a =>
          (fields.ofItems is).toOption.map fun values => (a, values) := by
      rw [ofItems]
      cases field.decode i with
      | error fault => rfl
      | ok a => cases fields.ofItems is <;> rfl
    cases before with
    | nil =>
      rw [List.nil_append, List.nil_append, hitems, hitems, map_pair, map_pair,
        hfield j j' hreordered]
    | cons i before =>
      rw [List.cons_append, List.cons_append, hitems, hitems, map_pair, map_pair, ih]

theorem ofMembers?_reordered {fields : Fields αs} {views : Values αs → γ}
    (h : fields.Indifferent views) (hnames : fields.names.Nodup) {ms ms' : List (String × Json)}
    (hms : AlikeMembers ms ms') :
    (fields.ofMembers? ms).map views = (fields.ofMembers? ms').map views := by
  have hkeys (key : String) : key ∈ ms.map Prod.fst ↔ key ∈ ms'.map Prod.fst := by
    rw [mem_keys_iff, mem_keys_iff]
    have halike := hms key
    generalize valuesOf key ms = js at halike
    generalize valuesOf key ms' = js' at halike
    cases halike <;> simp
  have hadmits : fields.Admits ms ↔ fields.Admits ms' := by simp only [Admits, hkeys]
  have hgather := gather_reordered h hms
  have hviews (ms : List (String × Json)) (w : γ) : (fields.ofMembers? ms).map views = some w ↔
      fields.Admits ms ∧ (fields.gather ms).map views = some w := by
    simp only [Option.map_eq_some_iff, ofMembers?_eq_some_iff fields hnames, and_assoc,
      exists_and_left]
  ext w
  rw [hviews, hviews, hadmits, hgather]

end Fields

theorem Indifferent.record {fields : Fields αs} {views : Values αs → γ}
    (h : fields.Indifferent views) (hnames : fields.names.Nodup) {build : Values αs → α}
    {view : α → β} (hbuild : ∀ values values', views values = views values' →
      view (build values) = view (build values')) :
    Indifferent view (Decoder.record true fields build) := by
  have hbuilt (o o' : Option (Values αs)) (hsame : o.map views = o'.map views) :
      (o.map build).map view = (o'.map build).map view := by
    cases o with
    | none =>
      cases o' with
      | none => rfl
      | some values' => cases hsame
    | some values =>
      cases o' with
      | none => cases hsame
      | some values' => exact congrArg some (hbuild values values' (Option.some.inj hsame))
  have hobject {ms ms' : List (String × Json)} (hms : AlikeMembers ms ms') :
      (Decoder.record true fields build (.object ms)).toOption.map view =
        (Decoder.record true fields build (.object ms')).toOption.map view := by
    rw [record_object, record_object]
    exact hbuilt _ _ (Fields.ofMembers?_reordered h hnames hms)
  refine .of_steps (fun ms ms' hperm hkeys => hobject (alikeMembers_perm hperm hkeys)) ?_
    fun before key after j j' hreordered =>
      hobject (alikeMembers_member before key after hreordered)
  intro before after j j' hreordered
  have harray (js : List Json) : (Decoder.record true fields build (.array js)).toOption =
      (fields.ofItems js).toOption.map build := by
    change ((fields.ofItems js).map build).toOption = _
    cases fields.ofItems js <;> rfl
  rw [harray, harray]
  exact hbuilt _ _ (Fields.ofItems_reordered h before after hreordered)

/-! What is seen in full is told by the same rules. -/

theorem Indifferent.option_id {d : Decoder α} (h : Indifferent id d) : Indifferent id d.option := by
  have hoption := h.option
  rwa [Option.map_id] at hoption

theorem Indifferent.list_id {d : Decoder α} (h : Indifferent id d) : Indifferent id d.list := by
  have hlist := h.list
  rwa [List.map_id_fun] at hlist

theorem Fields.Indifferent.cons_id {field : Field α} {fields : Fields αs}
    (h : Json.Indifferent id field.decode) (hs : fields.Indifferent id) :
    (Fields.cons field fields).Indifferent id := .cons h hs

theorem Indifferent.record_id {fields : Fields αs} (h : fields.Indifferent id)
    (hnames : fields.names.Nodup) {build : Values αs → α} :
    Indifferent id (Decoder.record true fields build) :=
  .record h hnames fun _ _ hsame => congrArg build hsame

end Decoders

end Scenario.Json
