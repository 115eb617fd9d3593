import Scenario.Json.Content
import Scenario.Proofs.Codecs

/-!
What records make of their members. Each field looks for what stands under its name, so that a
record depends on its members through the values for each of its fields, and through members that
are none.
-/

namespace Scenario.Json

/-- What stands under a key. -/
def valuesOf (key : String) (ms : List (String × Json)) : List Json :=
  ms.filterMap fun m => if m.1 = key then some m.2 else none

def withoutKey (key : String) (ms : List (String × Json)) : List (String × Json) :=
  ms.filter (·.1 ≠ key)

theorem valuesOf_cons (key key' : String) (j : Json) (ms : List (String × Json)) :
    valuesOf key ((key', j) :: ms) =
      if key' = key then j :: valuesOf key ms else valuesOf key ms := by
  unfold valuesOf
  rw [List.filterMap_cons]
  split <;> simp_all

theorem valuesOf_append (key : String) (ms ms' : List (String × Json)) :
    valuesOf key (ms ++ ms') = valuesOf key ms ++ valuesOf key ms' := List.filterMap_append

theorem valuesOf_of_ne {key key' : String} (hne : key' ≠ key) (before : List (String × Json))
    (j : Json) (after : List (String × Json)) :
    valuesOf key (before ++ (key', j) :: after) = valuesOf key (before ++ after) := by
  rw [valuesOf_append, valuesOf_cons, if_neg hne, valuesOf_append]

theorem mem_keys_iff (key : String) (ms : List (String × Json)) :
    key ∈ ms.map Prod.fst ↔ valuesOf key ms ≠ [] := by
  induction ms with
  | nil => simp [valuesOf]
  | cons m ms ih =>
    obtain ⟨k, j⟩ := m
    rw [List.map_cons, List.mem_cons, ih, valuesOf_cons]
    by_cases hkey : k = key
    · simp [hkey]
    · simp [hkey, Ne.symm hkey]

theorem withoutKey_cons (key key' : String) (j : Json) (ms : List (String × Json)) :
    withoutKey key ((key', j) :: ms) =
      if key' = key then withoutKey key ms else (key', j) :: withoutKey key ms := by
  simp [withoutKey, List.filter_cons]

theorem valuesOf_withoutKey {key key' : String} (h : key ≠ key') (ms : List (String × Json)) :
    valuesOf key (withoutKey key' ms) = valuesOf key ms := by
  induction ms with
  | nil => rfl
  | cons m ms ih =>
    obtain ⟨k, j⟩ := m
    rw [withoutKey_cons, valuesOf_cons]
    by_cases hk : k = key'
    · subst hk
      rw [if_pos rfl, if_neg (Ne.symm h), ih]
    · rw [if_neg hk, valuesOf_cons, ih]

theorem mem_keys_withoutKey {key key' : String} {ms : List (String × Json)} :
    key ∈ (withoutKey key' ms).map Prod.fst ↔ key ∈ ms.map Prod.fst ∧ key ≠ key' := by
  simp [withoutKey]

section Records

variable {α : Type} {αs : List Type}

/-- Fills a slot with values, one after the other. -/
def Field.fill (field : Field α) : Option α → List Json → Option (Option α)
  | slot, [] => some slot
  | none, j :: js => (field.decode j).toOption.bind fun a => field.fill (some a) js
  | some _, _ :: _ => none

/-- What a field of an object has in the end. -/
def Absence.replace : Absence α → Option α → Option α
  | _, some a => some a
  | .inObjects a, none | .anywhere a, none => some a
  | .refused, none => none

/-- The value of a field, from what stands under its name. -/
def Field.value? (field : Field α) (ms : List (String × Json)) : Option α :=
  (field.fill none (valuesOf field.name ms)).bind field.absence.replace

namespace Fields

/-- The values of all fields. -/
def gather : {αs : List Type} → Fields αs → List (String × Json) → Option (Values αs)
  | _, .nil, _ => some ()
  | _, .cons field fields, ms =>
    (field.value? ms).bind fun a => (fields.gather ms).map fun values => (a, values)

theorem visitAll_field (strict : Bool) (field : Field α) (fields : Fields αs)
    (ms : List (String × Json)) (slot : Option α) (slots : Slots αs) :
    ((cons field fields).visitAll strict ms (slot, slots)).toOption =
      (field.fill slot (valuesOf field.name ms)).bind fun slot =>
        (fields.visitAll strict (withoutKey field.name ms) slots).toOption.map fun slots =>
          (slot, slots) := by
  -- The slots are general because every member fills one of them, on either side.
  induction ms generalizing slot slots with
  | nil => rfl
  | cons m ms ih =>
    obtain ⟨key, j⟩ := m
    rw [valuesOf_cons, withoutKey_cons]
    refine (congrArg Except.toOption (visitAll_cons strict key j _)).trans ?_
    by_cases hkey : field.name = key
    · subst hkey
      rw [if_pos rfl, if_pos rfl]
      cases slot with
      | some a =>
        have hvisit : (cons field fields).visit field.name j (some a, slots) =
            .error (.duplicateField field.name) := if_pos rfl
        rw [hvisit]
        rfl
      | none =>
        cases hdecode : field.decode j with
        | error fault =>
          have hvisit : (cons field fields).visit field.name j (none, slots) = .error fault := by
            refine (if_pos rfl).trans ?_
            rw [hdecode]
            rfl
          rw [hvisit, Field.fill, hdecode]
          rfl
        | ok a =>
          rw [visit_name hdecode, Field.fill, hdecode]
          exact ih (some a) slots
    · rw [visit_of_ne hkey, if_neg (Ne.symm hkey), if_neg (Ne.symm hkey), visitAll_cons]
      rcases fields.visit key j slots with fault | (_ | slots')
      · cases field.fill slot (valuesOf field.name ms) <;> rfl
      · cases strict with
        | true => cases field.fill slot (valuesOf field.name ms) <;> rfl
        | false => exact ih slot slots
      · exact ih slot slots'

theorem finish_toOption_cons (field : Field α) (fields : Fields αs) (slot : Option α)
    (slots : Slots αs) :
    ((cons field fields).finish (slot, slots)).toOption =
      (field.absence.replace slot).bind fun a =>
        (fields.finish slots).toOption.map fun values => (a, values) := by
  have hfilled (a : α) : ((fields.finish slots).bind fun values => .ok (a, values)).toOption =
      (fields.finish slots).toOption.map fun values => (a, values) := by
    cases fields.finish slots <;> rfl
  cases slot with
  | some a => exact hfilled a
  | none =>
    obtain ⟨name, absence, decode⟩ := field
    cases absence with
    | refused => rfl
    | inObjects a | anywhere a => exact hfilled a

theorem gather_withoutKey (fields : Fields αs) {key : String} (h : key ∉ fields.names)
    (ms : List (String × Json)) : fields.gather (withoutKey key ms) = fields.gather ms := by
  induction fields with
  | nil => rfl
  | cons field fields ih =>
    rw [names, List.mem_cons, not_or] at h
    rw [gather, gather, Field.value?, Field.value?, ih h.2, valuesOf_withoutKey (Ne.symm h.1)]

/-- Strict records have no members but their fields. -/
def Admits (fields : Fields αs) (ms : List (String × Json)) : Prop :=
  ∀ key ∈ ms.map Prod.fst, key ∈ fields.names

theorem admits_cons (field : Field α) (fields : Fields αs) (ms : List (String × Json)) :
    (cons field fields).Admits ms ↔ fields.Admits (withoutKey field.name ms) := by
  simp only [Admits, mem_keys_withoutKey, names, List.mem_cons]
  refine forall_congr' fun key => ?_
  by_cases hkey : key = field.name <;> simp [hkey]

/-- What a strict record makes of members that it visits in turn. -/
def ofMembers? (fields : Fields αs) (ms : List (String × Json)) : Option (Values αs) :=
  (fields.visitAll true ms (.empty αs)).toOption.bind fun slots => (fields.finish slots).toOption

theorem ofMembers?_cons (field : Field α) (fields : Fields αs) (ms : List (String × Json)) :
    (cons field fields).ofMembers? ms =
      (field.value? ms).bind fun a =>
        (fields.ofMembers? (withoutKey field.name ms)).map fun values => (a, values) := by
  unfold ofMembers? Field.value?
  rw [Slots.empty, visitAll_field]
  cases field.fill none (valuesOf field.name ms) with
  | none => rfl
  | some slot =>
    cases (fields.visitAll true (withoutKey field.name ms) (.empty αs)).toOption with
    | none =>
      dsimp only [Option.bind_some, Option.map_none, Option.bind_none]
      cases field.absence.replace slot <;> rfl
    | some slots => exact finish_toOption_cons field fields slot slots

theorem gather_eq_some {field : Field α} {fields : Fields αs} {ms : List (String × Json)}
    {values : Values (α :: αs)} (h : (cons field fields).gather ms = some values) :
    field.value? ms = some values.1 ∧ fields.gather ms = some values.2 := by
  obtain ⟨a, ha, h⟩ := Option.bind_eq_some_iff.1 h
  obtain ⟨rest, hrest, h⟩ := Option.map_eq_some_iff.1 h
  cases h
  exact ⟨ha, hrest⟩

theorem ofMembers?_eq_some_iff (fields : Fields αs) (hnames : fields.names.Nodup)
    (ms : List (String × Json)) (values : Values αs) :
    fields.ofMembers? ms = some values ↔ fields.Admits ms ∧ fields.gather ms = some values := by
  induction fields generalizing ms with
  | nil =>
    cases ms with
    | nil => exact ⟨fun h => ⟨List.forall_mem_nil _, h⟩, fun h => h.2⟩
    | cons m ms => exact ⟨nofun, fun h => nomatch h.1 m.1 List.mem_cons_self⟩
  | @cons α αs field fields ih =>
    obtain ⟨hfresh, hnames⟩ := List.nodup_cons.1 hnames
    obtain ⟨a, values⟩ := values
    have hrest (values : Values αs) : fields.ofMembers? (withoutKey field.name ms) = some values ↔
        (cons field fields).Admits ms ∧ fields.gather ms = some values := by
      rw [ih hnames, gather_withoutKey fields hfresh, admits_cons]
    rw [ofMembers?_cons]
    constructor
    · intro h
      obtain ⟨b, hb, h⟩ := Option.bind_eq_some_iff.1 h
      obtain ⟨values', hvalues', hpair⟩ := Option.map_eq_some_iff.1 h
      cases hpair
      obtain ⟨hadmits, hgather⟩ := (hrest values).1 hvalues'
      refine ⟨hadmits, ?_⟩
      rw [gather, hb, hgather]
      rfl
    · rintro ⟨hadmits, h⟩
      obtain ⟨ha, hgather⟩ := gather_eq_some h
      rw [ha, (hrest values).2 ⟨hadmits, hgather⟩]
      rfl

end Fields

theorem Field.fill_eq_some {field : Field α} {js : List Json} {slot : Option α}
    (h : field.fill none js = some slot) :
    (js = [] ∧ slot = none) ∨ ∃ j a, js = [j] ∧ field.decode j = .ok a ∧ slot = some a := by
  match js with
  | [] => exact .inl ⟨rfl, (Option.some.inj h).symm⟩
  | j :: js =>
    obtain ⟨a, ha, h⟩ := Option.bind_eq_some_iff.1 h
    cases hdecode : field.decode j with
    | error fault =>
      rw [hdecode] at ha
      cases ha
    | ok b =>
      rw [hdecode] at ha
      cases ha
      match js with
      | [] => exact .inr ⟨j, a, rfl, hdecode, (Option.some.inj h).symm⟩
      | _ :: _ => cases h

/-- A field of a record has its value from the only one under its name, or from none. -/
theorem Field.value?_eq_some {field : Field α} {ms : List (String × Json)} {a : α}
    (h : field.value? ms = some a) :
    (valuesOf field.name ms = [] ∧ field.absence.replace none = some a) ∨
      ∃ j, valuesOf field.name ms = [j] ∧ field.decode j = .ok a := by
  obtain ⟨slot, hslot, ha⟩ := Option.bind_eq_some_iff.1 h
  obtain ⟨hnone, rfl⟩ | ⟨j, b, hone, hdecode, rfl⟩ := Field.fill_eq_some hslot
  · exact .inl ⟨hnone, ha⟩
  · cases ha
    exact .inr ⟨j, hone, hdecode⟩

theorem lookup_eq_head?_valuesOf (key : String) (ms : List (String × Json)) :
    ms.lookup key = (valuesOf key ms).head? := by
  induction ms with
  | nil => rfl
  | cons m ms ih =>
    obtain ⟨k, j⟩ := m
    rw [List.lookup_cons, valuesOf_cons]
    by_cases hkey : k = key
    · subst hkey
      simp
    · rw [if_neg hkey, beq_false_of_ne (Ne.symm hkey)]
      exact ih

theorem record_object (fields : Fields αs) (build : Values αs → α) (ms : List (String × Json)) :
    (Decoder.record true fields build (.object ms)).toOption =
      (fields.ofMembers? ms).map build := by
  change (Except.bind (fields.visitAll true ms (.empty αs)) fun slots =>
    Except.bind (fields.finish slots) fun values => .ok (build values)).toOption = _
  unfold Fields.ofMembers?
  cases fields.visitAll true ms (.empty αs) with
  | error fault => rfl
  | ok slots =>
    change (Except.bind (fields.finish slots) fun values => .ok (build values)).toOption =
      ((fields.finish slots).toOption).map build
    cases fields.finish slots <;> rfl

/-- Strict records are found in objects that have their fields, each once, and nothing else. -/
theorem record_object_eq_ok {fields : Fields αs} {build : Values αs → α}
    {ms : List (String × Json)} {a : α}
    (h : Decoder.record true fields build (.object ms) = .ok a) (hnames : fields.names.Nodup) :
    ∃ values, fields.Admits ms ∧ fields.gather ms = some values ∧ build values = a := by
  have hoption := record_object fields build ms
  rw [h] at hoption
  obtain ⟨values, hvalues, hbuild⟩ := Option.map_eq_some_iff.1 hoption.symm
  obtain ⟨hadmits, hgather⟩ := (fields.ofMembers?_eq_some_iff hnames ms values).1 hvalues
  exact ⟨values, hadmits, hgather, hbuild⟩

theorem record_array_eq_ok {fields : Fields αs} {build : Values αs → α} {js : List Json} {a : α}
    (h : Decoder.record true fields build (.array js) = .ok a) :
    ∃ values, fields.ofItems js = .ok values ∧ build values = a := by
  change (fields.ofItems js).map build = .ok a at h
  cases hitems : fields.ofItems js with
  | error fault =>
    rw [hitems] at h
    cases h
  | ok values =>
    rw [hitems] at h
    exact ⟨values, rfl, Except.ok.inj h⟩

theorem option_of_ne_null {d : Decoder α} {j : Json} (h : j ≠ .null) :
    d.option j = (d j).map some := by
  cases j with
  | null => exact absurd rfl h
  | _ => rfl

end Records

end Scenario.Json
