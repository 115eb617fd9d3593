import Scenario.Proofs.Loading
import Scenario.Proofs.Reordering

/-!
Loading does not depend on the order of keys. No decoder of content cares about the order of
members, and events are sorted before they are decoded.
-/

namespace Scenario

namespace Json

section Leaves

theorem indifferent_string : Indifferent id Decoder.string := .of_plain (fun _ => rfl) fun _ => rfl

theorem indifferent_anyNumber : Indifferent id Decoder.anyNumber :=
  .of_plain (fun _ => rfl) fun _ => rfl

theorem indifferent_source : Indifferent id Decoder.source := .of_plain (fun _ => rfl) fun _ => rfl

theorem indifferent_u32 : Indifferent id Decoder.u32 := .of_plain (fun _ => rfl) fun _ => rfl

/-- Values are taken over as they are, so that all that can be seen of them is their sorted form. -/
theorem indifferent_value : Indifferent Json.canonical Decoder.value := by
  intro j j' h
  unfold Decoder.value
  rw [← h.readable]
  cases j.readable with
  | true => exact congrArg some h.canonical
  | false => rfl

/-- A name is a string or the only key of an object. -/
theorem indifferent_name {α : Type} (names : List (String × α)) :
    Indifferent id (Decoder.name names) := by
  have hmany (m m' : String × Json) (ms : List (String × Json)) :
      (Decoder.name names (.object (m :: m' :: ms))).toOption = none := by
    obtain ⟨key, j⟩ := m
    unfold Decoder.name
    dsimp only
    cases names.lookup key with
    | none => rfl
    | some a => cases j <;> rfl
  refine .of_steps ?_ (fun _ _ _ _ _ => rfl) ?_
  · intro ms ms' hperm _
    match ms, ms' with
    | [], ms' => rw [List.nil_perm.1 hperm]
    | [m], ms' => rw [List.singleton_perm.1 hperm]
    | m :: m' :: ms, [] => simpa using hperm.length_eq
    | m :: m' :: ms, [m''] => simpa using hperm.length_eq
    | m :: m' :: ms, m₁ :: m₂ :: ms' => rw [hmany, hmany]
  · intro before key after j j' h
    match before, after with
    | [], [] =>
      by_cases hnull : j = .null
      · rw [hnull, h.eq_null.1 hnull]
      · have hother (j : Json) (hj : j ≠ .null) :
            (Decoder.name names (.object [(key, j)])).toOption = none := by
          unfold Decoder.name
          dsimp only
          cases names.lookup key with
          | none => rfl
          | some a =>
            cases j with
            | null => exact absurd rfl hj
            | _ => rfl
        rw [List.nil_append, List.nil_append, hother j hnull, hother j' (mt h.eq_null.2 hnull)]
    | [], m :: ms => rw [List.nil_append, List.nil_append, hmany, hmany]
    | [m], ms => rw [List.singleton_append, List.singleton_append, hmany, hmany]
    | m :: m' :: ms, _ =>
      simp only [List.cons_append]
      rw [hmany, hmany]

theorem savedVariable_array {js js' : List Json}
    (h : List.Forall₂ (fun j j' => (Decoder.anyNumber j).toOption = (Decoder.anyNumber j').toOption)
      js js') :
    (Decoder.savedVariable (.array js)).toOption =
      (Decoder.savedVariable (.array js')).toOption := by
  have hthree (x min max : Json) : (Decoder.savedVariable (.array [x, min, max])).toOption =
      (Decoder.anyNumber x).toOption.bind fun x => (Decoder.anyNumber min).toOption.bind fun min =>
        (Decoder.anyNumber max).toOption.map fun max => .bounded x min max := by
    rw [Decoder.savedVariable]
    cases Decoder.anyNumber x with
    | error fault => rfl
    | ok x =>
      cases Decoder.anyNumber min with
      | error fault => rfl
      | ok min => cases Decoder.anyNumber max <;> rfl
  cases h with
  | nil => rfl
  | cons hx h =>
    cases h with
    | nil => rfl
    | cons hmin h =>
      cases h with
      | nil => rfl
      | cons hmax h =>
        cases h with
        | nil => rw [hthree, hthree, hx, hmin, hmax]
        | cons _ _ => rfl

theorem indifferent_savedVariable : Indifferent id Decoder.savedVariable := by
  refine .of_steps (fun _ _ _ _ => rfl) ?_ fun _ _ _ _ _ _ => rfl
  intro before after j j' h
  refine congrArg (Option.map id) (savedVariable_array (List.rel_append ?_ (.cons ?_ ?_)))
  · exact List.forall₂_same.2 fun _ _ => rfl
  · simpa using indifferent_anyNumber j j' h
  · exact List.forall₂_same.2 fun _ _ => rfl

/-- A variable that is put into a table under its id. -/
def putVariable (t : Std.ExtTreeMap String SavedVariable) (m : String × Json) :
    Option (Std.ExtTreeMap String SavedVariable) :=
  (Decoder.savedVariable m.2).toOption.map (t.insert m.1)

theorem members_cons {α : Type} (d : Decoder α) (key : String) (j : Json)
    (ms : List (String × Json)) :
    Decoder.members d (.object ((key, j) :: ms)) =
      (d j).bind fun a =>
        (Decoder.members d (.object ms)).map fun entries => (key, a) :: entries := by
  unfold Decoder.members
  dsimp only
  rw [List.mapM_cons]
  cases d j with
  | error fault => rfl
  | ok a =>
    cases ms.mapM fun (m : String × Json) => do return (m.1, ← d m.2) <;> rfl

theorem savedVariables_object (ms : List (String × Json)) :
    (Decoder.savedVariables (.object ms)).toOption = ms.foldlM putVariable ∅ := by
  have hfrom (t : Std.ExtTreeMap String SavedVariable) :
      ((Decoder.members Decoder.savedVariable (.object ms)).map fun entries =>
        entries.foldl (fun vs entry => vs.insert entry.1 entry.2) t).toOption =
          ms.foldlM putVariable t := by
    induction ms generalizing t with
    | nil => rfl
    | cons m ms ih =>
      obtain ⟨key, j⟩ := m
      rw [members_cons, List.foldlM_cons]
      unfold putVariable
      dsimp only
      cases Decoder.savedVariable j with
      | error fault => rfl
      | ok v =>
        change _ = ms.foldlM putVariable (t.insert key v)
        rw [← ih (t.insert key v)]
        cases Decoder.members Decoder.savedVariable (.object ms) <;> rfl
  exact hfrom ∅

theorem putVariable_comm {m m' : String × Json} (hne : m.1 ≠ m'.1)
    (t : Std.ExtTreeMap String SavedVariable) :
    (putVariable t m).bind (putVariable · m') = (putVariable t m').bind (putVariable · m) := by
  unfold putVariable
  cases (Decoder.savedVariable m.2).toOption with
  | none => cases (Decoder.savedVariable m'.2).toOption <;> rfl
  | some v =>
    cases (Decoder.savedVariable m'.2).toOption with
    | none => rfl
    | some v' =>
      refine congrArg some (Std.ExtTreeMap.ext_getElem? fun {key} => ?_)
      simp only [getElem?_insert_id]
      by_cases hkey : m'.1 = key
      · subst hkey
        rw [if_pos rfl, if_neg hne, if_pos rfl]
      · rw [if_neg hkey, if_neg hkey]

theorem foldlM_putVariable_perm {ms ms' : List (String × Json)} (h : ms.Perm ms')
    (hkeys : (ms.map Prod.fst).Nodup) (t : Std.ExtTreeMap String SavedVariable) :
    ms.foldlM putVariable t = ms'.foldlM putVariable t := by
  induction h generalizing t with
  | nil => rfl
  | cons m _ ih =>
    simp only [List.foldlM_cons]
    exact congrArg _ (funext fun t => ih (List.nodup_cons.1 hkeys).2 t)
  | swap m m' ms =>
    have hne : m'.1 ≠ m.1 := by
      intro hsame
      simp [hsame] at hkeys
    simp only [List.foldlM_cons]
    rw [← bind_assoc, ← bind_assoc]
    exact congrArg (· >>= fun t => ms.foldlM putVariable t) (putVariable_comm hne t)
  | trans h _ ih ih' => exact (ih hkeys t).trans (ih' ((h.map Prod.fst).nodup_iff.1 hkeys) t)

/-- Variables are put into their table by their ids, in whatever order. -/
theorem indifferent_savedVariables : Indifferent id Decoder.savedVariables := by
  refine .of_steps ?_ (fun _ _ _ _ _ => rfl) ?_
  · intro ms ms' hperm hkeys
    -- No key is met twice, so that neighbours can be put into the table in either order.
    rw [savedVariables_object, savedVariables_object, foldlM_putVariable_perm hperm hkeys]
  · intro before key after j j' h
    have hput (t : Std.ExtTreeMap String SavedVariable) :
        putVariable t (key, j) = putVariable t (key, j') := by
      have hdecode := indifferent_savedVariable j j' h
      simp only [Option.map_id_fun] at hdecode
      exact congrArg (Option.map _) hdecode
    rw [savedVariables_object, savedVariables_object, List.foldlM_append, List.foldlM_append]
    simp only [List.foldlM_cons, hput]

end Leaves

/-! ### Records -/

theorem indifferent_modifier : Indifferent id Decoder.modifier :=
  .record_id (.cons_id indifferent_string <| .cons_id (indifferent_name _) <|
    .cons_id indifferent_source .nil) (by decide)

theorem indifferent_provider : Indifferent id Decoder.provider :=
  .record_id (.cons_id indifferent_string <| .cons_id indifferent_modifier.list_id <|
    .cons_id indifferent_u32.option_id .nil) (by decide)

theorem indifferent_attribute : Indifferent id Decoder.attributeRecord :=
  .record_id (.cons_id indifferent_string <| .cons_id indifferent_anyNumber <|
    .cons_id indifferent_anyNumber.option_id <| .cons_id indifferent_anyNumber.option_id .nil)
    (by decide)

end Json

/-- The document with the members of its events sorted. -/
def Content.sorted (c : Content) : Content := { c with events := c.events.map Json.canonical }

theorem Json.indifferent_content : Indifferent Content.sorted Decoder.content :=
  .record (.cons indifferent_savedVariables <| .cons indifferent_attribute.list_id <|
    .cons indifferent_provider.list_id <| .cons indifferent_provider.list_id <|
    .cons indifferent_value.list .nil) (by decide) fun _ _ h =>
      congrArg (fun (vars, attributes, items, statuses, events, ()) =>
        (⟨vars, attributes, items, statuses, events⟩ : Content)) h

/-! ### Loading -/

theorem Build.eventOf_canonical {j j' : Json} (h : j.canonical = j'.canonical) :
    eventOf j = eventOf j' := by
  simp only [eventOf, h]

theorem Build.each_congr {α β : Type} {f : α → Build β} {γ : Type} {view : α → γ}
    (hf : ∀ a a', view a = view a' → f a = f a') {as as' : List α}
    (h : as.map view = as'.map view) : each f as = each f as' := by
  induction as generalizing as' with
  | nil =>
    cases as' with
    | nil => rfl
    | cons a' as' => cases h
  | cons a as ih =>
    cases as' with
    | nil => cases h
    | cons a' as' =>
      obtain ⟨hfirst, hrest⟩ := List.cons.inj h
      unfold each
      rw [hf a a' hfirst, ih hrest]

theorem Build.content_sorted {c c' : Content} (h : c.sorted = c'.sorted) :
    Build.content c = Build.content c' := by
  obtain ⟨vars, attributes, items, statuses, events⟩ := c
  obtain ⟨vars', attributes', items', statuses', events'⟩ := c'
  obtain ⟨rfl, rfl, rfl, rfl, hevents⟩ := Content.mk.inj h
  unfold Build.content
  rw [each_congr (fun _ _ => eventOf_canonical) hevents]

namespace Engine

theorem loadContent_of_ok (e : Engine) {text : String} {j : Json} {c : Content}
    (hread : Json.read? text = some j) (hdecode : Json.Decoder.content j = .ok c) :
    e.loadContent text =
      match (Build.content c).run e.compiler with
      | (.ok d, compiler) => registerAll { e with compiler } d
      | (.error cause, compiler) => (.error (.definition cause), { e with compiler }) := by
  have htext : Json.Decoder.content.ofText text = .ok c := by
    simp only [Json.Decoder.ofText, hread, hdecode]
  have hbuild : Build.contentOfText text = Build.content c := by
    simp only [Build.contentOfText, htext]
  rw [← hbuild]
  rfl

theorem loadContent_of_error (e : Engine) {text : String} {j : Json} {fault : Json.Fault}
    (hread : Json.read? text = some j) (hdecode : Json.Decoder.content j = .error fault) :
    ∃ fault', e.loadContent text =
      (.error (.definition (.malformed (.document "content") fault')), e) := by
  refine ⟨if j.readable then fault else .notJson, ?_⟩
  have htext : Json.Decoder.content.ofText text =
      .error (if j.readable then fault else .notJson) := by
    simp only [Json.Decoder.ofText, hread, hdecode]
  simp only [loadContent, Build.contentOfText, htext]
  rfl

/-- Documents that differ in the order of their members are loaded alike: both or none, and with the
same engine in the end. -/
theorem loadContent_reordered (e : Engine) {text text' : String} {j j' : Json}
    (hj : Json.read? text = some j) (hj' : Json.read? text' = some j') (h : Json.Reordered j j') :
    (e.loadContent text).2 = (e.loadContent text').2 ∧
      ((e.loadContent text).1 = .ok () ↔ (e.loadContent text').1 = .ok ()) := by
  have hsame := Json.indifferent_content j j' h
  cases hdecode : Json.Decoder.content j with
  | ok c =>
    cases hdecode' : Json.Decoder.content j' with
    | ok c' =>
      rw [hdecode, hdecode'] at hsame
      rw [loadContent_of_ok e hj hdecode, loadContent_of_ok e hj' hdecode',
        Build.content_sorted (Option.some.inj hsame)]
      exact ⟨rfl, Iff.rfl⟩
    | error fault' =>
      rw [hdecode, hdecode'] at hsame
      cases hsame
  | error fault =>
    cases hdecode' : Json.Decoder.content j' with
    | ok c' =>
      rw [hdecode, hdecode'] at hsame
      cases hsame
    | error fault' =>
      obtain ⟨_, hload⟩ := loadContent_of_error e hj hdecode
      obtain ⟨_, hload'⟩ := loadContent_of_error e hj' hdecode'
      rw [hload, hload']
      exact ⟨rfl, nofun, nofun⟩

end Engine

end Scenario
