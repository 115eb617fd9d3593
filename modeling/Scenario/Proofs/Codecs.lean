import Scenario.Json.Save
import Scenario.Proofs.JsonText
import Scenario.Proofs.Numbers

/-!
Values that JSON tells and that a decoder finds in it again. What tells the parts of a value tells
the value, so that a decoder is right about a text if it is right about the fields, items and
members that the text is made of.
-/

namespace Scenario.Json

variable {α β : Type} {levels : Nat}

/-- A decoder finds a value in JSON that its text can tell, nested no deeper than some levels. -/
structure Tells (levels : Nat) (d : Decoder α) (j : Json) (a : α) : Prop where
  decode : d j = .ok a
  faithful : j.Faithful
  depth : j.depth ≤ levels

mutual

theorem readable_of_faithful (j : Json) (h : j.Faithful) : j.readable = true := by
  cases j with
  | array js => exact allReadable_of_faithful js h
  | object ms => exact membersReadable_of_faithful ms h
  | unreadable => exact h.elim
  | _ => rfl

theorem allReadable_of_faithful (js : List Json) (h : FaithfulItems js) :
    allReadable js = true := by
  cases js with
  | nil => rfl
  | cons j js =>
    exact Bool.and_eq_true_iff.2 ⟨readable_of_faithful j h.1, allReadable_of_faithful js h.2⟩

theorem membersReadable_of_faithful (ms : List (String × Json)) (h : FaithfulMembers ms) :
    membersReadable ms = true := by
  match ms, h with
  | [], _ => rfl
  | (_, j) :: ms, h =>
    exact Bool.and_eq_true_iff.2 ⟨readable_of_faithful j h.1, membersReadable_of_faithful ms h.2⟩

end

theorem ofText_render {j : Json} (d : Decoder α) (h : j.Faithful) (hdepth : j.depth ≤ maxDepth) :
    d.ofText j.render = d j := by
  unfold Decoder.ofText
  rw [read?_render h hdepth]
  dsimp only
  rw [readable_of_faithful j h]
  cases d j <;> rfl

namespace Tells

theorem mono {levels' : Nat} {d : Decoder α} {j : Json} {a : α} (h : Tells levels d j a)
    (hlevels : levels ≤ levels') : Tells levels' d j a :=
  { h with depth := Nat.le_trans h.depth hlevels }

theorem ofText {d : Decoder α} {j : Json} {a : α} (h : Tells maxDepth d j a) :
    d.ofText j.render = .ok a :=
  (ofText_render d h.faithful h.depth).trans h.decode

theorem string (s : String) : Tells levels Decoder.string (.string s) s :=
  ⟨rfl, trivial, Nat.zero_le _⟩

theorem bool (b : Bool) : Tells levels Decoder.bool (.bool b) b :=
  ⟨rfl, trivial, Nat.zero_le _⟩

theorem nat {bits n : Nat} (hbits : bits ≤ 128) (h : n < 2 ^ bits) :
    Tells levels (Decoder.nat bits) (.nat n) n where
  decode := if_pos h
  faithful := Nat.lt_of_lt_of_le h (Nat.pow_le_pow_right (by decide) hbits)
  depth := Nat.zero_le _

theorem option {d : Decoder α} {encode : α → Json} {o : Option α}
    (h : ∀ a ∈ o, Tells levels d (encode a) a) (hne : ∀ a ∈ o, encode a ≠ .null) :
    Tells levels d.option (.option encode o) o := by
  cases o with
  | none => exact ⟨rfl, trivial, Nat.zero_le _⟩
  | some a =>
    obtain ⟨hdecode, hfaithful, hdepth⟩ := h a rfl
    refine ⟨?_, hfaithful, hdepth⟩
    change d.option (encode a) = _
    unfold Decoder.option
    split
    · rename_i hnull
      exact absurd hnull (hne a rfl)
    · rw [hdecode]
      rfl

theorem pair {d : Decoder α} {d' : Decoder β} {j j' : Json} {a : α} {b : β}
    (h : Tells levels d j a) (h' : Tells levels d' j' b) :
    Tells (levels + 1) (Decoder.pair d d') (.array [j, j']) (a, b) where
  decode := by
    unfold Decoder.pair
    simp only [h.decode, h'.decode]
    rfl
  faithful := ⟨h.faithful, h'.faithful, trivial⟩
  depth := by
    have hj := h.depth
    have hj' := h'.depth
    simp only [Json.depth, itemsDepth]
    omega

theorem list {d : Decoder α} {encode : α → Json} {as : List α}
    (h : ∀ a ∈ as, Tells levels d (encode a) a) :
    Tells (levels + 1) d.list (.array (as.map encode)) as := by
  have hall : (as.map encode).mapM d = .ok as ∧ FaithfulItems (as.map encode) ∧
      itemsDepth (as.map encode) ≤ levels := by
    induction as with
    | nil => exact ⟨rfl, trivial, Nat.zero_le _⟩
    | cons a as ih =>
      obtain ⟨hdecode, hfaithful, hdepth⟩ := h a List.mem_cons_self
      obtain ⟨hdecode', hfaithful', hdepth'⟩ := ih fun b hb => h b (List.mem_cons_of_mem a hb)
      refine ⟨?_, ⟨hfaithful, hfaithful'⟩, Nat.max_le.2 ⟨hdepth, hdepth'⟩⟩
      rw [List.map_cons, List.mapM_cons, hdecode, hdecode']
      rfl
  exact ⟨hall.1, hall.2.1, Nat.succ_le_succ hall.2.2⟩

theorem members {d : Decoder α} {encode : α → Json} {entries : List (String × α)}
    (h : ∀ entry ∈ entries, Tells levels d (encode entry.2) entry.2) :
    Tells (levels + 1) (Decoder.members d)
      (.object (entries.map fun (key, a) => (key, encode a))) entries := by
  have hall : Decoder.members d (.object (entries.map fun (key, a) => (key, encode a))) =
        .ok entries ∧
      FaithfulMembers (entries.map fun (key, a) => (key, encode a)) ∧
      membersDepth (entries.map fun (key, a) => (key, encode a)) ≤ levels := by
    induction entries with
    | nil => exact ⟨rfl, trivial, Nat.zero_le _⟩
    | cons entry entries ih =>
      obtain ⟨hdecode, hfaithful, hdepth⟩ := h entry List.mem_cons_self
      obtain ⟨hdecode', hfaithful', hdepth'⟩ := ih fun b hb => h b (List.mem_cons_of_mem entry hb)
      refine ⟨?_, ⟨hfaithful, hfaithful'⟩, Nat.max_le.2 ⟨hdepth, hdepth'⟩⟩
      unfold Decoder.members at hdecode' ⊢
      dsimp only at hdecode' ⊢
      rw [List.map_cons, List.mapM_cons, hdecode']
      dsimp only
      rw [hdecode]
      rfl
  exact ⟨hall.1, hall.2.1, Nat.succ_le_succ hall.2.2⟩

end Tells

/-! ### Records -/

/-- The members of an object that holds the fields of a record in their order. -/
inductive Row (levels : Nat) :
    {αs : List Type} → Fields αs → List (String × Json) → Values αs → Prop
  | nil : Row levels .nil [] ()
  | cons {α : Type} {αs : List Type} {field : Field α} {fields : Fields αs} {j : Json} {a : α}
    {ms : List (String × Json)} {values : Values αs} (h : Tells levels field.decode j a)
    (row : Row levels fields ms values) :
    Row levels (.cons field fields) ((field.name, j) :: ms) (a, values)

section Records

variable {αs : List Type} {fields : Fields αs} {ms : List (String × Json)} {values : Values αs}

theorem visit_of_ne {field : Field α} {key : String} (h : field.name ≠ key) (j : Json)
    (slot : Option α) (slots : Slots αs) :
    (Fields.cons field fields).visit key j (slot, slots) =
      (fields.visit key j slots).map (·.map fun slots => (slot, slots)) :=
  if_neg h

theorem visit_name {field : Field α} {j : Json} {a : α} (h : field.decode j = .ok a)
    (slots : Slots αs) :
    (Fields.cons field fields).visit field.name j (none, slots) = .ok (some (some a, slots)) := by
  refine (if_pos rfl).trans ?_
  rw [h]
  rfl

theorem visitAll_cons (strict : Bool) (key : String) (j : Json) (slots : Slots αs) :
    fields.visitAll strict ((key, j) :: ms) slots =
      (fields.visit key j slots).bind fun
        | some slots => fields.visitAll strict ms slots
        | none =>
          if strict then .error (.unknownField key) else fields.visitAll strict ms slots := rfl

theorem visitAll_of_absent {field : Field α} (strict : Bool) (slot : Option α)
    (habsent : field.name ∉ ms.map Prod.fst) (slots : Slots αs) :
    (Fields.cons field fields).visitAll strict ms (slot, slots) =
      (fields.visitAll strict ms slots).map fun slots => (slot, slots) := by
  induction ms generalizing slots with
  | nil => rfl
  | cons m ms ih =>
    obtain ⟨key, j⟩ := m
    rw [List.map_cons, List.mem_cons, not_or] at habsent
    refine (visitAll_cons strict key j _).trans ?_
    rw [visit_of_ne habsent.1, visitAll_cons]
    rcases fields.visit key j slots with cause | (_ | slots')
    · rfl
    · cases strict with
      | true => rfl
      | false => exact ih habsent.2 slots
    · exact ih habsent.2 slots'

theorem Row.keys (row : Row levels fields ms values) : ms.map Prod.fst = fields.names := by
  induction row with
  | nil => rfl
  | cons _ _ ih => exact congrArg (_ :: ·) ih

/-- Records are found field by field in what holds their fields in order. -/
theorem Row.visitAll (row : Row levels fields ms values) (hnames : fields.names.Nodup)
    (strict : Bool) :
    ∃ slots, fields.visitAll strict ms (.empty αs) = .ok slots ∧
      fields.finish slots = .ok values := by
  induction row with
  | nil => exact ⟨(), rfl, rfl⟩
  | @cons α αs field fields j a ms values h row ih =>
    obtain ⟨hfresh, hnames⟩ := List.nodup_cons.1 hnames
    obtain ⟨slots, hslots, hvalues⟩ := ih hnames
    refine ⟨(some a, slots), ?_, ?_⟩
    · rw [← row.keys] at hfresh
      refine (visitAll_cons strict field.name j _).trans ?_
      rw [Slots.empty, visit_name h.decode]
      refine (visitAll_of_absent strict (some a) hfresh _).trans ?_
      rw [hslots]
      rfl
    · change (fields.finish slots).bind (fun values => .ok (a, values)) = _
      rw [hvalues]
      rfl

theorem Row.faithful (row : Row levels fields ms values) :
    FaithfulMembers ms ∧ membersDepth ms ≤ levels := by
  induction row with
  | nil => exact ⟨trivial, Nat.zero_le _⟩
  | cons h _ ih => exact ⟨⟨h.faithful, ih.1⟩, Nat.max_le.2 ⟨h.depth, ih.2⟩⟩

theorem Tells.record (row : Row levels fields ms values) (hnames : fields.names.Nodup)
    (strict : Bool) (build : Values αs → α) :
    Tells (levels + 1) (Decoder.record strict fields build) (.object ms) (build values) := by
  obtain ⟨slots, hslots, hvalues⟩ := row.visitAll hnames strict
  obtain ⟨hfaithful, hdepth⟩ := row.faithful
  refine ⟨?_, hfaithful, Nat.succ_le_succ hdepth⟩
  unfold Decoder.record
  simp only [hslots, hvalues, bind, Except.bind]
  rfl

theorem Tells.keyed {kinds : List (String × Decoder α)} {key : String} {d : Decoder α} {j : Json}
    {a : α} (hkind : kinds.lookup key = some d) (h : Tells levels d j a) :
    Tells (levels + 1) (Decoder.keyed kinds) (.object [(key, j)]) a where
  decode := by
    unfold Decoder.keyed Decoder.kind?
    simp only [hkind, h.decode, bind, Except.bind]
    rfl
  faithful := ⟨h.faithful, trivial⟩
  depth := by
    have hj := h.depth
    simp only [Json.depth, membersDepth]
    omega

end Records

end Scenario.Json
