import Scenario.Proofs.Codecs
import Scenario.Proofs.PassReports
import Scenario.Proofs.Ranges

/-!
Saves read back from their texts: variables with and without bounds, numbers that are infinite or
none, and an ending without an outcome as well as no ending.
-/

namespace Scenario

def SavedVariable.numbers : SavedVariable → List Float
  | .value x => [x]
  | .bounded x min max => [x, min, max]

namespace Save

/-- The doubles of a save. -/
def numbers (save : Save) : List Float :=
  save.vars.toList.flatMap (·.2.numbers) ++ save.statuses.map Prod.snd

/-- The integers of a save fit the words that they are read into. -/
structure InRange (save : Save) : Prop where
  inventory : ∀ entry ∈ save.inventory, entry.2 < 2 ^ 32
  events : ∀ entry ∈ save.events, entry.2.occurrences < 2 ^ 32
  random : save.random.position < 2 ^ 128

end Save

namespace Json.Tells

variable {levels : Nat}

theorem anyNumber {x : Float} (h : x.isFinite → ReadsBack x) :
    Tells levels Decoder.anyNumber (ofNumber x) x := by
  unfold ofNumber
  split
  · rename_i hnan
    rw [eq_notANumber hnan]
    exact ⟨rfl, trivial, Nat.zero_le _⟩
  · rename_i hnan
    split
    · rename_i hhigh
      rw [eq_of_beq_infinity (s := .positive) hhigh rfl]
      exact ⟨rfl, trivial, Nat.zero_le _⟩
    · rename_i hhigh
      split
      · rename_i hlow
        rw [eq_of_beq_infinity (s := .negative) hlow rfl]
        exact ⟨rfl, trivial, Nat.zero_le _⟩
      · rename_i hlow
        exact ⟨rfl, h (isFinite_of_not hnan hhigh hlow), Nat.zero_le _⟩

theorem ofNumber_ne_array (x : Float) (js : List Json) : ofNumber x ≠ .array js := by
  unfold ofNumber
  split
  · rintro ⟨⟩
  · split
    · rintro ⟨⟩
    · split <;> rintro ⟨⟩

theorem savedVariable {v : SavedVariable} (h : ∀ x ∈ v.numbers, x.isFinite → ReadsBack x) :
    Tells (levels + 1) Decoder.savedVariable (ofSavedVariable v) v := by
  cases v with
  | value x =>
    obtain ⟨hdecode, hfaithful, hdepth⟩ : Tells (levels + 1) _ _ _ :=
      anyNumber (h x List.mem_cons_self)
    refine ⟨?_, hfaithful, hdepth⟩
    change Decoder.savedVariable (ofNumber x) = _
    unfold Decoder.savedVariable
    split
    · rename_i harray
      exact absurd harray (ofNumber_ne_array x _)
    · rw [hdecode]
      rfl
  | bounded x min max =>
    have hx : Tells levels _ _ _ := anyNumber (h x (by simp [SavedVariable.numbers]))
    have hmin : Tells levels _ _ _ := anyNumber (h min (by simp [SavedVariable.numbers]))
    have hmax : Tells levels _ _ _ := anyNumber (h max (by simp [SavedVariable.numbers]))
    refine ⟨?_, ⟨hx.faithful, hmin.faithful, hmax.faithful, trivial⟩, ?_⟩
    · unfold ofSavedVariable Decoder.savedVariable
      simp only [hx.decode, hmin.decode, hmax.decode]
      rfl
    · have hlevels := hx.depth
      have hlevels' := hmin.depth
      have hlevels'' := hmax.depth
      simp only [ofSavedVariable, Json.depth, itemsDepth]
      omega

theorem savedVariables {vars : Std.ExtTreeMap String SavedVariable}
    (h : ∀ entry ∈ vars.toList, ∀ x ∈ entry.2.numbers, x.isFinite → ReadsBack x) :
    Tells (levels + 2) Decoder.savedVariables
      (.object (vars.toList.map fun (id, v) => (id, ofSavedVariable v))) vars := by
  obtain ⟨hdecode, hfaithful, hdepth⟩ : Tells (levels + 2) _ _ _ :=
    members fun entry hentry => savedVariable (h entry hentry)
  refine ⟨?_, hfaithful, hdepth⟩
  change Except.map _ (Decoder.members _ _) = _
  rw [hdecode]
  refine congrArg Except.ok (Std.ExtTreeMap.ext_getElem? fun id => ?_)
  have hdistinct : vars.toList.Pairwise fun a b => a.1 ≠ b.1 :=
    Std.ExtTreeMap.distinct_keys_toList.imp fun h => by
      simpa only [Std.compare_eq_iff_eq] using h
  refine (foldl_insert_list (fun v => v) vars.toList hdistinct ∅ id).trans ?_
  rw [find?_toList]
  simp

theorem eventFlags {flags : EventFlags} (h : flags.occurrences < 2 ^ 32) :
    Tells (levels + 1) Decoder.eventFlags (ofEventFlags flags) flags :=
  record (.cons (bool flags.disabled) (.cons (nat (by decide) h) .nil)) (by decide) false _

theorem randomPosition {p : RandomPosition} (h : p.position < 2 ^ 128) :
    Tells (levels + 1) Decoder.randomPosition (ofRandomPosition p) p :=
  record (.cons (string p.seed) (.cons (nat (Nat.le_refl 128) h) .nil)) (by decide) false _

theorem ending (ending : Ending) : Tells (levels + 1) Decoder.ending (ofEnding ending) ending :=
  record (.cons (option (fun s _ => string s) fun _ _ => by rintro ⟨⟩) .nil) (by decide) false _

theorem save {save : Save} (h : save.InRange)
    (hreads : ∀ x ∈ save.numbers, x.isFinite → ReadsBack x) :
    Tells 4 Decoder.save (ofSave save) save := by
  have hvars : ∀ entry ∈ save.vars.toList, ∀ x ∈ entry.2.numbers, x.isFinite → ReadsBack x :=
    fun entry hentry x hx =>
      hreads x (List.mem_append_left _ (List.mem_flatMap.2 ⟨entry, hentry, hx⟩))
  have hstatuses : ∀ entry ∈ save.statuses, entry.2.isFinite → ReadsBack entry.2 :=
    fun entry hentry => hreads entry.2 (List.mem_append_right _ (List.mem_map_of_mem hentry))
  refine record (.cons (savedVariables hvars) <|
    .cons (list fun entry hentry =>
      pair (string entry.1) (nat (by decide) (h.inventory entry hentry))) <|
    .cons (list fun entry hentry => pair (string entry.1) (anyNumber (hstatuses entry hentry))) <|
    .cons (list fun entry hentry => pair (string entry.1) (eventFlags (h.events entry hentry))) <|
    .cons (randomPosition h.random) <|
    .cons (option (fun outcome _ => ending outcome) fun _ _ => by rintro ⟨⟩) .nil) (by decide)
    false _

end Json.Tells

namespace Engine

variable {e : Engine}

theorem ReachableBy.save_inRange (h : e.ReachableBy Call.InRange)
    (hconfig : e.state.config.maxItemStack < 2 ^ 32) : e.save.InRange where
  inventory entry hentry := by
    obtain ⟨stack, hstack, rfl⟩ := List.mem_map.1 hentry
    have hle := h.wellFormed.stocked.count_le_maxStack hstack
    rw [h.wellFormed.maxStack] at hle
    exact Nat.lt_of_le_of_lt hle hconfig
  events entry hentry := by
    have hflags := (List.of_mem_zip hentry).2
    exact Nat.lt_of_le_of_lt (h.inRange.counted entry.2 (Array.mem_toList_iff.1 hflags)) (by decide)
  random := by
    have hplaced := h.wellFormed.placed
    change e.state.random.snapshot.position < 2 ^ 128
    cases hrandom : e.state.random with
    | seeded seed position =>
      rw [hrandom] at hplaced
      exact Nat.lt_trans hplaced (by decide)
    | scripted values cursor =>
      rw [hrandom] at hplaced
      exact Nat.lt_trans hplaced (by decide)

/-- A save is read back from its text, if its finite numbers are. -/
theorem save_ofText (h : e.ReachableBy Call.InRange)
    (hconfig : e.state.config.maxItemStack < 2 ^ 32)
    (hreads : ∀ x ∈ e.save.numbers, x.isFinite → Json.ReadsBack x) :
    Json.Decoder.save.ofText (Json.ofSave e.save).render = .ok e.save :=
  ((Json.Tells.save (h.save_inRange hconfig) hreads).mono (by decide)).ofText

end Engine

/-! ### A save with numbers of every kind -/

def vault : Engine :=
  (Engine.performAll quiet
    [.defineVariable "depth" { value := 2.5 }, .defineVariable "air" { value := notANumber },
      .defineVariable "heat" ⟨40.0, -infinity, 100.0⟩, .registerItem { id := "coin" },
      .registerStatus { id := "cursed" }, .registerEvent bell,
      .restore
        { vars := ∅, inventory := [("coin", 3)], statuses := [("cursed", infinity)],
          events := [("bell", ⟨true, 4294967295⟩)], random := ⟨"north", 6⟩,
          ending := some ⟨none⟩ }] (.new {})).2

theorem vault_reachable : vault.ReachableBy Call.InRange := by
  refine Engine.ReachableBy.performAll (.start {} (.ofSeed "default") (.ofSeed "default")) quiet ?_
  intro call hcall
  simp only [List.mem_cons, List.not_mem_nil, or_false] at hcall
  rcases hcall with rfl | rfl | rfl | rfl | rfl | rfl | rfl
  case inr.inr.inr.inr.inr.inr =>
    exact List.forall_mem_singleton.2 (Nat.le_refl 4294967295)
  all_goals trivial

theorem vault_numbers :
    vault.save.numbers = [notANumber, 2.5, 40.0, -infinity, 100.0, infinity] := rfl

theorem readsBack_vault : ∀ x ∈ vault.save.numbers, x.isFinite → Json.ReadsBack x := by
  rw [vault_numbers]
  intro x hx hfinite
  simp only [List.mem_cons, List.not_mem_nil, or_false] at hx
  rcases hx with rfl | rfl | rfl | rfl | rfl | rfl
  · cases hfinite
  · exact Json.readsBack_of_unsigned "2.5" (by decide +kernel) rfl
  · exact Json.readsBack_of_unsigned "40.0" (by decide +kernel) rfl
  · cases hfinite
  · exact Json.readsBack_of_unsigned "100.0" (by decide +kernel) rfl
  · cases hfinite

theorem save_ofText_vault :
    vault.save.ending = some ⟨none⟩ ∧ vault.save.inventory = [("coin", 3)] ∧
      Json.Decoder.save.ofText (Json.ofSave vault.save).render = .ok vault.save :=
  ⟨rfl, rfl, Engine.save_ofText vault_reachable (by decide +kernel) readsBack_vault⟩

end Scenario
