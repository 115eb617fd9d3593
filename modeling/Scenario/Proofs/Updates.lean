import Scenario.Proofs.PassReports

/-!
Several variables updated at once. All values are found before anything is assigned, so variables
can trade places, and the order of the updates only counts where a variable is named twice or is
not declared.
-/

namespace Scenario

/-! ### Assignments in a row -/

section Assignments

variable (value : VariableUpdate Expression → Float)

/-- Each variable has the value of the last update that names it, confined to its bounds, and
nothing but variables and notifications has changed. -/
structure Assigned (updates : List (VariableUpdate Expression)) (s s' : State) : Prop where
  vars : ∀ id, s'.vars[id]? = (s.vars[id]?).map fun v =>
    (updates.findRev? (·.id = id)).elim v fun u => v.set (value u)
  others : s' = { s with vars := s'.vars, notifications := s'.notifications }

variable {value} {updates before after : List (VariableUpdate Expression)}
  {u : VariableUpdate Expression} {s s' s₁ : State}

theorem Assigned.nil : Assigned value [] s s where
  vars id := by simp [List.findRev?]
  others := rfl

theorem Assigned.contains (h : Assigned value updates s s') (id : String) :
    s'.vars.contains id = s.vars.contains id := by
  rw [contains_eq_isSome, contains_eq_isSome, h.vars, Option.isSome_map]

theorem Assigned.cons {v : Variable} (hv : s.vars[u.id]? = some v)
    (hs : s.setVariable u.id (value u) = .ok s₁) (h : Assigned value updates s₁ s') :
    Assigned value (u :: updates) s s' := by
  obtain ⟨w, hw, rfl⟩ := State.setVariable_eq_ok.1 hs
  obtain rfl : v = w := Option.some.inj (hv.symm.trans hw)
  refine ⟨fun id => ?_, h.others⟩
  rw [h.vars, getElem?_insert_id]
  cases hlast : updates.findRev? (·.id = id) with
  | some last =>
    -- A later update of the same variable leaves nothing of this one.
    simp only [List.findRev?, hlast, Option.elim_some]
    by_cases hid : u.id = id
    · subst hid
      simp [hv, Variable.set]
    · simp [hid]
  | none =>
    simp only [List.findRev?, hlast, Option.elim_none, Option.map_id']
    by_cases hid : u.id = id
    · subst hid
      simp [hv]
    · simp [hid]

theorem Assigned.vars_perm {updates' : List (VariableUpdate Expression)} {s'' : State}
    (h : Assigned value updates s s') (h' : Assigned value updates' s s'')
    (hnodup : (updates.map (·.id)).Nodup) (hperm : updates'.Perm updates) :
    s''.vars = s'.vars := by
  apply Std.ExtTreeMap.ext_getElem?
  intro id
  have hsame : updates'.findRev? (·.id = id) = updates.findRev? (·.id = id) := by
    rw [List.findRev?_eq_find?_reverse, List.findRev?_eq_find?_reverse]
    have hreversed : updates'.reverse.Perm updates.reverse :=
      (List.reverse_perm _).trans (hperm.trans (List.reverse_perm _).symm)
    cases hfind : updates.reverse.find? (·.id = id) with
    | none =>
      rw [List.find?_eq_none] at hfind ⊢
      exact fun u hu => hfind u (hreversed.mem_iff.1 hu)
    | some u =>
      have hid : u.id = id := by simpa using List.find?_some hfind
      subst hid
      have hnodup' : (updates'.reverse.map (·.id)).Nodup :=
        ((hreversed.trans (List.reverse_perm _)).map _).nodup_iff.2 hnodup
      exact find?_key_of_mem hnodup' (hreversed.mem_iff.2 (List.mem_of_find?_eq_some hfind))
  rw [h.vars, h'.vars, hsame]

end Assignments

namespace Play

variable {value : VariableUpdate Expression → Float}
  {updates before after : List (VariableUpdate Expression)} {u : VariableUpdate Expression}
  {w : World}

def assign (value : VariableUpdate Expression → Float)
    (updates : List (VariableUpdate Expression)) : Play Unit :=
  (updates.map fun u => (u.id, value u)).forM fun (id, x) => change (·.setVariable id x)

theorem assign_cons (u : VariableUpdate Expression) (updates : List (VariableUpdate Expression)) :
    assign value (u :: updates) =
      (change (·.setVariable u.id (value u)) >>= fun _ => assign value updates) := rfl

theorem assign_append (value : VariableUpdate Expression → Float)
    (h : ∀ u ∈ before, w.state.vars.contains u.id) : ∃ s',
    Assigned value before w.state s' ∧
    ∀ after, assign value (before ++ after) w = assign value after { w with state := s' } := by
  induction before generalizing w with
  | nil => exact ⟨w.state, .nil, fun _ => rfl⟩
  | cons u before ih =>
    obtain ⟨hu, hrest⟩ := List.forall_mem_cons.1 h
    rw [contains_eq_isSome, Option.isSome_iff_exists] at hu
    obtain ⟨v, hv⟩ := hu
    obtain ⟨s₁, hset⟩ : ∃ s₁, w.state.setVariable u.id (value u) = .ok s₁ :=
      ⟨_, State.setVariable_eq_ok.2 ⟨v, hv, rfl⟩⟩
    have hone : Assigned value [u] w.state s₁ := .cons hv hset .nil
    obtain ⟨s', hs', hrun⟩ := ih (w := { w with state := s₁ }) fun b hb => by
      rw [hone.contains]
      exact hrest b hb
    refine ⟨s', .cons hv hset hs', fun after => ?_⟩
    rw [List.cons_append, assign_cons]
    simp only [bind, change, hset]
    exact hrun after

theorem assign_undeclared (h : ¬ w.state.vars.contains u.id) :
    assign value (u :: after) w = (.failed (.evaluation (.unknown .variable u.id)), w) := by
  have hnone : w.state.vars[u.id]? = none := by
    rw [← Option.not_isSome_iff_eq_none, ← contains_eq_isSome]
    exact h
  rw [assign_cons]
  simp only [bind, change, State.setVariable_eq, hnone]

theorem exists_value (h : ∀ u ∈ updates, ∃ x, w.state.eval u.value = .ok x) :
    ∃ value : VariableUpdate Expression → Float,
      ∀ u ∈ updates, w.state.eval u.value = .ok (value u) := by
  refine ⟨fun u => (w.state.eval u.value).toOption.getD 0, fun u hu => ?_⟩
  obtain ⟨x, hx⟩ := h u hu
  simp [hx, Except.toOption]

section Run

variable (screen : Screen) (patience : Nat)

theorem run_updateVariables (h : ∀ u ∈ updates, w.state.eval u.value = .ok (value u)) :
    run screen patience (.updateVariables updates) w =
      (assign value updates >>= fun _ => pure .next) w := by
  have hvalues : (updates.mapM fun u => do return (u.id, ← w.state.eval u.value)) =
      .ok (updates.map fun u => (u.id, value u)) := by
    rw [mapM_eq_ok_iff, List.map_map]
    refine List.map_congr_left fun u hu => ?_
    rw [h u hu]
    rfl
  simp only [run, bind, look] at hvalues ⊢
  rw [hvalues]
  rfl

theorem run_updateVariables_fails {cause : EvaluationError}
    (hbefore : ∀ b ∈ before, ∃ x, w.state.eval b.value = .ok x)
    (hu : w.state.eval u.value = .error cause) :
    run screen patience (.updateVariables (before ++ u :: after)) w =
      (.failed (.evaluation cause), w) := by
  have hvalues : ((before ++ u :: after).mapM fun u => do return (u.id, ← w.state.eval u.value)) =
      .error cause := by
    apply mapM_eq_error
    · intro b hb
      obtain ⟨x, hx⟩ := hbefore b hb
      exact ⟨(b.id, x), by rw [hx]; rfl⟩
    · rw [hu]
      rfl
  simp only [run, bind, look] at hvalues ⊢
  rw [hvalues]

theorem run_updateVariables_declared
    (h : ∀ u ∈ before ++ after, w.state.eval u.value = .ok (value u))
    (hbefore : ∀ u ∈ before, w.state.vars.contains u.id) : ∃ s',
    Assigned value before w.state s' ∧
    run screen patience (.updateVariables before) w = (.done .next, { w with state := s' }) ∧
    run screen patience (.updateVariables (before ++ after)) w =
      (assign value after >>= fun _ => pure .next) { w with state := s' } := by
  obtain ⟨s', hs', hassign⟩ := assign_append value hbefore
  have hnothing : assign value before w = (.done (), { w with state := s' }) := by
    have hnil := hassign []
    rwa [List.append_nil] at hnil
  refine ⟨s', hs', ?_, ?_⟩
  · rw [run_updateVariables screen patience fun u hu => h u (List.mem_append_left _ hu)]
    simp only [bind, hnothing]
    rfl
  · rw [run_updateVariables screen patience h]
    simp only [bind, hassign]

theorem run_updateVariables_undeclared
    (h : ∀ b ∈ before ++ u :: after, w.state.eval b.value = .ok (value b))
    (hbefore : ∀ b ∈ before, w.state.vars.contains b.id) (hu : ¬ w.state.vars.contains u.id) : ∃ s',
    run screen patience (.updateVariables before) w = (.done .next, { w with state := s' }) ∧
    run screen patience (.updateVariables (before ++ u :: after)) w =
      (.failed (.evaluation (.unknown .variable u.id)), { w with state := s' }) := by
  obtain ⟨s', hs', hdone, hrun⟩ := run_updateVariables_declared screen patience h hbefore
  have hstill : ¬ s'.vars.contains u.id := by
    rw [hs'.contains]
    exact hu
  refine ⟨s', hdone, ?_⟩
  rw [hrun]
  simp only [bind, assign_undeclared (w := { w with state := s' }) hstill]

theorem run_updateVariables_done (h : ∀ u ∈ updates, w.state.eval u.value = .ok (value u))
    (hdeclared : ∀ u ∈ updates, w.state.vars.contains u.id) : ∃ s',
    Assigned value updates w.state s' ∧
    run screen patience (.updateVariables updates) w = (.done .next, { w with state := s' }) := by
  have hvalues : ∀ u ∈ updates ++ [], w.state.eval u.value = .ok (value u) := by
    rwa [List.append_nil]
  obtain ⟨s', hs', hdone, -⟩ := run_updateVariables_declared screen patience hvalues hdeclared
  exact ⟨s', hs', hdone⟩

/-- Several variables are updated at once. All values are found first, in order and in the state as
it was; the first that has none is the error, and nothing has happened. Otherwise each variable gets
the value of the last update that names it, confined to its bounds, and apart from notifications
nothing else changes. The first update of a variable that is not declared is an error as well, but
the updates before it have been made then. So the order counts there, and where a variable is named
twice, and nowhere else. -/
theorem updates_in_parallel (updates : List (VariableUpdate Expression)) (w : World) :
    (∀ before u after cause, updates = before ++ u :: after →
      (∀ b ∈ before, ∃ x, w.state.eval b.value = .ok x) → w.state.eval u.value = .error cause →
      run screen patience (.updateVariables updates) w = (.failed (.evaluation cause), w)) ∧
    (∀ value : VariableUpdate Expression → Float,
      (∀ u ∈ updates, w.state.eval u.value = .ok (value u)) →
      ((∀ u ∈ updates, w.state.vars.contains u.id) → ∃ s',
        run screen patience (.updateVariables updates) w =
          (.done .next, { w with state := s' }) ∧
        s' = { w.state with vars := s'.vars, notifications := s'.notifications } ∧
        ∀ id, s'.vars[id]? = (w.state.vars[id]?).map fun v =>
          match updates.findRev? (·.id = id) with
          | some u => { v with value := clamp (value u) v.min v.max }
          | none => v) ∧
      ∀ before u after, updates = before ++ u :: after →
        (∀ b ∈ before, w.state.vars.contains b.id) → ¬ w.state.vars.contains u.id → ∃ s',
        run screen patience (.updateVariables before) w = (.done .next, { w with state := s' }) ∧
        run screen patience (.updateVariables updates) w =
          (.failed (.evaluation (.unknown .variable u.id)), { w with state := s' })) ∧
    ((updates.map (·.id)).Nodup → (∀ u ∈ updates, w.state.vars.contains u.id) →
      ∀ updates', updates'.Perm updates → (∀ u ∈ updates', ∃ x, w.state.eval u.value = .ok x) →
        (run screen patience (.updateVariables updates) w).1 = .done .next ∧
        (run screen patience (.updateVariables updates') w).1 = .done .next ∧
        (run screen patience (.updateVariables updates') w).2.state.vars =
          (run screen patience (.updateVariables updates) w).2.state.vars) := by
  refine ⟨?_, ?_, ?_⟩
  · rintro before u after cause rfl hbefore hu
    exact run_updateVariables_fails screen patience hbefore hu
  · intro value hvalue
    refine ⟨fun hdeclared => ?_, ?_⟩
    · obtain ⟨s', hs', hdone⟩ := run_updateVariables_done screen patience hvalue hdeclared
      refine ⟨s', hdone, hs'.others, fun id => ?_⟩
      rw [hs'.vars]
      cases updates.findRev? (·.id = id) <;> rfl
    · rintro before u after rfl hbefore hu
      exact run_updateVariables_undeclared screen patience hvalue hbefore hu
  · intro hnodup hdeclared updates' hperm hvalues
    obtain ⟨value, hvalue⟩ := exists_value hvalues
    obtain ⟨s', hs', hdone⟩ := run_updateVariables_done screen patience
      (fun u hu => hvalue u (hperm.mem_iff.2 hu)) hdeclared
    obtain ⟨s'', hs'', hdone'⟩ := run_updateVariables_done screen patience hvalue
      fun u hu => hdeclared u (hperm.mem_iff.1 hu)
    rw [hdone, hdone']
    exact ⟨rfl, rfl, hs'.vars_perm hs'' hnodup hperm⟩

end Run

/-! ### A pair of scales -/

def scales : World where
  state :=
    { vars := ((∅ : Variables).insert "left" ⟨1.0, 0.0, 10.0⟩).insert "right" { value := 20.0 }
      random := .scripted [] 0 }

def trade : List (VariableUpdate Expression) :=
  [⟨"left", ⟨.text "right", .name "right", none⟩⟩, ⟨"right", ⟨.text "left", .name "left", none⟩⟩]

def tradeValue (u : VariableUpdate Expression) : Float := if u.id = "left" then 20.0 else 1.0

theorem updates_in_parallel_trade : ∃ s',
    run quiet 1 (.updateVariables trade) scales = (.done .next, { scales with state := s' }) ∧
    s'.vars["left"]? = some ⟨10.0, 0.0, 10.0⟩ ∧ s'.vars["right"]? = some { value := 1.0 } ∧
    (run quiet 1 (.updateVariables trade.reverse) scales).2.state.vars = s'.vars := by
  have hvalue : ∀ u ∈ trade, scales.state.eval u.value = .ok (tradeValue u) := by
    intro u hu
    simp only [trade, List.mem_cons, List.not_mem_nil, or_false] at hu
    rcases hu with rfl | rfl <;> rfl
  have hdeclared : ∀ u ∈ trade, scales.state.vars.contains u.id := by
    intro u hu
    simp only [trade, List.mem_cons, List.not_mem_nil, or_false] at hu
    rcases hu with rfl | rfl <;> rfl
  obtain ⟨-, hmade, hordered⟩ := updates_in_parallel quiet 1 trade scales
  obtain ⟨s', hdone, -, hvars⟩ := (hmade tradeValue hvalue).1 hdeclared
  have hreversed := (hordered (by decide) hdeclared trade.reverse (List.reverse_perm _)
    fun u hu => ⟨_, hvalue u (List.mem_reverse.1 hu)⟩).2.2
  rw [hdone] at hreversed
  refine ⟨s', hdone, ?_, ?_, hreversed⟩
  · rw [hvars]
    rfl
  · rw [hvars]
    rfl

/-- The second update is of a variable that is not declared. -/
def heap : List (VariableUpdate Expression) := [⟨"left", .constant 5.0⟩, ⟨"middle", .constant 2.0⟩]

theorem undeclared_order_counts :
    (heap.map (·.id)).Nodup ∧ heap.reverse.Perm heap ∧
      (∀ u ∈ heap.reverse, ∃ x, scales.state.eval u.value = .ok x) ∧
      (run quiet 1 (.updateVariables heap.reverse) scales).2.state.vars ≠
        (run quiet 1 (.updateVariables heap) scales).2.state.vars := by
  refine ⟨by decide, List.reverse_perm _, ?_, fun hsame => ?_⟩
  · intro u hu
    simp only [heap, List.mem_reverse, List.mem_cons, List.not_mem_nil, or_false] at hu
    rcases hu with rfl | rfl <;> exact ⟨_, rfl⟩
  · have hlast : (run quiet 1 (.updateVariables heap.reverse) scales).2.state.vars["left"]? =
        some ⟨1.0, 0.0, 10.0⟩ := rfl
    have hfirst : (run quiet 1 (.updateVariables heap) scales).2.state.vars["left"]? =
        some ⟨5.0, 0.0, 10.0⟩ := rfl
    rw [hsame, hfirst] at hlast
    have hvalue : (5.0 : Float) = 1.0 := congrArg Variable.value (Option.some.inj hlast)
    have hbits : (5.0 : Float).toBits ≠ (1.0 : Float).toBits := by decide
    exact hbits (congrArg Float.toBits hvalue)

end Play

end Scenario
