import Scenario.Proofs.PassReports
import Scenario.Proofs.Traces

/-!
Prompts with choices. What is offered is a part of the choices, while answers are places among all
of them; a choice that is locked is not reached by any answer.
-/

namespace Scenario

/-- Whether a choice can be made: it requires nothing, or what it requires holds. -/
def State.admits {α : Type} (s : State) (c : Choice Expression α) : Except EvaluationError Bool :=
  match c.requirement with
  | some requirement => s.holds requirement
  | none => .ok true

/-- The options are the choices that can be made, in their order, each with its own label and its
place, where places are counted from `i`. -/
structure Offers {α : Type} (s : State) (i : Nat) (choices : List (Choice Expression α))
    (options : List ChoiceOption) : Prop where
  ascending : options.Pairwise (·.index < ·.index)
  mem_iff : ∀ o, o ∈ options ↔
    ∃ k c, choices[k]? = some c ∧ s.admits c = .ok true ∧ o = ⟨c.text, i + k⟩

section Options

variable {α : Type} {s : State} {i : Nat} {c : Choice Expression α}
  {cs before after : List (Choice Expression α)} {options : List ChoiceOption}

theorem eligible_cons (s : State) (i : Nat) (c : Choice Expression α)
    (cs : List (Choice Expression α)) :
    eligible s i (c :: cs) = (do
      let holds ← s.admits c
      let rest ← eligible s (i + 1) cs
      return if holds then ⟨c.text, i⟩ :: rest else rest) := by
  obtain ⟨text, requirement, actions⟩ := c
  cases requirement <;> rfl

theorem eligible_eq_error {cause : EvaluationError} (i : Nat)
    (hbefore : ∀ b ∈ before, ∃ holds, s.admits b = .ok holds) (hc : s.admits c = .error cause) :
    eligible s i (before ++ c :: after) = .error cause := by
  induction before generalizing i with
  | nil =>
    rw [List.nil_append, eligible_cons, hc]
    rfl
  | cons b before ih =>
    obtain ⟨holds, hb⟩ := hbefore b List.mem_cons_self
    rw [List.cons_append, eligible_cons, hb, ih (i + 1) fun d hd => hbefore d (.tail b hd)]
    rfl

theorem exists_place_cons {o : ChoiceOption} :
    (∃ k d, (c :: cs)[k]? = some d ∧ s.admits d = .ok true ∧ o = ⟨d.text, i + k⟩) ↔
      s.admits c = .ok true ∧ o = ⟨c.text, i⟩ ∨
      ∃ k d, cs[k]? = some d ∧ s.admits d = .ok true ∧ o = ⟨d.text, i + 1 + k⟩ := by
  have hshift (k : Nat) : i + (k + 1) = i + 1 + k := by omega
  constructor
  · rintro ⟨k, d, hd, hholds, rfl⟩
    cases k with
    | zero =>
      cases hd
      exact .inl ⟨hholds, rfl⟩
    | succ k => exact .inr ⟨k, d, hd, hholds, by rw [hshift k]⟩
  · rintro (⟨hholds, rfl⟩ | ⟨k, d, hd, hholds, rfl⟩)
    · exact ⟨0, c, rfl, hholds, rfl⟩
    · exact ⟨k + 1, d, hd, hholds, by rw [hshift k]⟩

namespace Offers

theorem index_ge (h : Offers s i cs options) : ∀ o ∈ options, i ≤ o.index := by
  intro o ho
  obtain ⟨k, c, -, -, rfl⟩ := (h.mem_iff o).1 ho
  exact Nat.le_add_right i k

protected theorem nil : Offers s i ([] : List (Choice Expression α)) [] where
  ascending := .nil
  mem_iff := by simp

theorem open_cons (hc : s.admits c = .ok true) (h : Offers s (i + 1) cs options) :
    Offers s i (c :: cs) (⟨c.text, i⟩ :: options) where
  ascending := List.pairwise_cons.2 ⟨h.index_ge, h.ascending⟩
  mem_iff o := by
    rw [List.mem_cons, h.mem_iff, exists_place_cons]
    simp only [hc, true_and]

theorem locked_cons (hc : s.admits c = .ok false) (h : Offers s (i + 1) cs options) :
    Offers s i (c :: cs) options where
  ascending := h.ascending
  mem_iff o := by
    rw [h.mem_iff, exists_place_cons]
    simp [hc]

end Offers

theorem exists_offers (i : Nat) (h : ∀ c ∈ cs, ∃ holds, s.admits c = .ok holds) :
    ∃ options, eligible s i cs = .ok options ∧ Offers s i cs options := by
  induction cs generalizing i with
  | nil => exact ⟨[], rfl, .nil⟩
  | cons c cs ih =>
    obtain ⟨⟨holds, hc⟩, hcs⟩ := List.forall_mem_cons.1 h
    obtain ⟨options, heligible, hoptions⟩ := ih (i + 1) hcs
    rw [eligible_cons, hc, heligible]
    cases holds with
    | false => exact ⟨options, rfl, hoptions.locked_cons hc⟩
    | true => exact ⟨_, rfl, hoptions.open_cons hc⟩

end Options

variable (screen : Screen) (patience : Nat)

theorem Traced.runChoice_eq {i : Nat} {choices : List (Choice Expression (Action Expression))}
    {c : Choice Expression (Action Expression)} (hc : choices[i]? = some c) :
    Traced.runChoice screen patience i choices = Traced.runAll screen patience c.actions := by
  induction choices generalizing i with
  | nil => cases hc
  | cons d choices ih =>
    unfold Traced.runChoice
    cases i with
    | zero =>
      cases hc
      rfl
    | succ i => exact ih hc

section Prompts

variable {text : String} {icon : Option String}
  {choices : List (Choice Expression (Action Expression))} {w : World}
  {options : List ChoiceOption}

namespace Traced

theorem run_choices_fails {cause : EvaluationError}
    (h : eligible w.state 0 choices = .error cause) :
    run screen patience (.choices text icon choices) w = ([], .failed (.evaluation cause), w) := by
  unfold run
  simp only [bind, silent, Play.look, h]

theorem run_choices_none (h : eligible w.state 0 choices = .ok []) :
    run screen patience (.choices text icon choices) w = ([], .done .next, w) := by
  unfold run
  simp only [bind, silent, Play.look, h]
  rfl

theorem run_choices (h : eligible w.state 0 choices = .ok options) (hoptions : options ≠ []) :
    run screen patience (.choices text icon choices) w =
      (let prompt : ChoicePrompt := ⟨text, icon, options⟩
       let asked := { w with shown := w.shown ++ [.choices prompt] }
       match screen.chooses w.shown prompt with
       | none => ([], .suspended, asked)
       | some i =>
         if i ∈ prompt.offered then runChoice screen patience i choices asked
         else ([], .failed (.usage (.invalidChoice i prompt.offered)), asked)) := by
  obtain ⟨o, rest, rfl⟩ := List.exists_cons_of_ne_nil hoptions
  unfold run
  rw [bind_eq]
  simp only [silent, Play.look, h, List.isEmpty_cons, Bool.false_eq_true, if_false]
  rw [bind_eq]
  simp only [silent, Play.ask, List.nil_append]
  cases screen.chooses w.shown ⟨text, icon, o :: rest⟩ with
  | none => rfl
  | some i =>
    simp only
    split <;> rfl

end Traced

namespace Play

/-- A prompt with choices. What the choices require is checked first, in order and in the state as
it is; the first that cannot be checked is the error. Nobody is asked then, and nobody is asked if
no choice can be made. Otherwise exactly the choices that can be made are offered. An answer that is
not among them is an error, and one that is runs the actions of that choice and no others. -/
theorem choices_not_bypassed (text : String) (icon : Option String)
    (choices : List (Choice Expression (Action Expression))) (w : World) :
    (∀ before c after cause, choices = before ++ c :: after →
      (∀ b ∈ before, ∃ holds, w.state.admits b = .ok holds) → w.state.admits c = .error cause →
      run screen patience (.choices text icon choices) w = (.failed (.evaluation cause), w)) ∧
    ((∀ c ∈ choices, ∃ holds, w.state.admits c = .ok holds) → ∃ prompt : ChoicePrompt,
      prompt.text = text ∧ prompt.icon = icon ∧
      prompt.options.Pairwise (·.index < ·.index) ∧
      (∀ label i, ⟨label, i⟩ ∈ prompt.options ↔
        ∃ c, choices[i]? = some c ∧ c.text = label ∧ w.state.admits c = .ok true) ∧
      (prompt.offered = [] →
        run screen patience (.choices text icon choices) w = (.done .next, w)) ∧
      (prompt.offered ≠ [] → ∀ asked, asked = { w with shown := w.shown ++ [.choices prompt] } →
        (screen.chooses w.shown prompt = none →
          run screen patience (.choices text icon choices) w = (.suspended, asked)) ∧
        ∀ i, screen.chooses w.shown prompt = some i →
          (i ∉ prompt.offered → run screen patience (.choices text icon choices) w =
            (.failed (.usage (.invalidChoice i prompt.offered)), asked)) ∧
          (i ∈ prompt.offered → ∃ c, choices[i]? = some c ∧ w.state.admits c = .ok true ∧
            run screen patience (.choices text icon choices) w =
              runAll screen patience c.actions asked ∧
            (Traced.run screen patience (.choices text icon choices) w).1 =
              (Traced.runAll screen patience c.actions asked).1))) := by
  have huntraced := Traced.Of.run screen patience (.choices text icon choices) w
  refine ⟨?_, fun h => ?_⟩
  · rintro before c after cause rfl hbefore hc
    rw [← huntraced, Traced.run_choices_fails screen patience (eligible_eq_error 0 hbefore hc)]
  · obtain ⟨options, heligible, hoptions⟩ := exists_offers 0 h
    refine ⟨⟨text, icon, options⟩, rfl, rfl, hoptions.ascending, fun label i => ?_, ?_, ?_⟩
    · rw [hoptions.mem_iff]
      constructor
      · rintro ⟨k, c, hc, hholds, ho⟩
        rw [Nat.zero_add] at ho
        cases ho
        exact ⟨c, hc, rfl, hholds⟩
      · rintro ⟨c, hc, rfl, hholds⟩
        exact ⟨i, c, hc, hholds, by rw [Nat.zero_add]⟩
    · intro hnone
      cases List.map_eq_nil_iff.1 hnone
      rw [← huntraced, Traced.run_choices_none screen patience heligible]
    · rintro hsome asked rfl
      have htraced : Traced.run screen patience (.choices text icon choices) w = _ :=
        Traced.run_choices screen patience heligible fun hnone =>
          hsome (List.map_eq_nil_iff.2 hnone)
      refine ⟨fun hchosen => ?_, fun i hchosen => ⟨fun hi => ?_, fun hi => ?_⟩⟩
      · rw [← huntraced, htraced]
        simp only [hchosen]
      · rw [← huntraced, htraced]
        simp only [hchosen, hi, if_false]
      · simp only [hchosen, hi, if_true] at htraced
        obtain ⟨o, ho, rfl⟩ := List.mem_map.1 hi
        obtain ⟨k, c, hc, hholds, rfl⟩ := (hoptions.mem_iff o).1 ho
        simp only [Nat.zero_add] at htraced
        rw [Traced.runChoice_eq screen patience hc] at htraced
        refine ⟨c, by simpa using hc, hholds, ?_, ?_⟩
        · rw [← huntraced, htraced]
          exact Traced.Of.runAll screen patience c.actions _
        · rw [htraced]

end Play

end Prompts

/-! ### A guard who takes bribes -/

namespace Play

def outside : World where
  state :=
    { vars := (∅ : Variables).insert "gold" { value := 0.0 }
      random := .scripted [] 0 }

def gold : Condition Expression := .expression ⟨.text "gold", .name "gold", none⟩

def guard : List (Choice Expression (Action Expression)) :=
  [⟨"Bribe the guard", some gold, [.endGame (some "inside")]⟩,
   ⟨"Sneak past", some (.not gold), [.updateVariable ⟨"gold", .constant 1.0⟩]⟩]

def answering (i : Nat) : Screen := ⟨fun _ _ => true, fun _ _ => some i⟩

theorem choices_not_bypassed_guard :
    (∃ offered, 0 ∉ offered ∧
      (run (answering 0) 1 (.choices "Halt!" none guard) outside).1 =
        .failed (.usage (.invalidChoice 0 offered))) ∧
    ∃ asked, asked.state = outside.state ∧
      run (answering 1) 1 (.choices "Halt!" none guard) outside =
        runAll (answering 1) 1 [.updateVariable ⟨"gold", .constant 1.0⟩] asked := by
  have hbribe : outside.state.admits (guard[0]) = .ok false := rfl
  have hsneak : outside.state.admits (guard[1]) = .ok true := rfl
  have hchecked : ∀ c ∈ guard, ∃ holds, outside.state.admits c = .ok holds := by
    intro c hc
    simp only [guard, List.mem_cons, List.not_mem_nil, or_false] at hc
    rcases hc with rfl | rfl
    · exact ⟨_, hbribe⟩
    · exact ⟨_, hsneak⟩
  constructor
  · obtain ⟨prompt, -, -, -, hmem, -, hasked⟩ :=
      (choices_not_bypassed (answering 0) 1 "Halt!" none guard outside).2 hchecked
    have hlocked : 0 ∉ prompt.offered := by
      intro hoffered
      obtain ⟨⟨label, i⟩, ho, rfl⟩ := List.mem_map.1 hoffered
      obtain ⟨c, hc, -, hholds⟩ := (hmem label 0).1 ho
      cases hc
      cases hbribe.symm.trans hholds
    have hsome : prompt.offered ≠ [] :=
      List.ne_nil_of_mem (List.mem_map.2 ⟨_, (hmem "Sneak past" 1).2 ⟨_, rfl, rfl, hsneak⟩, rfl⟩)
    refine ⟨prompt.offered, hlocked, ?_⟩
    rw [((hasked hsome _ rfl).2 0 rfl).1 hlocked]
  · obtain ⟨prompt, -, -, -, hmem, -, hasked⟩ :=
      (choices_not_bypassed (answering 1) 1 "Halt!" none guard outside).2 hchecked
    have hopen : 1 ∈ prompt.offered :=
      List.mem_map.2 ⟨_, (hmem "Sneak past" 1).2 ⟨_, rfl, rfl, hsneak⟩, rfl⟩
    obtain ⟨c, hc, -, hrun, -⟩ :=
      ((hasked (List.ne_nil_of_mem hopen) _ rfl).2 1 rfl).2 hopen
    cases hc
    exact ⟨{ outside with shown := outside.shown ++ [.choices prompt] }, rfl, hrun⟩

end Play

end Scenario
