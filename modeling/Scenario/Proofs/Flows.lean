import Scenario.Proofs.Finales
import Scenario.Proofs.Parts

/-!
How lists of actions go on and stop. A list asks its surroundings for nothing but to go on or to
stop everything: a stop of a list ends the list that it stands in and no other, so that it can be
taken for the end of that list. A stop of everything is the last that is done, however deep it
stands.
-/

namespace Scenario

/-! ### Signals -/

namespace Action

/-- What an action tells its list when it is done, if nothing that stands in it tells otherwise. -/
def signal : Action Expression → Flow
  | .stop everywhere => if everywhere then .stopAll else .stopList
  | .endGame _ => .stopAll
  | _ => .next

def StopsAll (a : Action Expression) : Prop := a.signal = .stopAll

theorem signal_ne_stopList {a : Action Expression} (h : a ≠ .stop false) :
    a.signal ≠ .stopList := by
  cases a with
  | stop everywhere =>
    cases everywhere with
    | true => decide
    | false => exact absurd rfl h
  | _ => exact Flow.noConfusion

end Action

namespace Play

variable {screen : Screen} {patience : Nat}

theorem signal_of_bind {α : Type} {p : Play α} {flow flow' : Flow} {w w' : World}
    (h : (p >>= fun _ => pure flow') w = (.done flow, w')) : flow = flow' := by
  obtain ⟨a, w₁, -, hpure⟩ := bind_eq_done h
  exact (pure_eq_done hpure).1.symm

/-- Actions without parts give one signal in all worlds, unless they fail or wait for ever. -/
theorem signal_of_done {a : Action Expression} (ha : a.Plain ∨ ∃ outcome, a = .endGame outcome)
    {flow : Flow} {w w' : World} (h : run screen patience a w = (.done flow, w')) :
    flow = a.signal := by
  cases a with
  | randomMessage texts confirm icon =>
    unfold run at h
    split at h
    · exact (pure_eq_done h).1.symm
    · obtain ⟨roll, w₁, -, hshown⟩ := bind_eq_done h
      exact signal_of_bind hshown
  | stop everywhere => exact (pure_eq_done h).1.symm
  | updateVariable | setStatus | updateVariables =>
    unfold run at h
    obtain ⟨x, w₁, -, hchanged⟩ := bind_eq_done h
    exact signal_of_bind hchanged
  | updateVariableLimits id min max =>
    unfold run at h
    obtain ⟨min, w₁, -, hrest⟩ := bind_eq_done h
    obtain ⟨max, w₂, -, hchanged⟩ := bind_eq_done hrest
    exact signal_of_bind hchanged
  | message | endGame | giveItem | updateItemAmounts | triggerEvents | toggleEvents =>
    unfold run at h
    exact signal_of_bind h
  | choices | random | coinFlip | switch | loop => simp [Action.Plain] at ha

/-! ### Lists -/

theorem runAll_cons (a : Action Expression) (as : List (Action Expression)) (w : World) :
    runAll screen patience (a :: as) w =
      match run screen patience a w with
      | (.done .next, w) => runAll screen patience as w
      | (.done .stopList, w) => (.done .next, w)
      | (.done .stopAll, w) => (.done .stopAll, w)
      | (.failed e, w) => (.failed e, w)
      | (.suspended, w) => (.suspended, w)
      | (.exhausted, w) => (.exhausted, w) := by
  rw [runAll, bind_eq]
  rcases run screen patience a w with ⟨(flow | _ | _ | _), w'⟩
  · cases flow <;> rfl
  all_goals rfl

/-- Lists keep their stops to themselves. -/
theorem runAll_ne_stopList (as : List (Action Expression)) (w : World) :
    (runAll screen patience as w).1 ≠ .done .stopList := by
  induction as generalizing w with
  | nil => exact fun h => nomatch h
  | cons a as ih =>
    rw [runAll_cons]
    rcases run screen patience a w with ⟨(flow | _ | _ | _), w'⟩
    · cases flow with
      | next => exact ih w'
      | stopList => exact fun h => nomatch h
      | stopAll => exact fun h => nomatch h
    all_goals exact fun h => nomatch h

/-- A run that never asks for the end of the list that it stands in. -/
def StopsNoList (p : Play Flow) : Prop := ∀ w, (p w).1 ≠ .done .stopList

namespace StopsNoList

variable {α : Type}

theorem next : StopsNoList (pure .next) := fun _ h => nomatch h

theorem stopAll : StopsNoList (pure .stopAll) := fun _ h => nomatch h

theorem fail (e : Error) : StopsNoList (Play.fail e) := fun _ h => nomatch h

theorem exhausted : StopsNoList Play.exhausted := fun _ h => nomatch h

theorem runAll (as : List (Action Expression)) : StopsNoList (Play.runAll screen patience as) :=
  runAll_ne_stopList as

theorem bind {p : Play α} {f : α → Play Flow} (h : ∀ a, StopsNoList (f a)) :
    StopsNoList (p >>= f) := by
  intro w
  rw [bind_eq]
  rcases p w with ⟨(a | _ | _ | _), w'⟩
  · exact h a w'
  all_goals exact fun h => nomatch h

theorem runChoice (i : Nat) (cs : List (Choice Expression (Action Expression))) :
    StopsNoList (Play.runChoice screen patience i cs) := by
  induction cs generalizing i with
  | nil => exact next
  | cons c cs ih =>
    unfold Play.runChoice
    cases i with
    | zero => exact .runAll c.actions
    | succ i => exact ih i

theorem runGroup (i : Nat) (gs : List (Group Expression (Action Expression))) :
    StopsNoList (Play.runGroup screen patience i gs) := by
  induction gs generalizing i with
  | nil => exact next
  | cons g gs ih =>
    unfold Play.runGroup
    cases i with
    | zero => exact .runAll g.actions
    | succ i => exact ih i

theorem runSwitch (bs : List (Branch Expression (Action Expression))) :
    StopsNoList (Play.runSwitch screen patience bs) := by
  induction bs with
  | nil => exact next
  | cons b bs ih =>
    unfold Play.runSwitch
    apply bind
    intro holds
    split
    · exact .runAll b.actions
    · exact ih

theorem round {body next : Play Flow} (h : StopsNoList next) :
    StopsNoList (body >>= fun flow =>
      match flow with
      | .stopAll => return .stopAll
      | _ => next) := by
  apply bind
  intro flow
  split
  · exact stopAll
  · exact h

theorem rounds {last body : Play Flow} {stops : Play Bool} (hlast : StopsNoList last)
    (checkAtEnd : Bool) (n : Nat) : StopsNoList (Play.rounds last stops checkAtEnd body n) := by
  induction n with
  | zero => exact hlast
  | succ n ih =>
    have hagain : StopsNoList (stops >>= fun holds =>
        if holds then return .next else Play.rounds last stops checkAtEnd body n) := by
      apply bind
      intro holds
      split
      · exact next
      · exact ih
    unfold Play.rounds
    cases checkAtEnd with
    | true => exact round hagain
    | false =>
      apply bind
      intro holds
      split
      · exact next
      · exact round ih

end StopsNoList

/-- Only a stop of a list stops the list that it stands in: no stop inside another action does. -/
theorem run_ne_stopList {a : Action Expression} (h : a ≠ .stop false) (w : World) :
    (run screen patience a w).1 ≠ .done .stopList := by
  by_cases hplain : a.Plain ∨ ∃ outcome, a = .endGame outcome
  · intro hdone
    have hsignal : run screen patience a w = (.done .stopList, (run screen patience a w).2) :=
      Prod.ext hdone rfl
    exact Action.signal_ne_stopList h (signal_of_done hplain hsignal).symm
  · have hstops : StopsNoList (run screen patience a) := by
      cases a with
      | choices text icon cs =>
        unfold run
        apply StopsNoList.bind
        intro options
        split
        · exact .next
        · apply StopsNoList.bind
          intro i
          split
          · exact .runChoice i cs
          · exact .fail _
      | random gs =>
        unfold run
        exact StopsNoList.bind fun weights => .bind fun i => .runGroup i gs
      | coinFlip p success failure =>
        unfold run
        refine StopsNoList.bind fun p => StopsNoList.bind fun passed => ?_
        split
        · exact .runAll success
        · exact .runAll failure
      | switch bs =>
        unfold run
        exact StopsNoList.runSwitch bs
      | loop as stop maxIterations checkAtEnd =>
        unfold run
        split
        · exact StopsNoList.rounds .exhausted checkAtEnd patience
        · exact StopsNoList.rounds .next checkAtEnd maxIterations
      | endGame outcome => exact absurd (.inr ⟨outcome, rfl⟩) hplain
      | _ => exact absurd (.inl trivial) hplain
    exact hstops w

/-- Behind a list without a stop of its own, more actions run exactly if the list goes on. -/
theorem runAll_append {as : List (Action Expression)} (h : .stop false ∉ as)
    (bs : List (Action Expression)) :
    runAll screen patience (as ++ bs) = (do
      match ← runAll screen patience as with
      | .next => runAll screen patience bs
      | flow => return flow) := by
  funext w
  induction as generalizing w with
  | nil => rfl
  | cons a as ih =>
    rw [List.mem_cons, not_or] at h
    have hlist : (run screen patience a w).1 ≠ .done .stopList := run_ne_stopList (Ne.symm h.1) w
    rw [List.cons_append, runAll_cons, bind_eq, runAll_cons]
    rcases hrun : run screen patience a w with ⟨(flow | _ | _ | _), w'⟩
    · rw [hrun] at hlist
      cases flow with
      | next => exact ih h.2 w'
      | stopList => exact absurd rfl hlist
      | stopAll => rfl
    all_goals rfl

theorem runAll_stop (as bs : List (Action Expression)) :
    runAll screen patience (as ++ [.stop false] ++ bs) =
      runAll screen patience (as ++ [.stop false]) := by
  funext w
  induction as generalizing w with
  | nil => rfl
  | cons a as ih =>
    simp only [List.cons_append, runAll_cons, ih]

end Play

/-! ### Lists that are cut off -/

namespace Action

mutual

/-- The action with every list in it cut off at its first stop. -/
def cut : Action Expression → Action Expression
  | .choices text icon cs => .choices text icon (cutChoices cs)
  | .random gs => .random (cutGroups gs)
  | .coinFlip probability success failure =>
    .coinFlip probability (cutAll success) (cutAll failure)
  | .switch bs => .switch (cutBranches bs)
  | .loop as condition maxIterations checkAtEnd =>
    .loop (cutAll as) condition maxIterations checkAtEnd
  | a => a

def cutAll : List (Action Expression) → List (Action Expression)
  | [] => []
  | .stop false :: _ => []
  | a :: as => cut a :: cutAll as

def cutChoices : List (Choice Expression (Action Expression)) →
    List (Choice Expression (Action Expression))
  | [] => []
  | ⟨text, requirement, as⟩ :: cs => ⟨text, requirement, cutAll as⟩ :: cutChoices cs

def cutGroups : List (Group Expression (Action Expression)) →
    List (Group Expression (Action Expression))
  | [] => []
  | ⟨weight, as⟩ :: gs => ⟨weight, cutAll as⟩ :: cutGroups gs

def cutBranches : List (Branch Expression (Action Expression)) →
    List (Branch Expression (Action Expression))
  | [] => []
  | ⟨condition, as⟩ :: bs => ⟨condition, cutAll as⟩ :: cutBranches bs

end

theorem cutAll_cons {a : Action Expression} (h : a ≠ .stop false) (as : List (Action Expression)) :
    cutAll (a :: as) = a.cut :: cutAll as := by
  rw [cutAll]
  rintro rfl
  exact h rfl

theorem cutAll_append {as : List (Action Expression)} (h : .stop false ∉ as)
    (bs : List (Action Expression)) : cutAll (as ++ bs) = as.map cut ++ cutAll bs := by
  induction as with
  | nil => rfl
  | cons a as ih =>
    rw [List.mem_cons, not_or] at h
    rw [List.cons_append, cutAll_cons (Ne.symm h.1), ih h.2]
    rfl

mutual

/-- No stop of a list is left in what is cut off. -/
theorem stop_notMem_parts_cut : ∀ a : Action Expression, a ≠ .stop false →
    .stop false ∉ a.cut.parts
  | .choices _ _ cs, _ => by simpa [cut, parts] using stop_notMem_choicesParts_cut cs
  | .random gs, _ => by simpa [cut, parts] using stop_notMem_groupsParts_cut gs
  | .coinFlip _ success failure, _ => by
    simpa [cut, parts] using
      And.intro (stop_notMem_allParts_cut success) (stop_notMem_allParts_cut failure)
  | .switch bs, _ => by simpa [cut, parts] using stop_notMem_branchesParts_cut bs
  | .loop as _ _ _, _ => by simpa [cut, parts] using stop_notMem_allParts_cut as
  | .stop _, h => by simpa [cut, parts] using Ne.symm h
  | .message _, _ | .randomMessage _ _ _, _ | .endGame _, _ | .updateVariable _, _
  | .updateVariables _, _ | .updateVariableLimits _ _ _, _ | .giveItem _, _
  | .updateItemAmounts _, _ | .setStatus _ _, _ | .triggerEvents _, _ | .toggleEvents _ _, _ => by
    simp [cut, parts]

theorem stop_notMem_allParts_cut : ∀ as : List (Action Expression),
    .stop false ∉ allParts (cutAll as)
  | [] => by simp [cutAll, allParts]
  | a :: as => by
    by_cases h : a = .stop false
    · simp [h, cutAll, allParts]
    · have hfirst := stop_notMem_parts_cut a h
      have hrest := stop_notMem_allParts_cut as
      rw [cutAll_cons h, allParts, List.mem_append]
      exact not_or.2 ⟨hfirst, hrest⟩

theorem stop_notMem_choicesParts_cut : ∀ cs : List (Choice Expression (Action Expression)),
    .stop false ∉ choicesParts (cutChoices cs)
  | [] => by simp [cutChoices, choicesParts]
  | ⟨_, _, as⟩ :: cs => by
    simpa [cutChoices, choicesParts] using
      And.intro (stop_notMem_allParts_cut as) (stop_notMem_choicesParts_cut cs)

theorem stop_notMem_groupsParts_cut : ∀ gs : List (Group Expression (Action Expression)),
    .stop false ∉ groupsParts (cutGroups gs)
  | [] => by simp [cutGroups, groupsParts]
  | ⟨_, as⟩ :: gs => by
    simpa [cutGroups, groupsParts] using
      And.intro (stop_notMem_allParts_cut as) (stop_notMem_groupsParts_cut gs)

theorem stop_notMem_branchesParts_cut : ∀ bs : List (Branch Expression (Action Expression)),
    .stop false ∉ branchesParts (cutBranches bs)
  | [] => by simp [cutBranches, branchesParts]
  | ⟨_, as⟩ :: bs => by
    simpa [cutBranches, branchesParts] using
      And.intro (stop_notMem_allParts_cut as) (stop_notMem_branchesParts_cut bs)

end

end Action

theorem eligible_cut (s : State) (i : Nat) (cs : List (Choice Expression (Action Expression))) :
    eligible s i (Action.cutChoices cs) = eligible s i cs := by
  induction cs generalizing i with
  | nil => rfl
  | cons c cs ih => simp only [Action.cutChoices, eligible, ih]

namespace Play

variable (screen : Screen) (patience : Nat)

theorem weights_cut (s : State) (gs : List (Group Expression (Action Expression))) :
    (Action.cutGroups gs).mapM (fun g => s.eval g.weight) = gs.mapM fun g => s.eval g.weight := by
  induction gs with
  | nil => rfl
  | cons g gs ih => simp only [Action.cutGroups, List.mapM_cons, ih]

mutual

/-- What stands behind a stop of a list is of no account. -/
theorem run_cut : ∀ a : Action Expression, run screen patience a.cut = run screen patience a
  | .choices text icon cs => by
    simp only [Action.cut, run, eligible_cut, runChoice_cut]
  | .random gs => by
    simp only [Action.cut, run, weights_cut, runGroup_cut]
  | .coinFlip probability success failure => by
    simp only [Action.cut, run, runAll_cut success, runAll_cut failure]
  | .switch bs => by
    simp only [Action.cut, run, runSwitch_cut bs]
  | .loop as _ _ _ => by
    simp only [Action.cut, run, runAll_cut as]
  | .message _ | .randomMessage _ _ _ | .stop _ | .endGame _ | .updateVariable _
  | .updateVariables _ | .updateVariableLimits _ _ _ | .giveItem _ | .updateItemAmounts _
  | .setStatus _ _ | .triggerEvents _ | .toggleEvents _ _ => rfl

theorem runAll_cut : ∀ as : List (Action Expression),
    runAll screen patience (Action.cutAll as) = runAll screen patience as
  | [] => rfl
  | a :: as => by
    by_cases h : a = .stop false
    · subst h
      rfl
    · simp only [Action.cutAll_cons h, runAll, run_cut a, runAll_cut as]

theorem runChoice_cut (i : Nat) : ∀ cs : List (Choice Expression (Action Expression)),
    runChoice screen patience i (Action.cutChoices cs) = runChoice screen patience i cs
  | [] => rfl
  | ⟨_, _, as⟩ :: cs => by
    cases i with
    | zero => simp only [Action.cutChoices, runChoice, runAll_cut as]
    | succ i => simp only [Action.cutChoices, runChoice, runChoice_cut i cs]

theorem runGroup_cut (i : Nat) : ∀ gs : List (Group Expression (Action Expression)),
    runGroup screen patience i (Action.cutGroups gs) = runGroup screen patience i gs
  | [] => rfl
  | ⟨_, as⟩ :: gs => by
    cases i with
    | zero => simp only [Action.cutGroups, runGroup, runAll_cut as]
    | succ i => simp only [Action.cutGroups, runGroup, runGroup_cut i gs]

theorem runSwitch_cut : ∀ bs : List (Branch Expression (Action Expression)),
    runSwitch screen patience (Action.cutBranches bs) = runSwitch screen patience bs
  | [] => rfl
  | ⟨_, as⟩ :: bs => by
    simp only [Action.cutBranches, runSwitch, runAll_cut as, runSwitch_cut bs]

end

end Play

/-! ### Stops of everything -/

section Stops

variable {screen : Screen} {patience : Nat}

def Deed.StopsAll : Deed → Prop
  | .action a => a.StopsAll
  | .event _ => False

/-- Whether a run has come upon a stop of everything: if it has, that is the last that is done and
the run hands the stop on, leaving what the stop itself leaves; if it has not, it asks for no such
stop. -/
inductive Heeds (screen : Screen) (patience : Nat) :
    List Moment → Outcome Flow × World → Prop
  | on {trace : List Moment} {r : Outcome Flow × World}
    (hquiet : ∀ moment ∈ trace, ¬ moment.deed.StopsAll) (hflow : r.1 ≠ .done .stopAll) :
    Heeds screen patience trace r
  | stopped {before : List Moment} {a : Action Expression} {v v' : World}
    (hquiet : ∀ moment ∈ before, ¬ moment.deed.StopsAll) (ha : a.StopsAll)
    (hrun : Play.run screen patience a v = (.done .stopAll, v')) :
    Heeds screen patience (before ++ [⟨.action a, v⟩]) (.done .stopAll, v')

theorem Heeds.after {before trace : List Moment} {r : Outcome Flow × World}
    (h : Heeds screen patience trace r) (hquiet : ∀ moment ∈ before, ¬ moment.deed.StopsAll) :
    Heeds screen patience (before ++ trace) r := by
  cases h with
  | on hquiet' hflow => exact .on (List.forall_mem_append.2 ⟨hquiet, hquiet'⟩) hflow
  | stopped hquiet' ha hrun =>
    rw [← List.append_assoc]
    exact .stopped (List.forall_mem_append.2 ⟨hquiet, hquiet'⟩) ha hrun

def Heedful (screen : Screen) (patience : Nat) (t : Traced Flow) : Prop :=
  ∀ w : World, Heeds screen patience (t w).1 (t w).2

namespace Heedful

variable {α : Type}

theorem silent {p : Play Flow} (h : ∀ w, (p w).1 ≠ .done .stopAll) :
    Heedful screen patience (Traced.silent p) := fun w => .on (List.forall_mem_nil _) (h w)

theorem bind_silent {p : Play α} {next : α → Traced Flow}
    (h : ∀ a, Heedful screen patience (next a)) :
    Heedful screen patience (Traced.silent p >>= next) := by
  intro w
  rw [Traced.bind_eq, Traced.silent]
  rcases p w with ⟨(a | _ | _ | _), w'⟩
  · exact h a w'
  all_goals exact .on (List.forall_mem_nil _) (by simp)

theorem bind_flow {t : Traced Flow} {next : Flow → Traced Flow} (h : Heedful screen patience t)
    (hnext : Heedful screen patience (next .next))
    (hlist : Heedful screen patience (next .stopList)) (hall : next .stopAll = pure .stopAll) :
    Heedful screen patience (t >>= next) := by
  intro w
  have hw := h w
  rw [Traced.bind_eq]
  rcases ht : t w with ⟨trace, o, w'⟩
  rw [ht] at hw
  cases hw with
  | on hquiet hflow =>
    rcases o with ((_ | _ | _) | _ | _ | _)
    · exact (hnext w').after hquiet
    · exact (hlist w').after hquiet
    · exact absurd rfl hflow
    all_goals exact .on hquiet (by simp)
  | stopped hquiet ha hrun =>
    dsimp only
    rw [hall]
    change Heeds screen patience (_ ++ []) _
    rw [List.append_nil]
    exact .stopped hquiet ha hrun

variable (screen patience)

theorem run_of_stopsAll {a : Action Expression} (h : a.StopsAll) (w : World) :
    ∃ v, Play.run screen patience a w = (.done .stopAll, v) ∧
      Traced.run screen patience a w = ([], .done .stopAll, v) := by
  cases a with
  | stop everywhere =>
    cases everywhere with
    | true => exact ⟨w, rfl, rfl⟩
    | false => exact nomatch h
  | endGame outcome => exact ⟨w.endGame outcome, rfl, rfl⟩
  | _ => exact nomatch h

theorem hereditary :
    Traced.Hereditary screen patience Action.StopsAll (Heedful screen patience) where
  endGame outcome := rfl
  next := silent (p := pure .next) fun _ h => nomatch h
  plain {a} hplain hloud := by
    apply silent
    intro w hdone
    have hsignal : Play.run screen patience a w =
        (.done .stopAll, (Play.run screen patience a w).2) := Prod.ext hdone rfl
    exact hloud (Play.signal_of_done (.inl hplain) hsignal).symm
  fail cause := silent fun _ h => nomatch h
  exhausted := silent fun _ h => nomatch h
  look f _ h := bind_silent h
  chance hf _ h := bind_silent h
  ask prompt _ h := bind_silent h
  flow h hnext hlist hall := h.bind_flow hnext hlist hall
  begin {a next} ha hnext hlist hall := by
    intro w
    by_cases hstops : a.StopsAll
    · obtain ⟨v, hrun, htraced⟩ := run_of_stopsAll screen patience hstops w
      have hdone : (Traced.begin (.action a) >>= fun _ =>
          Traced.run screen patience a >>= next) w =
            ([] ++ [⟨.action a, w⟩], .done .stopAll, v) := by
        rw [Traced.bind_eq, Traced.begin]
        dsimp only
        rw [Traced.bind_eq, htraced]
        dsimp only
        rw [hall]
        rfl
      rw [hdone]
      exact .stopped (List.forall_mem_nil _) hstops hrun
    · have hgoes := (ha hstops).bind_flow hnext hlist hall
      have hbegun : ∀ moment ∈ [(⟨.action a, w⟩ : Moment)], ¬ moment.deed.StopsAll := by
        simpa [Deed.StopsAll] using hstops
      exact (hgoes w).after hbegun

end Heedful

end Stops

namespace Play

/-- Control flow is compositional. A list never asks for the end of the list around it. A stop of a
list ends just that list: nothing behind it is of any account; a list without one hands over to what
is appended exactly if it goes on; no action but the stop itself asks its list to stop, and cutting
off every list at its first stop, at any depth, leaves no such stop and the same run. A stop of
everything and the end of the game are the last that is done, at whatever depth they stand, and the
outermost list stops everything. -/
theorem runAll_compositional (screen : Screen) (patience : Nat) :
    (∀ as w, (runAll screen patience as w).1 ≠ .done .stopList) ∧
    (∀ as bs, runAll screen patience (as ++ [.stop false] ++ bs) =
      runAll screen patience (as ++ [.stop false])) ∧
    (∀ as, .stop false ∉ as → ∀ bs, runAll screen patience (as ++ bs) = (do
      match ← runAll screen patience as with
      | .next => runAll screen patience bs
      | flow => return flow)) ∧
    (∀ a, a ≠ .stop false → ∀ w, (run screen patience a w).1 ≠ .done .stopList) ∧
    (∀ as, runAll screen patience (Action.cutAll as) = runAll screen patience as ∧
      .stop false ∉ Action.allParts (Action.cutAll as) ∧
      (.stop false ∉ as → ∀ bs,
        Action.cutAll (as ++ bs) = as.map Action.cut ++ Action.cutAll bs)) ∧
    ∀ as w, (Traced.runAll screen patience as w).2 = runAll screen patience as w ∧
      ((runAll screen patience as w).1 = .done .stopAll ↔
        ∃ moment ∈ (Traced.runAll screen patience as w).1, moment.deed.StopsAll) ∧
      ∀ moment ∈ (Traced.runAll screen patience as w).1, moment.deed.StopsAll →
        ∃ before a v', moment.deed = .action a ∧
          (Traced.runAll screen patience as w).1 = before ++ [moment] ∧
          (∀ earlier ∈ before, ¬ earlier.deed.StopsAll) ∧
          run screen patience a moment.world = (.done .stopAll, v') ∧
          runAll screen patience as w = (.done .stopAll, v') := by
  refine ⟨runAll_ne_stopList, runAll_stop, fun as => runAll_append, fun a => run_ne_stopList,
    fun as => ⟨runAll_cut screen patience as, Action.stop_notMem_allParts_cut as,
      Action.cutAll_append⟩, fun as w => ?_⟩
  have htraced := Traced.Of.runAll screen patience as w
  have hheeds := (Heedful.hereditary screen patience).runAll as w
  -- From here on the run is what is left of the traced one when the trace is forgotten.
  rw [← htraced]
  refine ⟨rfl, ?_⟩
  generalize Traced.runAll screen patience as w = r at hheeds
  obtain ⟨trace, r⟩ := r
  cases hheeds with
  | on hquiet hflow =>
    refine ⟨⟨fun h => absurd h hflow, ?_⟩, ?_⟩
    · rintro ⟨moment, hmoment, hstops⟩
      exact absurd hstops (hquiet moment hmoment)
    · intro moment hmoment hstops
      exact absurd hstops (hquiet moment hmoment)
  | @stopped before a v v' hquiet ha hrun =>
    have hlast : (⟨.action a, v⟩ : Moment) ∈ before ++ [⟨.action a, v⟩] := by simp
    refine ⟨⟨fun _ => ⟨_, hlast, ha⟩, fun _ => rfl⟩, ?_⟩
    intro moment hmoment hstops
    rcases List.mem_append.1 hmoment with hbefore | hmoment
    · exact absurd hstops (hquiet moment hbefore)
    · cases List.mem_singleton.1 hmoment
      exact ⟨before, a, v', rfl, rfl, hquiet, hrun, rfl⟩

/-! ### An interlude -/

/-- A coin that always falls on a list with a stop of its own. -/
def interlude : List (Action Expression) :=
  [.coinFlip (.constant 1.0) [.stop false, .message { text := "Never!" }] []]

/-- What follows the interlude is a stop of everything, and more that is not done. -/
def curtain : List (Action Expression) := [.stop true, .message { text := "Too late!" }]

def overture : World := (Engine.new {}).world

theorem runAll_compositional_interlude :
    .stop false ∉ interlude ∧
      runAll quiet 1 (interlude ++ curtain) = (do
        match ← runAll quiet 1 interlude with
        | .next => runAll quiet 1 curtain
        | flow => return flow) ∧
      Action.cutAll (interlude ++ curtain) = .coinFlip (.constant 1.0) [] [] :: curtain ∧
      (runAll quiet 1 interlude overture).1 = .done .next ∧
      ∃ before moment v',
        (Traced.runAll quiet 1 (interlude ++ curtain) overture).1 = before ++ [moment] ∧
        moment.deed = .action (.stop true) ∧
        runAll quiet 1 (interlude ++ curtain) overture = (.done .stopAll, v') := by
  obtain ⟨-, -, happend, -, hcut, htrace⟩ := runAll_compositional quiet 1
  have hown : .stop false ∉ interlude := by simp [interlude]
  obtain ⟨moment, hlast, hdeed⟩ : ∃ moment,
      (Traced.runAll quiet 1 (interlude ++ curtain) overture).1.getLast? = some moment ∧
        moment.deed = .action (.stop true) := ⟨_, rfl, rfl⟩
  have hstops : moment.deed.StopsAll := hdeed ▸ rfl
  obtain ⟨-, -, hfinal⟩ := htrace (interlude ++ curtain) overture
  obtain ⟨before, a, v', -, hends, -, -, hrun⟩ :=
    hfinal moment (List.mem_of_getLast? hlast) hstops
  exact ⟨hown, happend interlude hown curtain, (hcut interlude).2.2 hown curtain, rfl,
    before, moment, v', hends, hdeed, hrun⟩

end Play

end Scenario
