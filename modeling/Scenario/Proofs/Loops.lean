import Scenario.Proofs.Flows
import Scenario.Proofs.Rounds

/-!
That loops end. Patience is nothing but a bound on the rounds of loops without a limit: what ends
with some patience ends the same with more, and trees in which every loop has a limit need none.
-/

namespace Scenario

namespace Play

/-! ### Patience -/

/-- What ends in the first run ends the same in the second, if not for want of patience. -/
def Outlasts {α : Type} (p q : Play α) : Prop := ∀ w, (p w).1 ≠ .exhausted → q w = p w

namespace Outlasts

variable {α β : Type}

theorem refl (p : Play α) : Outlasts p p := fun _ _ => rfl

theorem exhausted (q : Play α) : Outlasts Play.exhausted q := fun _ h => absurd rfl h

theorem bind {p q : Play α} {f g : α → Play β} (h : Outlasts p q)
    (h' : ∀ a, Outlasts (f a) (g a)) : Outlasts (p >>= f) (q >>= g) := by
  intro w hw
  have hfirst := h w
  rw [bind_eq] at hw ⊢
  rw [bind_eq]
  rcases hp : p w with ⟨(a | _ | _ | _), w'⟩
  · rw [hp] at hfirst hw
    rw [hfirst (by simp)]
    exact h' a w' hw
  · rw [hp] at hfirst
    rw [hfirst (by simp)]
  · rw [hp] at hfirst
    rw [hfirst (by simp)]
  · rw [hp] at hw
    exact absurd rfl hw

theorem afterRounds? {body body' : Play Flow} (h : Outlasts body body') {n : Nat} {w v : World}
    (hv : Play.afterRounds? body n w = some v) : Play.afterRounds? body' n w = some v := by
  induction n generalizing v with
  | zero => exact hv
  | succ n ih =>
    obtain ⟨u, hu, hround⟩ := Option.bind_eq_some_iff.1 hv
    rw [Play.afterRounds?, ih hu]
    have hfull := h u
    unfold fullRound? at hround
    change fullRound? body' u = some v
    unfold fullRound?
    rcases hbody : body u with ⟨(flow | _ | _ | _), u'⟩
    · rw [hbody] at hfull hround
      rw [hfull (by simp)]
      exact hround
    all_goals
      rw [hbody] at hround
      cases hround

theorem rounds {last last' body body' : Play Flow} {stops : Play Bool} {checkAtEnd : Bool}
    {more : Nat} (hlast : Outlasts last (Play.rounds last' stops checkAtEnd body' more))
    (hbody : Outlasts body body') (n : Nat) :
    Outlasts (Play.rounds last stops checkAtEnd body n)
      (Play.rounds last' stops checkAtEnd body' (n + more)) := by
  induction n with
  | zero => rwa [Nat.zero_add]
  | succ n ih =>
    have hagain : Outlasts
        (stops >>= fun holds =>
          if holds then return .next else Play.rounds last stops checkAtEnd body n)
        (stops >>= fun holds =>
          if holds then return .next else Play.rounds last' stops checkAtEnd body' (n + more)) := by
      apply (refl stops).bind
      intro holds
      split
      · exact refl _
      · exact ih
    rw [Nat.add_right_comm]
    unfold Play.rounds
    cases checkAtEnd with
    | true =>
      apply hbody.bind
      intro flow
      cases flow with
      | next => exact hagain
      | stopList => exact hagain
      | stopAll => exact refl _
    | false =>
      apply (refl stops).bind
      intro holds
      cases holds with
      | true => exact refl _
      | false =>
        apply hbody.bind
        intro flow
        cases flow with
        | next => exact ih
        | stopList => exact ih
        | stopAll => exact refl _

section Ends

variable {stop : Option (Condition Expression)} {checkAtEnd : Bool} {limit : Option Nat}
  {body body' : Play Flow} {w v : World} {n : Nat}

theorem reaches (h : Outlasts body body') (hv : Reaches stop checkAtEnd body limit w n v) :
    Reaches stop checkAtEnd body' limit w n v where
  rounds := h.afterRounds? hv.rounds
  open_ i hi u hu := by
    obtain ⟨u', hu'⟩ := afterRounds?_of_le (Nat.le_of_lt hi) hv.rounds
    cases hu.symm.trans (h.afterRounds? hu')
    exact hv.open_ i hi u hu'
  within := hv.within

theorem ends (h : Outlasts body body') {r : Outcome Flow × World}
    (hends : Ends stop checkAtEnd body limit w n r) (hr : r.1 ≠ .exhausted) :
    Ends stop checkAtEnd body' limit w n r := by
  cases hends with
  | stopped hv hcheck => exact .stopped (h.reaches hv) hcheck
  | unchecked hv hcheck => exact .unchecked (h.reaches hv) hcheck
  | limited hv hcheck hlimit => exact .limited (h.reaches hv) hcheck hlimit
  | @broken v hv hcheck hlimit hround =>
    have hsame : body' v = body v := h v hr
    rw [← hsame]
    exact .broken (h.reaches hv) hcheck hlimit (by rwa [fullRound?, hsame])

end Ends

variable (screen : Screen) {patience patience' : Nat}

mutual

theorem run (hle : patience ≤ patience') : ∀ a : Action Expression,
    Outlasts (Play.run screen patience a) (Play.run screen patience' a)
  | .choices text icon cs => by
    have htaken := fun i => runChoice hle i cs
    unfold Play.run
    apply (refl _).bind
    intro options
    split
    · exact refl _
    · apply (refl _).bind
      intro i
      split
      · exact htaken i
      · exact refl _
  | .random gs => by
    have htaken := fun i => runGroup hle i gs
    unfold Play.run
    exact (refl _).bind fun weights => (refl _).bind htaken
  | .coinFlip probability success failure => by
    have hsuccess := runAll hle success
    have hfailure := runAll hle failure
    unfold Play.run
    refine (refl _).bind fun p => (refl _).bind fun passed => ?_
    split
    · exact hsuccess
    · exact hfailure
  | .switch bs => by
    unfold Play.run
    exact runSwitch hle bs
  | .loop as stop maxIterations checkAtEnd => by
    have hbody := runAll hle as
    unfold Play.run
    split
    · have hrounds := rounds (exhausted (Play.rounds Play.exhausted (stops stop) checkAtEnd
        (Play.runAll screen patience' as) (patience' - patience))) hbody patience
      rwa [Nat.add_sub_cancel' hle] at hrounds
    · have hlast : Outlasts (Pure.pure .next) (Play.rounds (Pure.pure .next) (stops stop) checkAtEnd
          (Play.runAll screen patience' as) 0) := refl _
      exact rounds hlast hbody maxIterations
  | .message _ | .randomMessage _ _ _ | .stop _ | .endGame _ | .updateVariable _
  | .updateVariables _ | .updateVariableLimits _ _ _ | .giveItem _ | .updateItemAmounts _
  | .setStatus _ _ | .triggerEvents _ | .toggleEvents _ _ => by
    unfold Play.run
    exact refl _

theorem runAll (hle : patience ≤ patience') : ∀ as : List (Action Expression),
    Outlasts (Play.runAll screen patience as) (Play.runAll screen patience' as)
  | [] => by
    unfold Play.runAll
    exact refl _
  | a :: as => by
    have hrest := runAll hle as
    unfold Play.runAll
    apply (run hle a).bind
    intro flow
    cases flow with
    | next => exact hrest
    | stopList => exact refl _
    | stopAll => exact refl _

theorem runChoice (hle : patience ≤ patience') (i : Nat) :
    ∀ cs : List (Choice Expression (Action Expression)),
      Outlasts (Play.runChoice screen patience i cs) (Play.runChoice screen patience' i cs)
  | [] => by
    unfold Play.runChoice
    exact refl _
  | ⟨_, _, as⟩ :: cs => by
    have htaken := runAll hle as
    have hrest := fun i => runChoice hle i cs
    unfold Play.runChoice
    cases i with
    | zero => exact htaken
    | succ i => exact hrest i

theorem runGroup (hle : patience ≤ patience') (i : Nat) :
    ∀ gs : List (Group Expression (Action Expression)),
      Outlasts (Play.runGroup screen patience i gs) (Play.runGroup screen patience' i gs)
  | [] => by
    unfold Play.runGroup
    exact refl _
  | ⟨_, as⟩ :: gs => by
    have htaken := runAll hle as
    have hrest := fun i => runGroup hle i gs
    unfold Play.runGroup
    cases i with
    | zero => exact htaken
    | succ i => exact hrest i

theorem runSwitch (hle : patience ≤ patience') :
    ∀ bs : List (Branch Expression (Action Expression)),
      Outlasts (Play.runSwitch screen patience bs) (Play.runSwitch screen patience' bs)
  | [] => by
    unfold Play.runSwitch
    exact refl _
  | ⟨_, as⟩ :: bs => by
    have htaken := runAll hle as
    have hrest := runSwitch hle bs
    unfold Play.runSwitch
    apply (refl _).bind
    intro holds
    split
    · exact htaken
    · exact hrest

end

end Outlasts

end Play

/-! ### Trees with limits -/

/-- A screen that answers whatever it is asked. -/
structure Screen.Answers (screen : Screen) : Prop where
  acknowledges : ∀ shown message, screen.acknowledges shown message = true
  chooses : ∀ shown prompt, (screen.chooses shown prompt).isSome

def Action.Limited {ε : Type} : Action ε → Prop
  | .loop _ _ maxIterations _ => 0 < maxIterations
  | _ => True

namespace Play

variable (screen : Screen)

/-- A run that comes to an end without any patience, if the screen answers. -/
def Returns {α : Type} (p : Play α) : Prop :=
  ∀ w, (p w).1 ≠ .exhausted ∧ (screen.Answers → (p w).1 ≠ .suspended)

namespace Returns

variable {screen} {α β : Type}

theorem pure (a : α) : Returns screen (pure a) := fun _ => ⟨nofun, fun _ => nofun⟩

theorem fail (e : Error) : Returns screen (Play.fail (α := α) e) := fun _ => ⟨nofun, fun _ => nofun⟩

theorem look (f : State → Except EvaluationError α) : Returns screen (Play.look f) := by
  intro w
  unfold Play.look
  cases f w.state <;> exact ⟨nofun, fun _ => nofun⟩

theorem change (f : State → Except EvaluationError State) : Returns screen (Play.change f) := by
  intro w
  unfold Play.change
  cases f w.state <;> exact ⟨nofun, fun _ => nofun⟩

theorem chance (f : RandomSource → Except EvaluationError α × RandomSource) :
    Returns screen (Play.chance f) := by
  intro w
  unfold Play.chance
  rcases f w.state.random with ⟨_ | _, _⟩ <;> exact ⟨nofun, fun _ => nofun⟩

theorem display (message : Message) : Returns screen (Play.display screen message) := by
  intro w
  unfold Play.display
  cases hack : screen.acknowledges w.shown message with
  | true => exact ⟨nofun, fun _ => nofun⟩
  | false =>
    refine ⟨nofun, fun hanswers => ?_⟩
    cases hack.symm.trans (hanswers.acknowledges w.shown message)

theorem ask (prompt : ChoicePrompt) : Returns screen (Play.ask screen prompt) := by
  intro w
  unfold Play.ask
  cases hchosen : screen.chooses w.shown prompt with
  | some i => exact ⟨nofun, fun _ => nofun⟩
  | none =>
    refine ⟨nofun, fun hanswers => ?_⟩
    have hsome := hanswers.chooses w.shown prompt
    rw [hchosen] at hsome
    cases hsome

theorem bind {p : Play α} {f : α → Play β} (h : Returns screen p)
    (h' : ∀ a, Returns screen (f a)) : Returns screen (p >>= f) := by
  intro w
  have hfirst := h w
  rw [bind_eq]
  rcases hp : p w with ⟨(a | _ | _ | _), w'⟩
  · exact h' a w'
  · exact ⟨nofun, fun _ => nofun⟩
  · rw [hp] at hfirst
    exact ⟨nofun, fun hanswers => absurd rfl (hfirst.2 hanswers)⟩
  · rw [hp] at hfirst
    exact absurd rfl hfirst.1

theorem forM {f : α → Play PUnit} (h : ∀ a, Returns screen (f a)) (as : List α) :
    Returns screen (as.forM f) := by
  induction as with
  | nil => exact pure _
  | cons a as ih => exact (h a).bind fun _ => ih

theorem stops (stop : Option (Condition Expression)) : Returns screen (Play.stops stop) := by
  cases stop with
  | none => exact pure _
  | some condition => exact look _

theorem rounds {body : Play Flow} {stops : Play Bool} {checkAtEnd : Bool}
    (hbody : Returns screen body) (hstops : Returns screen stops) (n : Nat) :
    Returns screen (Play.rounds (return .next) stops checkAtEnd body n) := by
  induction n with
  | zero => exact pure _
  | succ n ih =>
    have hagain : Returns screen (stops >>= fun holds =>
        if holds then return .next
        else Play.rounds (return .next) stops checkAtEnd body n) := by
      apply hstops.bind
      intro holds
      split
      · exact pure _
      · exact ih
    unfold Play.rounds
    cases checkAtEnd with
    | true =>
      apply hbody.bind
      intro flow
      cases flow with
      | next => exact hagain
      | stopList => exact hagain
      | stopAll => exact pure _
    | false =>
      apply hstops.bind
      intro holds
      cases holds with
      | true => exact pure _
      | false =>
        apply hbody.bind
        intro flow
        cases flow with
        | next => exact ih
        | stopList => exact ih
        | stopAll => exact pure _

theorem give (amount : ItemAmount Expression) : Returns screen (Play.give amount) :=
  (look _).bind fun _ => change _

theorem request (r : TriggerRequest Expression) : Returns screen (Play.request r) :=
  (look _).bind fun _ => change _

variable (screen) (patience : Nat)

mutual

theorem run : ∀ a : Action Expression, (∀ b ∈ a.parts, b.Limited) →
    Returns screen (Play.run screen patience a)
  | .choices text icon cs, h => by
    have htaken := fun i => runChoice i cs fun b hb => h b (by simp [Action.parts, hb])
    unfold Play.run
    apply (look _).bind
    intro options
    split
    · exact pure _
    · apply (ask _).bind
      intro i
      split
      · exact htaken i
      · exact fail _
  | .random gs, h => by
    have htaken := fun i => runGroup i gs fun b hb => h b (by simp [Action.parts, hb])
    unfold Play.run
    exact (look _).bind fun weights => (chance _).bind htaken
  | .coinFlip probability success failure, h => by
    have hsuccess := runAll success fun b hb => h b (by simp [Action.parts, hb])
    have hfailure := runAll failure fun b hb => h b (by simp [Action.parts, hb])
    unfold Play.run
    refine (look _).bind fun p => (chance _).bind fun passed => ?_
    split
    · exact hsuccess
    · exact hfailure
  | .switch bs, h => by
    unfold Play.run
    exact runSwitch bs fun b hb => h b (by simp [Action.parts, hb])
  | .loop as stop maxIterations checkAtEnd, h => by
    have hbody := runAll as fun b hb => h b (by simp [Action.parts, hb])
    have hlimit : 0 < maxIterations := h _ (Action.mem_parts_self _)
    unfold Play.run
    rw [if_neg (by omega)]
    exact rounds hbody (stops stop) maxIterations
  | .message m, _ => by
    unfold Play.run
    exact (display m).bind fun _ => pure _
  | .randomMessage texts confirm icon, _ => by
    unfold Play.run
    split
    · exact pure _
    · exact (chance _).bind fun _ => (display _).bind fun _ => pure _
  | .stop everywhere, _ => by
    unfold Play.run
    exact pure _
  | .endGame outcome, _ => by
    unfold Play.run
    exact (change _).bind fun _ => pure _
  | .updateVariable update, _ => by
    unfold Play.run
    exact (look _).bind fun _ => (change _).bind fun _ => pure _
  | .updateVariables updates, _ => by
    unfold Play.run
    exact (look _).bind fun _ => (forM (fun _ => change _) _).bind fun _ => pure _
  | .updateVariableLimits id min max, _ => by
    unfold Play.run
    exact (look _).bind fun _ => (look _).bind fun _ => (change _).bind fun _ => pure _
  | .giveItem amount, _ => by
    unfold Play.run
    exact (give amount).bind fun _ => pure _
  | .updateItemAmounts amounts, _ => by
    unfold Play.run
    exact (forM give amounts).bind fun _ => pure _
  | .setStatus status duration, _ => by
    unfold Play.run
    exact (look _).bind fun _ => (change _).bind fun _ => pure _
  | .triggerEvents requests, _ => by
    unfold Play.run
    exact (forM request requests).bind fun _ => pure _
  | .toggleEvents enabled events, _ => by
    unfold Play.run
    exact (forM (fun _ => change _) events).bind fun _ => pure _

theorem runAll : ∀ as : List (Action Expression), (∀ b ∈ Action.allParts as, b.Limited) →
    Returns screen (Play.runAll screen patience as)
  | [], _ => by
    unfold Play.runAll
    exact pure _
  | a :: as, h => by
    have hfirst := run a fun b hb => h b (by simp [Action.allParts, hb])
    have hrest := runAll as fun b hb => h b (by simp [Action.allParts, hb])
    unfold Play.runAll
    apply hfirst.bind
    intro flow
    cases flow with
    | next => exact hrest
    | stopList => exact pure _
    | stopAll => exact pure _

theorem runChoice (i : Nat) : ∀ cs : List (Choice Expression (Action Expression)),
    (∀ b ∈ Action.choicesParts cs, b.Limited) → Returns screen (Play.runChoice screen patience i cs)
  | [], _ => by
    unfold Play.runChoice
    exact pure _
  | ⟨_, _, as⟩ :: cs, h => by
    have htaken := runAll as fun b hb => h b (by simp [Action.choicesParts, hb])
    have hrest := fun i => runChoice i cs fun b hb => h b (by simp [Action.choicesParts, hb])
    unfold Play.runChoice
    cases i with
    | zero => exact htaken
    | succ i => exact hrest i

theorem runGroup (i : Nat) : ∀ gs : List (Group Expression (Action Expression)),
    (∀ b ∈ Action.groupsParts gs, b.Limited) → Returns screen (Play.runGroup screen patience i gs)
  | [], _ => by
    unfold Play.runGroup
    exact pure _
  | ⟨_, as⟩ :: gs, h => by
    have htaken := runAll as fun b hb => h b (by simp [Action.groupsParts, hb])
    have hrest := fun i => runGroup i gs fun b hb => h b (by simp [Action.groupsParts, hb])
    unfold Play.runGroup
    cases i with
    | zero => exact htaken
    | succ i => exact hrest i

theorem runSwitch : ∀ bs : List (Branch Expression (Action Expression)),
    (∀ b ∈ Action.branchesParts bs, b.Limited) → Returns screen (Play.runSwitch screen patience bs)
  | [], _ => by
    unfold Play.runSwitch
    exact pure _
  | ⟨_, as⟩ :: bs, h => by
    have htaken := runAll as fun b hb => h b (by simp [Action.branchesParts, hb])
    have hrest := runSwitch bs fun b hb => h b (by simp [Action.branchesParts, hb])
    unfold Play.runSwitch
    apply (look _).bind
    intro holds
    split
    · exact htaken
    · exact hrest

end

end Returns

/-- Without loops that have no limit patience is of no account. -/
theorem runAll_eq_of_limited {as : List (Action Expression)}
    (h : ∀ b ∈ Action.allParts as, b.Limited) (patience patience' : Nat) :
    runAll screen patience as = runAll screen patience' as := by
  funext w
  rcases Nat.le_total patience patience' with hle | hle
  · exact (Outlasts.runAll screen hle as w (Returns.runAll screen patience as h w).1).symm
  · exact Outlasts.runAll screen hle as w (Returns.runAll screen patience' as h w).1

/-- A round ends at the first stop of the list that it runs. -/
theorem runAll_stopped {as : List (Action Expression)} (h : .stop false ∉ as) (patience : Nat)
    (bs : List (Action Expression)) :
    runAll screen patience (as ++ [.stop false] ++ bs) = runAll screen patience as := by
  funext w
  rw [List.append_assoc, runAll_append h, bind_eq]
  rcases runAll screen patience as w with ⟨(flow | _ | _ | _), w'⟩
  · cases flow <;> rfl
  all_goals rfl

/-- Loops go on until something ends them, and never further. With a limit there is exactly one
number of rounds behind which the loop ends, and one result. So it is without a limit whenever
something ends the loop, given patience for one more round. A counter of 32 bits that cannot pass
its highest number counts the same rounds, even up to that number. A stop of the body's own list
ends its round and nothing else. Actions in which every loop has a limit come to an end whatever
happens, in front of a screen that answers, and no patience changes it. -/
theorem run_loop (screen : Screen) (patience : Nat) (as : List (Action Expression))
    (stop : Option (Condition Expression)) (checkAtEnd : Bool) :
    (∀ cap > 0, ∀ w, ∃ k,
      Ends stop checkAtEnd (runAll screen patience as) (some cap) w k
        (run screen patience (.loop as stop cap checkAtEnd) w) ∧
      ∀ k' r, Ends stop checkAtEnd (runAll screen patience as) (some cap) w k' r →
        k' = k ∧ r = run screen patience (.loop as stop cap checkAtEnd) w) ∧
    (∀ w k r, Ends stop checkAtEnd (runAll screen patience as) none w k r → r.1 ≠ .exhausted →
      ∀ patience' ≥ patience, k < patience' →
        run screen patience' (.loop as stop 0 checkAtEnd) w = r) ∧
    (∀ w, (run screen patience (.loop as stop 0 checkAtEnd) w).1 ≠ .exhausted →
      ∃ k, Ends stop checkAtEnd (runAll screen patience as) none w k
        (run screen patience (.loop as stop 0 checkAtEnd) w)) ∧
    (∀ cap > 0, cap ≤ 4294967295 → ∀ fuel > cap,
      run screen patience (.loop as stop cap checkAtEnd) =
        counted (stops stop) checkAtEnd (runAll screen patience as) cap fuel 0) ∧
    run screen patience (.loop as stop 0 checkAtEnd) =
      counted (stops stop) checkAtEnd (runAll screen patience as) 0 patience 0 ∧
    (.stop false ∉ as → ∀ bs cap,
      run screen patience (.loop (as ++ [.stop false] ++ bs) stop cap checkAtEnd) =
        run screen patience (.loop as stop cap checkAtEnd)) ∧
    ((∀ a ∈ Action.allParts as, a.Limited) → ∀ w,
      (runAll screen patience as w).1 ≠ .exhausted ∧
      (screen.Answers → (runAll screen patience as w).1 ≠ .suspended) ∧
      ∀ patience', runAll screen patience' as w = runAll screen patience as w) := by
  have hlimited (cap : Nat) (hcap : 0 < cap) : run screen patience (.loop as stop cap checkAtEnd) =
      rounds (pure .next) (stops stop) checkAtEnd (runAll screen patience as) cap := by
    rw [run, if_neg (Nat.ne_of_gt hcap)]
  have hunlimited (patience : Nat) : run screen patience (.loop as stop 0 checkAtEnd) =
      rounds exhausted (stops stop) checkAtEnd (runAll screen patience as) patience := by
    rw [run, if_pos rfl]
  refine ⟨?_, ?_, ?_, ?_, ?_, ?_, ?_⟩
  · intro cap hcap w
    obtain ⟨k, hends⟩ := rounds_limited stop checkAtEnd (runAll screen patience as) cap w
    rw [hlimited cap hcap]
    refine ⟨k, hends, ?_⟩
    intro k' r h
    obtain ⟨rfl, rfl⟩ := h.unique hends
    exact ⟨rfl, rfl⟩
  · intro w k r h hr patience' hle hlt
    have hends := (Outlasts.runAll screen hle as).ends h hr
    rw [hunlimited]
    obtain ⟨k', hends'⟩ | ⟨-, hlate⟩ :=
      rounds_unlimited stop checkAtEnd (runAll screen patience' as) patience' w
    · exact (hends'.unique hends).2
    · exact absurd hlt (Nat.not_lt_of_le (hlate k r hends))
  · intro w h
    rw [hunlimited] at h ⊢
    obtain hends | ⟨hexhausted, -⟩ :=
      rounds_unlimited stop checkAtEnd (runAll screen patience as) patience w
    · exact hends
    · exact absurd hexhausted h
  · intro cap hcap hhighest fuel hfuel
    rw [hlimited cap hcap, counted_of_cap hcap hhighest (Nat.zero_le _) hfuel, Nat.sub_zero]
  · rw [hunlimited, counted_zero]
  · intro hstop bs cap
    simp only [run, runAll_stopped screen hstop]
  · intro h w
    obtain ⟨hends, hanswered⟩ := Returns.runAll screen patience as h w
    refine ⟨hends, hanswered, fun patience' => ?_⟩
    rw [runAll_eq_of_limited screen h patience']

/-! ### A knock -/

def knock : List (Action Expression) := [.message { text := "Knock!" }]

def opened : Condition Expression := .expression (.constant 1.0)

/-- Knocks until the door is opened, which it is at once. -/
def knocking (cap : Nat) : Action Expression := .loop knock (some opened) cap true

def knocked : World := { overture with shown := [.message { text := "Knock!" }] }

theorem knocking_ends {limit : Option Nat} (h : ∀ m ∈ limit, 1 ≤ m) :
    Ends (some opened) true (runAll quiet 1 knock) limit overture 1 (.done .next, knocked) := by
  refine .stopped ⟨rfl, ?_, h⟩ rfl
  intro i hi u _
  cases Nat.lt_one_iff.1 hi
  rfl

theorem run_loop_knocking :
    run quiet 1 (knocking 4294967295) overture = (.done .next, knocked) ∧
      run quiet 2 (knocking 0) overture = (.done .next, knocked) ∧
      (∃ k, Ends (some opened) true (runAll quiet 2 knock) none overture k
        (run quiet 2 (knocking 0) overture)) ∧
      run quiet 1 (knocking 4294967295) =
        counted (stops (some opened)) true (runAll quiet 1 knock) 4294967295 4294967296 0 ∧
      run quiet 1 (.loop (knock ++ [.stop false] ++ knock) (some opened) 4294967295 true) =
        run quiet 1 (knocking 4294967295) ∧
      (runAll quiet 1 [knocking 4294967295] overture).1 ≠ .exhausted := by
  obtain ⟨hcapped, huncapped, -, hcounted, -, hstopped, -⟩ :=
    run_loop quiet 1 knock (some opened) true
  obtain ⟨-, -, hended, -⟩ := run_loop quiet 2 knock (some opened) true
  obtain ⟨-, -, -, -, -, -, hlimited⟩ :=
    run_loop quiet 1 [knocking 4294967295] (some opened) true
  obtain ⟨k, -, hunique⟩ := hcapped 4294967295 (by decide) overture
  have hrun : run quiet 2 (knocking 0) overture = (.done .next, knocked) :=
    huncapped overture 1 _ (knocking_ends nofun) nofun 2 (by decide) (by decide)
  have hfinished : (run quiet 2 (knocking 0) overture).1 ≠ .exhausted := by
    rw [hrun]
    exact nofun
  refine ⟨(hunique 1 _ (knocking_ends (by simp))).2.symm, hrun, hended overture hfinished,
    hcounted _ (by decide) (by decide) _ (by decide), hstopped (by simp [knock]) knock _, ?_⟩
  refine (hlimited ?_ overture).1
  simp [knocking, knock, Action.allParts, Action.parts, Action.Limited]

end Play

end Scenario
