import Mathlib.Algebra.Order.Floor.Ring
import Scenario.Proofs.Acquisition
import Scenario.Proofs.Exact

/-!
How long statuses last. What a table of statuses says of one of them depends on nothing but what
happens to that one and on how often time passes. So a status is active for as many ticks as fit
into its time, if times are exact numbers, and a table of doubles goes as its exact reading does as
long as its times are infinite or below `2 ^ 53`.
-/

namespace Scenario

def ActiveStatus.map {α β : Type} (f : α → β) (status : ActiveStatus α) : ActiveStatus β :=
  ⟨status.provider, f status.remaining⟩

namespace Statuses

variable {α β : Type}

/-- What can happen to a table of statuses. -/
inductive Step (α : Type)
  | set (provider : Provider Expression) (duration : α)
  | tick
  | clear

namespace Step

/-- A step that neither sets a status nor takes all of them away. -/
def Spares (id : String) : Step α → Prop
  | .set provider _ => provider.id ≠ id
  | .tick => True
  | .clear => False

def isTick : Step α → Bool
  | .tick => true
  | _ => false

def map (f : α → β) : Step α → Step β
  | .set provider duration => .set provider (f duration)
  | .tick => .tick
  | .clear => .clear

end Step

/-- How often time passes. -/
def ticks (steps : List (Step α)) : Nat := steps.countP Step.isTick

def map (f : α → β) (statuses : Statuses α) : Statuses β :=
  ⟨statuses.entries.map (.map f)⟩

section Time

variable [OfNat α 0] [LT α] [DecidableLT α] [OfNat α 1] [Sub α]

/-- What is left of a time when one unit of it passes. -/
def left (remaining : α) : Option α := if 0 < remaining - 1 then some (remaining - 1) else none

def after (statuses : Statuses α) : Step α → Statuses α
  | .set provider duration => statuses.set provider duration
  | .tick => statuses.tick.2
  | .clear => {}

def run (statuses : Statuses α) (steps : List (Step α)) : Statuses α := steps.foldl after statuses

variable {statuses : Statuses α} {provider : Provider Expression} {id : String}

/-! ### Single ticks -/

theorem left_eq_some {remaining r : α} :
    left remaining = some r ↔ r = remaining - 1 ∧ 0 < r := by
  unfold left
  split
  · rename_i hpos
    rw [Option.some.injEq]
    exact ⟨fun h => h ▸ ⟨rfl, hpos⟩, fun h => h.1.symm⟩
  · rename_i hpos
    exact ⟨nofun, fun ⟨h, hr⟩ => absurd (h ▸ hr) hpos⟩

theorem left_eq_none {remaining : α} : left remaining = none ↔ ¬ 0 < remaining - 1 := by
  unfold left
  split <;> simp [*]

/-- What a tick returns, in the order of the table. -/
theorem expired_eq : statuses.tick.1 =
    (statuses.entries.filter fun s => (left s.remaining).isNone).map (·.provider.id) := by
  have hleft : (fun s : ActiveStatus α => (left s.remaining).isNone) =
      fun s => decide (¬ 0 < s.remaining - 1) := by
    funext s
    rw [Bool.eq_iff_iff, Option.isNone_iff_eq_none, left_eq_none, decide_eq_true_iff]
  rw [hleft]
  unfold tick
  dsimp only
  rw [List.filter_map, List.map_map]
  rfl

/-- What a tick leaves, in the order of the table. -/
theorem survivors_eq : statuses.tick.2.entries =
    statuses.entries.filterMap fun s => (left s.remaining).map (⟨s.provider, ·⟩) := by
  unfold tick
  dsimp only
  induction statuses.entries with
  | nil => rfl
  | cons s entries ih =>
    by_cases hpos : 0 < s.remaining - 1 <;> simp [left, hpos, ih]

theorem expired_sublist : statuses.tick.1.Sublist statuses.ids := by
  rw [expired_eq]
  exact List.filter_sublist.map _

theorem remaining?_tick (h : statuses.ids.Nodup) (id : String) :
    statuses.tick.2.remaining? id = (statuses.remaining? id).bind left := by
  ext r
  rw [remaining?_eq_some_iff (tick_sublist.nodup h), Option.bind_eq_some_iff]
  constructor
  · rintro ⟨status, hs, rfl, rfl⟩
    obtain ⟨old, hold, rfl, hpos⟩ := mem_tick.1 hs
    exact ⟨_, (remaining?_eq_some_iff h).2 ⟨old, hold, rfl, rfl⟩, left_eq_some.2 ⟨rfl, hpos⟩⟩
  · rintro ⟨r', hr', hleft⟩
    obtain ⟨old, hold, rfl, rfl⟩ := (remaining?_eq_some_iff h).1 hr'
    obtain ⟨rfl, hpos⟩ := left_eq_some.1 hleft
    exact ⟨_, mem_tick.2 ⟨old, hold, rfl, hpos⟩, rfl, rfl⟩

theorem mem_expired_iff (h : statuses.ids.Nodup) (id : String) :
    id ∈ statuses.tick.1 ↔ ∃ r, statuses.remaining? id = some r ∧ left r = none := by
  rw [mem_expired]
  constructor
  · rintro ⟨status, hs, hid, hpos⟩
    exact ⟨_, (remaining?_eq_some_iff h).2 ⟨status, hs, hid, rfl⟩, left_eq_none.2 hpos⟩
  · rintro ⟨r, hr, hleft⟩
    obtain ⟨status, hs, hid, rfl⟩ := (remaining?_eq_some_iff h).1 hr
    exact ⟨status, hs, hid, left_eq_none.1 hleft⟩

/-! ### Rows of steps -/

theorem run_append (statuses : Statuses α) (before during : List (Step α)) :
    statuses.run (before ++ during) = (statuses.run before).run during := List.foldl_append

theorem nodup_ids_after (h : statuses.ids.Nodup) (step : Step α) :
    (statuses.after step).ids.Nodup := by
  cases step with
  | set provider duration => exact nodup_ids_set h duration
  | tick => exact tick_sublist.nodup h
  | clear => exact List.nodup_nil

theorem nodup_ids_run (h : statuses.ids.Nodup) (steps : List (Step α)) :
    (statuses.run steps).ids.Nodup :=
  List.foldlRecOn (motive := fun statuses : Statuses α => statuses.ids.Nodup) steps after h
    fun _ h step _ => nodup_ids_after h step

/-- What becomes of a status that is spared is decided by its own time. -/
theorem remaining?_run {steps : List (Step α)} (h : statuses.ids.Nodup)
    (hspares : ∀ step ∈ steps, step.Spares id) :
    (statuses.run steps).remaining? id =
      (fun r => r.bind left)^[ticks steps] (statuses.remaining? id) := by
  induction steps generalizing statuses with
  | nil => rfl
  | cons step steps ih =>
    obtain ⟨hstep, hsteps⟩ := List.forall_mem_cons.1 hspares
    change ((statuses.after step).run steps).remaining? id = _
    rw [ih (nodup_ids_after h step) hsteps]
    cases step with
    | set provider duration =>
      change _^[ticks steps] ((statuses.set provider duration).remaining? id) = _
      rw [remaining?_set h, if_neg hstep]
      rfl
    | tick =>
      have hticks : ticks (.tick :: steps) = ticks steps + 1 := List.countP_cons_of_pos rfl
      change _^[ticks steps] (statuses.tick.2.remaining? id) = _
      rw [remaining?_tick h, hticks]
      rfl
    | clear => exact hstep.elim

theorem remaining?_run_set {before during : List (Step α)} {duration : α} (hpos : 0 < duration)
    (hspares : ∀ step ∈ during, step.Spares provider.id) :
    (({} : Statuses α).run (before ++ .set provider duration :: during)).remaining? provider.id =
      (fun r => r.bind left)^[ticks during] (some duration) := by
  have hempty : ({} : Statuses α).ids.Nodup := List.nodup_nil
  have hbefore := nodup_ids_run hempty before
  rw [run_append]
  change (((({} : Statuses α).run before).set provider duration).run during).remaining? _ = _
  rw [remaining?_run (nodup_ids_set hbefore duration) hspares, remaining?_set hbefore, if_pos rfl,
    if_pos hpos]

end Time

/-! ### Exact times -/

section Exact

variable {provider : Provider Expression} {before during : List (Step EReal)}

theorem left_coe (r : ℝ) :
    left (r : EReal) = if 0 < r - 1 then some ((r - 1 : ℝ) : EReal) else none := by
  unfold left
  rw [coe_sub_one]
  simp only [EReal.coe_pos]

theorem left_top : left (⊤ : EReal) = some ⊤ := by
  unfold left
  rw [top_sub_one, if_pos EReal.zero_lt_top]

theorem iterate_left {r : ℝ} (hr : 0 < r) (k : ℕ) :
    (fun d => d.bind left)^[k] (some (r : EReal)) =
      if k < r then some ((r - k : ℝ) : EReal) else none := by
  induction k with
  | zero => simp [hr]
  | succ k ih =>
    rw [Function.iterate_succ_apply', ih, Nat.cast_succ]
    by_cases hk : (k : ℝ) < r
    · have hnext : 0 < r - k - 1 ↔ (k + 1 : ℝ) < r := by
        constructor <;> intro h <;> linarith
      rw [if_pos hk, Option.bind_some, left_coe, sub_sub]
      simp only [← sub_sub, hnext]
    · have hnext : ¬ (k + 1 : ℝ) < r := by linarith
      rw [if_neg hk, if_neg hnext, Option.bind_none]

theorem iterate_left_top (k : ℕ) :
    (fun d => d.bind left)^[k] (some (⊤ : EReal)) = some ⊤ :=
  Function.iterate_fixed left_top k

theorem remaining?_exact {r : ℝ} (hr : 0 < r)
    (hspares : ∀ step ∈ during, step.Spares provider.id) :
    (({} : Statuses EReal).run (before ++ .set provider r :: during)).remaining? provider.id =
      if ticks during < r then some ((r - ticks during : ℝ) : EReal) else none := by
  rw [remaining?_run_set (EReal.coe_pos.2 hr) hspares, iterate_left hr]

theorem count_expired_exact {r : ℝ} (hr : 0 < r)
    (hspares : ∀ step ∈ during, step.Spares provider.id) :
    (({} : Statuses EReal).run (before ++ .set provider r :: during)).tick.1.count provider.id =
      if ⌈r⌉₊ = ticks during + 1 then 1 else 0 := by
  have hempty : ({} : Statuses EReal).ids.Nodup := List.nodup_nil
  have hnodup := nodup_ids_run hempty (before ++ .set provider r :: during)
  have hmem : (∃ d, (({} : Statuses EReal).run (before ++ .set provider r :: during)).remaining?
      provider.id = some d ∧ left d = none) ↔ ⌈r⌉₊ = ticks during + 1 := by
    rw [remaining?_exact hr hspares, Nat.ceil_eq_iff (Nat.succ_ne_zero _), Nat.succ_sub_one,
      Nat.cast_succ]
    by_cases hlive : (ticks during : ℝ) < r
    · rw [if_pos hlive]
      simp only [Option.some.injEq, exists_eq_left', left_coe, hlive, true_and]
      constructor
      · intro hnone
        by_contra hmore
        rw [if_pos (by linarith)] at hnone
        cases hnone
      · intro hlast
        rw [if_neg (by linarith)]
    · simp [hlive]
  rw [(expired_sublist.nodup hnodup).count]
  simp only [mem_expired_iff hnodup, hmem]

theorem remaining?_permanent (hspares : ∀ step ∈ during, step.Spares provider.id) :
    (({} : Statuses EReal).run (before ++ .set provider ⊤ :: during)).remaining? provider.id =
      some ⊤ := by
  rw [remaining?_run_set EReal.zero_lt_top hspares, iterate_left_top]

theorem not_expired_permanent (hspares : ∀ step ∈ during, step.Spares provider.id) :
    provider.id ∉
      (({} : Statuses EReal).run (before ++ .set provider ⊤ :: during)).tick.1 := by
  have hempty : ({} : Statuses EReal).ids.Nodup := List.nodup_nil
  rw [mem_expired_iff (nodup_ids_run hempty _), remaining?_permanent hspares]
  rintro ⟨d, hd, hnone⟩
  rw [← Option.some.inj hd, left_top] at hnone
  cases hnone

end Exact

/-! ### Times in doubles -/

section Readings

variable {f : α → β} {statuses : Statuses α} {provider : Provider Expression}

theorem map_ids : (statuses.map f).ids = statuses.ids := by
  unfold ids map
  rw [List.map_map]
  rfl

variable [OfNat α 0] [LT α] [DecidableLT α] [OfNat β 0] [LT β] [DecidableLT β]

theorem map_set {duration : α} (hf : 0 < f duration ↔ 0 < duration) :
    (statuses.map f).set provider (f duration) = (statuses.set provider duration).map f := by
  have hmem : provider.id ∈ (statuses.map f).ids ↔ provider.id ∈ statuses.ids := by rw [map_ids]
  unfold set
  simp only [hf, contains_eq, hmem]
  split
  · split
    · exact congrArg Statuses.mk (updateFirst_map (ActiveStatus.map f)
        (fun _ => rfl) (fun _ => rfl) statuses.entries)
    · unfold map
      rw [List.map_append]
      rfl
  · exact congrArg Statuses.mk (updateFirst_map (ActiveStatus.map f)
      (fun _ => rfl) (fun _ => rfl) statuses.entries)

variable [OfNat α 1] [Sub α] [OfNat β 1] [Sub β]

theorem map_tick (h : ∀ status ∈ statuses.entries,
      left (f status.remaining) = (left status.remaining).map f) :
    (statuses.map f).tick.1 = statuses.tick.1 ∧
      (statuses.map f).tick.2 = statuses.tick.2.map f := by
  constructor
  · rw [expired_eq, expired_eq]
    unfold map
    rw [List.filter_map, List.map_map]
    refine congrArg (List.map _) (List.filter_congr fun status hs => ?_)
    dsimp only [Function.comp, ActiveStatus.map]
    rw [h status hs, Option.isNone_map]
  · have hentries : (statuses.map f).tick.2.entries = (statuses.tick.2.map f).entries := by
      unfold map
      rw [survivors_eq, survivors_eq, List.filterMap_map, List.map_filterMap]
      refine List.filterMap_congr fun status hs => ?_
      dsimp only [Function.comp, ActiveStatus.map]
      rw [h status hs, Option.map_map, Option.map_map]
      rfl
    exact congrArg Statuses.mk hentries

end Readings

theorem left_value {x : Float} (h : Moderate x) (hpos : 0 < x) :
    left (value x) = (left x).map value := by
  obtain ⟨hmore, hless⟩ := h.sub_one hpos
  unfold left
  simp only [← hmore]
  split
  · rename_i hsome
    rw [Option.map_some, hless hsome]
  · rfl

/-- A step whose time can be counted down exactly. -/
def Step.Moderate : Step Float → Prop
  | .set _ duration => Scenario.Moderate duration
  | _ => True

section Doubles

variable {statuses : Statuses Float} {steps : List (Step Float)}

theorem map_value_tick (h : ∀ status ∈ statuses.entries,
      0 < status.remaining ∧ Moderate status.remaining) :
    (statuses.map value).tick.1 = statuses.tick.1 ∧
      (statuses.map value).tick.2 = statuses.tick.2.map value :=
  map_tick fun status hs => left_value (h status hs).2 (h status hs).1

theorem map_value_after {step : Step Float} (hstep : step.Moderate)
    (h : ∀ status ∈ statuses.entries, 0 < status.remaining ∧ Moderate status.remaining) :
    (∀ status ∈ (statuses.after step).entries,
      0 < status.remaining ∧ Moderate status.remaining) ∧
      (statuses.after step).map value = (statuses.map value).after (step.map value) := by
  cases step with
  | set provider duration =>
    refine ⟨fun status hs => ?_, (map_set pos_iff_value.symm).symm⟩
    rcases mem_set hs with hs | ⟨hpos, rfl, -⟩
    · exact h status hs
    · exact ⟨hpos, hstep⟩
  | tick =>
    refine ⟨fun status hs => ?_, (map_value_tick h).2.symm⟩
    obtain ⟨old, hold, rfl, hpos⟩ := mem_tick.1 hs
    obtain ⟨hold, hmoderate⟩ := h old hold
    exact ⟨hpos, hmoderate.of_value_eq ((hmoderate.sub_one hold).2 hpos)⟩
  | clear => exact ⟨List.forall_mem_nil _, rfl⟩

theorem map_value_run (hsteps : ∀ step ∈ steps, step.Moderate) :
    (∀ status ∈ (({} : Statuses Float).run steps).entries,
      0 < status.remaining ∧ Moderate status.remaining) ∧
      (({} : Statuses Float).run steps).map value =
        ({} : Statuses EReal).run (steps.map (Step.map value)) := by
  induction steps using List.reverseRecOn with
  | nil => exact ⟨List.forall_mem_nil _, rfl⟩
  | append_singleton steps step ih =>
    rw [List.forall_mem_append, List.forall_mem_singleton] at hsteps
    obtain ⟨hcounted, hsame⟩ := ih hsteps.1
    rw [run_append, List.map_append, run_append, ← hsame]
    exact map_value_after hsteps.2 hcounted

end Doubles

end Statuses

/-! ### Engines -/

namespace State

variable {s s' : State}

/-- A status is set by its id, if there is one with it. -/
def setting (s : State) (id : String) (duration : Float) : List (Statuses.Step Float) :=
  (s.statusKinds[id]?).toList.map (.set · duration)

/-- What a mutation does to the statuses. -/
def steps (s : State) : Mutation → List (Statuses.Step Float)
  | .setStatus id duration => s.setting id duration
  | .tick => [.tick]
  | _ => []

theorem statuses_of_mutate {m : Mutation} (hm : s.mutate m = .ok s') :
    s'.statuses = s.statuses.run (s.steps m) := by
  cases m with
  | setStatus id duration =>
    obtain ⟨provider, statuses, hp, rfl, rfl⟩ := setStatus_eq_ok.1 hm
    have hsteps : s.steps (.setStatus id duration) = [.set provider duration] := by
      unfold steps setting
      dsimp only
      rw [hp]
      rfl
    rw [hsteps]
    rfl
  | tick =>
    simp only [State.mutate, tick_eq] at hm
    cases hm
    rfl
  | giveItem id amount =>
    obtain ⟨provider, inventory, -, rfl, rfl⟩ := giveItem_eq_ok.1 hm
    rfl
  | setVariable id x =>
    obtain ⟨v, -, rfl⟩ := setVariable_eq_ok.1 hm
    rfl
  | setBounds id min max =>
    obtain ⟨v, w, -, -, -, rfl⟩ := setVariableBounds_eq_ok.1 hm
    rfl
  | toggle id enabled =>
    obtain ⟨flags, -, rfl⟩ := setEventEnabled_eq_ok.1 hm
    rfl
  | fire id trigger =>
    obtain ⟨-, rfl⟩ := fireEvent_eq_ok.1 hm
    rfl
  | request _ _ _ | endGame _ | draw | pop =>
    cases hm
    rfl

/-- Mutations, with what they do to the statuses. -/
inductive Timed (s : State) : List (Statuses.Step Float) → State → Prop
  | refl : Timed s [] s
  | tail {during : List (Statuses.Step Float)} {s₁ s₂ : State} {m : Mutation}
    (h : Timed s during s₁) (hm : s₁.mutate m = .ok s₂) : Timed s (during ++ s₁.steps m) s₂

theorem Becomes.exists_timed {sort : Mutation → Prop} (h : s.Becomes sort s') :
    ∃ during, s.Timed during s' := by
  induction h with
  | refl => exact ⟨[], .refl⟩
  | tail _ hm ih =>
    obtain ⟨during, hduring⟩ := ih
    obtain ⟨m, -, hm⟩ := hm
    exact ⟨_, hduring.tail hm⟩

theorem Timed.statuses {during : List (Statuses.Step Float)} (h : s.Timed during s') :
    s'.statuses = s.statuses.run during := by
  induction h with
  | refl => rfl
  | tail _ hm ih => rw [statuses_of_mutate hm, ih, Statuses.run_append]

end State

/-- A save makes an end of all statuses and then sets those that it names. -/
def Save.steps (save : Save) (s : State) : List (Statuses.Step Float) :=
  .clear :: save.statuses.flatMap fun entry => s.setting entry.1 entry.2

theorem Save.statusesIn_eq {save : Save} {s : State} :
    save.statusesIn s = s.statuses.run (save.steps s) := by
  change _ = ({} : Statuses Float).run _
  unfold statusesIn Statuses.run
  rw [List.foldl_flatMap]
  congr 1
  funext statuses entry
  obtain ⟨id, remaining⟩ := entry
  unfold State.setting
  dsimp only
  cases s.statusKinds[id]? with
  | none => rfl
  | some provider => rfl

namespace Engine

/-- Engines with all that has happened to their statuses, whoever made it happen: a host, an event
or a save. -/
inductive Timed : Engine → List (Statuses.Step Float) → Prop
  | start (config : Config) (random : RandomSource) (h : random.Placed) :
    Timed (.withRandom config random) []
  | play {e : Engine} {steps during : List (Statuses.Step Float)} (h : e.Timed steps)
    (screen : Screen) {call : Call} (hcall : call.Plays)
    (hduring : e.state.Timed during (e.perform screen call).2.state) :
    Timed (e.perform screen call).2 (steps ++ during)
  | restore {e : Engine} {steps : List (Statuses.Step Float)} (h : e.Timed steps)
    (screen : Screen) (save : Save) :
    Timed (e.perform screen (.restore save)).2
      (steps ++ if (e.restore save).isOk then save.steps e.state else [])
  | other {e : Engine} {steps : List (Statuses.Step Float)} (h : e.Timed steps)
    (screen : Screen) {call : Call} (hcall : ¬ call.Plays)
    (hrestore : ∀ save, call ≠ .restore save) :
    Timed (e.perform screen call).2 steps

variable {e : Engine} {steps : List (Statuses.Step Float)}

theorem ReachableBy.exists_timed {sort : Call → Prop} (h : e.ReachableBy sort) :
    ∃ steps, e.Timed steps := by
  refine h.induction_holdings (P := fun e => ∃ steps, e.Timed steps)
    (fun config random hplaced => ⟨[], .start config random hplaced⟩) ?play ?restore ?other
  case play =>
    rintro e screen call ⟨steps, hsteps⟩ hcall
    obtain ⟨during, hduring⟩ := (perform_becomes screen hcall).exists_timed
    exact ⟨_, hsteps.play screen hcall hduring⟩
  case restore =>
    rintro e screen save ⟨steps, hsteps⟩
    exact ⟨_, hsteps.restore screen save⟩
  case other =>
    rintro e screen call ⟨steps, hsteps⟩ hcall hrestore
    exact ⟨_, hsteps.other screen hcall hrestore⟩

theorem Timed.statuses (h : e.Timed steps) :
    e.state.statuses = ({} : Statuses Float).run steps := by
  induction h with
  | start config random hplaced => rfl
  | play _ screen _ hduring ih => rw [hduring.statuses, ih, Statuses.run_append]
  | @restore e steps _ screen save ih =>
    cases hrestore : e.restore save with
    | ok e' =>
      obtain ⟨s, hs, rfl⟩ := restore_eq_ok hrestore
      obtain ⟨-, registry, -, rfl⟩ := Save.restore_eq_ok.1 hs
      rw [perform, hrestore, Statuses.run_append, ← ih]
      exact Save.statusesIn_eq
    | error cause =>
      rw [perform, hrestore, Statuses.run_append, ← ih]
      rfl
  | other _ screen hcall hrestore ih => rw [(perform_holdings screen hcall hrestore).2, ih]

theorem tick_eq_ok {ids : List String} {e' : Engine} (h : e.tick = .ok (ids, e')) :
    ids = e.state.statuses.tick.1 ∧ e'.state.statuses = e.state.statuses.tick.2 := by
  obtain ⟨_, hidle, -⟩ := exists_ok_of_bind h
  rw [tick_of_idle (idle_of_requireIdle hidle), State.tick_eq] at h
  cases h
  exact ⟨rfl, rfl⟩

end Engine

namespace Statuses

/-- Statuses last as long as they are set to. A status that is set to an exact time and then left
alone, whatever came before, outlasts the ticks that are fewer than that time, and the first that is
not returns it. Engines count like that as long as they can count in doubles. -/
theorem lifetimes_exact {e : Engine} (h : e.Reachable) :
    e.state.statuses.ids.Nodup ∧
    (∀ status ∈ e.state.statuses.entries,
      e.state.statusKinds[status.provider.id]? = some status.provider ∧
      0 < status.remaining ∧ status.remaining.isNaN = false) ∧
    (∀ ids e', e.tick = .ok (ids, e') →
      ids = e.state.statuses.tick.1 ∧ e'.state.statuses = e.state.statuses.tick.2) ∧
    (∃ steps, e.Timed steps) ∧
    (∀ steps, e.Timed steps →
      e.state.statuses = ({} : Statuses Float).run steps ∧
      ((∀ step ∈ steps, step.Moderate) →
        e.state.statuses.map value = ({} : Statuses EReal).run (steps.map (.map value)) ∧
        e.state.statuses.tick.1 = (e.state.statuses.map value).tick.1)) ∧
    (∀ (before during : List (Step EReal)) (provider : Provider Expression)
      (statuses : Statuses EReal), (∀ step ∈ during, step.Spares provider.id) →
      (∀ r : ℝ, 0 < r →
        statuses = ({} : Statuses EReal).run (before ++ .set provider r :: during) →
        statuses.remaining? provider.id =
          (if ticks during < r then some ((r - ticks during : ℝ) : EReal) else none) ∧
        statuses.tick.1.count provider.id = if ⌈r⌉₊ = ticks during + 1 then 1 else 0) ∧
      (statuses = ({} : Statuses EReal).run (before ++ .set provider ⊤ :: during) →
        statuses.remaining? provider.id = some ⊤ ∧ provider.id ∉ statuses.tick.1)) ∧
    ∀ (α : Type) [OfNat α 0] [LT α] [DecidableLT α] [OfNat α 1] [Sub α] (statuses : Statuses α),
      statuses.tick.1 =
        (statuses.entries.filter fun s => (left s.remaining).isNone).map (·.provider.id) ∧
      statuses.tick.2.entries =
        statuses.entries.filterMap (fun s => (left s.remaining).map (⟨s.provider, ·⟩)) ∧
      ∀ (provider : Provider Expression) (duration : α), 0 < duration →
        statuses.ids.Nodup → provider.id ∈ statuses.ids →
        (statuses.set provider duration).ids = statuses.ids ∧
        ∀ id, (statuses.set provider duration).remaining? id =
          if provider.id = id then some duration else statuses.remaining? id := by
  have hrunning := h.wellFormed.running
  refine ⟨hrunning.nodup, fun status hs => ?_, fun _ _ => Engine.tick_eq_ok, h.exists_timed,
    fun steps hsteps => ⟨hsteps.statuses, fun hmoderate => ?_⟩,
    fun before during provider statuses hspares => ⟨?_, ?_⟩,
    fun α _ _ _ _ _ statuses => ⟨expired_eq, survivors_eq, fun provider duration hpos hnodup hmem =>
      ⟨ids_set_of_mem hpos hmem, fun id => ?_⟩⟩⟩
  · exact ⟨hrunning.known status hs, hrunning.remaining_pos status hs,
      isNaN_of_pos (hrunning.remaining_pos status hs)⟩
  · obtain ⟨hcounted, hsame⟩ := map_value_run hmoderate
    rw [← hsteps.statuses] at hcounted hsame
    exact ⟨hsame, (map_value_tick hcounted).1.symm⟩
  · rintro r hr rfl
    exact ⟨remaining?_exact hr hspares, count_expired_exact hr hspares⟩
  · rintro rfl
    exact ⟨remaining?_permanent hspares, not_expired_permanent hspares⟩
  · rw [remaining?_set hnodup, if_pos hpos]

end Statuses

/-! ### An infirmary -/

def poison : Provider Expression where
  id := "poisoned"

def blessing : Provider Expression where
  id := "blessed"

/-- Poison is renewed before it wears off, and then time passes twice. -/
def infirmary : Engine :=
  ((Engine.new {}).performAll quiet [.registerStatus poison, .registerStatus blessing,
    .setStatus "poisoned" 1, .setStatus "blessed" infinity, .setStatus "poisoned" 2.5, .tick,
    .tick]).2

def treatment : List (Statuses.Step Float) :=
  [.set poison 1, .set blessing infinity, .set poison 2.5, .tick, .tick]

theorem infirmary_reachable : infirmary.Reachable :=
  Engine.ReachableBy.performAll (.start {} (.ofSeed "default") (.ofSeed "default")) quiet
    fun _ _ => trivial

theorem infirmary_timed : infirmary.Timed treatment := by
  have hregister (p : Provider Expression) : ¬ Call.Plays (.registerStatus p) := id
  have hset (id : String) (duration : Float) : Call.Plays (.setStatus id duration) := trivial
  have htick : Call.Plays .tick := trivial
  have hkinds := ((Engine.Timed.start {} (.ofSeed "default") (.ofSeed "default")).other quiet
    (hregister poison) nofun).other quiet (hregister blessing) nofun
  have hpoisoned := hkinds.play quiet (hset "poisoned" 1)
    (.tail .refl (m := .setStatus "poisoned" 1) rfl)
  have hblessed := hpoisoned.play quiet (hset "blessed" infinity)
    (.tail .refl (m := .setStatus "blessed" infinity) rfl)
  have hrenewed := hblessed.play quiet (hset "poisoned" 2.5)
    (.tail .refl (m := .setStatus "poisoned" 2.5) rfl)
  have hlater := hrenewed.play quiet htick (.tail .refl (m := .tick) rfl)
  exact hlater.play quiet htick (.tail .refl (m := .tick) rfl)

theorem value_one : value 1 = ((1 : ℝ) : EReal) := by
  rw [value_of_finite one_parts]
  norm_num

theorem value_two_and_half : value 2.5 = ((5 / 2 : ℝ) : EReal) := by
  have hparts : (2.5 : Float).toModel.unpack =
      .finite .positive 5629499534213120 (-51) (by decide) := by rfl
  rw [value_of_finite hparts]
  norm_num

theorem treatment_moderate : ∀ step ∈ treatment, step.Moderate := by
  have hone : Moderate 1 := by
    left
    rw [value_one, EReal.coe_lt_coe_iff]
    norm_num
  have hmore : Moderate 2.5 := by
    left
    rw [value_two_and_half, EReal.coe_lt_coe_iff]
    norm_num
  simp only [treatment, List.forall_mem_cons]
  exact ⟨hone, .inr rfl, hmore, trivial, trivial, List.forall_mem_nil _⟩

/-- Half a unit is left of the poison, and the next tick is the last. -/
theorem lifetimes_exact_infirmary : infirmary.Reachable ∧ infirmary.Timed treatment ∧
    infirmary.state.statuses.ids = ["poisoned", "blessed"] ∧
    (infirmary.state.statuses.map value).remaining? "poisoned" = some ((1 / 2 : ℝ) : EReal) ∧
    (infirmary.state.statuses.map value).remaining? "blessed" = some ⊤ ∧
    infirmary.state.statuses.tick.1.count "poisoned" = 1 ∧
    "blessed" ∉ infirmary.state.statuses.tick.1 := by
  obtain ⟨-, -, -, -, hcounted, hexact, -⟩ := Statuses.lifetimes_exact infirmary_reachable
  obtain ⟨hsame, hexpired⟩ := (hcounted treatment infirmary_timed).2 treatment_moderate
  have hpoison : infirmary.state.statuses.map value = ({} : Statuses EReal).run
      ([.set poison (value 1), .set blessing ⊤] ++
        .set poison ((5 / 2 : ℝ) : EReal) :: [.tick, .tick]) := by
    rw [hsame, ← value_two_and_half]
    rfl
  have hblessing : infirmary.state.statuses.map value = ({} : Statuses EReal).run
      ([.set poison (value 1)] ++
        .set blessing ⊤ :: [.set poison (value 2.5), .tick, .tick]) := hsame
  have hnames : poison.id ≠ blessing.id := by decide
  have hhalf : (5 / 2 : ℝ) - (2 : ℕ) = 1 / 2 := by norm_num
  have hlast : ⌈(5 / 2 : ℝ)⌉₊ = 2 + 1 := by
    rw [Nat.ceil_eq_iff (by decide)]
    norm_num
  obtain ⟨hleft, hend⟩ := (hexact _ _ poison _ (by simp [Statuses.Step.Spares])).1 (5 / 2)
    (by norm_num) hpoison
  obtain ⟨hlong, hnever⟩ := (hexact _ _ blessing _
    (by simp [Statuses.Step.Spares, hnames])).2 hblessing
  have hticks : Statuses.ticks [Statuses.Step.tick, (.tick : Statuses.Step EReal)] = 2 := rfl
  rw [hticks, hhalf, if_pos (by norm_num)] at hleft
  rw [hticks, if_pos hlast, ← hexpired] at hend
  rw [← hexpired] at hnever
  exact ⟨infirmary_reachable, infirmary_timed, by rfl, hleft, hlong, hend, hnever⟩

end Scenario
