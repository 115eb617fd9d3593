import Scenario.Proofs.Bounds
import Scenario.Proofs.Waiting

/-!
What is no number does not get about. Expressions may come across it on their way, but they never
give it; so nothing that a pass sets, bounds, enqueues or reports is no number, as long as what
hosts, documents and saves supply are numbers.
-/

namespace Scenario

theorem clamp_isNaN_eq_false {x lo hi : Float} (hx : x.isNaN = false) (hlo : lo.isNaN = false)
    (hhi : hi.isNaN = false) : (clamp x lo hi).isNaN = false := by
  unfold clamp
  split
  · exact hlo
  · split
    · exact hhi
    · exact hx

structure Variable.Numeric (v : Variable) : Prop where
  value : v.value.isNaN = false
  min : v.min.isNaN = false
  max : v.max.isNaN = false

namespace Variable.Numeric

variable {v : Variable}

theorem set (h : v.Numeric) {x : Float} (hx : x.isNaN = false) : (v.set x).Numeric :=
  { h with value := clamp_isNaN_eq_false hx h.min h.max }

theorem setBounds (h : v.Numeric) {min max : Float} (hvalid : validBounds min max) :
    (v.setBounds min max).Numeric where
  value := clamp_isNaN_eq_false h.value (isNaN_of_le (validBounds_iff.1 hvalid)).1
    (isNaN_of_le (validBounds_iff.1 hvalid)).2
  min := (isNaN_of_le (validBounds_iff.1 hvalid)).1
  max := (isNaN_of_le (validBounds_iff.1 hvalid)).2

end Variable.Numeric

/-- What is reported of a variable are numbers. -/
def Notification.Numeric : Notification → Prop
  | .variableChanged _ old new => old.isNaN = false ∧ new.isNaN = false
  | .variableLimitsChanged _ min max => min.isNaN = false ∧ max.isNaN = false
  | _ => True

/-- The number that a mutation gives to a variable or to a trigger. -/
def Mutation.number? : Mutation → Option Float
  | .setVariable _ x | .request _ _ x => some x
  | _ => none

theorem Mutation.Numeric.number? {m : Mutation} (h : m.Numeric) :
    ∀ x ∈ m.number?, x.isNaN = false := by
  cases m with
  | setVariable id x | request trigger priority x =>
    rintro _ ⟨⟩
    exact h
  | _ => rintro _ ⟨⟩

/-- The values that a call gives to variables and the probabilities that it gives to triggers are
numbers. -/
structure Call.AllNumeric (call : Call) : Prop extends call.Numeric where
  triggered : ∀ id probability priority, call = .trigger id probability priority →
    probability.isNaN = false

theorem Call.AllNumeric.number? {call : Call} (h : call.AllNumeric) {m : Mutation}
    (hm : call.mutation? = some m) : ∀ x ∈ m.number?, x.isNaN = false := by
  cases call with
  | setVariable id x =>
    cases hm
    rintro _ ⟨⟩
    exact h.set id x rfl
  | trigger id probability priority =>
    cases hm
    rintro _ ⟨⟩
    exact h.triggered id probability priority rfl
  | fire id =>
    cases hm
    rintro _ ⟨⟩
    rfl
  | giveItem _ _ | setStatus _ _ | tick =>
    cases hm
    rintro _ ⟨⟩
  | _ => cases hm

/-! ### States -/

namespace State

/-- Whatever stands for a number in variables, pending triggers and notifications is one. -/
structure Contained (s : State) : Prop where
  vars : ∀ (id : String) (v : Variable), s.vars[id]? = some v → v.Numeric
  pending : ∀ p ∈ s.queue.pending, p.probability.isNaN = false
  notifications : ∀ n ∈ s.notifications, n.Numeric

variable {s s' : State}

theorem valueChange_numeric (id : String) {old new : Float} (hold : old.isNaN = false)
    (hnew : new.isNaN = false) : ∀ n ∈ valueChange id old new, n.Numeric := by
  unfold valueChange
  split
  · exact List.forall_mem_nil _
  · exact List.forall_mem_singleton.2 ⟨hold, hnew⟩

/-- Only mutations of variables report numbers of variables. -/
theorem notifications_of_mutate {m : Mutation} (hid : m.variable? = none)
    (hm : s.mutate m = .ok s') : ∀ n ∈ s'.notifications, n ∈ s.notifications ∨ n.Numeric := by
  have happend (more : List Notification) (hmore : ∀ n ∈ more, n.Numeric) :
      ∀ n ∈ more ++ s.notifications, n ∈ s.notifications ∨ n.Numeric :=
    List.forall_mem_append.2 ⟨fun n hn => .inr (hmore n hn), fun n hn => .inl hn⟩
  cases m with
  | setVariable _ _ | setBounds _ _ _ => cases hid
  | giveItem id amount =>
    obtain ⟨provider, inventory, -, rfl, rfl⟩ := giveItem_eq_ok.1 hm
    refine happend _ ?_
    unfold countChange
    split
    · exact List.forall_mem_nil _
    · exact List.forall_mem_singleton.2 trivial
  | setStatus id duration =>
    obtain ⟨provider, statuses, -, rfl, rfl⟩ := setStatus_eq_ok.1 hm
    refine happend _ ?_
    unfold statusChange
    split
    · exact List.forall_mem_singleton.2 trivial
    · exact List.forall_mem_nil _
  | toggle id enabled =>
    obtain ⟨flags, -, rfl⟩ := setEventEnabled_eq_ok.1 hm
    refine happend _ ?_
    unfold toggleChange
    split
    · exact List.forall_mem_nil _
    · exact List.forall_mem_singleton.2 trivial
  | fire id trigger =>
    obtain ⟨-, rfl⟩ := fireEvent_eq_ok.1 hm
    exact happend [.eventFired id trigger] (List.forall_mem_singleton.2 trivial)
  | tick =>
    simp only [mutate, tick_eq] at hm
    cases hm
    refine happend _ fun n hn => ?_
    obtain ⟨id, -, rfl⟩ := List.mem_map.1 (List.mem_reverse.1 hn)
    trivial
  | endGame outcome =>
    cases hm
    exact happend [.gameEnded outcome] (List.forall_mem_singleton.2 trivial)
  | request _ _ _ | draw | pop =>
    cases hm
    exact fun n hn => .inl hn

theorem pending_of_mutate {m : Mutation} (hnumber : ∀ x ∈ m.number?, x.isNaN = false)
    (hm : s.mutate m = .ok s') (h : ∀ p ∈ s.queue.pending, p.probability.isNaN = false) :
    ∀ p ∈ s'.queue.pending, p.probability.isNaN = false := by
  cases m with
  | request trigger priority probability =>
    cases hm
    intro p hp
    rcases List.mem_cons.1 ((TriggerQueue.insert_perm _ _).mem_iff.1 hp) with rfl | hp
    · exact hnumber probability rfl
    · exact h p hp
  | pop =>
    cases hm
    exact fun p hp => h p (List.mem_of_mem_tail hp)
  | _ =>
    rw [queue_of_mutate id hm]
    exact h

namespace Contained

theorem write (h : s.Contained) (id : String) {v : Variable} (hv : v.Numeric)
    {told : List Notification} (htold : ∀ n ∈ told, n.Numeric) :
    { s with
      vars := s.vars.insert id v
      notifications := told ++ s.notifications }.Contained where
  vars id' w hw := by
    rw [getElem?_insert_id] at hw
    split at hw
    · cases hw
      exact hv
    · exact h.vars id' w hw
  pending := h.pending
  notifications := List.forall_mem_append.2 ⟨htold, h.notifications⟩

theorem mutate (h : s.Contained) {m : Mutation} (hnumber : ∀ x ∈ m.number?, x.isNaN = false)
    (hm : s.mutate m = .ok s') : s'.Contained := by
  cases hid : m.variable? with
  | none =>
    exact
      { vars := vars_of_mutate hid hm ▸ h.vars
        pending := pending_of_mutate hnumber hm h.pending
        notifications := fun n hn =>
          (notifications_of_mutate hid hm n hn).elim (h.notifications n) fun h => h }
  | some id =>
    cases m with
    | setVariable id' x =>
      obtain ⟨v, hv, rfl⟩ := setVariable_eq_ok.1 hm
      have hold := h.vars id' v hv
      have hnew := hold.set (hnumber x rfl)
      exact h.write id' hnew (valueChange_numeric id' hold.value hnew.value)
    | setBounds id' min max =>
      obtain ⟨v, w, hv, hvalid, rfl, rfl⟩ := setVariableBounds_eq_ok.1 hm
      have hold := h.vars id' v hv
      have hnew := hold.setBounds hvalid
      have hlimits : (Notification.variableLimitsChanged id' _ _).Numeric := ⟨hnew.min, hnew.max⟩
      have htold := List.forall_mem_append.2
        ⟨valueChange_numeric id' hold.value hnew.value, List.forall_mem_singleton.2 hlimits⟩
      simpa using h.write id' hnew htold
    | _ => cases hid

theorem becomes (h : s.Contained) {sort : Mutation → Prop}
    (hsort : ∀ m, sort m → ∀ x ∈ m.number?, x.isNaN = false) (hs : s.Becomes sort s') :
    s'.Contained :=
  hs.keeps (fun _ _ m hm h hmutate => h.mutate (hsort m hm) hmutate) h

end Contained

end State

/-! ### Engines -/

namespace Engine

variable {e : Engine}

/-- The bounds of variables are in order, so they are numbers; that the values are is what
`Confined` says when all that is given is a number. -/
theorem perform_vars_numeric (h : e.state.Contained) (he : e.state.WellFormed) (screen : Screen)
    {call : Call} (hcall : call.AllNumeric) :
    ∀ (id : String) (v : Variable), (e.perform screen call).2.state.vars[id]? = some v →
      v.Numeric := by
  have hconfined : e.state.Confined fun _ v => v.value.isNaN = false :=
    fun id v hv => .inr (h.vars id v hv).value
  have hperformed :=
    perform_confined hconfined he (fun _ _ hv => hv) screen hcall.set hcall.given
  intro id v hv
  obtain ⟨hmin, hmax⟩ :=
    isNaN_of_le (validBounds_iff.1 ((perform_wellFormed he screen call).bounds id v hv))
  exact ⟨(hperformed id v hv).elim (·.isNaN) fun hv => hv, hmin, hmax⟩

theorem perform_contained (h : e.state.Contained) (he : e.state.WellFormed) (screen : Screen)
    {call : Call} (hcall : call.AllNumeric) : (e.perform screen call).2.state.Contained := by
  have hvars := perform_vars_numeric h he screen hcall
  have hdefining (hdefines : call.Defines) : (e.perform screen call).2.state.Contained :=
    have hkept := perform_keptIn (e := e) screen hdefines
    ⟨hvars, hkept.queue ▸ h.pending, hkept.notifications ▸ h.notifications⟩
  have hcleared {x : Except Error Engine}
      (hx : ∀ e', x = .ok e' → e'.state.queue.pending = [] ∧
        e'.state.notifications = e.state.notifications) :
      (∀ p ∈ (e.attempt x).2.state.queue.pending, p.probability.isNaN = false) ∧
        ∀ n ∈ (e.attempt x).2.state.notifications, n.Numeric := by
    rcases attempt_cases (e := e) x with ⟨e', hok, he'⟩ | hsame
    · rw [he', (hx e' hok).1, (hx e' hok).2]
      exact ⟨List.forall_mem_nil _, h.notifications⟩
    · rw [hsame]
      exact ⟨h.pending, h.notifications⟩
  cases call with
  | load _ | defineVariable _ _ | registerAttribute _ | registerItem _ | registerStatus _
  | registerEvent _ => exact hdefining trivial
  | registerFunction _ _ => exact h
  | drain => exact { h with notifications := List.forall_mem_nil _ }
  | reset =>
    obtain ⟨hpending, hnotifications⟩ := hcleared (x := e.reset) fun e' hreset => by
      rw [reset_eq_ok hreset]
      exact ⟨rfl, rfl⟩
    exact ⟨hvars, hpending, hnotifications⟩
  | restore save =>
    obtain ⟨hpending, hnotifications⟩ := hcleared (x := e.restore save) fun e' hrestore => by
      obtain ⟨s, hs, rfl⟩ := restore_eq_ok hrestore
      obtain ⟨-, registry, -, rfl⟩ := Save.restore_eq_ok.1 hs
      exact ⟨rfl, rfl⟩
    exact ⟨hvars, hpending, hnotifications⟩
  | _ =>
    refine h.becomes ?_ (perform_becomes screen trivial)
    rintro m (hm | hm)
    · exact hm.number?
    · exact hcall.number? hm

theorem ReachableBy.contained (he : e.ReachableBy Call.AllNumeric) : e.state.Contained := by
  induction he with
  | start config random hplaced =>
    refine ⟨fun id v hv => ?_, List.forall_mem_nil _, List.forall_mem_nil _⟩
    simp [withRandom, state, State.initial] at hv
  | perform he screen call hcall ih => exact perform_contained ih he.wellFormed screen hcall

theorem evaluate_isNaN {source : Source} {x : Float} (h : (e.evaluate source).1 = .ok x) :
    x.isNaN = false := by
  unfold evaluate at h
  split at h
  · rename_i expression e' _
    dsimp only at h
    cases heval : e'.state.eval expression with
    | error cause =>
      rw [heval] at h
      cases h
    | ok y =>
      rw [heval] at h
      cases h
      exact eval_isNaN heval
  · cases h

end Engine

/-- What is no number is contained. No expression gives it, whatever the names and functions that it
reads give. In every engine that hosts get to with calls that give numbers to variables and
triggers, be it after successes, errors or passes that were abandoned, no variable has a value or a
bound that is no number, no pending trigger has such a probability, and no notification tells of
one. -/
theorem nan_contained :
    (∀ (reading : Expression) (scope : Expr.Scope (Except EvaluationError)) (x : Float),
      reading.eval scope = .ok x → x.isNaN = false) ∧
    ∀ e : Engine, e.ReachableBy Call.AllNumeric →
      (∀ (source : Source) (x : Float), (e.evaluate source).1 = .ok x → x.isNaN = false) ∧
      e.state.Contained :=
  ⟨fun _ _ _ h => eval_isNaN h, fun _ he => ⟨fun _ _ => Engine.evaluate_isNaN, he.contained⟩⟩

/-! ### A dream of no number -/

/-- A quotient that is no number. -/
def indefinite : Expr.Code := .operator .div (.number 0) (.number 0)

/-- An event that comes across what is no number three times, and stumbles over the last one. -/
def dream : Event Expression :=
  { id := "dream", trigger := "sleep", probability := .constant 1
    actions := [
      .updateVariable ⟨"sheep", ⟨.text "min(0/0, 3)", .builtin .min [indefinite, .number 3], none⟩⟩,
      .triggerEvents [⟨"wake", none,
        ⟨.text "max(0/0, 0.5)", .builtin .max [indefinite, .number 0.5], none⟩⟩],
      .updateVariable ⟨"sheep", ⟨.text "0/0", indefinite, none⟩⟩] }

def dreamCalls : List Call :=
  [.defineVariable "sheep" ⟨0, -infinity, infinity⟩, .registerEvent dream, .fire "sleep", .next 1]

def dreaming : Engine := (Engine.performAll quiet dreamCalls (.new {})).2

theorem dreaming_reachable : dreaming.ReachableBy Call.AllNumeric := by
  refine Engine.ReachableBy.performAll (.start {} _ (.ofSeed "default")) quiet ?_
  intro call hcall
  simp only [dreamCalls, List.mem_cons, List.not_mem_nil, or_false] at hcall
  rcases hcall with rfl | rfl | rfl | rfl
  all_goals
    refine ⟨⟨nofun, ?_⟩, nofun⟩
    rintro id v ⟨⟩
  rfl

theorem nan_contained_dreaming :
    indefinite.eval dreaming.state.scope = .ok notANumber ∧
      (dreaming.state.vars["sheep"]?).map Variable.value = some 3 ∧
      dreaming.state.queue.pending.map PendingTrigger.probability = [0.5] ∧
      dreaming.state.notifications.length = 2 ∧ dreaming.state.Contained := by
  have hstate : (dreaming.state.vars["sheep"]?).map Variable.value = some 3 ∧
      dreaming.state.queue.pending.map PendingTrigger.probability = [0.5] ∧
      dreaming.state.notifications.length = 2 := by
    decide +kernel
  obtain ⟨-, hcontained⟩ := nan_contained.2 dreaming dreaming_reachable
  exact ⟨rfl, hstate.1, hstate.2.1, hstate.2.2, hcontained⟩

end Scenario
