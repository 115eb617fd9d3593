import Mathlib.Algebra.GroupWithZero.Nat
import Scenario.Proofs.ChangeLog
import Scenario.Proofs.Compiling

/-!
Events that happen once. Happening disables such an event, so every time that it happens again is
paid for: by its being enabled, or by an error that broke off its actions before it was disabled.
-/

namespace Scenario

/-! ### What a log tells of an event -/

def Notification.fires (id : String) : Notification → Bool
  | .eventFired event _ => event = id
  | _ => false

def Notification.enables (id : String) : Notification → Bool
  | .eventToggled event enabled => event = id && enabled
  | _ => false

def firings (id : String) (log : List Notification) : Nat := log.countP (·.fires id)

def enablings (id : String) (log : List Notification) : Nat := log.countP (·.enables id)

theorem firings_append (id : String) (log more : List Notification) :
    firings id (log ++ more) = firings id log + firings id more := List.countP_append

theorem enablings_append (id : String) (log more : List Notification) :
    enablings id (log ++ more) = enablings id log + enablings id more := List.countP_append

theorem firings_eq (id : String) (log : List Notification) :
    firings id log = (log.filterMap Notification.fired?).countP (·.1 = id) := by
  rw [List.countP_filterMap]
  refine List.countP_congr fun n _ => ?_
  cases n <;> simp [Notification.fires, Notification.fired?]

/-- How often an event with such a flag can happen before it is enabled again. -/
def chances (enabled : Option Bool) : Nat := if enabled = some false then 0 else 1

theorem chances_le_one (enabled : Option Bool) : chances enabled ≤ 1 := by
  unfold chances
  split <;> decide

def State.times (s : State) (id : String) : Nat := (s.occurrences? id).getD 0

namespace View

theorem chances_see (v : View) (n : Notification) (id : String) :
    chances ((v.see n).enabled id) ≤ chances (v.enabled id) + [n].countP (·.enables id) := by
  cases n with
  | eventToggled event enabled =>
    simp only [see, put, List.countP_singleton, Notification.enables]
    by_cases hid : event = id
    · subst hid
      cases enabled <;> simp [chances]
    · simp [hid]
  | _ => exact Nat.le_add_right _ _

theorem occurrences_see (v : View) (n : Notification) (id : String) :
    ((v.see n).occurrences id).getD 0 ≤ (v.occurrences id).getD 0 + [n].countP (·.fires id) := by
  cases n with
  | eventFired event trigger =>
    simp only [see, put, List.countP_singleton, Notification.fires]
    by_cases hid : event = id
    · subst hid
      cases v.occurrences event with
      | none => simp
      | some k =>
        have hmore : oneMore k ≤ k + 1 := Nat.min_le_left _ _
        simpa using hmore
    · simp [hid]
  | _ => exact Nat.le_add_right _ _

theorem chances_seeAll (v : View) (log : List Notification) (id : String) :
    chances ((v.seeAll log).enabled id) ≤ chances (v.enabled id) + enablings id log := by
  induction log generalizing v with
  | nil => exact Nat.le_refl _
  | cons n log ih =>
    have hfirst := chances_see v n id
    have hrest := ih (v.see n)
    have hsum : enablings id (n :: log) = [n].countP (·.enables id) + enablings id log :=
      enablings_append id [n] log
    change chances (((v.see n).seeAll log).enabled id) ≤ _
    omega

theorem occurrences_seeAll (v : View) (log : List Notification) (id : String) :
    ((v.seeAll log).occurrences id).getD 0 ≤ (v.occurrences id).getD 0 + firings id log := by
  induction log generalizing v with
  | nil => exact Nat.le_refl _
  | cons n log ih =>
    have hfirst := occurrences_see v n id
    have hrest := ih (v.see n)
    have hsum : firings id (n :: log) = [n].countP (·.fires id) + firings id log :=
      firings_append id [n] log
    change (((v.see n).seeAll log).occurrences id).getD 0 ≤ _
    omega

end View

/-- On the way from one state to another a log was written. The chances of an event that were there
before, those that the log gives back, and some in excess of these, pay for all that it happened
and for those that are left. -/
structure Spends (id : String) (s s' : State) (log : List Notification)
    (before after excess : Nat) : Prop where
  notifications : s'.notifications = log.reverse ++ s.notifications
  bound : firings id log + after ≤ before + enablings id log + excess
  counted : s'.times id ≤ s.times id + firings id log

namespace Spends

variable {id : String} {s s₁ s' : State} {log log' : List Notification}
  {before between after excess excess' : Nat}

theorem refl (s : State) (chances : Nat) : Spends id s s [] chances chances 0 where
  notifications := rfl
  bound := by simp [firings]
  counted := Nat.le_add_right _ _

theorem trans (h : Spends id s s₁ log before between excess)
    (h' : Spends id s₁ s' log' between after excess') :
    Spends id s s' (log ++ log') before after (excess + excess') where
  notifications := by
    rw [h'.notifications, h.notifications, List.reverse_append, List.append_assoc]
  bound := by
    have hfirst := h.bound
    have hsecond := h'.bound
    rw [firings_append, enablings_append]
    omega
  counted := by
    have hfirst := h.counted
    have hsecond := h'.counted
    rw [firings_append]
    omega

theorem keepLess (h : Spends id s s' log before after excess) {less : Nat} (hless : less ≤ after) :
    Spends id s s' log before less excess :=
  { h with bound := Nat.le_trans (Nat.add_le_add_left hless _) h.bound }

theorem more (h : Spends id s s' log before after excess) (hmore : excess ≤ excess') :
    Spends id s s' log before after excess' :=
  { h with bound := Nat.le_trans h.bound (Nat.add_le_add_left hmore _) }

theorem of_logged (id : String) (h : Logged s.view log s s') :
    s'.times id ≤ s.times id + firings id log ∧
    chances (s'.enabled? id) ≤ chances (s.enabled? id) + enablings id log := by
  have htimes := s.view.occurrences_seeAll log id
  have hchances := s.view.chances_seeAll log id
  rw [h.same.occurrences] at htimes
  rw [h.same.enabled] at hchances
  exact ⟨htimes, hchances⟩

/-- Mutations that let no event happen. -/
theorem quiet (id : String) (hs : s.WellFormed) {sort : Mutation → Prop}
    (hsort : ∀ m, sort m → ¬ m.Fires) (h : s.Becomes sort s') : ∃ log, firings id log = 0 ∧
      Spends id s s' log (chances (s.enabled? id)) (chances (s'.enabled? id)) 0 := by
  obtain ⟨log, hlog⟩ := Logged.becomes hs (View.Same.refl s.view) h
  have htells : Tells "" s s' [] := .becomes hs hsort h
  obtain ⟨pushed, hpushed, hfired⟩ := htells.told
  have hsame : pushed.reverse = log := by
    rw [hlog.notifications] at hpushed
    rw [← List.append_cancel_right hpushed, List.reverse_reverse]
  have hnone : firings id log = 0 := by
    rw [firings_eq, ← hsame, hfired]
    rfl
  obtain ⟨htimes, hchances⟩ := of_logged id hlog
  exact ⟨log, hnone, hlog.notifications, by omega, htimes⟩

end Spends

namespace Spends

variable {id event trigger : String} {s s' : State}

theorem fired_logged (hs : s.WellFormed) (h : s.fireEvent event trigger = .ok s') :
    Logged s.view [.eventFired event trigger] s s' := by
  obtain ⟨-, rfl⟩ := State.fireEvent_eq_ok.1 h
  exact Logged.fired hs (View.Same.refl s.view) event trigger

theorem fired_self (hs : s.WellFormed) (henabled : s.enabled? id ≠ some false)
    (h : s.fireEvent id trigger = .ok s') :
    Spends id s s' [.eventFired id trigger] (chances (s.enabled? id)) 0 0 where
  notifications := (fired_logged hs h).notifications
  bound := by simp [firings, Notification.fires, chances, henabled]
  counted := (of_logged id (fired_logged hs h)).1

theorem fired_other (hs : s.WellFormed) (hne : event ≠ id)
    (h : s.fireEvent event trigger = .ok s') :
    Spends id s s' [.eventFired event trigger] (chances (s.enabled? id))
      (chances (s'.enabled? id)) 0 where
  notifications := (fired_logged hs h).notifications
  bound := by
    have hchances := (of_logged id (fired_logged hs h)).2
    simpa [firings, Notification.fires, hne] using hchances
  counted := (of_logged id (fired_logged hs h)).1

end Spends

/-! ### Happening -/

def Outcome.failures {α : Type} : Outcome α → Nat
  | .failed _ => 1
  | _ => 0

/-- What is left of chances by a run that ends so. One that never ends leaves none. -/
def Outcome.left {α : Type} (chances : Nat) : Outcome α → Nat
  | .done _ | .failed _ => chances
  | .suspended | .exhausted => 0

theorem Outcome.left_le {α : Type} (o : Outcome α) {chances : Nat} : o.left chances ≤ chances := by
  cases o with
  | done _ => exact Nat.le_refl _
  | failed _ => exact Nat.le_refl _
  | suspended => exact Nat.zero_le _
  | exhausted => exact Nat.zero_le _

/-- Outcomes that differ in what is done at most. -/
def Outcome.Like {α β : Type} : Outcome α → Outcome β → Prop
  | .done _, .done _ | .failed _, .failed _ | .suspended, .suspended | .exhausted, .exhausted =>
    True
  | _, _ => False

theorem Outcome.Like.eq {α β : Type} {o : Outcome α} {o' : Outcome β} (h : o.Like o') :
    o'.failures = o.failures ∧ ∀ chances, o'.left chances = o.left chances := by
  cases o <;> cases o' <;> first | exact ⟨rfl, fun _ => rfl⟩ | exact h.elim

/-- What a run lets happen is paid for with the chances before it, but for what an error breaks
off. -/
structure Paid {α : Type} (id : String) (w : World) (o : Outcome α) (w' : World) (excess : Nat) :
    Prop where
  spends : ∃ log, Spends id w.state w'.state log (chances (w.state.enabled? id))
    (o.left (chances (w'.state.enabled? id))) excess
  few : excess ≤ o.failures

namespace Paid

variable {α β : Type} {id : String} {w w₁ w' : World} {o : Outcome α} {excess excess' : Nat}

theorem quiet (hw : w.state.WellFormed) {sort : Mutation → Prop} (hsort : ∀ m, sort m → ¬ m.Fires)
    (h : w.state.Becomes sort w'.state) (o : Outcome α) : Paid id w o w' 0 := by
  obtain ⟨log, -, hlog⟩ := Spends.quiet id hw hsort h
  exact ⟨⟨log, hlog.keepLess o.left_le⟩, Nat.zero_le _⟩

theorem trans {b : β} (h : Paid id w (.done b) w₁ excess) (h' : Paid id w₁ o w' excess') :
    Paid id w o w' excess' := by
  obtain ⟨log, hlog⟩ := h.spends
  obtain ⟨log', hlog'⟩ := h'.spends
  have hnone : excess = 0 := Nat.le_zero.1 h.few
  have htotal := hlog.trans hlog'
  rw [hnone, Nat.zero_add] at htotal
  exact ⟨⟨log ++ log', htotal⟩, h'.few⟩

theorem like (h : Paid id w o w' excess) {o' : Outcome β} (hlike : o.Like o') :
    Paid id w o' w' excess := by
  obtain ⟨hfailures, hleft⟩ := hlike.eq
  refine ⟨?_, ?_⟩
  · rw [hleft]
    exact h.spends
  · rw [hfailures]
    exact h.few

theorem map {p : Play α} (h : Paid id w (p w).1 (p w).2 excess) (f : α → β) :
    Paid id w ((f <$> p) w).1 ((f <$> p) w).2 excess := by
  have hmap : (f <$> p) w = (p >>= fun a => pure (f a)) w := rfl
  rw [hmap]
  simp only [bind]
  rcases hp : p w with ⟨o, w'⟩
  rw [hp] at h
  cases o <;> exact h.like trivial

end Paid

namespace Play

variable {α β : Type}

theorem bind_eq (p : Play α) (f : α → Play β) (w : World) :
    (p >>= f) w =
      match p w with
      | (.done a, w) => f a w
      | (.failed e, w) => (.failed e, w)
      | (.suspended, w) => (.suspended, w)
      | (.exhausted, w) => (.exhausted, w) := rfl

theorem change_cases (f : State → Except EvaluationError State) (w : World) :
    (∃ s, f w.state = .ok s ∧ change f w = (.done (), { w with state := s })) ∨
      ∃ cause, change f w = (.failed cause, w) := by
  unfold change
  cases f w.state with
  | ok s => exact .inl ⟨s, rfl, rfl⟩
  | error cause => exact .inr ⟨_, rfl⟩

variable {screen : Screen} {patience : Nat} {trigger : String} {e : Event Expression} {w : World}

/-- An event that happens is counted and then its actions run, however they end. It is disabled in
the end if it happens once. -/
theorem happen_cases (hw : w.state.WellFormed) {o : Outcome Unit} {w' : World}
    (h : happen screen patience trigger e w = (o, w')) :
    (w' = w ∧ o.failures = 1) ∨
      ∃ s, w.state.fireEvent e.id trigger = .ok s ∧ s.Becomes Mutation.OfAction w'.state ∧
        (o = .done () → e.once → w'.state.enabled? e.id = some false) := by
  unfold happen at h
  rw [bind_eq] at h
  rcases change_cases (·.fireEvent e.id trigger) w with ⟨s, hs, hchange⟩ | ⟨cause, hchange⟩
  · rw [hchange] at h
    dsimp only at h
    rw [bind_eq] at h
    refine .inr ⟨s, hs, ?_⟩
    have hactions := runAll_becomes screen patience e.actions { w with state := s }
    rcases hrun : runAll screen patience e.actions { w with state := s } with ⟨o', w₁⟩
    rw [hrun] at h hactions
    cases o' with
    | done flow =>
      dsimp only at h
      split at h
      · rcases change_cases (·.setEventEnabled e.id false) w₁ with
          ⟨t, ht, htoggle⟩ | ⟨cause, htoggle⟩
        · rw [htoggle] at h
          cases h
          refine ⟨hactions.tail (m := .toggle e.id false) trivial ht, fun _ _ => ?_⟩
          have hw₁ : w₁.state.WellFormed :=
            (hw.mutate (m := .fire e.id trigger) hs).becomes hactions
          obtain ⟨flags, hflags, rfl⟩ := State.setEventEnabled_eq_ok.1 ht
          rw [enabled?_of_toggle hw₁.indexed hflags rfl]
          simp [View.put]
        · rw [htoggle] at h
          cases h
          exact ⟨hactions, by rintro ⟨⟩⟩
      · rename_i honce
        cases h
        exact ⟨hactions, fun _ h => absurd h honce⟩
    | failed cause =>
      cases h
      exact ⟨hactions, by rintro ⟨⟩⟩
    | suspended =>
      cases h
      exact ⟨hactions, by rintro ⟨⟩⟩
    | exhausted =>
      cases h
      exact ⟨hactions, by rintro ⟨⟩⟩
  · rw [hchange] at h
    cases h
    exact .inl ⟨rfl, rfl⟩

end Play

namespace Play

variable {screen : Screen} {patience : Nat} {trigger id : String} {e : Event Expression}
  {w w' : World}

/-- Happening spends the chance of an event that happens once, unless an error breaks it off. -/
theorem happen_paid {o : Outcome Unit} (hw : w.state.WellFormed)
    (henabled : w.state.enabled? e.id ≠ some false) (honce : e.id = id → e.once)
    (h : happen screen patience trigger e w = (o, w')) :
    Paid id w o w' (if e.id = id then o.failures else 0) := by
  refine ⟨?_, by split <;> omega⟩
  rcases happen_cases hw h with ⟨hsame, hfailed⟩ | ⟨s, hfire, hactions, hdone⟩
  · subst hsame
    exact ⟨[], ((Spends.refl w'.state _).keepLess o.left_le).more (Nat.zero_le _)⟩
  · have hs : s.WellFormed := hw.mutate (m := .fire e.id trigger) hfire
    obtain ⟨log, hnone, hquiet⟩ := Spends.quiet id hs (fun _ h => h.not_fires) hactions
    by_cases hid : e.id = id
    · subst hid
      -- What the actions leave is either taken by the disabling or paid for by the error.
      have hpaid : o.left (chances (w'.state.enabled? e.id)) ≤ o.failures := by
        cases o with
        | done =>
          have hdisabled := hdone rfl (honce rfl)
          simp [Outcome.left, Outcome.failures, hdisabled, chances]
        | failed cause => exact chances_le_one _
        | suspended => exact Nat.le_refl 0
        | exhausted => exact Nat.le_refl 0
      have hactions : Spends e.id s w'.state log 0 (o.left (chances (w'.state.enabled? e.id)))
          o.failures := { hquiet with bound := by omega }
      rw [if_pos rfl, ← Nat.zero_add o.failures]
      exact ⟨_, (Spends.fired_self hw henabled hfire).trans hactions⟩
    · rw [if_neg hid]
      exact ⟨_, (Spends.fired_other hw hid hfire).trans (hquiet.keepLess o.left_le)⟩

theorem takesTurn_draws {excluded : List String} {o : Outcome Bool}
    (h : takesTurn excluded e w = (o, w')) : w.state.Becomes (· = .draw) w'.state := by
  have hdraws : w.state.Becomes (· = .draw) (takesTurn excluded e w).2.state :=
    Agree.becomes ((simulation_self quiet (· = .draw) w.state).takesTurn rfl excluded e)
  rw [h] at hdraws
  exact hdraws

theorem not_fires_draw : ∀ m : Mutation, m = .draw → ¬ m.Fires := by
  rintro _ rfl
  exact fun h => h

theorem enabled_of_takesTurn {earlier : List (Event Expression)}
    (h : takesTurn (exclusionsOf earlier) e w = (.done true, w')) :
    w'.state.enabled? e.id ≠ some false := by
  obtain ⟨hrefused, random, -, rfl⟩ := takesTurn_eq_done h
  intro hdisabled
  obtain ⟨flags, hflags, hflag⟩ := Option.map_eq_some_iff.1 hdisabled
  have henabled : w.state.registry.isEnabled e.id = .ok false := by
    unfold Registry.isEnabled Registry.find
    rw [show w.state.registry.flags? e.id = some flags from hflags]
    exact congrArg Except.ok hflag
  exact absurd (hrefused.2 (.disabled henabled)) (by decide)

end Play

/-! ### Passes -/

section Passes

variable (screen : Screen) (patience : Nat) (trigger id : String)

/-- One if the event of a turn happens and an error breaks that off. -/
def Turn.breaks (t : Turn) : Nat :=
  match Play.takesTurn (exclusionsOf t.earlier) t.event t.world with
  | (.done true, w) => (Play.happen screen patience trigger t.event w).1.failures
  | _ => 0

/-- How often an event is broken off in these turns. -/
def breaks (ts : List Turn) : Nat :=
  ((ts.filter (·.event.id = id)).map (·.breaks screen patience trigger)).sum

variable {screen patience trigger id}

theorem breaks_cons (t : Turn) (ts : List Turn) :
    breaks screen patience trigger id (t :: ts) =
      (if t.event.id = id then t.breaks screen patience trigger else 0) +
        breaks screen patience trigger id ts := by
  unfold breaks
  rw [List.filter_cons]
  by_cases hid : t.event.id = id <;> simp [hid]

theorem Turn.breaks_of_done {t : Turn} {w : World}
    (h : Play.takesTurn (exclusionsOf t.earlier) t.event t.world = (.done true, w)) :
    t.breaks screen patience trigger =
      (Play.happen screen patience trigger t.event w).1.failures := by
  unfold breaks
  rw [h]

theorem Turn.breaks_of_not_done {t : Turn} {o : Outcome Bool} {w : World}
    (h : Play.takesTurn (exclusionsOf t.earlier) t.event t.world = (o, w)) (ho : o ≠ .done true) :
    t.breaks screen patience trigger = 0 := by
  unfold breaks
  rw [h]
  split
  · rename_i heq
    cases heq
    exact absurd rfl ho
  · rfl

theorem listen_paid {earlier es : List (Event Expression)} {w w' : World}
    {o : Outcome (List String × Bool)} (hw : w.state.WellFormed)
    (honce : ∀ e ∈ es, e.id = id → e.once)
    (h : Play.listen screen patience trigger (exclusionsOf earlier) es w = (o, w')) :
    Paid id w o w' (breaks screen patience trigger id
      (turns screen patience trigger earlier es w)) := by
  induction es generalizing earlier w w' o with
  | nil =>
    cases h
    exact .quiet hw Play.not_fires_draw (.refl _) _
  | cons e es ih =>
    have hrest := fun e' he' => honce e' (List.mem_cons_of_mem e he')
    unfold Play.listen at h
    rw [Play.bind_eq] at h
    rcases hturn : Play.takesTurn (exclusionsOf earlier) e w with ⟨takes, w₁⟩
    rw [hturn] at h
    have hdraws := Play.takesTurn_draws hturn
    have hw₁ := hw.becomes hdraws
    have hnone : takes ≠ .done true → Turn.breaks screen patience trigger ⟨e, earlier, w⟩ = 0 :=
      Turn.breaks_of_not_done (t := ⟨e, earlier, w⟩) hturn
    unfold turns
    rw [breaks_cons]
    simp only [hturn]
    cases takes with
    | done takes =>
      have hquiet : Paid id w (.done takes) w₁ 0 := .quiet hw Play.not_fires_draw hdraws _
      cases takes with
      | false =>
        rw [hnone (by simp), ite_self, Nat.zero_add]
        exact hquiet.trans (ih hw₁ hrest h)
      | true =>
        have hbreaks : Turn.breaks screen patience trigger ⟨e, earlier, w⟩ =
            (Play.happen screen patience trigger e w₁).1.failures :=
          Turn.breaks_of_done (t := ⟨e, earlier, w⟩) hturn
        rw [hbreaks]
        dsimp only at h ⊢
        rw [if_pos rfl, Play.bind_eq] at h
        rcases hhappen : Play.happen screen patience trigger e w₁ with ⟨happened, w₂⟩
        rw [hhappen] at h
        have hpaid := hquiet.trans (Play.happen_paid hw₁ (Play.enabled_of_takesTurn hturn)
          (honce e List.mem_cons_self) hhappen)
        cases happened with
        | done =>
          have hw₂ : w₂.state.WellFormed := (happen_tells hw₁ hhappen).1
          have hmore : exclusionsOf earlier ++ e.exclusions = exclusionsOf (earlier ++ [e]) := by
            simp [exclusionsOf]
          simp only [Outcome.failures, ite_self, Nat.zero_add]
          dsimp only at h
          rw [Play.bind_eq] at h
          cases hending : w₂.state.ending.isSome with
          | true =>
            simp only [Play.look, hending, ↓reduceIte] at h ⊢
            cases h
            exact hpaid.trans (.quiet hw₂ Play.not_fires_draw (.refl _) _)
          | false =>
            simp only [Play.look, hending, Bool.false_eq_true, ↓reduceIte] at h ⊢
            rw [hmore, Play.bind_eq] at h
            rcases hlisten : Play.listen screen patience trigger
              (exclusionsOf (earlier ++ [e])) es w₂ with ⟨later, w₃⟩
            rw [hlisten] at h
            have hlater := hpaid.trans (ih hw₂ hrest hlisten)
            cases later <;> cases h <;> exact hlater.like trivial
        | failed cause =>
          cases h
          exact hpaid.like trivial
        | suspended =>
          cases h
          exact hpaid.like trivial
        | exhausted =>
          cases h
          exact hpaid.like trivial
    | failed cause =>
      rw [hnone (by simp), ite_self]
      cases h
      exact .quiet hw Play.not_fires_draw hdraws _
    | suspended =>
      rw [hnone (by simp), ite_self]
      cases h
      exact .quiet hw Play.not_fires_draw hdraws _
    | exhausted =>
      rw [hnone (by simp), ite_self]
      cases h
      exact .quiet hw Play.not_fires_draw hdraws _

theorem pass_paid {p : PendingTrigger} {w w' : World} {o : Outcome PassReport}
    (hw : w.state.WellFormed) (honce : ∀ e ∈ w.state.registry.events, e.id = id → e.once)
    (h : Play.pass screen patience p w = (o, w')) :
    Paid id w o w' (breaks screen patience p.trigger id (turnsOf screen patience p w)) := by
  unfold Play.pass at h
  rw [Play.bind_eq] at h
  have hdraws : w.state.Becomes (· = .draw) (Play.chance (gate p.probability) w).2.state :=
    Agree.becomes
      ((simulation_self quiet (· = .draw) w.state).chance (gate_source p.probability) rfl)
  unfold turnsOf
  rcases hgate : Play.chance (gate p.probability) w with ⟨passed, w₁⟩
  rw [hgate] at h hdraws
  have hw₁ := hw.becomes hdraws
  cases passed with
  | done passed =>
    have hquiet : Paid id w (.done passed) w₁ 0 := .quiet hw Play.not_fires_draw hdraws _
    cases passed with
    | false =>
      cases h
      exact hquiet.like trivial
    | true =>
      dsimp only at h ⊢
      simp only [↓reduceIte, Play.bind_eq, Play.look] at h
      have hlisteners : ∀ e ∈ w₁.state.registry.listeners p.trigger, e.id = id → e.once := by
        intro e he
        rw [hw₁.indexed.listeners_eq] at he
        have hmem := (List.mem_filter.1 he).1
        rw [Array.mem_toList_iff, hdraws.events] at hmem
        exact honce e hmem
      rcases hlisten : Play.listen screen patience p.trigger []
        (w₁.state.registry.listeners p.trigger) w₁ with ⟨later, w₂⟩
      rw [hlisten] at h
      change Play.listen screen patience p.trigger (exclusionsOf []) _ w₁ = _ at hlisten
      have hlater := hquiet.trans (listen_paid hw₁ hlisteners hlisten)
      cases later <;> cases h <;> exact hlater.like trivial
  | failed cause =>
    cases h
    exact .quiet hw Play.not_fires_draw hdraws _
  | suspended =>
    cases h
    exact .quiet hw Play.not_fires_draw hdraws _
  | exhausted =>
    cases h
    exact .quiet hw Play.not_fires_draw hdraws _

end Passes

/-! ### Calls -/

def Answer.failures : Answer → Nat
  | .report outcome => outcome.failures
  | .reports outcome => outcome.failures
  | _ => 0

/-- The calls between two resets. -/
def Call.Continues : Call → Prop
  | .reset | .restore _ => False
  | _ => True

namespace Engine

/-- The trigger whose pass is next, and the queue behind it. -/
def upcoming? (e : Engine) : Option (PendingTrigger × TriggerQueue) :=
  if e.inFlight || e.state.ending.isSome then none else e.state.queue.pop?

/-- What the chances of an event come to. While a pass waits there are none. -/
def chances (e : Engine) (id : String) : Nat :=
  if e.inFlight then 0 else Scenario.chances (e.state.enabled? id)

section Breaks

variable (screen : Screen) (id : String)

/-- How often the next pass breaks off an event. -/
def breaksNext (patience : Nat) (e : Engine) : Nat :=
  match e.upcoming? with
  | some (p, queue) =>
    breaks screen patience p.trigger id
      (turnsOf screen patience p (e.setState { e.state with queue }).world)
  | none => 0

def breaksDuring (patience : Nat) : Nat → Engine → Nat
  | 0, _ => 0
  | passes + 1, e =>
    e.breaksNext screen id patience +
      match e.processNext screen patience with
      | (.done (some _), e) => breaksDuring patience passes e
      | _ => 0

def breaksIn (e : Engine) : Call → Nat
  | .next patience => e.breaksNext screen id patience
  | .run patience passes => breaksDuring screen id patience passes e
  | _ => 0

/-- How often errors break off an event while it happens in these calls. -/
def breaksOver : List Call → Engine → Nat
  | [], _ => 0
  | call :: calls, e => e.breaksIn screen id call + breaksOver calls (e.perform screen call).2

end Breaks

variable {screen : Screen} {id : String} {e e' : Engine}

theorem processNext_eq (patience : Nat) : e.processNext screen patience =
    match e.upcoming? with
    | some (p, queue) =>
      (e.setState { e.state with queue }).inFlightDuring (some <$> Play.pass screen patience p)
    | none => (if e.inFlight then .failed (.usage .passInFlight) else .done none, e) := by
  unfold processNext upcoming?
  cases hflight : e.inFlight with
  | true =>
    rw [requireIdle_of_inFlight hflight]
    rfl
  | false =>
    rw [requireIdle_of_idle hflight]
    cases e.state.ending.isSome with
    | true => rfl
    | false =>
      cases hpop : e.state.queue.pop? with
      | none => simp
      | some popped => simp

/-- A run is in flight for good if it is neither done nor fails. -/
theorem inFlightDuring_map {α β : Type} (f : α → β) (p : Play α) : e.inFlightDuring (f <$> p) =
    match p e.world with
    | (.done a, world) => (.done (f a), { e with world })
    | (.failed cause, world) => (.failed cause, { e with world })
    | (.suspended, world) => (.suspended, { e with world, inFlight := true })
    | (.exhausted, world) => (.exhausted, { e with world, inFlight := true }) := by
  have hmap : (f <$> p) e.world = (p >>= fun a => pure (f a)) e.world := rfl
  unfold inFlightDuring
  rw [hmap, Play.bind_eq]
  rcases p e.world with ⟨o, w⟩
  cases o <;> rfl

theorem upcoming?_eq_some {p : PendingTrigger} {queue : TriggerQueue}
    (h : e.upcoming? = some (p, queue)) :
    e.inFlight = false ∧ e.state.queue.pop? = some (p, queue) := by
  unfold upcoming? at h
  split at h
  · cases h
  · rename_i hidle
    simp only [Bool.or_eq_true, not_or, Bool.not_eq_true] at hidle
    exact ⟨hidle.1, h⟩

/-- What a run of the engine lets happen is paid for. -/
structure Paid {α : Type} (id : String) (e : Engine) (o : Outcome α) (e' : Engine) (excess : Nat) :
    Prop where
  spends : ∃ log, Spends id e.state e'.state log (e.chances id) (e'.chances id) excess
  few : excess ≤ o.failures

theorem Paid.trans {α β : Type} {e₁ : Engine} {b : β} {o : Outcome α} {excess excess' : Nat}
    (h : Paid id e (.done b) e₁ excess) (h' : Paid id e₁ o e' excess') :
    Paid id e o e' (excess + excess') := by
  obtain ⟨log, hlog⟩ := h.spends
  obtain ⟨log', hlog'⟩ := h'.spends
  have hnone : excess = 0 := Nat.le_zero.1 h.few
  refine ⟨⟨log ++ log', hlog.trans hlog'⟩, ?_⟩
  rw [hnone, Nat.zero_add]
  exact h'.few

theorem inFlightDuring_paid {α : Type} {p : Play α} {excess : Nat} (hidle : e.inFlight = false)
    (h : Scenario.Paid id e.world (p e.world).1 (p e.world).2 excess) :
    Paid id e (e.inFlightDuring p).1 (e.inFlightDuring p).2 excess := by
  obtain ⟨hspends, hfew⟩ := h
  have hbefore : e.chances id = Scenario.chances (e.world.state.enabled? id) := by
    unfold chances
    rw [hidle]
    rfl
  unfold inFlightDuring
  rcases hp : p e.world with ⟨o, w'⟩
  rw [hp] at hspends hfew
  cases o with
  | done a =>
    refine ⟨?_, hfew⟩
    have hafter : ({ e with world := w' } : Engine).chances id =
        Scenario.chances (w'.state.enabled? id) := by
      unfold chances
      rw [hidle]
      rfl
    rw [hbefore, hafter]
    exact hspends
  | failed cause =>
    refine ⟨?_, hfew⟩
    have hafter : ({ e with world := w' } : Engine).chances id =
        Scenario.chances (w'.state.enabled? id) := by
      unfold chances
      rw [hidle]
      rfl
    rw [hbefore, hafter]
    exact hspends
  | suspended =>
    rw [← hbefore] at hspends
    exact ⟨hspends, hfew⟩
  | exhausted =>
    rw [← hbefore] at hspends
    exact ⟨hspends, hfew⟩

theorem processNext_paid (hw : e.state.WellFormed)
    (honce : ∀ event ∈ e.state.registry.events, event.id = id → event.once) (screen : Screen)
    (patience : Nat) :
    Paid id e (e.processNext screen patience).1 (e.processNext screen patience).2
      (e.breaksNext screen id patience) := by
  rw [processNext_eq]
  unfold breaksNext
  cases hupcoming : e.upcoming? with
  | none => exact ⟨⟨[], .refl e.state _⟩, Nat.zero_le _⟩
  | some upcoming =>
    obtain ⟨p, queue⟩ := upcoming
    obtain ⟨hidle, hpop⟩ := upcoming?_eq_some hupcoming
    let popped := e.setState { e.state with queue }
    have hpopped : popped.world.state.WellFormed := hw.mutate (Engine.pop_queue hpop)
    have hpass : Scenario.Paid id popped.world (Play.pass screen patience p popped.world).1
        (Play.pass screen patience p popped.world).2 _ := pass_paid hpopped honce rfl
    obtain ⟨⟨log, hlog⟩, hfew⟩ := inFlightDuring_paid (e := popped) hidle (hpass.map some)
    -- The popped engine differs in its queue only, which no log tells of.
    exact ⟨⟨log, { hlog with }⟩, hfew⟩

theorem processNext_events (e : Engine) (screen : Screen) (patience : Nat) :
    (e.processNext screen patience).2.state.registry.events = e.state.registry.events :=
  (processNext_becomes screen patience).events

theorem runUntilIdle_paid (hw : e.state.WellFormed)
    (honce : ∀ event ∈ e.state.registry.events, event.id = id → event.once) (screen : Screen)
    (patience passes : Nat) :
    Paid id e (runUntilIdle screen patience passes e).1 (runUntilIdle screen patience passes e).2
      (breaksDuring screen id patience passes e) := by
  induction passes generalizing e with
  | zero => exact ⟨⟨[], .refl e.state _⟩, Nat.zero_le _⟩
  | succ passes ih =>
    have hnext := processNext_paid hw honce screen patience
    have hw' := hw.becomes (processNext_becomes (e := e) screen patience)
    have hevents := processNext_events e screen patience
    unfold runUntilIdle breaksDuring
    rcases hpass : e.processNext screen patience with ⟨o, e'⟩
    rw [hpass] at hnext hw' hevents
    cases o with
    | done report =>
      cases report with
      | none => exact ⟨hnext.spends, hnext.few⟩
      | some report =>
        have hall := hnext.trans (ih hw' (hevents ▸ honce))
        dsimp only
        rcases hmore : runUntilIdle screen patience passes e' with ⟨o', e''⟩
        rw [hmore] at hall
        cases o' <;> exact ⟨hall.spends, hall.few⟩
    | failed cause => exact ⟨hnext.spends, hnext.few⟩
    | suspended => exact ⟨hnext.spends, hnext.few⟩
    | exhausted => exact ⟨hnext.spends, hnext.few⟩

/-! ### Definitions -/

/-- Nothing is told, and an event has no more chances and is not counted more often. -/
structure Still (id : String) (e e' : Engine) : Prop where
  inFlight : e'.inFlight = e.inFlight
  notifications : e'.state.notifications = e.state.notifications
  chances : Scenario.chances (e'.state.enabled? id) ≤ Scenario.chances (e.state.enabled? id)
  times : e'.state.times id ≤ e.state.times id

namespace Still

variable {e₁ : Engine}

theorem refl (e : Engine) : Still id e e := ⟨rfl, rfl, Nat.le_refl _, Nat.le_refl _⟩

theorem trans (h : Still id e e₁) (h' : Still id e₁ e') : Still id e e' where
  inFlight := h'.inFlight.trans h.inFlight
  notifications := h'.notifications.trans h.notifications
  chances := Nat.le_trans h'.chances h.chances
  times := Nat.le_trans h'.times h.times

theorem spends (h : Still id e e') :
    Spends id e.state e'.state [] (e.chances id) (e'.chances id) 0 where
  notifications := h.notifications
  bound := by
    have hless : e'.chances id ≤ e.chances id := by
      unfold Engine.chances
      rw [h.inFlight]
      split
      · exact Nat.le_refl 0
      · exact h.chances
    simpa [firings] using Nat.le_add_right_of_le hless
  counted := Nat.le_add_right_of_le h.times

theorem defineVariable {id' : String} {v : Variable} (h : e.defineVariable id' v = .ok e') :
    Still id e e' := by
  obtain ⟨-, -, rfl⟩ := defineVariable_eq_ok h
  exact ⟨rfl, rfl, Nat.le_refl _, Nat.le_refl _⟩

theorem registerAttribute {a : Attribute} (h : e.registerAttribute a = .ok e') :
    Still id e e' := by
  obtain ⟨-, -, rfl⟩ := registerAttribute_eq_ok h
  exact ⟨rfl, rfl, Nat.le_refl _, Nat.le_refl _⟩

theorem registerItem {p : Provider Expression} (h : e.registerItem p = .ok e') :
    Still id e e' := by
  obtain ⟨-, rfl⟩ := registerItem_eq_ok h
  exact ⟨rfl, rfl, Nat.le_refl _, Nat.le_refl _⟩

theorem registerStatus {p : Provider Expression} (h : e.registerStatus p = .ok e') :
    Still id e e' := by
  obtain ⟨-, rfl⟩ := registerStatus_eq_ok h
  exact ⟨rfl, rfl, Nat.le_refl _, Nat.le_refl _⟩

/-- A new event has its chance as before, when nothing stood in its way. -/
theorem registerEvent (hw : e.state.WellFormed) {event : Event Expression}
    (h : e.registerEvent event = .ok e') : Still id e e' := by
  obtain ⟨registry, hr, rfl⟩ := registerEvent_eq_ok h
  have hflags : registry.flags? id = if event.id = id then some (.initial event) else
    e.state.registry.flags? id := hw.indexed.flags?_register hr id
  by_cases hid : event.id = id
  · rw [if_pos hid] at hflags
    have hnew : e.state.registry.flags? id = none := by
      have hindex := Std.ExtTreeMap.getElem?_eq_none_of_contains_eq_false
        (Registry.register_eq_ok hr).1
      unfold Registry.flags?
      rw [← hid, hindex]
      rfl
    refine ⟨rfl, rfl, ?_, ?_⟩
    · have hbefore : Scenario.chances (e.state.enabled? id) = 1 := by
        unfold State.enabled?
        rw [hnew]
        rfl
      rw [hbefore]
      exact chances_le_one _
    · have hafter : (e.setState { e.state with registry }).state.times id = 0 := by
        change ((registry.flags? id).map EventFlags.occurrences).getD 0 = 0
        rw [hflags]
        rfl
      rw [hafter]
      exact Nat.zero_le _
  · rw [if_neg hid] at hflags
    refine ⟨rfl, rfl, ?_, ?_⟩
    · change Scenario.chances ((registry.flags? id).map _) ≤ _
      rw [hflags]
      exact Nat.le_refl _
    · change ((registry.flags? id).map EventFlags.occurrences).getD 0 ≤ _
      rw [hflags]
      exact Nat.le_refl _

theorem keptByDefining (id : String) (e : Engine) :
    KeptByDefining fun e' => e'.state.WellFormed ∧ Still id e e' where
  compiler _ h := ⟨h.1, { h.2 with }⟩
  defineVariable h hx := ⟨defineVariable_wellFormed h.1 hx, h.2.trans (.defineVariable hx)⟩
  registerAttribute h hx :=
    ⟨registerAttribute_wellFormed h.1 hx, h.2.trans (.registerAttribute hx)⟩
  registerItem h hx := ⟨registerItem_wellFormed h.1 hx, h.2.trans (.registerItem hx)⟩
  registerStatus h hx := ⟨registerStatus_wellFormed h.1 hx, h.2.trans (.registerStatus hx)⟩
  registerEvent h hx := ⟨registerEvent_wellFormed h.1 hx, h.2.trans (.registerEvent h.1 hx)⟩

theorem perform (hw : e.state.WellFormed) (screen : Screen) {call : Call} (hcall : call.Defines) :
    Still id e (e.perform screen call).2 :=
  ((keptByDefining id e).perform ⟨hw, .refl e⟩ screen hcall).2

end Still

/-! ### Sessions -/

/-- What calls tell and let happen is paid for. -/
structure Accounts (id : String) (e e' : Engine) (answers : List Answer) (excess : Nat) : Prop where
  told : ∃ log, drainedOf answers ++ e'.pending = e.pending ++ log ∧
    firings id log + e'.chances id ≤ e.chances id + enablings id log + excess ∧
    e'.state.times id ≤ e.state.times id + firings id log
  few : excess ≤ (answers.map Answer.failures).sum

theorem Accounts.of_spends {call : Call} {log : List Notification} {excess : Nat}
    (h : Spends id e.state (e.perform screen call).2.state log (e.chances id)
      ((e.perform screen call).2.chances id) excess)
    (hdrain : call ≠ .drain) (hfew : excess ≤ (e.perform screen call).1.failures) :
    Accounts id e (e.perform screen call).2 [(e.perform screen call).1] excess := by
  refine ⟨⟨log, ?_, h.bound, h.counted⟩, by simpa using hfew⟩
  rw [drainedOf_perform screen e hdrain, List.nil_append]
  unfold pending
  rw [h.notifications, List.reverse_append, List.reverse_reverse]

theorem perform_inFlight (screen : Screen) {call : Call} (hplays : call.Plays)
    (hpass : ¬ call.Passes) : (e.perform screen call).2.inFlight = e.inFlight := by
  have hattempt {f : State → Except EvaluationError State} :
      (e.attempt (e.change f)).2.inFlight = e.inFlight := by
    apply attempt_keeps (Q := (·.inFlight = e.inFlight)) rfl
    intro e' h
    obtain ⟨-, s, -, rfl⟩ := change_eq_ok h
    rfl
  cases call with
  | setVariable id x => exact hattempt
  | giveItem id amount => exact hattempt
  | setStatus id duration => exact hattempt
  | tick =>
    rw [perform_tick]
    split <;> rfl
  | evaluate source =>
    change (e.evaluate source).2.inFlight = e.inFlight
    unfold evaluate compile
    rcases e.compiler.compile source with ⟨_ | _, c⟩ <;> rfl
  | next _ => exact absurd trivial hpass
  | run _ _ => exact absurd trivial hpass
  | compile _ | value _ | trigger _ _ _ | fire _ | save => rfl
  | _ => exact hplays.elim

theorem perform_plays_spends (id : String) (hw : e.state.WellFormed) (screen : Screen)
    {call : Call} (hplays : call.Plays) (hpass : ¬ call.Passes) :
    ∃ log, Spends id e.state (e.perform screen call).2.state log (e.chances id)
      ((e.perform screen call).2.chances id) 0 := by
  obtain ⟨log, hnone, hlog⟩ := Spends.quiet id hw (fun _ => Call.not_fires)
    (perform_mutates screen hplays hpass)
  refine ⟨log, hlog.notifications, ?_, hlog.counted⟩
  have hbound := hlog.bound
  unfold chances
  rw [perform_inFlight screen hplays hpass]
  split
  · omega
  · exact hbound

theorem perform_accounts (hw : e.state.WellFormed)
    (honce : ∀ event ∈ e.state.registry.events, event.id = id → event.once) (screen : Screen)
    {call : Call} (hcall : call.Continues) :
    Accounts id e (e.perform screen call).2 [(e.perform screen call).1]
      (e.breaksIn screen id call) := by
  have hstill (hdrain : call ≠ .drain) (h : Still id e (e.perform screen call).2) :
      Accounts id e (e.perform screen call).2 [(e.perform screen call).1] 0 :=
    .of_spends h.spends hdrain (Nat.zero_le _)
  have hplays (hplays : call.Plays) (hpass : ¬ call.Passes) (hdrain : call ≠ .drain) :
      Accounts id e (e.perform screen call).2 [(e.perform screen call).1] 0 := by
    obtain ⟨log, hlog⟩ := perform_plays_spends id hw screen hplays hpass
    exact .of_spends hlog hdrain (Nat.zero_le _)
  cases call with
  | load _ | defineVariable _ _ | registerAttribute _ | registerItem _ | registerStatus _
  | registerEvent _ => exact hstill (by simp) (.perform hw screen trivial)
  | registerFunction name arity => exact hstill (by simp) ⟨rfl, rfl, Nat.le_refl _, Nat.le_refl _⟩
  | drain =>
    refine ⟨⟨[], ?_, Nat.le_of_eq (Nat.zero_add _), Nat.le_refl _⟩, Nat.zero_le _⟩
    simp [drainedOf, perform, drainNotifications, pending, setState, state]
  | next patience =>
    obtain ⟨⟨log, hlog⟩, hfew⟩ := processNext_paid hw honce screen patience
    exact .of_spends hlog (by simp) hfew
  | run patience passes =>
    obtain ⟨⟨log, hlog⟩, hfew⟩ := runUntilIdle_paid hw honce screen patience passes
    exact .of_spends hlog (by simp) hfew
  | reset => exact hcall.elim
  | restore save => exact hcall.elim
  | setVariable _ _ | giveItem _ _ | setStatus _ _ | tick | trigger _ _ _ | fire _ | compile _
  | evaluate _ | value _ | save => exact hplays trivial (fun h => h) (by simp)

theorem Accounts.trans {e₁ : Engine} {answers answers' : List Answer} {excess excess' : Nat}
    (h : Accounts id e e₁ answers excess) (h' : Accounts id e₁ e' answers' excess') :
    Accounts id e e' (answers ++ answers') (excess + excess') := by
  obtain ⟨⟨log, htold, hbound, htimes⟩, hfew⟩ := h
  obtain ⟨⟨log', htold', hbound', htimes'⟩, hfew'⟩ := h'
  refine ⟨⟨log ++ log', ?_, ?_, ?_⟩, ?_⟩
  · have hdrained : drainedOf (answers ++ answers') = drainedOf answers ++ drainedOf answers' :=
      List.flatMap_append
    rw [hdrained, List.append_assoc, htold', ← List.append_assoc, htold, List.append_assoc]
  · rw [firings_append, enablings_append]
    omega
  · rw [firings_append]
    omega
  · rw [List.map_append, List.sum_append]
    exact Nat.add_le_add hfew hfew'

theorem performAll_events (screen : Screen) (calls : List Call) :
    ∀ event ∈ e.state.registry.events,
      event ∈ (e.performAll screen calls).2.state.registry.events := by
  induction calls generalizing e with
  | nil => exact fun _ h => h
  | cons call calls ih =>
    intro event hevent
    rw [performAll_cons]
    exact ih event (perform_events screen call event hevent)

theorem performAll_accounts (screen : Screen) {calls : List Call}
    (hcalls : ∀ call ∈ calls, call.Continues) (hw : e.state.WellFormed)
    (honce : ∀ event ∈ (e.performAll screen calls).2.state.registry.events,
      event.id = id → event.once) :
    Accounts id e (e.performAll screen calls).2 (e.performAll screen calls).1
      (e.breaksOver screen id calls) := by
  induction calls generalizing e with
  | nil =>
    refine ⟨⟨[], ?_, Nat.le_of_eq (Nat.zero_add _), Nat.le_refl _⟩, Nat.zero_le _⟩
    exact (List.append_nil _).symm
  | cons call calls ih =>
    have hbefore := fun event hevent =>
      honce event (performAll_events screen (call :: calls) event hevent)
    have hfirst := perform_accounts hw hbefore screen (hcalls call List.mem_cons_self)
    exact hfirst.trans (ih (fun call' hcall' => hcalls call' (List.mem_cons_of_mem call hcall'))
      (perform_wellFormed hw screen call) honce)

end Engine

/-- An event that happens once happens at most once between resets, but for what errors break off:
as often as it happens again it has been enabled, or an error has broken off its actions in a pass
that failed, before it was disabled. It is counted no more often than it happens. -/
theorem once_fires_once {e : Engine} (he : e.Reachable) (screen : Screen) {calls : List Call}
    (hcalls : ∀ call ∈ calls, call.Continues) {event : Event Expression}
    (hevent : event ∈ (e.performAll screen calls).2.state.registry.events)
    (honce : event.once = true) :
    (∃ log, drainedOf (e.performAll screen calls).1 ++ (e.performAll screen calls).2.pending =
        e.pending ++ log ∧
      firings event.id log ≤ 1 + enablings event.id log + e.breaksOver screen event.id calls ∧
      (e.performAll screen calls).2.state.times event.id ≤
        e.state.times event.id + firings event.id log) ∧
    e.breaksOver screen event.id calls ≤
      ((e.performAll screen calls).1.map Answer.failures).sum := by
  have hw : (e.performAll screen calls).2.state.WellFormed :=
    (Engine.ReachableBy.performAll he screen fun _ _ => trivial).wellFormed
  have hsame : ∀ event' ∈ (e.performAll screen calls).2.state.registry.events,
      event'.id = event.id → event'.once := by
    intro event' hevent' hid
    have heq := List.inj_on_of_nodup_map hw.indexed.ids_nodup (Array.mem_toList_iff.2 hevent')
      (Array.mem_toList_iff.2 hevent) hid
    rw [heq]
    exact honce
  obtain ⟨⟨log, htold, hbound, htimes⟩, hfew⟩ :=
    Engine.performAll_accounts screen hcalls he.wellFormed hsame
  have hchances : e.chances event.id ≤ 1 := by
    unfold Engine.chances
    split
    · exact Nat.zero_le 1
    · exact chances_le_one _
  exact ⟨⟨log, htold, by omega, htimes⟩, hfew⟩

/-! ### A dawn and an omen -/

def dawn : Event Expression :=
  { id := "dawn", trigger := "wake", probability := .constant 1.0, once := true }

/-- An event whose action fails, for there is no gold. -/
def omen : Event Expression :=
  { dawn with id := "omen", actions := [.updateVariable ⟨"gold", .constant 1.0⟩] }

def twice (event : Event Expression) : List Call :=
  [.registerEvent event, .fire "wake", .next 1, .fire "wake", .next 1]

theorem continues_twice (event : Event Expression) : ∀ call ∈ twice event, call.Continues := by
  simp [twice, Call.Continues]

theorem dawn_registered :
    dawn ∈ ((Engine.new {}).performAll quiet (twice dawn)).2.state.registry.events := by
  have hfirst : ((Engine.new {}).perform quiet (.registerEvent dawn)).2.state.registry.events =
      #[dawn] := rfl
  unfold twice
  rw [performAll_cons]
  apply Engine.performAll_events
  rw [hfirst]
  exact List.mem_toArray.2 List.mem_cons_self

theorem once_fires_once_dawn :
    firings "dawn" (drainedOf ((Engine.new {}).performAll quiet (twice dawn)).1 ++
      ((Engine.new {}).performAll quiet (twice dawn)).2.pending) ≤ 1 := by
  have hnew : (Engine.new {}).Reachable := .start {} (.ofSeed "default") (.ofSeed "default")
  obtain ⟨⟨log, htold, hbound, -⟩, -⟩ :=
    once_fires_once hnew quiet (continues_twice dawn) dawn_registered rfl
  have hlog : (Engine.new {}).pending ++ log = log := rfl
  have hid : dawn.id = "dawn" := rfl
  rw [← hlog, ← htold, hid] at hbound
  have hnothing : enablings "dawn" (drainedOf ((Engine.new {}).performAll quiet (twice dawn)).1 ++
      ((Engine.new {}).performAll quiet (twice dawn)).2.pending) +
        (Engine.new {}).breaksOver quiet "dawn" (twice dawn) = 0 := by
    decide +kernel
  omega

theorem omen_fires_twice :
    omen.once = true ∧
      enablings "omen" ((Engine.new {}).performAll quiet (twice omen)).2.pending = 0 ∧
      firings "omen" ((Engine.new {}).performAll quiet (twice omen)).2.pending = 2 ∧
      ((Engine.new {}).performAll quiet (twice omen)).2.state.times "omen" = 2 := by
  decide +kernel

end Scenario
