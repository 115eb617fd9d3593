import Scenario.Proofs.Numbers
import Scenario.Proofs.PassReports

/-!
Notifications as a log of changes. A host that starts with a view of the state and takes in every
notification has a view of the state at any later time, whatever was called and however it ended.
-/

namespace Scenario

/-- What a host can know of a state. -/
structure View where
  vars : String → Option Variable
  items : String → Nat
  statuses : String → Bool
  enabled : String → Option Bool
  occurrences : String → Option Nat
  ending : Option Ending

def State.enabled? (s : State) (id : String) : Option Bool :=
  (s.registry.flags? id).map fun flags => !flags.disabled

def State.view (s : State) : View where
  vars := (s.vars[·]?)
  items := s.inventory.count
  statuses := s.statuses.contains
  enabled := s.enabled?
  occurrences := s.occurrences?
  ending := s.ending

/-- Variables with the same bounds and, as numbers, the same value. -/
def sameVariable : Option Variable → Option Variable → Prop
  | none, none => True
  | some v, some w => sameNumber v.value w.value ∧ v.min = w.min ∧ v.max = w.max
  | _, _ => False

namespace View

def put {α : Type} (f : String → α) (id : String) (a : α) : String → α :=
  fun id' => if id = id' then a else f id'

def see (v : View) : Notification → View
  | .variableChanged id _ new =>
    { v with vars := put v.vars id ((v.vars id).map fun w => { w with value := new }) }
  | .variableLimitsChanged id min max =>
    { v with vars := put v.vars id ((v.vars id).map fun w => { w with min, max }) }
  | .itemChanged id _ new => { v with items := put v.items id new }
  | .statusChanged id remaining => { v with statuses := put v.statuses id remaining.isSome }
  | .eventFired id _ =>
    { v with occurrences := put v.occurrences id ((v.occurrences id).map oneMore) }
  | .eventToggled id enabled => { v with enabled := put v.enabled id (some enabled) }
  | .gameEnded outcome => { v with ending := some ⟨outcome⟩ }

def seeAll (v : View) (log : List Notification) : View := log.foldl see v

structure Same (v w : View) : Prop where
  vars : ∀ id, sameVariable (v.vars id) (w.vars id)
  items : v.items = w.items
  statuses : v.statuses = w.statuses
  enabled : v.enabled = w.enabled
  occurrences : v.occurrences = w.occurrences
  ending : v.ending = w.ending

def Knows (v : View) : Notification → Prop
  | .variableChanged _ old new => sameNumber old new
  | .itemChanged _ old new => old = new
  | .eventToggled id enabled => v.enabled id = some enabled
  | _ => False

/-- What a notification says was before is what the view knows, and what it says is news, unless
it is about a variable that was no number and still is none. -/
structure Fits (v : View) (n : Notification) : Prop where
  variable_old : ∀ id old new, n = .variableChanged id old new →
    ∃ w, v.vars id = some w ∧ sameNumber w.value old
  item_old : ∀ id old new, n = .itemChanged id old new → v.items id = old
  knows : v.Knows n → ∃ id old new, n = .variableChanged id old new ∧ old.isNaN ∧ new.isNaN

def FitsAll : View → List Notification → Prop
  | _, [] => True
  | v, n :: ns => v.Fits n ∧ FitsAll (v.see n) ns

theorem seeAll_append (v : View) (log more : List Notification) :
    v.seeAll (log ++ more) = (v.seeAll log).seeAll more := List.foldl_append

theorem fitsAll_append {v : View} {log more : List Notification} :
    v.FitsAll (log ++ more) ↔ v.FitsAll log ∧ (v.seeAll log).FitsAll more := by
  induction log generalizing v with
  | nil => simp [FitsAll, seeAll]
  | cons n ns ih =>
    change _ ∧ (v.see n).FitsAll (ns ++ more) ↔ (_ ∧ (v.see n).FitsAll ns) ∧ _
    rw [ih, and_assoc]
    rfl

theorem put_self {α : Type} (f : String → α) (id : String) : put f id (f id) = f := by
  funext id'
  unfold put
  split
  · rename_i h
    rw [h]
  · rfl

theorem eq_put {α : Type} {f g : String → α} {id : String}
    (hothers : ∀ id', id ≠ id' → g id' = f id') : g = put f id (g id) := by
  funext id'
  unfold put
  split
  · rename_i hid
    rw [hid]
  · rename_i hid
    exact hothers id' hid

end View

theorem sameVariable_refl (v : Option Variable) : sameVariable v v := by
  cases v with
  | none => trivial
  | some v => exact ⟨sameNumber_refl v.value, rfl, rfl⟩

theorem sameVariable_some {v : Option Variable} {w : Variable} (h : sameVariable v (some w)) :
    ∃ u, v = some u ∧ sameNumber u.value w.value ∧ u.min = w.min ∧ u.max = w.max := by
  cases v with
  | none => exact h.elim
  | some u => exact ⟨u, rfl, h⟩

theorem enabled?_of_toggle {s t : State} (hs : s.registry.Indexed) {id : String}
    {flags : EventFlags} (hflags : s.registry.flags? id = some flags) {enabled : Bool}
    (ht : t.registry = s.registry.update id fun flags => { flags with disabled := !enabled }) :
    t.enabled? = View.put s.enabled? id (some enabled) := by
  funext id'
  unfold State.enabled? View.put
  rw [ht, hs.flags?_update]
  split
  · rename_i hid
    subst hid
    simp [hflags]
  · rfl

theorem enabled?_of_record {s t : State} (hs : s.registry.Indexed) {id : String}
    (ht : t.registry = s.registry.update id .record) : t.enabled? = s.enabled? := by
  funext id'
  unfold State.enabled?
  rw [ht, hs.flags?_update]
  split
  · rw [Option.map_map]
    rfl
  · rfl

theorem View.Same.refl (v : View) : v.Same v :=
  ⟨fun id => sameVariable_refl (v.vars id), rfl, rfl, rfl, rfl, rfl⟩

/-! ### Single mutations -/

/-- On the way from one state to another a log was written, which fits a view of the first and makes
it a view of the second. -/
structure Logged (v : View) (log : List Notification) (s s' : State) : Prop where
  notifications : s'.notifications = log.reverse ++ s.notifications
  fits : v.FitsAll log
  same : (v.seeAll log).Same s'.view

namespace Logged

variable {v : View} {s s₁ s' : State} {log log' : List Notification}

theorem trans (h : Logged v log s s₁) (h' : Logged (v.seeAll log) log' s₁ s') :
    Logged v (log ++ log') s s' where
  notifications := by
    rw [h'.notifications, h.notifications, List.reverse_append, List.append_assoc]
  fits := View.fitsAll_append.2 ⟨h.fits, h'.fits⟩
  same := by
    rw [View.seeAll_append]
    exact h'.same

theorem silent (h : v.Same s.view) (hview : s'.view = s.view)
    (hnotifications : s'.notifications = s.notifications) : Logged v [] s s' :=
  ⟨hnotifications, trivial, hview ▸ h⟩

theorem single {n : Notification} (hnotifications : s'.notifications = n :: s.notifications)
    (hfits : v.Fits n) (hsame : (v.see n).Same s'.view) : Logged v [n] s s' :=
  ⟨hnotifications, ⟨hfits, trivial⟩, hsame⟩

theorem valueChange (h : v.Same s.view) {id : String} {w : Variable} (w' : Variable)
    (hw : s.vars[id]? = some w) (hmin : w'.min = w.min) (hmax : w'.max = w.max) :
    Logged v (State.valueChange id w.value w'.value) s
      { s with
        vars := s.vars.insert id w'
        notifications := State.valueChange id w.value w'.value ++ s.notifications } := by
  have hvar := h.vars id
  simp only [State.view] at hvar
  rw [hw] at hvar
  obtain ⟨u, hu, hvalue, humin, humax⟩ := sameVariable_some hvar
  unfold State.valueChange
  split
  · rename_i heq
    refine ⟨rfl, trivial, { h with vars := fun id' => ?_ }⟩
    simp only [State.view, getElem?_insert_id]
    split
    · rename_i hid
      subst hid
      change sameVariable (v.vars id) _
      rw [hu]
      exact ⟨sameNumber_trans hvalue (sameNumber_iff.2 (.inr heq)), humin.trans hmin.symm,
        humax.trans hmax.symm⟩
    · exact h.vars id'
  · rename_i hne
    refine single rfl ⟨?_, by rintro _ _ _ ⟨⟩, ?_⟩ { h with vars := fun id' => ?_ }
    · rintro _ _ _ ⟨⟩
      exact ⟨u, hu, hvalue⟩
    · intro hsame
      rcases sameNumber_iff.1 hsame with hnan | heq
      · exact ⟨id, w.value, w'.value, rfl, hnan⟩
      · exact absurd heq hne
    · simp only [View.see, View.put, State.view, getElem?_insert_id]
      split
      · rename_i hid
        subst hid
        rw [hu]
        exact ⟨sameNumber_refl _, humin.trans hmin.symm, humax.trans hmax.symm⟩
      · exact h.vars id'

theorem insert_insert {α : Type} (t : Std.ExtTreeMap String α) (id : String) (a b : α) :
    (t.insert id a).insert id b = t.insert id b := by
  apply Std.ExtTreeMap.ext_getElem?
  intro id'
  simp only [getElem?_insert_id]
  split <;> rfl

theorem boundsChange (h : v.Same s.view) {id : String} {w w' : Variable}
    (hw : s.vars[id]? = some w) :
    Logged v (.variableLimitsChanged id w'.min w'.max :: State.valueChange id w.value w'.value) s
      { s with
        vars := s.vars.insert id w'
        notifications := State.valueChange id w.value w'.value ++
          .variableLimitsChanged id w'.min w'.max :: s.notifications } := by
  have hvar := h.vars id
  simp only [State.view] at hvar
  rw [hw] at hvar
  obtain ⟨u, hu, hvalue, humin, humax⟩ := sameVariable_some hvar
  -- First the bounds are told of, with the value as it was, and then the value.
  have hbounds : Logged v [.variableLimitsChanged id w'.min w'.max] s
      { s with
        vars := s.vars.insert id { w with min := w'.min, max := w'.max }
        notifications := .variableLimitsChanged id w'.min w'.max :: s.notifications } := by
    refine single rfl ⟨by rintro _ _ _ ⟨⟩, by rintro _ _ _ ⟨⟩, False.elim⟩
      { h with vars := fun id' => ?_ }
    simp only [View.see, View.put, State.view, getElem?_insert_id]
    split
    · rename_i hid
      subst hid
      rw [hu]
      exact ⟨hvalue, rfl, rfl⟩
    · exact h.vars id'
  have hmoved := valueChange hbounds.same w' (Std.ExtTreeMap.getElem?_insert_self (k := id)) rfl rfl
  dsimp only at hmoved
  rw [insert_insert] at hmoved
  exact hbounds.trans hmoved

theorem countChange (h : v.Same s.view) {id : String} {inventory : Inventory}
    (hothers : ∀ id', id ≠ id' → inventory.count id' = s.inventory.count id') :
    Logged v (State.countChange id (s.inventory.count id) (inventory.count id)) s
      { s with
        inventory
        notifications := State.countChange id (s.inventory.count id) (inventory.count id) ++
          s.notifications } := by
  have hcounts : inventory.count = View.put s.inventory.count id (inventory.count id) :=
    View.eq_put hothers
  unfold State.countChange
  split
  · rename_i heq
    refine ⟨rfl, trivial, { h with items := ?_ }⟩
    change v.items = inventory.count
    rw [hcounts, ← heq, View.put_self]
    exact h.items
  · rename_i hne
    refine single rfl ⟨by rintro _ _ _ ⟨⟩, ?_, fun heq => absurd heq hne⟩ { h with items := ?_ }
    · rintro _ _ _ ⟨⟩
      exact congrFun h.items id
    · change View.put v.items id (inventory.count id) = inventory.count
      rw [h.items]
      exact hcounts.symm

theorem statusChange (h : v.Same s.view) {id : String} {statuses : Statuses Float}
    (hothers : ∀ id', id ≠ id' → statuses.contains id' = s.statuses.contains id') :
    Logged v (State.statusChange id (s.statuses.contains id) (statuses.remaining? id)) s
      { s with
        statuses
        notifications := State.statusChange id (s.statuses.contains id) (statuses.remaining? id) ++
          s.notifications } := by
  have hactive : statuses.contains = View.put s.statuses.contains id (statuses.contains id) :=
    View.eq_put hothers
  unfold State.statusChange
  split
  · refine single rfl ⟨by rintro _ _ _ ⟨⟩, by rintro _ _ _ ⟨⟩, False.elim⟩
      { h with statuses := ?_ }
    change View.put v.statuses id (statuses.remaining? id).isSome = statuses.contains
    rw [h.statuses, Statuses.isSome_remaining?]
    exact hactive.symm
  · rename_i hneither
    rw [Statuses.isSome_remaining?, Bool.or_eq_true, not_or, Bool.not_eq_true,
      Bool.not_eq_true] at hneither
    refine ⟨rfl, trivial, { h with statuses := ?_ }⟩
    change v.statuses = statuses.contains
    rw [hactive, hneither.1, ← hneither.2, View.put_self]
    exact h.statuses

theorem toggleChange (hs : s.WellFormed) (h : v.Same s.view) {id : String} {flags : EventFlags}
    (hflags : s.registry.flags? id = some flags) (enabled : Bool) :
    Logged v (State.toggleChange id (!flags.disabled) enabled) s
      { s with
        registry := s.registry.update id fun flags => { flags with disabled := !enabled }
        notifications := State.toggleChange id (!flags.disabled) enabled ++ s.notifications } := by
  have hbefore : s.enabled? id = some (!flags.disabled) := by
    unfold State.enabled?
    rw [hflags]
    rfl
  unfold State.toggleChange
  split
  · rename_i heq
    refine ⟨rfl, trivial, { h with enabled := ?_, occurrences := ?_ }⟩
    · refine Eq.trans ?_ (enabled?_of_toggle hs.indexed hflags rfl).symm
      rw [← heq, ← hbefore, View.put_self]
      exact h.enabled
    · exact h.occurrences.trans (occurrences?_of_toggle hs.indexed rfl).symm
  · rename_i hne
    refine single rfl ⟨by rintro _ _ _ ⟨⟩, by rintro _ _ _ ⟨⟩, fun hknows => ?_⟩
      { h with enabled := ?_, occurrences := ?_ }
    · have hknown : v.enabled id = some enabled := hknows
      rw [congrFun h.enabled id] at hknown
      exact absurd (Option.some.inj (hbefore.symm.trans hknown)) hne
    · change View.put v.enabled id (some enabled) = _
      rw [h.enabled]
      exact (enabled?_of_toggle hs.indexed hflags rfl).symm
    · exact h.occurrences.trans (occurrences?_of_toggle hs.indexed rfl).symm

theorem fired (hs : s.WellFormed) (h : v.Same s.view) (id trigger : String) :
    Logged v [.eventFired id trigger] s
      { s with
        registry := s.registry.update id .record
        notifications := .eventFired id trigger :: s.notifications } := by
  refine single rfl ⟨by rintro _ _ _ ⟨⟩, by rintro _ _ _ ⟨⟩, False.elim⟩
    { h with enabled := ?_, occurrences := ?_ }
  · exact h.enabled.trans (enabled?_of_record hs.indexed rfl).symm
  · change View.put v.occurrences id ((v.occurrences id).map oneMore) = _
    rw [h.occurrences]
    funext id'
    refine Eq.trans ?_ (occurrences?_of_record hs.indexed rfl id').symm
    unfold View.put
    split
    · rename_i hid
      rw [hid]
      rfl
    · rfl

theorem seeAll_expired (v : View) (ids : List String) :
    v.seeAll (ids.map fun id => .statusChanged id none) =
      { v with statuses := fun id => v.statuses id && decide (id ∉ ids) } := by
  induction ids generalizing v with
  | nil => simp [View.seeAll]
  | cons id ids ih =>
    change (v.see (.statusChanged id none)).seeAll _ = _
    rw [ih]
    unfold View.see View.put
    congr 1
    funext id'
    by_cases hid : id = id'
    · simp [hid]
    · simp [hid, Ne.symm hid]

theorem fitsAll_expired (v : View) (ids : List String) :
    v.FitsAll (ids.map fun id => .statusChanged id none) := by
  induction ids generalizing v with
  | nil => trivial
  | cons id ids ih => exact ⟨⟨by rintro _ _ _ ⟨⟩, by rintro _ _ _ ⟨⟩, False.elim⟩, ih _⟩

theorem ticked (hs : s.WellFormed) (h : v.Same s.view) :
    Logged v (s.statuses.tick.1.map fun id => .statusChanged id none) s s.tick.2 := by
  rw [State.tick_eq]
  refine ⟨rfl, fitsAll_expired v _, ?_⟩
  rw [seeAll_expired]
  refine { h with statuses := ?_ }
  funext id
  change (v.statuses id && _) = s.statuses.tick.2.contains id
  rw [Statuses.contains_tick hs.running.nodup, h.statuses]
  rfl

theorem mutate (hs : s.WellFormed) (h : v.Same s.view) {m : Mutation} (hm : s.mutate m = .ok s') :
    ∃ log, Logged v log s s' := by
  cases m with
  | setVariable id x =>
    obtain ⟨w, hw, rfl⟩ := State.setVariable_eq_ok.1 hm
    exact ⟨_, valueChange h (w.set x) hw rfl rfl⟩
  | setBounds id min max =>
    obtain ⟨w, w', hw, -, -, rfl⟩ := State.setVariableBounds_eq_ok.1 hm
    exact ⟨_, boundsChange h hw⟩
  | giveItem id amount =>
    obtain ⟨provider, inventory, hp, rfl, rfl⟩ := State.giveItem_eq_ok.1 hm
    refine ⟨_, countChange h fun id' hid => ?_⟩
    unfold Inventory.add
    rw [Inventory.count_set hs.stocked.nodup, hs.items id provider hp, if_neg hid]
  | setStatus id duration =>
    obtain ⟨provider, statuses, hp, rfl, rfl⟩ := State.setStatus_eq_ok.1 hm
    refine ⟨_, statusChange h fun id' hid => ?_⟩
    rw [Statuses.contains_set hs.running.nodup, hs.statusKinds id provider hp, if_neg hid]
  | request trigger priority probability =>
    cases hm
    exact ⟨[], silent h rfl rfl⟩
  | toggle id enabled =>
    obtain ⟨flags, hflags, rfl⟩ := State.setEventEnabled_eq_ok.1 hm
    exact ⟨_, toggleChange hs h hflags enabled⟩
  | endGame outcome =>
    cases hm
    exact ⟨_, single rfl ⟨by rintro _ _ _ ⟨⟩, by rintro _ _ _ ⟨⟩, False.elim⟩
      { h with ending := rfl }⟩
  | draw =>
    cases hm
    exact ⟨[], silent h rfl rfl⟩
  | fire id trigger =>
    obtain ⟨-, rfl⟩ := State.fireEvent_eq_ok.1 hm
    exact ⟨_, fired hs h id trigger⟩
  | tick =>
    cases hm
    exact ⟨_, ticked hs h⟩
  | pop =>
    cases hm
    exact ⟨[], silent h rfl rfl⟩

theorem becomes (hs : s.WellFormed) (h : v.Same s.view) {sort : Mutation → Prop}
    (hbecomes : s.Becomes sort s') : ∃ log, Logged v log s s' := by
  refine (hbecomes.keeps (P := fun t => t.WellFormed ∧ ∃ log, Logged v log s t) ?_
    ⟨hs, [], silent h rfl rfl⟩).2
  rintro t t' m - ⟨ht, log, hlog⟩ hm
  obtain ⟨log', hlog'⟩ := mutate ht hlog.same hm
  exact ⟨ht.mutate hm, log ++ log', hlog.trans hlog'⟩

end Logged

/-! ### Sessions -/

def drainedOf (answers : List Answer) : List Notification :=
  answers.flatMap fun answer =>
    match answer with
    | .notifications drained => drained
    | _ => []

/-- What is told but not handed over yet, in order. -/
def Engine.pending (e : Engine) : List Notification := e.state.notifications.reverse

theorem drainedOf_attempt (e : Engine) (x : Except Error Engine) :
    drainedOf [(e.attempt x).1] = [] := by
  unfold Engine.attempt
  split <;> rfl

theorem drainedOf_perform (screen : Screen) (e : Engine) {call : Call} (h : call ≠ .drain) :
    drainedOf [(e.perform screen call).1] = [] := by
  cases call with
  | tick => unfold Engine.perform; dsimp only; split <;> rfl
  | load _ | registerFunction _ _ | compile _ | evaluate _ | value _ | trigger _ _ _ | fire _
  | next _ | run _ _ | save => rfl
  | drain => exact absurd rfl h
  | _ => exact drainedOf_attempt e _

theorem drainedOf_cons (answer : Answer) (answers : List Answer) :
    drainedOf (answer :: answers) = drainedOf [answer] ++ drainedOf answers := by
  simp [drainedOf]

theorem performAll_cons (screen : Screen) (call : Call) (calls : List Call) (e : Engine) :
    e.performAll screen (call :: calls) =
      ((e.perform screen call).1 :: ((e.perform screen call).2.performAll screen calls).1,
        ((e.perform screen call).2.performAll screen calls).2) := rfl

theorem performAll_logged (screen : Screen) {calls : List Call}
    (hcalls : ∀ call ∈ calls, call.Plays ∨ call = .drain) {e : Engine} (he : e.state.WellFormed)
    {v : View} (hv : v.Same e.state.view) :
    ∃ log, drainedOf (e.performAll screen calls).1 ++ (e.performAll screen calls).2.pending =
        e.pending ++ log ∧
      v.FitsAll log ∧ (v.seeAll log).Same (e.performAll screen calls).2.state.view := by
  -- Draining moves what is pending to what was handed over, so their sum is what is kept.
  induction calls generalizing e v with
  | nil => exact ⟨[], (List.append_nil _).symm, trivial, hv⟩
  | cons call calls ih =>
    have hrest := fun call' hmem => hcalls call' (List.mem_cons_of_mem call hmem)
    have he' := Engine.perform_wellFormed he screen call
    rw [performAll_cons, drainedOf_cons]
    rcases hcalls call List.mem_cons_self with hplays | rfl
    · have hnot : call ≠ .drain := by
        rintro rfl
        exact hplays
      obtain ⟨log, hlog⟩ := Logged.becomes he hv (Engine.perform_becomes screen hplays)
      obtain ⟨more, htold, hfits, hsame⟩ := ih hrest he' hlog.same
      refine ⟨log ++ more, ?_, View.fitsAll_append.2 ⟨hlog.fits, hfits⟩, ?_⟩
      · have hpending : (e.perform screen call).2.pending = e.pending ++ log := by
          unfold Engine.pending
          rw [hlog.notifications, List.reverse_append, List.reverse_reverse]
        rw [drainedOf_perform screen e hnot, List.nil_append, htold, hpending, List.append_assoc]
      · rw [View.seeAll_append]
        exact hsame
    · obtain ⟨log, htold, hfits, hsame⟩ := ih hrest he' hv
      refine ⟨log, ?_, hfits, hsame⟩
      rw [List.append_assoc, htold]
      simp [drainedOf, Engine.perform, Engine.drainNotifications, Engine.pending, Engine.setState,
        Engine.state]

/-! ### Variables that are no numbers -/

/-- A mutation sets or confines a variable that was and is no number. -/
def Mutation.KeepsNoNumber (m : Mutation) (s s' : State) : Prop :=
  ∃ id v w, m.variable? = some id ∧ s.vars[id]? = some v ∧ s'.vars[id]? = some w ∧
    v.value.isNaN ∧ w.value.isNaN

/-- Some of these notifications are of a variable with the same value as before. -/
def TellsOfSame (pushed : List Notification) : Prop :=
  ∃ id old new, .variableChanged id old new ∈ pushed ∧ sameNumber old new

theorem tellsOfSame_valueChange {id : String} {old new : Float} {limits : List Notification}
    (hlimits : ¬ TellsOfSame limits) :
    TellsOfSame (State.valueChange id old new ++ limits) ↔ old.isNaN ∧ new.isNaN := by
  constructor
  · rintro ⟨id', old', new', hmem, hsame⟩
    rcases List.mem_append.1 hmem with hmem | hmem
    · unfold State.valueChange at hmem
      split at hmem
      · cases hmem
      · rename_i hne
        cases List.mem_singleton.1 hmem
        exact (sameNumber_iff.1 hsame).resolve_right hne
    · exact absurd ⟨id', old', new', hmem, hsame⟩ hlimits
  · intro hnan
    refine ⟨id, old, new, List.mem_append_left _ ?_, sameNumber_iff.2 (.inl hnan)⟩
    unfold State.valueChange
    split
    · rename_i heq
      rw [(isNaN_of_beq heq).1] at hnan
      cases hnan.1
    · exact List.mem_singleton_self _

theorem mutate_tellsOfSame {s s' : State} {m : Mutation} (h : s.mutate m = .ok s') :
    ∃ pushed, s'.notifications = pushed ++ s.notifications ∧
      (TellsOfSame pushed ↔ m.KeepsNoNumber s s') := by
  -- Mutations tell of one variable or of none.
  have hother : ∀ pushed : List Notification, m.variable? = none →
      (∀ id old new, .variableChanged id old new ∉ pushed) →
      (TellsOfSame pushed ↔ m.KeepsNoNumber s s') := by
    intro pushed hm hnone
    constructor
    · rintro ⟨id, old, new, hmem, -⟩
      exact absurd hmem (hnone id old new)
    · rintro ⟨id, v, w, hid, -⟩
      rw [hm] at hid
      cases hid
  have hset : ∀ (id : String) (v w : Variable), m.variable? = some id → s.vars[id]? = some v →
      s'.vars[id]? = some w →
      ((v.value.isNaN ∧ w.value.isNaN) ↔ m.KeepsNoNumber s s') := by
    intro id v w hm hv hw
    constructor
    · exact fun hnan => ⟨id, v, w, hm, hv, hw, hnan⟩
    · rintro ⟨id', v', w', hm', hv', hw', hnan⟩
      cases hm.symm.trans hm'
      cases hv.symm.trans hv'
      cases hw.symm.trans hw'
      exact hnan
  cases m with
  | setVariable id x =>
    obtain ⟨v, hv, rfl⟩ := State.setVariable_eq_ok.1 h
    refine ⟨State.valueChange id v.value (v.set x).value ++ [], by simp, ?_⟩
    rw [tellsOfSame_valueChange (by simp [TellsOfSame])]
    exact hset id v (v.set x) rfl hv Std.ExtTreeMap.getElem?_insert_self
  | setBounds id min max =>
    obtain ⟨v, w, hv, -, -, rfl⟩ := State.setVariableBounds_eq_ok.1 h
    refine ⟨State.valueChange id v.value w.value ++ [.variableLimitsChanged id w.min w.max],
      by simp, ?_⟩
    rw [tellsOfSame_valueChange (by simp [TellsOfSame])]
    exact hset id v w rfl hv Std.ExtTreeMap.getElem?_insert_self
  | giveItem id amount =>
    obtain ⟨provider, inventory, -, -, rfl⟩ := State.giveItem_eq_ok.1 h
    refine ⟨_, rfl, hother _ rfl fun _ _ _ hmem => ?_⟩
    unfold State.countChange at hmem
    split at hmem <;> simp at hmem
  | setStatus id duration =>
    obtain ⟨provider, statuses, -, -, rfl⟩ := State.setStatus_eq_ok.1 h
    refine ⟨_, rfl, hother _ rfl fun _ _ _ hmem => ?_⟩
    unfold State.statusChange at hmem
    split at hmem <;> simp at hmem
  | toggle id enabled =>
    obtain ⟨flags, -, rfl⟩ := State.setEventEnabled_eq_ok.1 h
    refine ⟨_, rfl, hother _ rfl fun _ _ _ hmem => ?_⟩
    unfold State.toggleChange at hmem
    split at hmem <;> simp at hmem
  | fire id trigger =>
    obtain ⟨-, rfl⟩ := State.fireEvent_eq_ok.1 h
    exact ⟨[.eventFired id trigger], rfl, hother _ rfl (by simp)⟩
  | endGame outcome =>
    cases h
    exact ⟨[.gameEnded outcome], rfl, hother _ rfl (by simp)⟩
  | tick =>
    cases h
    have hpushed : s.tick.2.notifications =
        (s.statuses.tick.1.map fun id => .statusChanged id none).reverse ++ s.notifications := by
      rw [State.tick_eq]
    refine ⟨_, hpushed, hother _ rfl fun _ _ _ hmem => ?_⟩
    simp at hmem
  | request _ _ _ | draw | pop =>
    cases h
    exact ⟨[], rfl, hother _ rfl fun _ _ _ => List.not_mem_nil⟩

/-! ### The log of a session -/

/-- Notifications are a complete log of changes: what a session of playing and draining tells, in
order, makes a view of the state at its start one of the state at its end, and each notification
fits the view of its time. The only ones that tell of no change are of a variable that was no number
and still is none, and setting or confining such a variable always tells so. -/
theorem change_log {e : Engine} (he : e.Reachable) (screen : Screen) {calls : List Call}
    (hcalls : ∀ call ∈ calls, call.Plays ∨ call = .drain) :
    (∃ log, drainedOf (e.performAll screen calls).1 ++ (e.performAll screen calls).2.pending =
        e.pending ++ log ∧
      (e.state.view.seeAll log).Same (e.performAll screen calls).2.state.view ∧
      e.state.view.FitsAll log) ∧
    ∀ (s s' : State) (m : Mutation), s.mutate m = .ok s' →
      ∃ pushed, s'.notifications = pushed ++ s.notifications ∧
        (TellsOfSame pushed ↔ m.KeepsNoNumber s s') := by
  obtain ⟨log, htold, hfits, hsame⟩ :=
    performAll_logged screen hcalls he.wellFormed (View.Same.refl e.state.view)
  exact ⟨⟨log, htold, hsame, hfits⟩, fun _ _ _ => mutate_tellsOfSame⟩

theorem change_log_belfry :
    ∃ log, drainedOf (belfry.performAll quiet [.next 1, .tick, .drain]).1 = log ∧
      (belfry.state.view.seeAll log).Same
        (belfry.performAll quiet [.next 1, .tick, .drain]).2.state.view ∧
      belfry.state.view.FitsAll log := by
  have hcalls : ∀ call ∈ [Call.next 1, .tick, .drain], call.Plays ∨ call = .drain := by
    simp [Call.Plays]
  obtain ⟨log, htold, hsame, hfits⟩ := (change_log belfry_reachable quiet hcalls).1
  exact ⟨log, htold, hsame, hfits⟩

def numberless : Engine :=
  ((Engine.new {}).performAll quiet [.defineVariable "x" { value := notANumber }]).2

theorem not_number_tells_of_same :
    drainedOf (numberless.performAll quiet [.setVariable "x" notANumber, .drain]).1 =
        [.variableChanged "x" notANumber notANumber] ∧
      numberless.pending = [] ∧
      numberless.state.view.Knows (.variableChanged "x" notANumber notANumber) :=
  ⟨rfl, rfl, (by decide : sameNumber notANumber notANumber = true)⟩

end Scenario
