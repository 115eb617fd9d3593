import Scenario.Proofs.WellFormed

/-!
Reports of passes. A pass is taken apart into the turns of its listeners; what the report says of
each turn is what happened in it.
-/

namespace Scenario

/-! ### Gates -/

theorem gate_passes_iff {probability : Float} {source : RandomSource} {passed : Bool}
    (h : (gate probability source).1 = .ok passed) :
    passed = true ↔ 1.0 ≤ probability ∨ source.next.1 < greater probability 0.0 := by
  unfold gate at h
  split at h
  · rename_i hsure
    cases h
    exact iff_of_true rfl (.inl hsure)
  · rename_i hunsure
    unfold draw at h
    dsimp only at h
    split at h
    · cases h
      simp [hunsure]
    · cases h

/-! ### Turns -/

/-- The turn of a listener: the events that have happened before it in the pass, and the world that
it finds. -/
structure Turn where
  event : Event Expression
  earlier : List (Event Expression)
  world : World

inductive Turn.Refused (t : Turn) : Prop
  | disabled (h : t.world.state.registry.isEnabled t.event.id = .ok false)
  | excluded (e : Event Expression) (he : e ∈ t.earlier) (h : t.event.id ∈ e.exclusions)
  | condition (h : Condition.checkAll t.world.state.scope t.event.conditions = .ok false)
  /-- The probability is not certain, and what is drawn is not below it. -/
  | chance (p : Float) (hp : t.world.state.eval t.event.probability = .ok p) (hunsure : ¬ 1.0 ≤ p)
    (h : ¬ t.world.state.random.next.1 < greater p 0.0)

def exclusionsOf (earlier : List (Event Expression)) : List String :=
  earlier.flatMap Event.exclusions

section Turns

variable (screen : Screen) (patience : Nat) (trigger : String)

/-- The turns of listeners, up to the end of the game. -/
def turns : List (Event Expression) → List (Event Expression) → World → List Turn
  | _, [], _ => []
  | earlier, e :: es, w =>
    ⟨e, earlier, w⟩ ::
      match Play.takesTurn (exclusionsOf earlier) e w with
      | (.done true, w) =>
        match Play.happen screen patience trigger e w with
        | (.done (), w) => if w.state.ending.isSome then [] else turns (earlier ++ [e]) es w
        | _ => []
      | (.done false, w) => turns earlier es w
      | _ => []

def turnsOf (p : PendingTrigger) (w : World) : List Turn :=
  match Play.chance (gate p.probability) w with
  | (.done true, w) => turns screen patience p.trigger [] (w.state.registry.listeners p.trigger) w
  | _ => []

/-- How the turns of listeners go on, which of the listeners happen, whether the game ends, and the
world that is left. -/
inductive Course :
    List (Event Expression) → List (Event Expression) → World → List (Event Expression) → Bool →
      World → Prop
  | finished {earlier : List (Event Expression)} {w : World} : Course earlier [] w [] false w
  | refused {earlier es fired : List (Event Expression)} {e : Event Expression} {w w₁ w' : World}
    {ended : Bool} (hturn : Play.takesTurn (exclusionsOf earlier) e w = (.done false, w₁))
    (hrest : Course earlier es w₁ fired ended w') : Course earlier (e :: es) w fired ended w'
  | happened {earlier es fired : List (Event Expression)} {e : Event Expression}
    {w w₁ w₂ w' : World} {ended : Bool}
    (hturn : Play.takesTurn (exclusionsOf earlier) e w = (.done true, w₁))
    (hhappen : Play.happen screen patience trigger e w₁ = (.done (), w₂))
    (hending : w₂.state.ending = none) (hrest : Course (earlier ++ [e]) es w₂ fired ended w') :
    Course earlier (e :: es) w (e :: fired) ended w'
  | ended {earlier es : List (Event Expression)} {e : Event Expression} {w w₁ w₂ : World}
    (hturn : Play.takesTurn (exclusionsOf earlier) e w = (.done true, w₁))
    (hhappen : Play.happen screen patience trigger e w₁ = (.done (), w₂))
    (hending : w₂.state.ending.isSome) : Course earlier (e :: es) w [e] true w₂

end Turns

namespace Play

/-! ### Runs that are done -/

section Done

variable {α β : Type} {w w' : World}

theorem bind_eq_done {p : Play α} {f : α → Play β} {b : β}
    (h : (p >>= f) w = (.done b, w')) : ∃ a w₁, p w = (.done a, w₁) ∧ f a w₁ = (.done b, w') := by
  simp only [bind] at h
  split at h
  · rename_i a w₁ hp
    exact ⟨a, w₁, hp, h⟩
  · cases h
  · cases h
  · cases h

theorem pure_eq_done {a b : α} (h : (pure a : Play α) w = (.done b, w')) : a = b ∧ w' = w := by
  cases h
  exact ⟨rfl, rfl⟩

theorem look_eq_done {f : State → Except EvaluationError α} {a : α}
    (h : look f w = (.done a, w')) : f w.state = .ok a ∧ w' = w := by
  unfold look at h
  split at h
  · rename_i hf
    cases h
    exact ⟨hf, rfl⟩
  · cases h

theorem change_eq_done {f : State → Except EvaluationError State}
    (h : change f w = (.done (), w')) : f w.state = .ok w'.state := by
  unfold change at h
  split at h
  · rename_i hf
    cases h
    exact hf
  · cases h

theorem change_of_ok {f : State → Except EvaluationError State} {s : State}
    (h : f w.state = .ok s) : change f w = (.done (), { w with state := s }) := by
  unfold change
  rw [h]

theorem chance_eq_done {f : RandomSource → Except EvaluationError α × RandomSource} {a : α}
    (h : chance f w = (.done a, w')) : (f w.state.random).1 = .ok a ∧
      w' = { w with state := { w.state with random := (f w.state.random).2 } } := by
  unfold chance at h
  rcases hf : f w.state.random with ⟨r, random⟩
  rw [hf] at h
  cases r with
  | ok a =>
    cases h
    exact ⟨rfl, rfl⟩
  | error e => cases h

end Done

/-! ### Turns that are done -/

variable {screen : Screen} {patience : Nat} {trigger : String} {w w' : World}
  {earlier : List (Event Expression)} {e : Event Expression}

theorem takesTurn_eq_done {takes : Bool}
    (h : takesTurn (exclusionsOf earlier) e w = (.done takes, w')) :
    (takes = false ↔ Turn.Refused ⟨e, earlier, w⟩) ∧
      ∃ random, (random = w.state.random ∨ random = w.state.random.next.2) ∧
        w' = { w with state := { w.state with random } } := by
  obtain ⟨enabled, w₁, hlook, h⟩ := bind_eq_done h
  obtain ⟨henabled, rfl⟩ := look_eq_done hlook
  cases enabled with
  | false =>
    obtain ⟨rfl, rfl⟩ := pure_eq_done h
    exact ⟨⟨fun _ => .disabled henabled, fun _ => rfl⟩, _, .inl rfl, rfl⟩
  | true =>
    by_cases hexcluded : e.id ∈ exclusionsOf earlier
    · simp only [Bool.not_true, Bool.false_eq_true, ↓reduceIte, hexcluded] at h
      obtain ⟨rfl, rfl⟩ := pure_eq_done h
      obtain ⟨a, ha, hid⟩ := List.mem_flatMap.1 hexcluded
      exact ⟨⟨fun _ => .excluded a ha hid, fun _ => rfl⟩, _, .inl rfl, rfl⟩
    · simp only [Bool.not_true, Bool.false_eq_true, ↓reduceIte, hexcluded] at h
      obtain ⟨holds, w₂, hlook, h⟩ := bind_eq_done h
      obtain ⟨hholds, rfl⟩ := look_eq_done hlook
      cases holds with
      | false =>
        obtain ⟨rfl, rfl⟩ := pure_eq_done h
        exact ⟨⟨fun _ => .condition hholds, fun _ => rfl⟩, _, .inl rfl, rfl⟩
      | true =>
        obtain ⟨p, w₃, hlook, hdraw⟩ := bind_eq_done h
        obtain ⟨hp, rfl⟩ := look_eq_done hlook
        obtain ⟨hgate, rfl⟩ := chance_eq_done hdraw
        have hpasses := gate_passes_iff hgate
        refine ⟨⟨?_, ?_⟩, _, gate_source p _, rfl⟩
        · rintro rfl
          have hfails := not_or.1 (mt hpasses.2 Bool.false_ne_true)
          exact .chance p hp hfails.1 hfails.2
        · rintro (hd | ⟨a, ha, hid⟩ | hc | ⟨q, hq, hunsure, hdrawn⟩)
          · exact absurd (henabled.symm.trans hd) (by simp)
          · exact absurd (List.mem_flatMap.2 ⟨a, ha, hid⟩) hexcluded
          · exact absurd (hholds.symm.trans hc) (by simp)
          · cases hp.symm.trans hq
            exact Bool.eq_false_iff.2 (mt hpasses.1 (not_or.2 ⟨hunsure, hdrawn⟩))

theorem happen_eq_done (h : happen screen patience trigger e w = (.done (), w')) :
    ∃ s, w.state.fireEvent e.id trigger = .ok s ∧ s.Becomes Mutation.OfAction w'.state := by
  obtain ⟨⟨⟩, w₁, hfire, h⟩ := bind_eq_done h
  obtain ⟨flow, w₂, hrun, h⟩ := bind_eq_done h
  have hactions := runAll_becomes screen patience e.actions w₁
  rw [hrun] at hactions
  refine ⟨w₁.state, change_eq_done hfire, ?_⟩
  split at h
  · exact hactions.tail (m := .toggle e.id false) trivial (change_eq_done h)
  · obtain ⟨-, rfl⟩ := pure_eq_done h
    exact hactions

theorem listen_course {es : List (Event Expression)} {ids : List String} {ended : Bool}
    (h : listen screen patience trigger (exclusionsOf earlier) es w = (.done (ids, ended), w')) :
    ∃ fired, ids = fired.map Event.id ∧
      Course screen patience trigger earlier es w fired ended w' := by
  induction es generalizing earlier w ids with
  | nil =>
    obtain ⟨hsame, rfl⟩ := pure_eq_done h
    cases hsame
    exact ⟨[], rfl, .finished⟩
  | cons e es ih =>
    obtain ⟨takes, w₁, hturn, h⟩ := bind_eq_done h
    cases takes with
    | false =>
      obtain ⟨fired, hids, hcourse⟩ := ih h
      exact ⟨fired, hids, .refused hturn hcourse⟩
    | true =>
      obtain ⟨⟨⟩, w₂, hhappen, h⟩ := bind_eq_done h
      obtain ⟨stopped, w₃, hlook, h⟩ := bind_eq_done h
      obtain ⟨hstopped, rfl⟩ := look_eq_done hlook
      cases stopped with
      | true =>
        obtain ⟨hsame, rfl⟩ := pure_eq_done h
        cases hsame
        exact ⟨[e], rfl, .ended hturn hhappen (Except.ok.inj hstopped)⟩
      | false =>
        obtain ⟨⟨rest, stopped⟩, w₄, hrest, h⟩ := bind_eq_done h
        obtain ⟨hsame, rfl⟩ := pure_eq_done h
        cases hsame
        -- The loop keeps the excluded ids, the course the events that exclude them.
        have hmore : exclusionsOf earlier ++ e.exclusions = exclusionsOf (earlier ++ [e]) := by
          simp [exclusionsOf]
        rw [hmore] at hrest
        obtain ⟨fired, rfl, hcourse⟩ := ih hrest
        have hgoes : w₃.state.ending = none := by
          simpa using Except.ok.inj hstopped
        exact ⟨e :: fired, rfl, .happened hturn hhappen hgoes hcourse⟩

end Play

/-! ### What a course leaves -/

def Notification.fired? : Notification → Option (String × String)
  | .eventFired event trigger => some (event, trigger)
  | _ => none

def State.occurrences? (s : State) (id : String) : Option Nat :=
  (s.registry.flags? id).map EventFlags.occurrences

def oneMore (n : Nat) : Nat := min (n + 1) EventFlags.maxOccurrences

section Counts

variable {s t : State} {id : String}

theorem occurrences?_of_update (hs : s.registry.Indexed) {f : EventFlags → EventFlags}
    (ht : t.registry = s.registry.update id f) (id' : String) :
    t.occurrences? id' = if id = id' then
      (s.registry.flags? id').map fun flags => (f flags).occurrences else s.occurrences? id' := by
  unfold State.occurrences?
  rw [ht, hs.flags?_update]
  split
  · rw [Option.map_map]
    rfl
  · rfl

theorem occurrences?_of_toggle (hs : s.registry.Indexed) {enabled : Bool}
    (ht : t.registry = s.registry.update id fun flags => { flags with disabled := !enabled }) :
    t.occurrences? = s.occurrences? := by
  funext id'
  rw [occurrences?_of_update hs ht]
  split <;> rfl

theorem occurrences?_of_record (hs : s.registry.Indexed)
    (ht : t.registry = s.registry.update id .record) (id' : String) :
    t.occurrences? id' =
      if id = id' then (s.occurrences? id').map oneMore else s.occurrences? id' := by
  rw [occurrences?_of_update hs ht]
  split
  · unfold State.occurrences?
    rw [Option.map_map]
    rfl
  · rfl

end Counts

/-- From one state to another, the events that have happened, the latest first, are told of in
order, and are those that are counted. -/
structure Tells (trigger : String) (s s' : State) (fired : List String) : Prop where
  told : ∃ pushed, s'.notifications = pushed ++ s.notifications ∧
    pushed.reverse.filterMap Notification.fired? = fired.map fun id => (id, trigger)
  counted : ∀ id n, s.occurrences? id = some n →
    s'.occurrences? id = some (if id ∈ fired then oneMore n else n)

namespace Tells

variable {trigger : String} {s s₁ s' : State} {fired fired' : List String}

theorem refl : Tells trigger s s [] where
  told := ⟨[], rfl, rfl⟩
  counted _ _ hn := hn

theorem trans (h : Tells trigger s s₁ fired) (h' : Tells trigger s₁ s' fired')
    (hdisjoint : fired.Disjoint fired') : Tells trigger s s' (fired ++ fired') where
  told := by
    obtain ⟨pushed, hpushed, hfired⟩ := h.told
    obtain ⟨pushed', hpushed', hfired'⟩ := h'.told
    refine ⟨pushed' ++ pushed, ?_, ?_⟩
    · rw [hpushed', hpushed, List.append_assoc]
    · rw [List.reverse_append, List.filterMap_append, hfired, hfired', List.map_append]
  counted id n hn := by
    rw [h'.counted id _ (h.counted id n hn)]
    by_cases hid : id ∈ fired
    · have hid' : id ∉ fired' := fun hid' => hdisjoint hid hid'
      simp [hid, hid']
    · simp [hid]

theorem mutate (hs : s.WellFormed) {m : Mutation} (hm : ¬ m.Fires) (h : s.mutate m = .ok s') :
    Tells trigger s s' [] := by
  have hcounted : s'.registry = s.registry → ∀ id n, s.occurrences? id = some n →
      s'.occurrences? id = some (if id ∈ ([] : List String) then oneMore n else n) := by
    intro hsame id n hn
    unfold State.occurrences? at hn ⊢
    rw [hsame]
    exact hn
  cases m with
  | setVariable id x =>
    obtain ⟨v, hv, rfl⟩ := State.setVariable_eq_ok.1 h
    refine ⟨⟨_, rfl, ?_⟩, hcounted rfl⟩
    unfold State.valueChange
    split <;> rfl
  | setBounds id min max =>
    obtain ⟨v, w, -, -, rfl, rfl⟩ := State.setVariableBounds_eq_ok.1 h
    refine ⟨⟨_, (List.append_cons _ _ _), ?_⟩, hcounted rfl⟩
    unfold State.valueChange
    split <;> rfl
  | giveItem id amount =>
    obtain ⟨provider, inventory, -, rfl, rfl⟩ := State.giveItem_eq_ok.1 h
    refine ⟨⟨_, rfl, ?_⟩, hcounted rfl⟩
    unfold State.countChange
    split <;> rfl
  | setStatus id duration =>
    obtain ⟨provider, statuses, -, rfl, rfl⟩ := State.setStatus_eq_ok.1 h
    refine ⟨⟨_, rfl, ?_⟩, hcounted rfl⟩
    unfold State.statusChange
    split <;> rfl
  | request target priority probability =>
    cases h
    exact ⟨⟨[], rfl, rfl⟩, hcounted rfl⟩
  | toggle id enabled =>
    obtain ⟨flags, hflags, rfl⟩ := State.setEventEnabled_eq_ok.1 h
    refine ⟨⟨_, rfl, ?_⟩, fun id' n hn => ?_⟩
    · unfold State.toggleChange
      split <;> rfl
    · rw [occurrences?_of_toggle hs.indexed rfl]
      exact hn
  | endGame outcome =>
    cases h
    exact ⟨⟨[_], rfl, rfl⟩, hcounted rfl⟩
  | draw =>
    cases h
    exact ⟨⟨[], rfl, rfl⟩, hcounted rfl⟩
  | fire id trigger => exact absurd trivial hm
  | tick =>
    simp only [State.mutate, State.tick_eq] at h
    cases h
    refine ⟨⟨_, rfl, ?_⟩, hcounted rfl⟩
    simp [List.filterMap_map, Function.comp_def, Notification.fired?]
  | pop =>
    cases h
    exact ⟨⟨[], rfl, rfl⟩, hcounted rfl⟩

theorem becomes (hs : s.WellFormed) {sort : Mutation → Prop} (hsort : ∀ m, sort m → ¬ m.Fires)
    (h : s.Becomes sort s') : Tells trigger s s' [] := by
  refine (h.keeps (P := fun t => t.WellFormed ∧ Tells trigger s t []) ?_ ⟨hs, .refl⟩).2
  rintro t t' m hm ⟨ht, htells⟩ hmutate
  exact ⟨ht.mutate hmutate, htells.trans (.mutate ht (hsort m hm) hmutate) (by simp)⟩

theorem fireEvent (hs : s.WellFormed) {id : String} (h : s.fireEvent id trigger = .ok s') :
    Tells trigger s s' [id] := by
  obtain ⟨-, rfl⟩ := State.fireEvent_eq_ok.1 h
  refine ⟨⟨[.eventFired id trigger], rfl, rfl⟩, fun id' n hn => ?_⟩
  rw [occurrences?_of_record hs.indexed rfl, hn]
  by_cases hid : id = id'
  · subst hid
    simp
  · simp [hid, Ne.symm hid]

theorem draw (random : RandomSource) : Tells trigger s { s with random } [] where
  told := ⟨[], rfl, rfl⟩
  counted _ _ hn := hn

end Tells

theorem takesTurn_wellFormed {w w' : World} {earlier : List (Event Expression)}
    {e : Event Expression} {takes : Bool} (hw : w.state.WellFormed)
    (h : Play.takesTurn (exclusionsOf earlier) e w = (.done takes, w')) :
    w'.state.WellFormed ∧ ∀ trigger, Tells trigger w.state w'.state [] := by
  obtain ⟨-, random, hrandom, rfl⟩ := Play.takesTurn_eq_done h
  refine ⟨{ hw with placed := ?_ }, fun _ => .draw random⟩
  rcases hrandom with rfl | rfl
  · exact hw.placed
  · exact hw.placed.next

theorem happen_tells {screen : Screen} {patience : Nat} {trigger : String} {w w' : World}
    {e : Event Expression} (hw : w.state.WellFormed)
    (h : Play.happen screen patience trigger e w = (.done (), w')) :
    w'.state.WellFormed ∧ Tells trigger w.state w'.state [e.id] := by
  obtain ⟨s, hfire, hactions⟩ := Play.happen_eq_done h
  have hs : s.WellFormed := hw.mutate (m := .fire e.id trigger) hfire
  exact ⟨hs.becomes hactions,
    (Tells.fireEvent hw hfire).trans (.becomes hs (fun _ h => h.not_fires) hactions) (by simp)⟩

namespace Course

variable {screen : Screen} {patience : Nat} {trigger : String}
  {earlier es fired : List (Event Expression)} {w w' : World} {ended : Bool}

theorem sublist (h : Course screen patience trigger earlier es w fired ended w') :
    fired.Sublist es := by
  induction h with
  | finished => exact List.Sublist.refl []
  | refused _ _ ih => exact ih.cons _
  | happened _ _ _ _ ih => exact ih.cons_cons _
  | ended _ _ _ => exact (List.nil_sublist _).cons_cons _

theorem not_excluded {e : Event Expression} {w₁ : World}
    (h : Play.takesTurn (exclusionsOf earlier) e w = (.done true, w₁)) :
    ∀ a ∈ earlier, e.id ∉ a.exclusions := by
  intro a ha hid
  have hrefused := (Play.takesTurn_eq_done h).1.2 (.excluded a ha hid)
  cases hrefused

theorem exclusions (h : Course screen patience trigger earlier es w fired ended w') :
    (∀ a ∈ earlier, ∀ b ∈ fired, b.id ∉ a.exclusions) ∧
      fired.Pairwise fun a b => b.id ∉ a.exclusions := by
  induction h with
  | finished => exact ⟨fun _ _ => List.forall_mem_nil _, .nil⟩
  | refused _ _ ih => exact ih
  | @happened earlier es fired e w w₁ w₂ w' ended hturn _ _ _ ih =>
    obtain ⟨hbefore, hamong⟩ := ih
    refine ⟨fun a ha b hb => ?_, List.pairwise_cons.2 ⟨fun b hb => ?_, hamong⟩⟩
    · rcases List.mem_cons.1 hb with rfl | hb
      · exact not_excluded hturn a ha
      · exact hbefore a (List.mem_append_left _ ha) b hb
    · exact hbefore e (List.mem_append_right _ (List.mem_singleton_self e)) b hb
  | @ended earlier es e w w₁ w₂ hturn _ _ =>
    refine ⟨fun a ha b hb => ?_, List.pairwise_singleton _ _⟩
    rw [List.mem_singleton] at hb
    subst hb
    exact not_excluded hturn a ha

theorem ended_eq (h : Course screen patience trigger earlier es w fired ended w')
    (hw : w.state.ending = none) : ended = w'.state.ending.isSome := by
  induction h with
  | finished => rw [hw]; rfl
  | refused hturn _ ih =>
    obtain ⟨-, random, -, rfl⟩ := Play.takesTurn_eq_done hturn
    exact ih hw
  | happened _ _ hending _ ih => exact ih hending
  | ended _ _ hending => exact hending.symm

theorem tells (h : Course screen patience trigger earlier es w fired ended w')
    (hw : w.state.WellFormed) (hes : (es.map Event.id).Nodup) :
    Tells trigger w.state w'.state (fired.map Event.id) := by
  induction h with
  | finished => exact .refl
  | refused hturn _ ih =>
    rw [List.map_cons, List.nodup_cons] at hes
    obtain ⟨hw₁, htells⟩ := takesTurn_wellFormed hw hturn
    exact (htells _).trans (ih hw₁ hes.2) (by simp)
  | happened hturn hhappen _ hrest ih =>
    rw [List.map_cons, List.nodup_cons] at hes
    obtain ⟨hw₁, htells⟩ := takesTurn_wellFormed hw hturn
    obtain ⟨hw₂, htells₁⟩ := happen_tells hw₁ hhappen
    have hnew := (hrest.sublist.map Event.id).subset
    refine ((htells _).trans htells₁ (by simp)).trans (ih hw₂ hes.2) ?_
    intro id hid hid'
    rw [List.nil_append, List.mem_singleton] at hid
    subst hid
    exact hes.1 (hnew hid')
  | ended hturn hhappen _ =>
    obtain ⟨hw₁, htells⟩ := takesTurn_wellFormed hw hturn
    obtain ⟨-, htells₁⟩ := happen_tells hw₁ hhappen
    exact (htells _).trans htells₁ (by simp)

/-- The turns of a course: they are those of the first listeners, of all of them unless the game
ends; the game has not ended in any of them; and their events happen unless they are refused. -/
theorem turns (h : Course screen patience trigger earlier es w fired ended w')
    (hw : w.state.ending = none) (hes : (es.map Event.id).Nodup) :
    ((turns screen patience trigger earlier es w).map Turn.event <+: es) ∧
      (ended = false → (turns screen patience trigger earlier es w).map Turn.event = es) ∧
      ∀ t ∈ turns screen patience trigger earlier es w, t.world.state.ending = none ∧
        (t.event.id ∉ fired.map Event.id ↔ t.Refused) := by
  induction h with
  | finished => exact ⟨List.prefix_rfl, fun _ => rfl, List.forall_mem_nil _⟩
  | @refused earlier es fired e w w₁ w' ended hturn hrest ih =>
    rw [List.map_cons, List.nodup_cons] at hes
    obtain ⟨hrefused, random, -, rfl⟩ := Play.takesTurn_eq_done hturn
    obtain ⟨hfirst, hall, hturns⟩ := ih hw hes.2
    have hnot : e.id ∉ fired.map Event.id := fun hid =>
      hes.1 ((hrest.sublist.map Event.id).subset hid)
    simp only [Scenario.turns, hturn]
    refine ⟨List.cons_prefix_cons.2 ⟨rfl, hfirst⟩, fun hended => ?_,
      List.forall_mem_cons.2 ⟨⟨hw, ?_⟩, hturns⟩⟩
    · rw [List.map_cons, hall hended]
    · exact ⟨fun _ => hrefused.1 rfl, fun _ => hnot⟩
  | @happened earlier es fired e w w₁ w₂ w' ended hturn hhappen hending hrest ih =>
    rw [List.map_cons, List.nodup_cons] at hes
    obtain ⟨hrefused, -⟩ := Play.takesTurn_eq_done hturn
    obtain ⟨hfirst, hall, hturns⟩ := ih hending hes.2
    simp only [Scenario.turns, hturn, hhappen, hending, Option.isSome_none, Bool.false_eq_true,
      ↓reduceIte]
    refine ⟨List.cons_prefix_cons.2 ⟨rfl, hfirst⟩, fun hended => ?_,
      List.forall_mem_cons.2 ⟨⟨hw, ?_⟩, fun t ht => ⟨(hturns t ht).1, ?_⟩⟩⟩
    · rw [List.map_cons, hall hended]
    · exact ⟨fun hnot => absurd List.mem_cons_self hnot, fun hr => nomatch hrefused.2 hr⟩
    -- The turns that follow are of other events, which have happened among the rest or not at all.
    · have hmem : t.event ∈ es := hfirst.subset (List.mem_map_of_mem ht)
      have hne : t.event.id ≠ e.id := fun hid => hes.1 (hid ▸ List.mem_map_of_mem hmem)
      rw [← (hturns t ht).2, List.map_cons, List.mem_cons, not_or]
      exact ⟨And.right, fun hnot => ⟨hne, hnot⟩⟩
  | @ended earlier es e w w₁ w₂ hturn hhappen hending =>
    obtain ⟨hrefused, -⟩ := Play.takesTurn_eq_done hturn
    simp only [Scenario.turns, hturn, hhappen, hending, ↓reduceIte]
    refine ⟨List.cons_prefix_cons.2 ⟨rfl, List.nil_prefix⟩, by simp,
      List.forall_mem_cons.2 ⟨⟨hw, ?_⟩, List.forall_mem_nil _⟩⟩
    exact ⟨fun hnot => absurd List.mem_cons_self hnot, fun hr => nomatch hrefused.2 hr⟩

end Course

/-! ### Reports -/

def State.registeredFor (s : State) (trigger : String) : List String :=
  (s.registry.events.toList.filter (·.trigger = trigger)).map Event.id

/-- The listeners to a trigger that a state has had their turns `ts`, up to the end of the game, and
those that were not refused have happened. -/
structure Heard (trigger : String) (s : State) (ts : List Turn) (fired : List String)
    (ended : Bool) : Prop where
  registered : fired.Sublist (s.registeredFor trigger)
  nodup : fired.Nodup
  exclusions : fired.Pairwise fun a b =>
    ∀ event ∈ s.registry.events, event.id = a → b ∉ event.exclusions
  reached : ts.map Turn.event <+: s.registry.events.toList.filter (·.trigger = trigger)
  all_reached : ended = false →
    ts.map Turn.event = s.registry.events.toList.filter (·.trigger = trigger)
  refused : ∀ t ∈ ts, t.world.state.ending = none ∧ (t.event.id ∉ fired ↔ t.Refused)

theorem listeners_nodup {s : State} (hs : s.WellFormed) (trigger : String) :
    ((s.registry.listeners trigger).map Event.id).Nodup := by
  rw [hs.indexed.listeners_eq trigger]
  exact (List.filter_sublist.map Event.id).nodup hs.indexed.ids_nodup

theorem listen_heard {screen : Screen} {patience : Nat} {trigger : String} {w w' : World}
    {fired : List String} {ended : Bool} (hw : w.state.WellFormed) (hending : w.state.ending = none)
    (h : Play.listen screen patience trigger [] (w.state.registry.listeners trigger) w =
      (.done (fired, ended), w')) :
    Heard trigger w.state
        (turns screen patience trigger [] (w.state.registry.listeners trigger) w) fired ended ∧
      Tells trigger w.state w'.state fired ∧ ended = w'.state.ending.isSome := by
  obtain ⟨events, rfl, hcourse⟩ := Play.listen_course (show Play.listen screen patience trigger
    (exclusionsOf []) (w.state.registry.listeners trigger) w = (.done (fired, ended), w') from h)
  have hlisteners := hw.indexed.listeners_eq trigger
  have hids := listeners_nodup hw trigger
  obtain ⟨hfirst, hall, hrefused⟩ := hcourse.turns hending hids
  refine ⟨⟨?_, (hcourse.sublist.map Event.id).nodup hids, ?_, ?_, ?_, hrefused⟩,
    hcourse.tells hw hids, hcourse.ended_eq hending⟩
  · rw [State.registeredFor, ← hlisteners]
    exact hcourse.sublist.map Event.id
  · rw [List.pairwise_map]
    refine hcourse.exclusions.2.imp_of_mem fun ha _ hab event hevent hid => ?_
    have hregistered : ∀ a ∈ events, a ∈ w.state.registry.events.toList := by
      intro a ha
      have hlistens := hcourse.sublist.subset ha
      rw [hlisteners] at hlistens
      exact (List.mem_filter.1 hlistens).1
    have hsame := List.inj_on_of_nodup_map hw.indexed.ids_nodup (Array.mem_toList_iff.2 hevent)
      (hregistered _ ha) hid
    rw [hsame]
    exact hab
  · rw [← hlisteners]
    exact hfirst
  · rw [← hlisteners]
    exact hall

/-- What the report of a pass says is what the pass of the trigger `p` has made of an engine. -/
structure PassReport.Faithful (screen : Screen) (patience : Nat) (p : PendingTrigger)
    (queue : TriggerQueue) (report : PassReport) (e e' : Engine) : Prop where
  trigger : report.trigger = p.trigger
  gate : report.gatePassed = true ↔
    1.0 ≤ p.probability ∨ e.state.random.next.1 < greater p.probability 0.0
  gate_failed : report.gatePassed = false → report.fired = [] ∧
    e' = e.setState { e.state with queue, random := e'.state.random }
  gate_passed : report.gatePassed → Heard p.trigger e.state
    (turnsOf screen patience p (e.setState { e.state with queue }).world) report.fired report.ended
  tells : Tells p.trigger e.state e'.state report.fired
  ended : report.ended = e'.state.ending.isSome

theorem processNext_eq_done {e e' : Engine} {screen : Screen} {patience : Nat}
    {report : PassReport}
    (h : e.processNext screen patience = (.done (some report), e')) :
    e.state.ending = none ∧ ∃ p queue w', e.state.queue.pop? = some (p, queue) ∧
      Play.pass screen patience p (e.setState { e.state with queue }).world = (.done report, w') ∧
      e' = { e with world := w' } := by
  unfold Engine.processNext at h
  split at h
  · cases h
  · split at h
    · cases h
    · rename_i hending
      split at h
      · cases h
      · rename_i p queue hpop
        have hnone : e.state.ending = none := by simpa using hending
        refine ⟨hnone, p, queue, ?_⟩
        unfold Engine.inFlightDuring at h
        split at h
        · cases h
        · cases h
        · rename_i outcome w' _ _ hpass
          cases h
          obtain ⟨r, w₁, hdone, hsome⟩ := Play.bind_eq_done (f := fun r => pure (some r)) hpass
          obtain ⟨hr, rfl⟩ := Play.pure_eq_done hsome
          cases hr
          exact ⟨w', hpop, hdone, rfl⟩

theorem gate_eq_done {p : Float} {w w' : World} {passed : Bool}
    (h : Play.chance (gate p) w = (.done passed, w')) (hw : w.state.WellFormed) :
    ∃ random, w' = { w with state := { w.state with random } } ∧ random.Placed := by
  obtain ⟨-, rfl⟩ := Play.chance_eq_done h
  refine ⟨_, rfl, ?_⟩
  rcases gate_source p w.state.random with hsame | hnext
  · rw [hsame]
    exact hw.placed
  · rw [hnext]
    exact hw.placed.next

/-- The report of a pass is faithful, whatever the content, the screen and the random source. -/
theorem processNext_faithful {e e' : Engine} {screen : Screen} {patience : Nat}
    {report : PassReport} (he : e.Reachable)
    (hnext : e.processNext screen patience = (.done (some report), e')) :
    ∃ p queue, e.state.queue.pop? = some (p, queue) ∧
      report.Faithful screen patience p queue e e' := by
  obtain ⟨hending, p, queue, w', hpop, hpass, rfl⟩ := processNext_eq_done hnext
  refine ⟨p, queue, hpop, ?_⟩
  have hpopped : ({ e.state with queue } : State).WellFormed :=
    he.wellFormed.mutate (Engine.pop_queue hpop)
  obtain ⟨passed, w, hgate, hlisten⟩ := Play.bind_eq_done hpass
  have hpasses := gate_passes_iff (Play.chance_eq_done hgate).1
  obtain ⟨random, hw, hplaced⟩ := gate_eq_done hgate hpopped
  have hstate : w.state = { e.state with queue, random } := congrArg World.state hw
  cases passed with
  | false =>
    obtain ⟨rfl, rfl⟩ := Play.pure_eq_done hlisten
    have hended : (false : Bool) = w'.state.ending.isSome := by
      rw [hstate, hending]
      rfl
    have htells : Tells p.trigger e.state w'.state [] := by
      rw [hstate]
      exact ⟨⟨[], rfl, rfl⟩, fun _ _ hn => hn⟩
    have hrest : { e with world := w' } =
        e.setState { e.state with queue, random := w'.state.random } := by
      rw [hw]
      rfl
    exact ⟨rfl, hpasses, fun _ => ⟨rfl, hrest⟩, (nomatch ·), htells, hended⟩
  | true =>
    obtain ⟨listeners, w₁, hlook, hturns⟩ := Play.bind_eq_done hlisten
    obtain ⟨hlisteners, rfl⟩ := Play.look_eq_done hlook
    obtain rfl := Except.ok.inj hlisteners
    obtain ⟨⟨fired, ended⟩, w₂, hheard, hdone⟩ := Play.bind_eq_done hturns
    obtain ⟨rfl, rfl⟩ := Play.pure_eq_done hdone
    have hwell : w₁.state.WellFormed := by
      rw [hstate]
      exact { hpopped with placed := hplaced }
    have halive : w₁.state.ending = none := by
      rw [hstate]
      exact hending
    have hturnsOf : turnsOf screen patience p (e.setState { e.state with queue }).world =
        turns screen patience p.trigger [] (w₁.state.registry.listeners p.trigger) w₁ := by
      unfold turnsOf
      rw [hgate]
    obtain ⟨hlisteners, htells, hended⟩ := listen_heard hwell halive hheard
    rw [← hturnsOf, hstate] at hlisteners
    rw [hstate] at htells
    exact ⟨rfl, hpasses, (nomatch ·), fun _ => { hlisteners with }, { htells with }, hended⟩

/-! ### A bell and its echo -/

def quiet : Screen := ⟨fun _ _ => true, fun _ _ => none⟩

def bell : Event Expression :=
  { id := "bell", trigger := "ring", probability := .constant 1.0, exclusions := ["echo"] }

def echo : Event Expression := { id := "echo", trigger := "ring", probability := .constant 1.0 }

def belfry : Engine :=
  (Engine.performAll quiet [.registerEvent bell, .registerEvent echo, .fire "ring"] (.new {})).2

theorem belfry_reachable : belfry.Reachable :=
  Engine.ReachableBy.performAll (.start {} (.ofSeed "default") (.ofSeed "default")) quiet
    fun _ _ => trivial

theorem processNext_faithful_belfry :
    ∃ e' p queue, belfry.processNext quiet 1 = (.done (some ⟨"ring", true, ["bell"], false⟩), e') ∧
      belfry.state.queue.pop? = some (p, queue) ∧
      PassReport.Faithful quiet 1 p queue ⟨"ring", true, ["bell"], false⟩ belfry e' := by
  have hnext : belfry.processNext quiet 1 =
      (.done (some ⟨"ring", true, ["bell"], false⟩), (belfry.processNext quiet 1).2) :=
    Prod.ext rfl rfl
  obtain ⟨p, queue, hpop, hfaithful⟩ := processNext_faithful belfry_reachable hnext
  exact ⟨_, p, queue, hnext, hpop, hfaithful⟩

end Scenario
