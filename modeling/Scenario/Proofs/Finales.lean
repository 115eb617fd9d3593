import Scenario.Proofs.Once
import Scenario.Proofs.Traces

/-!
Finales. The action that ends a game is the last of its pass, however deep it stands: every run of
actions passes the stop on, and nothing is left to do but to disable an event that happens once.
-/

namespace Scenario

/-! ### What goes on -/

/-- A state becomes another one without an end of the game. -/
def State.GoesOn : State → State → Prop := State.Becomes fun m => ¬ m.Ends

def World.endGame (w : World) (outcome : Option String) : World :=
  { w with state := w.state.endGame outcome }

def Deed.Ends : Deed → Prop
  | .action (.endGame _) => True
  | _ => False

/-- No moment of a trace ends the game. -/
def Quiet (trace : List Moment) : Prop := ∀ moment ∈ trace, ¬ moment.deed.Ends

theorem Quiet.append {trace trace' : List Moment} (h : Quiet trace) (h' : Quiet trace') :
    Quiet (trace ++ trace') := List.forall_mem_append.2 ⟨h, h'⟩

theorem quiet_nil : Quiet [] := List.forall_mem_nil _

/-! ### Runs of actions -/

section Actions

/-- How the game goes on while actions run: either it does not end, or the last of them ends it and
stops all that there is. -/
inductive Runs (w : World) : List Moment → Outcome Flow → World → Prop
  | on {trace : List Moment} {o : Outcome Flow} {w' : World} (hquiet : Quiet trace)
    (hstate : w.state.GoesOn w'.state) : Runs w trace o w'
  | ended {trace : List Moment} {v : World} {outcome : Option String} (hquiet : Quiet trace)
    (hstate : w.state.GoesOn v.state) :
    Runs w (trace ++ [⟨.action (.endGame outcome), v⟩]) (.done .stopAll) (v.endGame outcome)

/-- A run that goes so from every world. -/
def Closed (t : Traced Flow) : Prop := ∀ w : World, Runs w (t w).1 (t w).2.1 (t w).2.2

/-- A run without an end of the game. -/
def Play.GoesOn {α : Type} (p : Play α) : Prop :=
  ∀ w : World, w.state.GoesOn (p w).2.state

namespace Runs

variable {w w₁ w' : World} {trace trace₁ : List Moment} {o : Outcome Flow}

theorem after (h : Runs w₁ trace o w') (hquiet : Quiet trace₁) (hstate : w.state.GoesOn w₁.state) :
    Runs w (trace₁ ++ trace) o w' := by
  cases h with
  | on hquiet' hstate' => exact .on (hquiet.append hquiet') (hstate.trans hstate')
  | ended hquiet' hstate' =>
    rw [← List.append_assoc]
    exact .ended (hquiet.append hquiet') (hstate.trans hstate')

end Runs

theorem Play.GoesOn.of_agree {α : Type} {p : Play α}
    (h : ∀ s, Agree (Reached (fun m => ¬ m.Ends) s) p p) : p.GoesOn :=
  fun w : World => (h w.state).becomes

theorem Play.GoesOn.look {α : Type} (f : State → Except EvaluationError α) :
    (Play.look f).GoesOn :=
  .of_agree fun _ => Agree.look fun v w h => by rw [h.1]

namespace Closed

variable {α : Type}

theorem silent {p : Play Flow} (h : p.GoesOn) : Closed (Traced.silent p) := fun w =>
  .on quiet_nil (h w)

protected theorem pure (flow : Flow) : Closed (pure flow) := fun w => .on quiet_nil (.refl w.state)

theorem bind_silent {p : Play α} {f : α → Traced Flow} (h : p.GoesOn) (h' : ∀ a, Closed (f a)) :
    Closed (Traced.silent p >>= f) := by
  intro w
  have hstate := h w
  simp only [bind, Traced.silent]
  rcases hp : p w with ⟨o, w₁⟩
  rw [hp] at hstate
  cases o with
  | done a => exact (h' a w₁).after quiet_nil hstate
  | failed e => exact .on quiet_nil hstate
  | suspended => exact .on quiet_nil hstate
  | exhausted => exact .on quiet_nil hstate

/-- Whatever passes a stop of everything on is closed. -/
theorem bind_flow {t : Traced Flow} {f : Flow → Traced Flow} (h : Closed t)
    (hnext : Closed (f .next)) (hlist : Closed (f .stopList))
    (hall : f .stopAll = pure .stopAll) : Closed (t >>= f) := by
  intro w
  have hw := h w
  simp only [bind]
  rcases ht : t w with ⟨trace, o, w₁⟩
  rw [ht] at hw
  cases hw with
  | on hquiet hstate =>
    cases o with
    | done flow =>
      cases flow with
      | next => exact (hnext w₁).after hquiet hstate
      | stopList => exact (hlist w₁).after hquiet hstate
      | stopAll =>
        dsimp only
        rw [hall]
        exact Runs.after (.on quiet_nil (.refl w₁.state)) hquiet hstate
    | failed e => exact .on hquiet hstate
    | suspended => exact .on hquiet hstate
    | exhausted => exact .on hquiet hstate
  | ended hquiet hstate =>
    dsimp only
    rw [hall]
    change Runs w (_ ++ []) _ _
    rw [List.append_nil]
    exact .ended hquiet hstate

variable (screen : Screen) (patience : Nat)

/-- All runs of actions are closed: only the action that ends the game is looked at by itself. -/
theorem hereditary :
    Traced.Hereditary screen patience (fun a => (Deed.action a).Ends) Closed where
  endGame outcome := trivial
  next := .pure _
  plain hplain _ := silent <| .of_agree fun s =>
    (simulation_self screen _ s).plain (fun _ _ _ h => h) patience hplain
  fail cause := silent (.of_agree fun _ => .fail cause)
  exhausted := silent (.of_agree fun _ => .exhausted)
  look f _ h := bind_silent (.look f) h
  chance hf _ h := bind_silent (.of_agree fun s => (simulation_self screen _ s).chance hf id) h
  ask prompt _ h := bind_silent (.of_agree fun s => (simulation_self screen _ s).ask prompt) h
  flow h hnext hlist hall := h.bind_flow hnext hlist hall
  begin {a next} ha hnext hlist hall := by
    intro w
    by_cases hends : (Deed.action a).Ends
    · cases a with
      | endGame outcome =>
        have hrun : (Traced.begin (.action (.endGame outcome)) >>= fun _ =>
            Traced.run screen patience (.endGame outcome) >>= next) w =
              ⟨[] ++ [⟨.action (.endGame outcome), w⟩] ++ (next .stopAll (w.endGame outcome)).1,
                (next .stopAll (w.endGame outcome)).2⟩ := rfl
        rw [hrun, hall]
        exact .ended quiet_nil (.refl w.state)
      | _ => exact hends.elim
    · have hgoes := (ha hends).bind_flow hnext hlist hall
      have hbegun : Quiet [⟨.action a, w⟩] := by simpa [Quiet] using hends
      exact (hgoes w).after hbegun (.refl w.state)

theorem runAll (as : List (Action Expression)) : Closed (Traced.runAll screen patience as) :=
  (hereditary screen patience).runAll as

end Closed

end Actions

/-! ### Passes -/

/-- What is left to do for an event behind its actions. -/
def Play.retire (e : Event Expression) : Play Unit :=
  if e.once then change (·.setEventEnabled e.id false) else pure ()

/-- The end of the game in a pass: `event` is the last event that happens, `found` the world that
its actions find, and `last` the one that the last of them finds. -/
structure Finale where
  before : List Moment
  event : Event Expression
  found : World
  acts : List Moment
  outcome : Option String
  last : World

namespace Finale

variable (f : Finale)

def moment : Moment := ⟨.action (.endGame f.outcome), f.last⟩

def trace : List Moment := f.before ++ ⟨.event f.event, f.found⟩ :: (f.acts ++ [f.moment])

/-- The actions of the event come to the end of the game and stop there. Behind them the event is
retired and no more is done. -/
structure Played (screen : Screen) (patience : Nat) (w' : World) : Prop where
  quiet : Quiet (f.before ++ f.acts)
  runs : Traced.runAll screen patience f.event.actions f.found =
    (f.acts ++ [f.moment], .done .stopAll, f.last.endGame f.outcome)
  retires : Play.retire f.event (f.last.endGame f.outcome) = (.done (), w')

end Finale

section Passes

variable (screen : Screen) (patience : Nat)

/-- How the game goes on while events happen: either it does not end, or it ends with the last of
all that is done. What the result `told` says is said of the event that ends it. -/
inductive Plays {α : Type} (told : Event Expression → α → Prop) (w : World) :
    List Moment → Outcome α → World → Prop
  | on {trace : List Moment} {o : Outcome α} {w' : World} (hquiet : Quiet trace)
    (hstate : w.state.GoesOn w'.state) : Plays told w trace o w'
  | ended {f : Finale} {a : α} {w' : World} (htold : told f.event a)
    (hplayed : f.Played screen patience w') (hstate : w.state.GoesOn f.last.state) :
    Plays told w f.trace (.done a) w'

/-- A traced run that goes so from every state in order. -/
def Concludes {α : Type} (told : Event Expression → α → Prop) (t : Traced α) : Prop :=
  ∀ w : World, w.state.WellFormed → Plays screen patience told w (t w).1 (t w).2.1 (t w).2.2

variable {screen patience} {trigger : String}

theorem Finale.moment_mem (f : Finale) : f.moment ∈ f.trace := by
  simp [Finale.trace]

theorem Finale.eq_moment (f : Finale) (hquiet : Quiet (f.before ++ f.acts)) {moment : Moment}
    (hmem : moment ∈ f.trace) (hends : moment.deed.Ends) : moment = f.moment := by
  have hother := hquiet moment
  simp only [Finale.trace, List.mem_append, List.mem_cons, List.not_mem_nil, or_false]
    at hmem hother
  rcases hmem with hbefore | rfl | hacts | rfl
  · exact absurd hends (hother (.inl hbefore))
  · exact hends.elim
  · exact absurd hends (hother (.inr hacts))
  · rfl

theorem Finale.Played.ending {f : Finale} {w' : World} (h : f.Played screen patience w') :
    w'.state.ending = some ⟨f.outcome⟩ := by
  have hretired := h.retires
  unfold Play.retire at hretired
  split at hretired
  · obtain ⟨flags, -, ht⟩ := State.setEventEnabled_eq_ok.1 (Play.change_eq_done hretired)
    rw [ht]
    rfl
  · obtain ⟨-, rfl⟩ := Play.pure_eq_done hretired
    rfl

namespace Plays

variable {α : Type} {told : Event Expression → α → Prop} {w w₁ w' : World}
  {trace trace₁ : List Moment} {o : Outcome α}

theorem after (h : Plays screen patience told w₁ trace o w') (hquiet : Quiet trace₁)
    (hstate : w.state.GoesOn w₁.state) : Plays screen patience told w (trace₁ ++ trace) o w' := by
  cases h with
  | on hquiet' hstate' => exact .on (hquiet.append hquiet') (hstate.trans hstate')
  | @ended f a _ htold hplayed hstate' =>
    let g : Finale := { f with before := trace₁ ++ f.before }
    have htrace : trace₁ ++ f.trace = g.trace := (List.append_assoc _ _ _).symm
    have hbefore : Quiet (g.before ++ g.acts) := by
      rw [List.append_assoc]
      exact hquiet.append hplayed.quiet
    rw [htrace]
    exact .ended (f := g) htold ⟨hbefore, hplayed.runs, hplayed.retires⟩ (hstate.trans hstate')

end Plays

/-- An event that has happened can still be disabled when its actions have ended the game. -/
theorem exists_toggle {s t v : State} {id : String} (hs : s.WellFormed)
    (hfire : s.fireEvent id trigger = .ok t) (hgoes : t.GoesOn v) (outcome : Option String)
    (enabled : Bool) : ∃ u, (v.endGame outcome).setEventEnabled id enabled = .ok u := by
  have ht : t.WellFormed := hs.mutate (m := .fire id trigger) hfire
  have hv : v.WellFormed := ht.becomes hgoes
  obtain ⟨⟨flags, hflags⟩, -⟩ := State.fireEvent_eq_ok.1 hfire
  have hevents : v.registry.events = s.registry.events :=
    hgoes.events.trans (State.events_of_mutate (m := .fire id trigger) hfire)
  have hknown := hs.indexed.isSome_flags?.1 (Option.isSome_iff_exists.2 ⟨flags, hflags⟩)
  rw [← hevents, ← hv.indexed.isSome_flags?] at hknown
  obtain ⟨flags', hflags'⟩ := Option.isSome_iff_exists.1 hknown
  exact ⟨_, State.setEventEnabled_eq_ok.2 ⟨flags', hflags', rfl⟩⟩

theorem Play.GoesOn.retire (e : Event Expression) : (Play.retire e).GoesOn := by
  apply Play.GoesOn.of_agree
  intro s
  unfold Play.retire
  split
  · exact (simulation_self quiet _ s).change (m := .toggle e.id false) id
  · exact .pure ()

theorem happen_concludes (e : Event Expression) :
    Concludes screen patience (fun event _ => event = e)
      (Traced.happen screen patience trigger e) := by
  intro w hw
  have hretire : (if e.once then Traced.silent (Play.change (·.setEventEnabled e.id false))
      else pure ()) = Traced.silent (Play.retire e) := by
    unfold Play.retire
    split <;> rfl
  unfold Traced.happen
  rw [hretire, Traced.bind_eq, Traced.silent]
  rcases Play.change_cases (·.fireEvent e.id trigger) w with ⟨s, hs, hfire⟩ | ⟨cause, hfire⟩
  · rw [hfire]
    let w₁ : World := { w with state := s }
    have hfired : w.state.GoesOn s := .single (m := .fire e.id trigger) id hs
    have hruns := Closed.runAll screen patience e.actions w₁
    have hbegins : ¬ (Deed.event e).Ends := id
    dsimp only
    rw [Traced.bind_eq, Traced.begin]
    dsimp only
    rw [Traced.bind_eq]
    rcases hrun : Traced.runAll screen patience e.actions w₁ with ⟨acts, o, w₂⟩
    rw [hrun] at hruns
    dsimp only at hruns
    cases hruns with
    | on hquiet hstate =>
      have hall : Quiet (⟨.event e, w₁⟩ :: acts) := List.forall_mem_cons.2 ⟨hbegins, hquiet⟩
      have hgoes : w.state.GoesOn w₂.state := hfired.trans hstate
      cases o with
      | done flow =>
        have hretired := Play.GoesOn.retire e w₂
        exact .on (hall.append quiet_nil) (hgoes.trans hretired)
      | failed cause => exact .on hall hgoes
      | suspended => exact .on hall hgoes
      | exhausted => exact .on hall hgoes
    | @ended acts v outcome hquiet hstate =>
      obtain ⟨w', hretired⟩ : ∃ w', Play.retire e (v.endGame outcome) = (.done (), w') := by
        unfold Play.retire
        split
        · obtain ⟨t, ht⟩ := exists_toggle hw hs hstate outcome false
          exact ⟨_, Play.change_of_ok ht⟩
        · exact ⟨_, rfl⟩
      let f : Finale := ⟨[], e, w₁, acts, outcome, v⟩
      have hplayed : f.Played screen patience w' := ⟨hquiet, hrun, hretired⟩
      have htrace : f.trace = [] ++ ([⟨.event e, w₁⟩] ++ (acts ++ [f.moment] ++ [])) := by
        rw [List.append_nil]
        rfl
      dsimp only
      unfold Traced.silent
      rw [hretired]
      exact htrace ▸ .ended rfl hplayed (hfired.trans hstate)
  · rw [hfire]
    exact .on quiet_nil (.refl w.state)

namespace Concludes

variable {α β : Type} {told : Event Expression → α → Prop} {told' : Event Expression → β → Prop}

protected theorem pure (a : α) : Concludes screen patience told (pure a) := fun w _ =>
  .on quiet_nil (.refl w.state)

theorem bind {t : Traced α} {f : α → Traced β} (h : Concludes screen patience told t)
    (h' : ∀ a, Concludes screen patience told' (f a))
    (hends : ∀ event a (w : World), told event a → w.state.ending.isSome →
      ∃ b, f a w = ([], .done b, w) ∧ told' event b) :
    Concludes screen patience told' (t >>= f) := by
  intro w hw
  have hfirst := h w hw
  rw [Traced.bind_eq]
  rcases ht : t w with ⟨trace, o, w₁⟩
  rw [ht] at hfirst
  dsimp only at hfirst
  cases hfirst with
  | on hquiet hstate =>
    cases o with
    | done a => exact (h' a w₁ (hw.becomes hstate)).after hquiet hstate
    | failed cause => exact .on hquiet hstate
    | suspended => exact .on hquiet hstate
    | exhausted => exact .on hquiet hstate
  | @ended f a _ htold hplayed hstate =>
    obtain ⟨b, hb, htold'⟩ := hends f.event a w₁ htold (by rw [hplayed.ending]; rfl)
    dsimp only
    rw [hb, List.append_nil]
    exact .ended htold' hplayed hstate

theorem bind_silent {p : Play α} {f : α → Traced β} (h : p.GoesOn)
    (h' : ∀ a, Concludes screen patience told' (f a)) :
    Concludes screen patience told' (Traced.silent p >>= f) := by
  have hsilent : Concludes screen patience (fun _ _ => False) (Traced.silent p) := fun w _ =>
    .on quiet_nil (h w)
  exact hsilent.bind h' fun _ _ _ h => h.elim

end Concludes

theorem listen_concludes (excluded : List String) (es : List (Event Expression)) :
    Concludes screen patience (fun event r => r.2 = true ∧ r.1.getLast? = some event.id)
      (Traced.listen screen patience trigger excluded es) := by
  induction es generalizing excluded with
  | nil => exact .pure _
  | cons e es ih =>
    unfold Traced.listen
    refine .bind_silent (.of_agree fun s => (simulation_self screen _ s).takesTurn id excluded e)
      fun takes => ?_
    split
    · refine (happen_concludes e).bind (fun _ => .bind_silent (.look _) fun ended => ?_) ?_
      · split
        · exact .pure _
        · refine (ih _).bind (fun _ => .pure _) ?_
          rintro event ⟨fired, ended⟩ w ⟨rfl, hlast⟩ -
          refine ⟨(e.id :: fired, true), rfl, rfl, ?_⟩
          rw [List.getLast?_cons, hlast]
          rfl
      · rintro event ⟨⟩ w rfl hending
        refine ⟨([event.id], true), ?_, rfl, rfl⟩
        simp [Traced.bind_eq, Traced.silent, Play.look, hending, pure]
    · exact ih excluded

theorem pass_concludes (p : PendingTrigger) :
    Concludes screen patience
      (fun event report => report.ended = true ∧ report.fired.getLast? = some event.id)
      (Traced.pass screen patience p) := by
  unfold Traced.pass
  refine .bind_silent (.of_agree fun s =>
    (simulation_self screen _ s).chance (gate_source p.probability) id) fun passed => ?_
  split
  · refine .bind_silent (.look _) fun listeners =>
      (listen_concludes [] listeners).bind (fun _ => .pure _) ?_
    rintro event ⟨fired, ended⟩ w htold -
    exact ⟨⟨p.trigger, true, fired, ended⟩, rfl, htold⟩
  · exact .pure _

end Passes

namespace Engine

/-- What is done in the next pass. -/
def traceNext (screen : Screen) (patience : Nat) (e : Engine) : List Moment :=
  match e.upcoming? with
  | some (p, queue) =>
    (Traced.pass screen patience p (e.setState { e.state with queue }).world).1
  | none => []

variable {screen : Screen} {patience : Nat} {e e' : Engine}

theorem inFlightDuring_map_of_done {α β : Type} {p : Play α} {a : α} {w' : World} {g : α → β}
    (h : p e.world = (.done a, w')) :
    e.inFlightDuring (g <$> p) = (.done (g a), { e with world := w' }) := by
  have hmap : (g <$> p) e.world = (.done (g a), w') := by
    change (p >>= fun a => pure (g a)) e.world = _
    rw [Play.bind_eq, h]
    rfl
  unfold inFlightDuring
  rw [hmap]

theorem processNext_plays (hw : e.state.WellFormed) (screen : Screen) (patience : Nat) :
    Plays screen patience
      (fun event r => ∃ report : PassReport,
        r = some report ∧ report.ended = true ∧ report.fired.getLast? = some event.id)
      e.world (e.traceNext screen patience) (e.processNext screen patience).1
      (e.processNext screen patience).2.world := by
  rw [processNext_eq]
  unfold traceNext
  cases hupcoming : e.upcoming? with
  | none => exact .on quiet_nil (.refl e.state)
  | some upcoming =>
    obtain ⟨p, queue⟩ := upcoming
    obtain ⟨-, hpop⟩ := upcoming?_eq_some hupcoming
    let popped := e.setState { e.state with queue }
    have hpopped : e.state.GoesOn popped.state := .single (m := .pop) id (pop_queue hpop)
    have hpass := (pass_concludes p : Concludes screen patience _ _) popped.world
      (hw.becomes hpopped)
    have hplay := Traced.Of.pass screen patience p popped.world
    rcases htrace : Traced.pass screen patience p popped.world with ⟨trace, o, w'⟩
    change Plays screen patience _ e.world (Traced.pass screen patience p popped.world).1
      (popped.inFlightDuring _).1 (popped.inFlightDuring _).2.world
    rw [htrace] at hpass hplay ⊢
    dsimp only at hpass hplay ⊢
    cases hpass with
    | on hquiet hstate =>
      refine .on hquiet (hpopped.trans ?_)
      rw [inFlightDuring_world, map_world, ← hplay]
      exact hstate
    | @ended f report _ htold hplayed hstate =>
      rw [inFlightDuring_map_of_done hplay.symm]
      exact .ended ⟨report, rfl, htold⟩ hplayed (hpopped.trans hstate)

end Engine

end Scenario
