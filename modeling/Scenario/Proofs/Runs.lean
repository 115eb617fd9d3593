import Scenario.Proofs.Mutation

/-!
Two games side by side. If a relation between them is kept by every mutation and by everything that
is shown, and related games read alike, then it is kept by all actions, whatever they are, and these
end alike. A game beside itself shows that actions do nothing but mutate.
-/

namespace Scenario

open Play

/-- The actions that have no parts and do not end the game. -/
def Action.Plain : Action Expression → Prop
  | .choices _ _ _ | .random _ | .coinFlip _ _ _ | .switch _ | .loop _ _ _ _ | .endGame _ => False
  | _ => True

/-- A relation under which two games go on alike. -/
structure Simulation (here there : Screen) (sort : Mutation → Prop) (W : World → World → Prop) :
    Prop where
  scope : ∀ {v w}, W v w → v.state.scope = w.state.scope
  enabled : ∀ {v w}, W v w → v.state.registry.isEnabled = w.state.registry.isEnabled
  random : ∀ {v w}, W v w → v.state.random = w.state.random
  ending : ∀ {v w}, W v w → v.state.ending = w.state.ending
  mutate : ∀ {v w} {m : Mutation}, W v w → sort m →
    (∃ s t, v.state.mutate m = .ok s ∧ w.state.mutate m = .ok t ∧
      W { v with state := s } { w with state := t }) ∨
    ∃ e, v.state.mutate m = .error e ∧ w.state.mutate m = .error e
  shows : ∀ {v w} (i : Interaction), W v w →
    W { v with shown := v.shown ++ [i] } { w with shown := w.shown ++ [i] }
  acknowledges : ∀ {v w}, W v w → here.acknowledges v.shown = there.acknowledges w.shown
  chooses : ∀ {v w}, W v w → here.chooses v.shown = there.chooses w.shown

/-- From related games, two runs end alike and in related games. -/
def Agree (W : World → World → Prop) {α : Type} (p q : Play α) : Prop :=
  ∀ v w, W v w → (p v).1 = (q w).1 ∧ W (p v).2 (q w).2

namespace Agree

variable {W : World → World → Prop} {α β : Type}

theorem pure (a : α) : Agree W (Pure.pure a) (Pure.pure a) := fun _ _ h => ⟨rfl, h⟩

theorem fail (e : Error) : Agree W (Play.fail e : Play α) (Play.fail e) := fun _ _ h => ⟨rfl, h⟩

theorem exhausted : Agree W (Play.exhausted : Play α) Play.exhausted := fun _ _ h => ⟨rfl, h⟩

theorem bind {p q : Play α} {f g : α → Play β} (h : Agree W p q) (h' : ∀ a, Agree W (f a) (g a)) :
    Agree W (p >>= f) (q >>= g) := by
  intro v w hvw
  obtain ⟨hsame, hrel⟩ := h v w hvw
  simp only [Bind.bind]
  rcases hp : p v with ⟨o, v'⟩
  rcases hq : q w with ⟨o', w'⟩
  rw [hp, hq] at hsame hrel
  dsimp only at hsame hrel
  subst hsame
  cases o with
  | done a => exact h' a v' w' hrel
  | failed e => exact ⟨rfl, hrel⟩
  | suspended => exact ⟨rfl, hrel⟩
  | exhausted => exact ⟨rfl, hrel⟩

theorem look {f g : State → Except EvaluationError α}
    (h : ∀ v w, W v w → f v.state = g w.state) : Agree W (Play.look f) (Play.look g) := by
  intro v w hvw
  unfold Play.look
  rw [h v w hvw]
  cases g w.state with
  | ok a => exact ⟨rfl, hvw⟩
  | error e => exact ⟨rfl, hvw⟩

theorem bind_look {f g : State → Except EvaluationError α} {k l : α → Play β}
    (h : ∀ v w, W v w → f v.state = g w.state)
    (h' : ∀ a s, f s = .ok a → Agree W (k a) (l a)) :
    Agree W (Play.look f >>= k) (Play.look g >>= l) := by
  intro v w hvw
  simp only [Bind.bind, Play.look]
  rw [← h v w hvw]
  cases hf : f v.state with
  | ok a => exact h' a v.state hf v w hvw
  | error e => exact ⟨rfl, hvw⟩

theorem forM {f g : α → Play PUnit} {as : List α} (h : ∀ a ∈ as, Agree W (f a) (g a)) :
    Agree W (as.forM f) (as.forM g) := by
  induction as with
  | nil => exact pure _
  | cons a as ih =>
    exact bind (h a List.mem_cons_self) fun _ => ih fun b hb => h b (List.mem_cons_of_mem a hb)

theorem rounds {last last' : Play Flow} {stops stops' : Play Bool} {body body' : Play Flow}
    (hlast : Agree W last last') (hstops : Agree W stops stops') (hbody : Agree W body body')
    (checkAtEnd : Bool) (n : Nat) :
    Agree W (Play.rounds last stops checkAtEnd body n)
      (Play.rounds last' stops' checkAtEnd body' n) := by
  induction n with
  | zero => exact hlast
  | succ n ih =>
    unfold Play.rounds
    cases checkAtEnd with
    | true =>
      apply bind hbody
      intro flow
      have hnext : Agree W
          (stops >>= fun stop => if stop then return .next else Play.rounds last stops true body n)
          (stops' >>= fun stop =>
            if stop then return .next else Play.rounds last' stops' true body' n) := by
        apply bind hstops
        intro stop
        split
        · exact pure _
        · exact ih
      cases flow with
      | next => exact hnext
      | stopList => exact hnext
      | stopAll => exact pure _
    | false =>
      apply bind hstops
      intro stop
      cases stop with
      | true => exact pure _
      | false =>
        apply bind hbody
        intro flow
        cases flow with
        | next => exact ih
        | stopList => exact ih
        | stopAll => exact pure _

end Agree

/-! ### Values -/

theorem eval_isNaN {scope : Expr.Scope (Except EvaluationError)} {e : Expression} {x : Float}
    (h : e.eval scope = .ok x) : x.isNaN = false := by
  obtain ⟨y, -, h⟩ := exists_ok_of_bind h
  split at h
  · cases h
  · rename_i hnumber
    cases h
    simpa using hnumber

theorem isNaN_of_mapM_eval {s : State} {e : Option Expression} {x : Option Float}
    (h : e.mapM s.eval = .ok x) : ∀ y ∈ x, y.isNaN = false := by
  cases e with
  | none =>
    cases h
    rintro y ⟨⟩
  | some e =>
    change some <$> s.eval e = .ok x at h
    cases heval : s.eval e with
    | error cause =>
      rw [heval] at h
      cases h
    | ok y =>
      rw [heval] at h
      cases h
      rintro y ⟨⟩
      exact eval_isNaN heval

/-! ### Random sources -/

theorem draw_source (source : RandomSource) : (draw source).2 = source.next.2 := rfl

theorem gate_source (probability : Float) (source : RandomSource) :
    (gate probability source).2 = source ∨ (gate probability source).2 = source.next.2 := by
  unfold gate
  split
  · exact .inl rfl
  · exact .inr rfl

theorem choose_source (weights : List Float) (source : RandomSource) :
    (choose weights source).2 = source ∨ (choose weights source).2 = source.next.2 := by
  unfold choose
  split
  · exact .inl rfl
  · dsimp only
    split
    · exact .inl rfl
    · exact .inr rfl

namespace Simulation

variable {here there : Screen} {sort : Mutation → Prop} {W : World → World → Prop}

section Steps

variable (sim : Simulation here there sort W)

include sim

theorem eval_eq {v w : World} (h : W v w) : v.state.eval = w.state.eval :=
  funext fun e => congrArg e.eval (sim.scope h)

theorem eval (e : Expression) : Agree W (look (·.eval e)) (look (·.eval e)) :=
  Agree.look fun _ _ h => congrArg e.eval (sim.scope h)

theorem bind_eval {β : Type} (e : Expression) {k l : Float → Play β}
    (h : ∀ x : Float, x.isNaN = false → Agree W (k x) (l x)) :
    Agree W (look (·.eval e) >>= k) (look (·.eval e) >>= l) :=
  Agree.bind_look (fun _ _ hvw => congrArg e.eval (sim.scope hvw)) fun x _ hx =>
    h x (eval_isNaN hx)

theorem holds (c : Condition Expression) : Agree W (look (·.holds c)) (look (·.holds c)) :=
  Agree.look fun _ _ h => congrArg c.check (sim.scope h)

theorem change {m : Mutation} (hm : sort m) :
    Agree W (Play.change (·.mutate m)) (Play.change (·.mutate m)) := by
  intro v w h
  unfold Play.change
  dsimp only
  rcases sim.mutate h hm with ⟨s, t, hs, ht, hrel⟩ | ⟨e, hs, ht⟩
  · rw [hs, ht]
    exact ⟨rfl, hrel⟩
  · rw [hs, ht]
    exact ⟨rfl, h⟩

theorem chance {α : Type} {f : RandomSource → Except EvaluationError α × RandomSource}
    (hf : ∀ source, (f source).2 = source ∨ (f source).2 = source.next.2) (hdraw : sort .draw) :
    Agree W (Play.chance f) (Play.chance f) := by
  intro v w h
  have hsource := sim.random h
  have hrel : W { v with state := { v.state with random := (f v.state.random).2 } }
      { w with state := { w.state with random := (f v.state.random).2 } } := by
    -- A source that has moved has made one draw, which is a mutation like any other.
    rcases hf v.state.random with hstay | hnext
    · rw [hstay]
      nth_rewrite 2 [hsource]
      exact h
    · rw [hnext]
      rcases sim.mutate h hdraw with ⟨s, t, hs, ht, hrel⟩ | ⟨e, hs, -⟩
      · cases hs
        cases ht
        rw [← hsource] at hrel
        exact hrel
      · cases hs
  unfold Play.chance
  rw [← hsource]
  rcases hfv : f v.state.random with ⟨r, random⟩
  rw [hfv] at hrel
  cases r with
  | ok a => exact ⟨rfl, hrel⟩
  | error e => exact ⟨rfl, hrel⟩

theorem display (message : Message) :
    Agree W (Play.display here message) (Play.display there message) := by
  intro v w h
  unfold Play.display
  rw [sim.acknowledges h]
  exact ⟨rfl, sim.shows _ h⟩

theorem ask (prompt : ChoicePrompt) : Agree W (Play.ask here prompt) (Play.ask there prompt) := by
  intro v w h
  unfold Play.ask
  rw [sim.chooses h]
  cases there.chooses w.shown prompt with
  | some i => exact ⟨rfl, sim.shows _ h⟩
  | none => exact ⟨rfl, sim.shows _ h⟩

omit sim in
theorem eligible_congr {α : Type} {s t : State} (h : s.scope = t.scope) (i : Nat)
    (cs : List (Choice Expression α)) : eligible s i cs = eligible t i cs := by
  induction cs generalizing i with
  | nil => rfl
  | cons c cs ih =>
    unfold eligible
    rw [ih]
    unfold State.holds
    rw [h]

theorem eligible {α : Type} (cs : List (Choice Expression α)) :
    Agree W (look (Scenario.eligible · 0 cs)) (look (Scenario.eligible · 0 cs)) :=
  Agree.look fun _ _ h => eligible_congr (sim.scope h) 0 cs

theorem stops (c : Option (Condition Expression)) : Agree W (Play.stops c) (Play.stops c) := by
  cases c with
  | some c => exact sim.holds c
  | none => exact Agree.pure _

section Plain

variable (hsort : ∀ m : Mutation, m.OfAction → m.Numeric → ¬ m.Ends → sort m) (patience : Nat)

include hsort

theorem give (amount : ItemAmount Expression) : Agree W (Play.give amount) (Play.give amount) :=
  (sim.bind_eval amount.amount) fun x hx =>
    sim.change (hsort (.giveItem amount.item x) trivial hx id)

theorem request (r : TriggerRequest Expression) : Agree W (Play.request r) (Play.request r) :=
  (sim.bind_eval r.probability) fun p hp =>
    sim.change (hsort (.request r.trigger r.priority p) trivial hp id)

theorem plain {a : Action Expression} (h : a.Plain) :
    Agree W (Play.run here patience a) (Play.run there patience a) := by
  cases a with
  | message m =>
    unfold Play.run
    exact (sim.display m).bind fun _ => Agree.pure _
  | randomMessage texts confirm icon =>
    unfold Play.run
    split
    · exact Agree.pure _
    · exact (sim.chance (fun source => .inr (draw_source source))
        (hsort .draw trivial trivial id)).bind
        fun _ => (sim.display _).bind fun _ => Agree.pure _
  | stop everywhere =>
    unfold Play.run
    exact Agree.pure _
  | updateVariable update =>
    unfold Play.run
    exact sim.bind_eval update.value fun x hx =>
      (sim.change (hsort (.setVariable update.id x) trivial hx id)).bind fun _ => Agree.pure _
  | updateVariables updates =>
    unfold Play.run
    apply Agree.bind_look
    · intro v w h
      simp only [sim.eval_eq h]
    · intro xs s hxs
      refine (Agree.forM fun x hx => ?_).bind fun _ => Agree.pure _
      obtain ⟨u, -, hu⟩ := of_mapM_eq_ok hxs x hx
      have hnumber : x.2.isNaN = false := by
        cases heval : s.eval u.value with
        | error cause =>
          rw [heval] at hu
          cases hu
        | ok y =>
          rw [heval] at hu
          cases hu
          exact eval_isNaN heval
      exact sim.change (hsort (.setVariable x.1 x.2) trivial hnumber id)
  | updateVariableLimits id min max =>
    unfold Play.run
    apply Agree.bind_look
    · intro v w h
      exact congrArg min.mapM (sim.eval_eq h)
    · intro lower s hlower
      apply Agree.bind_look
      · intro v w h
        exact congrArg max.mapM (sim.eval_eq h)
      · intro upper t hupper
        exact (sim.change (hsort (.setBounds id lower upper) trivial
          ⟨isNaN_of_mapM_eval hlower, isNaN_of_mapM_eval hupper⟩ (fun h => h))).bind
          fun _ => Agree.pure _
  | giveItem amount =>
    unfold Play.run
    exact (sim.give hsort amount).bind fun _ => Agree.pure _
  | updateItemAmounts amounts =>
    unfold Play.run
    exact (Agree.forM fun amount _ => sim.give hsort amount).bind fun _ => Agree.pure _
  | setStatus status duration =>
    unfold Play.run
    exact sim.bind_eval duration fun x hx =>
      (sim.change (hsort (.setStatus status x) trivial hx id)).bind fun _ => Agree.pure _
  | triggerEvents requests =>
    unfold Play.run
    exact (Agree.forM fun r _ => sim.request hsort r).bind fun _ => Agree.pure _
  | toggleEvents enabled events =>
    unfold Play.run
    exact (Agree.forM fun event _ =>
      sim.change (hsort (.toggle event enabled) trivial trivial id)).bind fun _ => Agree.pure _
  | _ => exact h.elim

end Plain

end Steps

mutual

theorem run (sim : Simulation here there sort W)
    (hsort : ∀ m : Mutation, m.OfAction → m.Numeric → sort m) (patience : Nat) :
    ∀ a : Action Expression,
      Agree W (Play.run here patience a) (Play.run there patience a)
  -- The calls for the parts of an action stand before it is unfolded, where they are its parts.
  | .choices text icon choices => by
    have htaken := fun i => sim.runChoice hsort patience i choices
    unfold Play.run
    apply (sim.eligible choices).bind
    intro options
    split
    · exact Agree.pure _
    · apply (sim.ask _).bind
      intro i
      split
      · exact htaken i
      · exact Agree.fail _
  | .random groups => by
    have htaken := fun i => sim.runGroup hsort patience i groups
    unfold Play.run
    refine (Agree.look fun v w h => ?_).bind fun weights =>
      (sim.chance (choose_source weights) (hsort .draw trivial trivial)).bind htaken
    simp only [sim.eval_eq h]
  | .coinFlip probability success failure => by
    have hsuccess := sim.runAll hsort patience success
    have hfailure := sim.runAll hsort patience failure
    unfold Play.run
    refine (sim.eval probability).bind fun p =>
      (sim.chance (gate_source p) (hsort .draw trivial trivial)).bind fun passed => ?_
    split
    · exact hsuccess
    · exact hfailure
  | .switch branches => by
    unfold Play.run
    exact sim.runSwitch hsort patience branches
  | .loop actions stop maxIterations checkAtEnd => by
    have hbody := sim.runAll hsort patience actions
    unfold Play.run
    split
    · exact Agree.rounds Agree.exhausted (sim.stops stop) hbody checkAtEnd patience
    · exact Agree.rounds (Agree.pure _) (sim.stops stop) hbody checkAtEnd maxIterations
  | .endGame outcome => by
    unfold Play.run
    exact (sim.change (hsort (.endGame outcome) trivial trivial)).bind fun _ => Agree.pure _
  | .message _ | .randomMessage _ _ _ | .stop _ | .updateVariable _ | .updateVariables _
  | .updateVariableLimits _ _ _ | .giveItem _ | .updateItemAmounts _ | .setStatus _ _
  | .triggerEvents _ | .toggleEvents _ _ =>
    sim.plain (fun m hm hnumeric _ => hsort m hm hnumeric) patience trivial

theorem runAll (sim : Simulation here there sort W)
    (hsort : ∀ m : Mutation, m.OfAction → m.Numeric → sort m) (patience : Nat) :
    ∀ as : List (Action Expression),
      Agree W (Play.runAll here patience as) (Play.runAll there patience as)
  | [] => by
    unfold Play.runAll
    exact Agree.pure _
  | a :: as => by
    have hrest := sim.runAll hsort patience as
    unfold Play.runAll
    apply (sim.run hsort patience a).bind
    intro flow
    cases flow with
    | next => exact hrest
    | stopList => exact Agree.pure _
    | stopAll => exact Agree.pure _

theorem runChoice (sim : Simulation here there sort W)
    (hsort : ∀ m : Mutation, m.OfAction → m.Numeric → sort m) (patience : Nat) (i : Nat) :
    ∀ cs : List (Choice Expression (Action Expression)),
      Agree W (Play.runChoice here patience i cs) (Play.runChoice there patience i cs)
  | [] => by
    unfold Play.runChoice
    exact Agree.pure _
  | ⟨_, _, actions⟩ :: cs => by
    have htaken := sim.runAll hsort patience actions
    have hrest := fun i => sim.runChoice hsort patience i cs
    unfold Play.runChoice
    cases i with
    | zero => exact htaken
    | succ i => exact hrest i

theorem runGroup (sim : Simulation here there sort W)
    (hsort : ∀ m : Mutation, m.OfAction → m.Numeric → sort m) (patience : Nat) (i : Nat) :
    ∀ gs : List (Group Expression (Action Expression)),
      Agree W (Play.runGroup here patience i gs) (Play.runGroup there patience i gs)
  | [] => by
    unfold Play.runGroup
    exact Agree.pure _
  | ⟨_, actions⟩ :: gs => by
    have htaken := sim.runAll hsort patience actions
    have hrest := fun i => sim.runGroup hsort patience i gs
    unfold Play.runGroup
    cases i with
    | zero => exact htaken
    | succ i => exact hrest i

theorem runSwitch (sim : Simulation here there sort W)
    (hsort : ∀ m : Mutation, m.OfAction → m.Numeric → sort m) (patience : Nat) :
    ∀ bs : List (Branch Expression (Action Expression)),
      Agree W (Play.runSwitch here patience bs) (Play.runSwitch there patience bs)
  | [] => by
    unfold Play.runSwitch
    exact Agree.pure _
  | ⟨condition, actions⟩ :: bs => by
    have htaken := sim.runAll hsort patience actions
    have hrest := sim.runSwitch hsort patience bs
    unfold Play.runSwitch
    apply (sim.holds condition).bind
    intro holds
    split
    · exact htaken
    · exact hrest

end

section Passes

variable (sim : Simulation here there sort W)

include sim

theorem takesTurn (hdraw : sort .draw) (excluded : List String) (e : Event Expression) :
    Agree W (Play.takesTurn excluded e) (Play.takesTurn excluded e) := by
  unfold Play.takesTurn
  apply (Agree.look fun v w h => congrFun (sim.enabled h) e.id).bind
  intro enabled
  split
  · exact Agree.pure _
  · split
    · exact Agree.pure _
    · refine (Agree.look fun v w h => ?_).bind fun holds => ?_
      · rw [sim.scope h]
      · split
        · exact Agree.pure _
        · exact (sim.eval e.probability).bind fun p => sim.chance (gate_source p) hdraw

variable (hsort : ∀ m : Mutation, m.OfPass → sort m) (patience : Nat) (trigger : String)

include hsort

theorem happen (e : Event Expression) :
    Agree W (Play.happen here patience trigger e) (Play.happen there patience trigger e) := by
  unfold Play.happen
  refine (sim.change (hsort (.fire e.id trigger) ⟨trivial, .inr trivial⟩)).bind fun _ =>
    (sim.runAll (fun m hm hnumeric => hsort m ⟨hnumeric, .inl hm⟩) patience e.actions).bind
      fun _ => ?_
  split
  · exact sim.change (hsort (.toggle e.id false) ⟨trivial, .inl trivial⟩)
  · exact Agree.pure _

theorem listen (excluded : List String) (es : List (Event Expression)) :
    Agree W (Play.listen here patience trigger excluded es)
      (Play.listen there patience trigger excluded es) := by
  induction es generalizing excluded with
  | nil => exact Agree.pure _
  | cons e es ih =>
    unfold Play.listen
    apply (sim.takesTurn (hsort .draw ⟨trivial, .inl trivial⟩) excluded e).bind
    intro takes
    split
    · refine (sim.happen hsort patience trigger e).bind fun _ =>
        (Agree.look fun v w h => ?_).bind fun ended => ?_
      · rw [sim.ending h]
      · split
        · exact Agree.pure _
        · exact (ih _).bind fun _ => Agree.pure _
    · exact ih excluded

end Passes

end Simulation

/-! ### A game beside itself -/

def Reached (sort : Mutation → Prop) (s : State) (v w : World) : Prop :=
  v = w ∧ s.Becomes sort v.state

theorem simulation_self (screen : Screen) (sort : Mutation → Prop) (s : State) :
    Simulation screen screen sort (Reached sort s) where
  scope := by
    rintro v _ ⟨rfl, -⟩
    rfl
  enabled := by
    rintro v _ ⟨rfl, -⟩
    rfl
  random := by
    rintro v _ ⟨rfl, -⟩
    rfl
  ending := by
    rintro v _ ⟨rfl, -⟩
    rfl
  mutate := by
    rintro v _ m ⟨rfl, hreached⟩ hm
    cases h : v.state.mutate m with
    | ok s => exact .inl ⟨s, s, rfl, rfl, rfl, hreached.tail hm h⟩
    | error e => exact .inr ⟨e, rfl, rfl⟩
  shows := by
    rintro v _ i ⟨rfl, hreached⟩
    exact ⟨rfl, hreached⟩
  acknowledges := by
    rintro v _ ⟨rfl, -⟩
    rfl
  chooses := by
    rintro v _ ⟨rfl, -⟩
    rfl

theorem Agree.becomes {sort : Mutation → Prop} {α : Type} {p : Play α} {w : World}
    (h : Agree (Reached sort w.state) p p) : w.state.Becomes sort (p w).2.state :=
  (h w w ⟨rfl, State.Becomes.refl _⟩).2.2

theorem runAll_becomes (screen : Screen) (patience : Nat) (as : List (Action Expression))
    (w : World) : w.state.Becomes Mutation.OfAction (Play.runAll screen patience as w).2.state :=
  Agree.becomes
    ((simulation_self screen Mutation.OfAction w.state).runAll (fun _ h _ => h) patience as)

theorem pass_becomes (screen : Screen) (patience : Nat) (p : PendingTrigger) (w : World) :
    w.state.Becomes Mutation.OfPass (Play.pass screen patience p w).2.state := by
  have sim := simulation_self screen Mutation.OfPass w.state
  refine Agree.becomes ?_
  unfold Play.pass
  apply (sim.chance (gate_source p.probability) ⟨trivial, .inl trivial⟩).bind
  intro passed
  split
  · refine (Agree.look fun v _ h => by rw [h.1]).bind fun listeners =>
      (sim.listen (fun _ h => h) patience p.trigger [] listeners).bind fun _ => Agree.pure _
  · exact Agree.pure _

end Scenario
