import Scenario.Proofs.PassReports
import Scenario.Proofs.Scoping

/-!
Definitions stay: what stands for something in one state does so in every state that a host gets to
from it. So well-scoped content never meets a name that nothing stands for.
-/

namespace Scenario

namespace State

variable {s s' : State} {names : Names}

/-! ### Mutations -/

theorem contains_var_of_mutate {m : Mutation} (hm : s.mutate m = .ok s') {id : String}
    (hid : s.vars.contains id) : s'.vars.contains id := by
  have hinsert : ∀ (id' : String) (v : Variable), (s.vars.insert id' v).contains id := by
    intro id' v
    rw [Std.ExtTreeMap.contains_insert, hid, Bool.or_true]
  cases m with
  | setVariable id' x =>
    obtain ⟨v, -, rfl⟩ := setVariable_eq_ok.1 hm
    exact hinsert id' _
  | setBounds id' min max =>
    obtain ⟨v, w, -, -, -, rfl⟩ := setVariableBounds_eq_ok.1 hm
    exact hinsert id' w
  | _ =>
    rw [vars_of_mutate rfl hm]
    exact hid

/-- Everything that is defined in a state is so in another one. -/
structure Extends (s s' : State) : Prop where
  vars : ∀ id, s.vars.contains id → s'.vars.contains id
  attributes : ∀ id, s.attributes.contains id → s'.attributes.contains id
  items : ∀ (id : String) (p : Provider Expression), s.items[id]? = some p →
    s'.items[id]? = some p
  statusKinds : ∀ (id : String) (p : Provider Expression), s.statusKinds[id]? = some p →
    s'.statusKinds[id]? = some p

namespace Extends

theorem refl (s : State) : s.Extends s := ⟨fun _ => id, fun _ => id, fun _ _ => id, fun _ _ => id⟩

theorem trans {s'' : State} (h : s.Extends s') (h' : s'.Extends s'') : s.Extends s'' where
  vars id hid := h'.vars id (h.vars id hid)
  attributes id hid := h'.attributes id (h.attributes id hid)
  items id p hp := h'.items id p (h.items id p hp)
  statusKinds id p hp := h'.statusKinds id p (h.statusKinds id p hp)

theorem mutate {m : Mutation} (hm : s.mutate m = .ok s') : s.Extends s' := by
  obtain ⟨hattributes, hitems, hstatusKinds⟩ := definitions_of_mutate hm
  exact
    { vars := fun _ => contains_var_of_mutate hm
      attributes := fun _ h => hattributes ▸ h
      items := fun _ _ h => hitems ▸ h
      statusKinds := fun _ _ h => hstatusKinds ▸ h }

theorem becomes {sort : Mutation → Prop} (h : s.Becomes sort s') : s.Extends s' :=
  h.keeps (P := s.Extends) (fun _ _ _ _ hs hm => hs.trans (mutate hm)) (refl s)

theorem within (h : s.Extends s')
    (hevents : ∀ event ∈ s.registry.events, event ∈ s'.registry.events) :
    s.names.Within s'.names := by
  intro kind id hid
  cases kind with
  | «variable» => exact h.vars id hid
  | «attribute» => exact h.attributes id hid
  | item =>
    obtain ⟨p, hp⟩ := exists_of_contains hid
    exact (contains_eq_isSome _ _).trans (Option.isSome_iff_exists.2 ⟨p, h.items id p hp⟩)
  | status =>
    obtain ⟨p, hp⟩ := exists_of_contains hid
    exact (contains_eq_isSome _ _).trans (Option.isSome_iff_exists.2 ⟨p, h.statusKinds id p hp⟩)
  | event =>
    obtain ⟨event, hevent, rfl⟩ := hid
    exact ⟨event, hevents event hevent, rfl⟩

end Extends

theorem names_of_mutate {m : Mutation} (hm : s.mutate m = .ok s') : s.names.Within s'.names :=
  (Extends.mutate hm).within fun _ hevent => events_of_mutate hm ▸ hevent

/-- Providers that come to those of a state are well-scoped in the state that they come to. -/
structure AddsScoped (s s' : State) : Prop where
  items : ∀ (id : String) (p : Provider Expression), s'.items[id]? = some p →
    s.items[id]? = none → p.Of (Expression.Scoped s'.names)
  statusKinds : ∀ (id : String) (p : Provider Expression), s'.statusKinds[id]? = some p →
    s.statusKinds[id]? = none → p.Of (Expression.Scoped s'.names)

theorem AddsScoped.of_same (hitems : s'.items = s.items)
    (hstatusKinds : s'.statusKinds = s.statusKinds) : s.AddsScoped s' where
  items id p hp hnone := by
    rw [hitems, hnone] at hp
    cases hp
  statusKinds id p hp hnone := by
    rw [hstatusKinds, hnone] at hp
    cases hp

theorem AddsScoped.becomes {sort : Mutation → Prop} (h : s.Becomes sort s') : s.AddsScoped s' := by
  obtain ⟨hitems, hstatusKinds⟩ : s'.items = s.items ∧ s'.statusKinds = s.statusKinds := by
    refine h.keeps (P := fun t => t.items = s.items ∧ t.statusKinds = s.statusKinds) ?_ ⟨rfl, rfl⟩
    rintro t t' m - ⟨hitems, hstatusKinds⟩ hm
    obtain ⟨-, hsame, hsameKinds⟩ := definitions_of_mutate hm
    exact ⟨hsame.trans hitems, hsameKinds.trans hstatusKinds⟩
  exact .of_same hitems hstatusKinds

theorem Scoped.extend (h : s.Scoped) (hextends : s.Extends s') (hnames : s.names.Within s'.names)
    (hadds : s.AddsScoped s') : s'.Scoped where
  items := forall_of_extension hextends.items hadds.items fun id p hp =>
    (h.items id p hp).mono hnames
  statusKinds := forall_of_extension hextends.statusKinds hadds.statusKinds fun id p hp =>
    (h.statusKinds id p hp).mono hnames

/-! ### What changes is there -/

theorem Covers.mutate (h : s.Covers names) {m : Mutation} (hm : s.mutate m = .ok s') :
    s'.Covers names := by
  obtain ⟨-, hitems, hstatusKinds⟩ := definitions_of_mutate hm
  have hnames := names_of_mutate hm
  exact
    { wellFormed := h.wellFormed.mutate hm
      modifiers := h.modifiers.extend (.mutate hm) hnames (.of_same hitems hstatusKinds)
      within := fun _ _ hid => hnames (h.within hid) }

theorem Covers.becomes {sort : Mutation → Prop} (h : s.Covers names) (hs : s.Becomes sort s') :
    s'.Covers names :=
  hs.keeps (fun _ _ _ _ hs hm => hs.mutate hm) h

end State

/-- What a mutation names is there. -/
def Mutation.In (names : Names) : Mutation → Prop
  | .setVariable id _ | .setBounds id _ _ => names .variable id
  | .giveItem id _ => names .item id
  | .setStatus id _ => names .status id
  | .toggle id _ | .fire id _ => names .event id
  | _ => True

namespace State.Covers

variable {s : State} {names : Names}

theorem mutate_inScope (h : s.Covers names) {m : Mutation} (hm : m.In names) :
    InScope (s.mutate m) := by
  cases m with
  | setVariable id x =>
    obtain ⟨v, hv⟩ := exists_of_contains (h.within hm)
    change InScope (s.setVariable id x)
    rw [setVariable_eq, hv]
    exact .ok _
  | setBounds id min max =>
    obtain ⟨v, hv⟩ := exists_of_contains (h.within hm)
    change InScope (s.setVariableBounds id min max)
    rw [setVariableBounds_eq, hv]
    dsimp only
    split
    · exact .ok _
    · exact .error fun h => h
  | giveItem id amount =>
    obtain ⟨p, hp⟩ := exists_of_contains (h.within hm)
    change InScope (s.giveItem id amount)
    rw [giveItem_eq, hp]
    exact .ok _
  | setStatus id duration =>
    obtain ⟨p, hp⟩ := exists_of_contains (h.within hm)
    change InScope (s.setStatus id duration)
    rw [setStatus_eq, hp]
    exact .ok _
  | toggle id enabled =>
    obtain ⟨flags, hflags⟩ := exists_flags h.wellFormed (h.within hm)
    change InScope (s.setEventEnabled id enabled)
    rw [setEventEnabled_eq, hflags]
    exact .ok _
  | fire id trigger =>
    obtain ⟨flags, hflags⟩ := exists_flags h.wellFormed (h.within hm)
    change InScope (s.fireEvent id trigger)
    rw [fireEvent_eq, hflags]
    exact .ok _
  | _ => exact .ok _

end State.Covers

/-! ### Chance -/

namespace InScope

theorem draw (source : RandomSource) : InScope (Scenario.draw source).1 := by
  unfold Scenario.draw
  dsimp only
  split
  · exact .ok _
  · exact .error fun h => h

theorem map {α β : Type} (f : α → β) {x : Except EvaluationError α} (h : InScope x) :
    InScope (x.map f) := by
  cases x with
  | ok a => exact .ok _
  | error e => exact .error (h e rfl)

theorem gate (probability : Float) (source : RandomSource) :
    InScope (Scenario.gate probability source).1 := by
  unfold Scenario.gate
  split
  · exact .ok _
  · exact (draw source).map _

theorem choose (weights : List Float) (source : RandomSource) :
    InScope (Scenario.choose weights source).1 := by
  unfold Scenario.choose
  split
  · exact .error fun h => h
  · dsimp only
    split
    · exact .error fun h => h
    · exact (draw source).map _

end InScope

/-! ### Runs -/

/-- An outcome other than a failure for a name. -/
def Outcome.InScope {α : Type} (o : Outcome α) : Prop :=
  ∀ e, o = .failed (.evaluation e) → ¬ e.OutOfScope

namespace Outcome.InScope

variable {α β : Type}

theorem done (a : α) : (Outcome.done a).InScope := by
  rintro e ⟨⟩

theorem suspended : (Outcome.suspended : Outcome α).InScope := by
  rintro e ⟨⟩

theorem exhausted : (Outcome.exhausted : Outcome α).InScope := by
  rintro e ⟨⟩

theorem usage (cause : UsageError) : (Outcome.failed (.usage cause) : Outcome α).InScope := by
  rintro e ⟨⟩

theorem evaluation {cause : EvaluationError} (h : ¬ cause.OutOfScope) :
    (Outcome.failed (.evaluation cause) : Outcome α).InScope := by
  rintro e ⟨⟩
  exact h

theorem failed {cause : Error} (h : (Outcome.failed cause : Outcome α).InScope) :
    (Outcome.failed cause : Outcome β).InScope := by
  rintro e ⟨⟩
  exact h e rfl

end Outcome.InScope

namespace Play

variable {α β : Type}

/-- From states in which the names stand for something, a run does not fail for a name, and leaves
such a state. -/
def Sound (names : Names) (p : Play α) : Prop :=
  ∀ w : World, w.state.Covers names → (p w).1.InScope ∧ (p w).2.state.Covers names

namespace Sound

variable {names : Names}

theorem done (a : α) : Sound names (pure a : Play α) := fun _ hw => ⟨.done a, hw⟩

theorem usage (cause : UsageError) : Sound names (Play.fail (.usage cause) : Play α) :=
  fun _ hw => ⟨.usage cause, hw⟩

theorem exhausted : Sound names (Play.exhausted : Play α) := fun _ hw => ⟨.exhausted, hw⟩

theorem bind {p : Play α} {f : α → Play β} (hp : Sound names p) (hf : ∀ a, Sound names (f a)) :
    Sound names (p >>= f) := by
  intro w hw
  obtain ⟨hscope, hcovers⟩ := hp w hw
  simp only [Bind.bind]
  rcases hrun : p w with ⟨o, w'⟩
  rw [hrun] at hscope hcovers
  cases o with
  | done a => exact hf a w' hcovers
  | failed cause => exact ⟨hscope.failed, hcovers⟩
  | suspended => exact ⟨.suspended, hcovers⟩
  | exhausted => exact ⟨.exhausted, hcovers⟩

theorem bind_look {f : State → Except EvaluationError α} {k : α → Play β}
    (h : ∀ s : State, s.Covers names → InScope (f s))
    (h' : ∀ a s, f s = .ok a → Sound names (k a)) : Sound names (Play.look f >>= k) := by
  intro w hw
  have hscope := h w.state hw
  simp only [Bind.bind, Play.look]
  cases hf : f w.state with
  | ok a => exact h' a w.state hf w hw
  | error cause => exact ⟨.evaluation (hscope cause hf), hw⟩

theorem look {f : State → Except EvaluationError α}
    (h : ∀ s : State, s.Covers names → InScope (f s)) : Sound names (Play.look f) := by
  intro w hw
  have hscope := h w.state hw
  unfold Play.look
  cases hf : f w.state with
  | ok a => exact ⟨.done a, hw⟩
  | error cause => exact ⟨.evaluation (hscope cause hf), hw⟩

theorem change {m : Mutation} (hm : m.In names) : Sound names (Play.change (·.mutate m)) := by
  intro w hw
  have hscope := hw.mutate_inScope hm
  unfold Play.change
  dsimp only
  cases hs : w.state.mutate m with
  | ok s => exact ⟨.done (), hw.mutate hs⟩
  | error cause => exact ⟨.evaluation (hscope cause hs), hw⟩

theorem chance {f : RandomSource → Except EvaluationError α × RandomSource}
    (h : ∀ source, InScope (f source).1)
    (hsource : ∀ source, (f source).2 = source ∨ (f source).2 = source.next.2) :
    Sound names (Play.chance f) := by
  intro w hw
  have hcovers : { w.state with random := (f w.state.random).2 }.Covers names := by
    rcases hsource w.state.random with hsame | hnext
    · rw [hsame]
      exact hw
    · rw [hnext]
      exact hw.mutate (m := .draw) rfl
  have hscope := h w.state.random
  unfold Play.chance
  rcases hroll : f w.state.random with ⟨cause | a, random⟩
  · rw [hroll] at hscope hcovers
    exact ⟨.evaluation (hscope cause rfl), hcovers⟩
  · rw [hroll] at hcovers
    exact ⟨.done a, hcovers⟩

theorem display (screen : Screen) (message : Message) :
    Sound names (Play.display screen message) := by
  intro w hw
  refine ⟨?_, hw⟩
  unfold Play.display
  dsimp only
  split
  · exact .done ()
  · exact .suspended

theorem ask (screen : Screen) (prompt : ChoicePrompt) : Sound names (Play.ask screen prompt) := by
  intro w hw
  unfold Play.ask
  dsimp only
  split
  · exact ⟨.done _, hw⟩
  · exact ⟨.suspended, hw⟩

theorem forM {f : α → Play PUnit} {as : List α} (h : ∀ a ∈ as, Sound names (f a)) :
    Sound names (as.forM f) := by
  induction as with
  | nil => exact done _
  | cons a as ih =>
    obtain ⟨ha, has⟩ := List.forall_mem_cons.1 h
    exact ha.bind fun _ => ih has

theorem rounds {last : Play Flow} {stops : Play Bool} {body : Play Flow}
    (hlast : Sound names last) (hstops : Sound names stops) (hbody : Sound names body)
    (checkAtEnd : Bool) (n : Nat) :
    Sound names (Play.rounds last stops checkAtEnd body n) := by
  induction n with
  | zero => exact hlast
  | succ n ih =>
    unfold Play.rounds
    cases checkAtEnd with
    | true =>
      have hnext : Sound names (stops >>= fun stop =>
          if stop then return .next else Play.rounds last stops true body n) := by
        apply hstops.bind
        intro stop
        split
        · exact done _
        · exact ih
      apply hbody.bind
      intro flow
      cases flow with
      | next => exact hnext
      | stopList => exact hnext
      | stopAll => exact done _
    | false =>
      apply hstops.bind
      intro stop
      cases stop with
      | true => exact done _
      | false =>
        apply hbody.bind
        intro flow
        cases flow with
        | next => exact ih
        | stopList => exact ih
        | stopAll => exact done _

theorem evaluates {e : Expression} (h : e.Scoped names) : Sound names (Play.look (·.eval e)) :=
  look fun _ hs => hs.eval h

theorem holds {c : Condition Expression} (h : c.Of (Expression.Scoped names)) :
    Sound names (Play.look (·.holds c)) :=
  look fun _ hs => hs.holds h

theorem stops {condition : Option (Condition Expression)}
    (h : ∀ c ∈ condition, Condition.Of (Expression.Scoped names) c) :
    Sound names (Play.stops condition) := by
  cases condition with
  | some c => exact holds (h c rfl)
  | none => exact done _

theorem draw : Sound names (Play.chance Scenario.draw) :=
  chance InScope.draw fun source => .inr (draw_source source)

theorem gate (probability : Float) : Sound names (Play.chance (Scenario.gate probability)) :=
  chance (InScope.gate probability) (gate_source probability)

theorem choose (weights : List Float) : Sound names (Play.chance (Scenario.choose weights)) :=
  chance (InScope.choose weights) (choose_source weights)

theorem give {amount : ItemAmount Expression} (h : amount.amount.Scoped names)
    (hitem : names .item amount.item) : Sound names (Play.give amount) :=
  (evaluates h).bind fun x => change (m := .giveItem amount.item x) hitem

theorem request {r : TriggerRequest Expression} (h : r.probability.Scoped names) :
    Sound names (Play.request r) :=
  (evaluates h).bind fun p => change (m := .request r.trigger r.priority p) trivial

theorem eligible (i : Nat) {cs : List (Choice Expression (Action Expression))}
    (h : Action.ChoicesOf (Expression.Scoped names) cs) {s : State} (hs : s.Covers names) :
    InScope (Scenario.eligible s i cs) := by
  induction cs generalizing i with
  | nil => exact .ok _
  | cons c cs ih =>
    obtain ⟨text, requirement, actions⟩ := c
    have hmore : ∀ holds : Bool, InScope (do
        let rest ← Scenario.eligible s (i + 1) cs
        return if holds then ⟨text, i⟩ :: rest else rest) :=
      fun _ => (ih (i + 1) h.2.2).bind fun _ => .ok _
    cases requirement with
    | none => exact hmore true
    | some requirement => exact (hs.holds (h.1 requirement rfl)).bind hmore

section Actions

variable (screen : Screen) (patience : Nat)

mutual

theorem run : ∀ a : Action Expression, a.Of (Expression.Scoped names) → a.ChangesIn names →
    Sound names (Play.run screen patience a)
  | .message m, _, _ => by
    unfold Play.run
    exact (display screen m).bind fun _ => done _
  | .randomMessage texts confirm icon, _, _ => by
    unfold Play.run
    split
    · exact done _
    · exact draw.bind fun _ => (display screen _).bind fun _ => done _
  -- The calls for the parts of an action stand before it is unfolded, where they are its parts.
  | .choices text icon choices, h, hc => by
    have htaken := fun i => runChoice i choices h hc
    unfold Play.run
    apply (look fun _ hs => eligible 0 h hs).bind
    intro options
    split
    · exact done _
    · apply (ask screen _).bind
      intro i
      split
      · exact htaken i
      · exact usage _
  | .random groups, h, hc => by
    have htaken := fun i => runGroup i groups h hc
    unfold Play.run
    apply (look fun _ hs => InScope.mapM fun g hg =>
      hs.eval (Action.weight_of_groupsOf h g hg)).bind
    intro weights
    exact (choose weights).bind htaken
  | .coinFlip probability success failure, h, hc => by
    have hsuccess := runAll success h.2.1 hc.1
    have hfailure := runAll failure h.2.2 hc.2
    unfold Play.run
    apply (evaluates h.1).bind
    intro p
    apply (gate p).bind
    intro passed
    split
    · exact hsuccess
    · exact hfailure
  | .switch branches, h, hc => by
    have htaken := runSwitch branches h hc
    unfold Play.run
    exact htaken
  | .loop actions stop maxIterations checkAtEnd, h, hc => by
    have hbody := runAll actions h.1 hc
    unfold Play.run
    split
    · exact rounds exhausted (stops h.2) hbody checkAtEnd patience
    · exact rounds (done _) (stops h.2) hbody checkAtEnd maxIterations
  | .stop everywhere, _, _ => by
    unfold Play.run
    exact done _
  | .endGame outcome, _, _ => by
    unfold Play.run
    exact (change (m := .endGame outcome) trivial).bind fun _ => done _
  | .updateVariable update, h, hc => by
    unfold Play.run
    exact (evaluates h).bind fun x =>
      (change (m := .setVariable update.id x) hc).bind fun _ => done _
  | .updateVariables updates, h, hc => by
    unfold Play.run
    apply bind_look
    · intro s hs
      exact InScope.mapM fun u hu => (hs.eval (h u hu)).bind fun _ => .ok _
    · intro xs s hxs
      refine (forM fun x hx => ?_).bind fun _ => done _
      obtain ⟨u, hu, hx⟩ := of_mapM_eq_ok hxs x hx
      obtain ⟨y, -, hx⟩ := exists_ok_of_bind hx
      cases hx
      exact change (m := .setVariable u.id y) (hc u hu)
  | .updateVariableLimits id min max, h, hc => by
    unfold Play.run
    apply (look fun _ hs => InScope.optionMapM fun e he => hs.eval (h.1 e he)).bind
    intro lower
    apply (look fun _ hs => InScope.optionMapM fun e he => hs.eval (h.2 e he)).bind
    intro upper
    exact (change (m := .setBounds id lower upper) hc).bind fun _ => done _
  | .giveItem amount, h, hc => by
    unfold Play.run
    exact (give h hc).bind fun _ => done _
  | .updateItemAmounts amounts, h, hc => by
    unfold Play.run
    exact (forM fun amount ha => give (h amount ha) (hc amount ha)).bind fun _ => done _
  | .setStatus status duration, h, hc => by
    unfold Play.run
    exact (evaluates h).bind fun x => (change (m := .setStatus status x) hc).bind fun _ => done _
  | .triggerEvents requests, h, _ => by
    unfold Play.run
    exact (forM fun r hr => request (h r hr)).bind fun _ => done _
  | .toggleEvents enabled events, _, hc => by
    unfold Play.run
    exact (forM fun id hid => change (m := .toggle id enabled) (hc id hid)).bind fun _ => done _

theorem runAll : ∀ as : List (Action Expression), Action.AllOf (Expression.Scoped names) as →
    Action.AllChangeIn names as → Sound names (Play.runAll screen patience as)
  | [], _, _ => by
    unfold Play.runAll
    exact done _
  | a :: as, h, hc => by
    have hrest := runAll as h.2 hc.2
    have hfirst := run a h.1 hc.1
    unfold Play.runAll
    apply hfirst.bind
    intro flow
    cases flow with
    | next => exact hrest
    | stopList => exact done _
    | stopAll => exact done _

theorem runChoice (i : Nat) : ∀ cs : List (Choice Expression (Action Expression)),
    Action.ChoicesOf (Expression.Scoped names) cs → Action.ChoicesChangeIn names cs →
    Sound names (Play.runChoice screen patience i cs)
  | [], _, _ => by
    unfold Play.runChoice
    exact done _
  | ⟨_, _, actions⟩ :: cs, h, hc => by
    have htaken := runAll actions h.2.1 hc.1
    have hrest := fun i => runChoice i cs h.2.2 hc.2
    unfold Play.runChoice
    cases i with
    | zero => exact htaken
    | succ i => exact hrest i

theorem runGroup (i : Nat) : ∀ gs : List (Group Expression (Action Expression)),
    Action.GroupsOf (Expression.Scoped names) gs → Action.GroupsChangeIn names gs →
    Sound names (Play.runGroup screen patience i gs)
  | [], _, _ => by
    unfold Play.runGroup
    exact done _
  | ⟨_, actions⟩ :: gs, h, hc => by
    have htaken := runAll actions h.2.1 hc.1
    have hrest := fun i => runGroup i gs h.2.2 hc.2
    unfold Play.runGroup
    cases i with
    | zero => exact htaken
    | succ i => exact hrest i

theorem runSwitch : ∀ bs : List (Branch Expression (Action Expression)),
    Action.BranchesOf (Expression.Scoped names) bs → Action.BranchesChangeIn names bs →
    Sound names (Play.runSwitch screen patience bs)
  | [], _, _ => by
    unfold Play.runSwitch
    exact done _
  | ⟨condition, actions⟩ :: bs, h, hc => by
    have htaken := runAll actions h.2.1 hc.1
    have hrest := runSwitch bs h.2.2 hc.2
    unfold Play.runSwitch
    apply (holds h.1).bind
    intro holds
    split
    · exact htaken
    · exact hrest

end

end Actions

end Sound

end Play

/-! ### Engines -/

namespace Engine

variable {e e' : Engine}

theorem defineVariable_extends {id : String} {v : Variable} (h : e.defineVariable id v = .ok e') :
    e.state.Extends e'.state := by
  obtain ⟨-, -, rfl⟩ := defineVariable_eq_ok h
  refine { State.Extends.refl e.state with vars := fun id' hid => ?_ }
  change (e.state.vars.insert id v).contains id'
  rw [Std.ExtTreeMap.contains_insert, hid, Bool.or_true]

theorem registerAttribute_extends {a : Attribute} (h : e.registerAttribute a = .ok e') :
    e.state.Extends e'.state := by
  obtain ⟨-, -, rfl⟩ := registerAttribute_eq_ok h
  refine { State.Extends.refl e.state with attributes := fun id hid => ?_ }
  change (e.state.attributes.insert a.id a).contains id
  rw [Std.ExtTreeMap.contains_insert, hid, Bool.or_true]

theorem registerItem_extends {p : Provider Expression} (h : e.registerItem p = .ok e') :
    e.state.Extends e'.state := by
  obtain ⟨hnew, rfl⟩ := registerItem_eq_ok h
  exact { State.Extends.refl e.state with items := fun _ _ => getElem?_insert_of_new hnew p }

theorem registerStatus_extends {p : Provider Expression} (h : e.registerStatus p = .ok e') :
    e.state.Extends e'.state := by
  obtain ⟨hnew, rfl⟩ := registerStatus_eq_ok h
  exact { State.Extends.refl e.state with statusKinds := fun _ _ => getElem?_insert_of_new hnew p }

theorem registerEvent_extends {event : Event Expression} (h : e.registerEvent event = .ok e') :
    e.state.Extends e'.state := by
  obtain ⟨registry, -, rfl⟩ := registerEvent_eq_ok h
  exact { State.Extends.refl e.state with }

theorem keptByDefining_extends (s : State) : KeptByDefining fun e => s.Extends e.state where
  compiler _ h := h
  defineVariable h hx := h.trans (defineVariable_extends hx)
  registerAttribute h hx := h.trans (registerAttribute_extends hx)
  registerItem h hx := h.trans (registerItem_extends hx)
  registerStatus h hx := h.trans (registerStatus_extends hx)
  registerEvent h hx := h.trans (registerEvent_extends hx)

theorem restore_extends {save : Save} (h : e.restore save = .ok e') :
    e.state.Extends e'.state := by
  obtain ⟨s, hs, rfl⟩ := restore_eq_ok h
  obtain ⟨-, registry, -, rfl⟩ := Save.restore_eq_ok.1 hs
  refine { State.Extends.refl e.state with vars := fun id hid => ?_ }
  obtain ⟨v, hv⟩ := State.exists_of_contains hid
  change (save.vars.foldl (fun vs id v => vs.insert id v.toVariable) e.state.vars).contains id
  rw [contains_eq_isSome, foldl_insert SavedVariable.toVariable, hv]
  simp

/-- No operation of a host takes back a definition. -/
theorem perform_extends (screen : Screen) (call : Call) :
    e.state.Extends (e.perform screen call).2.state := by
  have hattempt {x : Except Error Engine} (hx : ∀ e', x = .ok e' → e.state.Extends e'.state) :
      e.state.Extends (e.attempt x).2.state :=
    attempt_keeps (Q := fun e' => e.state.Extends e'.state) (.refl e.state) hx
  have hplays (hplays : call.Plays) : e.state.Extends (e.perform screen call).2.state :=
    .becomes (perform_becomes screen hplays)
  cases call with
  | load _ | defineVariable _ _ | registerAttribute _ | registerItem _ | registerStatus _
  | registerEvent _ =>
    exact (keptByDefining_extends e.state).perform (.refl e.state) screen trivial
  | registerFunction name arity => exact .refl e.state
  | drain => exact { State.Extends.refl e.state with }
  | reset =>
    apply hattempt
    intro e' he
    rw [reset_eq_ok he]
    exact { State.Extends.refl e.state with }
  | restore save => exact hattempt fun _ => restore_extends
  | _ => exact hplays trivial

theorem perform_covers {names : Names} (h : e.state.Covers names) (screen : Screen) {call : Call}
    (hadds : e.state.AddsScoped (e.perform screen call).2.state) :
    (e.perform screen call).2.state.Covers names := by
  have hextends := perform_extends (e := e) screen call
  have hnames := hextends.within (perform_events screen call)
  exact
    { wellFormed := perform_wellFormed h.wellFormed screen call
      modifiers := h.modifiers.extend hextends hnames hadds
      within := fun _ _ hid => hnames (h.within hid) }

/-- A host goes on with operations that register none but well-scoped modifiers. -/
inductive Onwards (e : Engine) : Engine → Prop
  | here : e.Onwards e
  | perform {e' : Engine} (h : e.Onwards e') (screen : Screen) (call : Call)
    (hadds : e'.state.AddsScoped (e'.perform screen call).2.state) :
    e.Onwards (e'.perform screen call).2

theorem Onwards.plays (h : e.Onwards e') (screen : Screen) (call : Call) (hcall : call.Plays) :
    e.Onwards (e'.perform screen call).2 :=
  .perform h screen call (.becomes (perform_becomes screen hcall))

theorem Onwards.covers {names : Names} (h : e.Onwards e') (he : e.state.Covers names) :
    e'.state.Covers names := by
  induction h with
  | here => exact he
  | perform _ screen _ hadds ih => exact perform_covers ih screen hadds

end Engine

/-- In a state neither modifiers nor an event, whatever its screen does, fail for a name. -/
structure State.InScope (s : State) (event : Event Expression) : Prop where
  items : ∀ (id : String) (p : Provider Expression), s.items[id]? = some p →
    p.Of fun x => Scenario.InScope (s.eval x)
  statusKinds : ∀ (id : String) (p : Provider Expression), s.statusKinds[id]? = some p →
    p.Of fun x => Scenario.InScope (s.eval x)
  expressions : event.Of fun x => Scenario.InScope (s.eval x)
  conditions : Scenario.InScope (Condition.checkAll s.scope event.conditions)
  actions : ∀ (screen : Screen) (patience : Nat) (shown : List Interaction),
    (Play.runAll screen patience event.actions ⟨s, shown⟩).1.InScope

theorem State.Covers.inScope {s : State} {names : Names} {event : Event Expression}
    (h : s.Covers names) (hevent : event.Scoped names) : s.InScope event where
  items id p hp := Provider.Of.imp
    (fun _ => State.Covers.eval ⟨h.wellFormed, h.modifiers, .refl _⟩) (h.modifiers.items id p hp)
  statusKinds id p hp := Provider.Of.imp
    (fun _ => State.Covers.eval ⟨h.wellFormed, h.modifiers, .refl _⟩)
    (h.modifiers.statusKinds id p hp)
  expressions := hevent.expressions.imp fun _ => h.eval
  conditions := h.checkAll hevent.expressions.conditions
  actions screen patience shown :=
    (Play.Sound.runAll screen patience event.actions hevent.expressions.actions hevent.changes
      ⟨s, shown⟩ h).1

/-- Well-scoped content stays so: neither modifiers nor a well-scoped event ever fail for a name, in
no state of a host that registers none but well-scoped modifiers, inside a pass or between two. -/
theorem Engine.stays_in_scope {e e' : Engine} {event : Event Expression} {s : State}
    (he : e.Reachable) (hscoped : e.state.Scoped) (hevent : event.Scoped e.state.names)
    (honwards : e.Onwards e') (hs : e'.state.Becomes (fun _ => True) s) : s.InScope event := by
  have hcovers : e.state.Covers e.state.names := ⟨he.wellFormed, hscoped, .refl _⟩
  exact ((honwards.covers hcovers).becomes hs).inScope hevent

/-! ### A market -/

/-- The more gold, the more wealth for each purse. -/
def purse : Provider Expression :=
  { id := "purse", modifiers := [⟨"wealth", .absolute, ⟨.text "gold", .name "gold", none⟩⟩] }

def sale : Event Expression :=
  { id := "sale", trigger := "market"
    conditions := [.expression ⟨.text "item('purse')", .host "item" [.text "purse"], none⟩]
    actions := [.updateVariable ⟨"gold", ⟨.text "wealth", .name "wealth", none⟩⟩]
    probability := .constant 1.0 }

def market : Engine :=
  (Engine.performAll quiet
    [.defineVariable "gold" ⟨7.0, 0.0, 10.0⟩, .registerAttribute ⟨"wealth", 1.0, 0.0, 100.0⟩,
      .registerItem purse, .registerEvent sale] (.new {})).2

theorem market_reachable : market.Reachable :=
  Engine.ReachableBy.performAll (.start {} (.ofSeed "default") (.ofSeed "default")) quiet
    fun _ _ => trivial

theorem market_scoped : market.state.Scoped where
  items id p hp := by
    have hitems : market.state.items = (∅ : Std.ExtTreeMap String _).insert "purse" purse := rfl
    rw [hitems, getElem?_insert_id] at hp
    split at hp
    · cases hp
      have hgold : market.state.names .variable "gold" := by
        change market.state.vars.contains "gold" = true
        rfl
      intro m hm
      cases List.mem_singleton.1 hm
      exact .inl hgold
    · simp at hp
  statusKinds id p hp := by
    have hstatusKinds : market.state.statusKinds = ∅ := rfl
    rw [hstatusKinds] at hp
    simp at hp

theorem sale_scoped : sale.Scoped market.state.names := by
  have hgold : market.state.vars.contains "gold" = true := rfl
  have hwealth : market.state.attributes.contains "wealth" = true := rfl
  have hpurse : market.state.items.contains "purse" = true := rfl
  refine ⟨⟨⟨⟨by simp [Engine.hostFunctions], "purse", rfl, ?_⟩, trivial⟩,
    ⟨.inr hwealth, trivial⟩, trivial⟩, hgold, trivial⟩
  rintro kind ⟨⟩
  exact hpurse

theorem stays_in_scope_market :
    (Engine.performAll quiet [.giveItem "purse" 2.0, .fire "market", .run 1 1]
      market).2.state.InScope sale :=
  Engine.stays_in_scope market_reachable market_scoped sale_scoped
    (((Engine.Onwards.here.plays quiet (.giveItem "purse" 2.0) trivial).plays quiet
      (.fire "market") trivial).plays quiet (.run 1 1) trivial) (.refl _)

end Scenario
