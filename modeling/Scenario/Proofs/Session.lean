import Scenario.Engine
import Scenario.Proofs.Runs

/-!
Sessions: what hosts can do with an engine, and the engines that they can get to by doing it.
-/

namespace Scenario

inductive Call
  | load (text : String)
  | defineVariable (id : String) (v : Variable)
  | registerAttribute (a : Attribute)
  | registerItem (p : Provider Expression)
  | registerStatus (p : Provider Expression)
  | registerEvent (event : Event Expression)
  | registerFunction (name : String) (arity : Expr.Arity)
  | compile (source : Source)
  | evaluate (source : Source)
  | value (name : String)
  | setVariable (id : String) (x : Float)
  | giveItem (id : String) (amount : Float)
  | setStatus (id : String) (duration : Float)
  | tick
  | drain
  | trigger (id : String) (probability : Float) (priority : Int)
  | fire (id : String)
  | next (patience : Nat)
  | run (patience passes : Nat)
  | reset
  | save
  | restore (save : Save)

inductive Answer
  | finished (result : Except Error Unit)
  | expression (result : Except Error Expression)
  | number (result : Except Error Float)
  | expired (result : Except Error (List String))
  | notifications (drained : List Notification)
  | report (outcome : Outcome (Option PassReport))
  | reports (outcome : Outcome (List PassReport))
  | saved (save : Save)

/-- The operations that let the game go on: all but those that define, reset, restore or drain. -/
def Call.Plays : Call → Prop
  | .compile _ | .evaluate _ | .value _ | .setVariable _ _ | .giveItem _ _ | .setStatus _ _ | .tick
  | .trigger _ _ _ | .fire _ | .next _ | .run _ _ | .save => True
  | _ => False

/-- The mutation that a call itself makes, apart from passes. -/
def Call.mutation? : Call → Option Mutation
  | .setVariable id x => some (.setVariable id x)
  | .giveItem id amount => some (.giveItem id amount)
  | .setStatus id duration => some (.setStatus id duration)
  | .tick => some .tick
  | .trigger id probability priority => some (.request id (some priority) probability)
  | .fire id => some (.request id none 1.0)
  | _ => none

/-- The calls in which events can happen. -/
def Call.Passes : Call → Prop
  | .next _ | .run _ _ => True
  | _ => False

theorem Call.not_fires {call : Call} {m : Mutation} (h : call.mutation? = some m) : ¬ m.Fires := by
  cases call with
  | setVariable _ _ | giveItem _ _ | setStatus _ _ | tick | trigger _ _ _ | fire _ =>
    cases h
    exact fun h => h
  | _ => cases h

/-- The calls that define something. -/
def Call.Defines : Call → Prop
  | .load _ | .defineVariable _ _ | .registerAttribute _ | .registerItem _ | .registerStatus _
  | .registerEvent _ => True
  | _ => False

def Call.KeepsFunctions : Call → Prop
  | .registerFunction _ _ => False
  | _ => True

namespace Engine

variable (screen : Screen) (e : Engine)

def attempt : Except Error Engine → Answer × Engine
  | .ok e => (.finished (.ok ()), e)
  | .error cause => (.finished (.error cause), e)

def perform : Call → Answer × Engine
  | .load text => let (r, e) := e.loadContent text; (.finished r, e)
  | .defineVariable id v => e.attempt (e.defineVariable id v)
  | .registerAttribute a => e.attempt (e.registerAttribute a)
  | .registerItem p => e.attempt (e.registerItem p)
  | .registerStatus p => e.attempt (e.registerStatus p)
  | .registerEvent event => e.attempt (e.registerEvent event)
  | .registerFunction name arity =>
    (.finished (.ok ()), { e with compiler := e.compiler.register name arity })
  | .compile source => let (r, e) := e.compile source; (.expression r, e)
  | .evaluate source => let (r, e) := e.evaluate source; (.number r, e)
  | .value name => (.number (e.value name), e)
  | .setVariable id x => e.attempt (e.setVariable id x)
  | .giveItem id amount => e.attempt (e.giveItem id amount)
  | .setStatus id duration => e.attempt (e.setStatus id duration)
  | .tick =>
    match e.tick with
    | .ok (ids, e) => (.expired (.ok ids), e)
    | .error cause => (.expired (.error cause), e)
  | .drain => let (drained, e) := e.drainNotifications; (.notifications drained, e)
  | .trigger id probability priority => (.finished (.ok ()), e.trigger id probability priority)
  | .fire id => (.finished (.ok ()), e.fire id)
  | .next patience => let (o, e) := e.processNext screen patience; (.report o, e)
  | .run patience passes => let (o, e) := runUntilIdle screen patience passes e; (.reports o, e)
  | .reset => e.attempt e.reset
  | .save => (.saved e.save, e)
  | .restore save => e.attempt (e.restore save)

def performAll : List Call → Engine → List Answer × Engine
  | [], e => ([], e)
  | call :: calls, e =>
    let (answer, e) := e.perform screen call
    let (answers, e) := performAll calls e
    (answer :: answers, e)

end Engine

def RandomSource.Placed : RandomSource → Prop
  | .seeded _ position => position < Stream.period
  | .scripted _ cursor => cursor < 0x10000000000000000

/-- The engines that hosts get to with operations of some sort, whatever their screens answer. -/
inductive Engine.ReachableBy (sort : Call → Prop) : Engine → Prop
  | start (config : Config) (random : RandomSource) (h : random.Placed) :
    ReachableBy sort (.withRandom config random)
  | perform {e : Engine} (h : ReachableBy sort e) (screen : Screen) (call : Call)
    (hcall : sort call) : ReachableBy sort (e.perform screen call).2

abbrev Engine.Reachable : Engine → Prop := ReachableBy fun _ => True

namespace Engine

variable {e e' : Engine} {sort sort' : Call → Prop}

theorem ReachableBy.mono (h : e.ReachableBy sort) (hsort : ∀ call, sort call → sort' call) :
    e.ReachableBy sort' := by
  induction h with
  | start config random hplaced => exact .start config random hplaced
  | perform _ screen call hcall ih => exact .perform ih screen call (hsort call hcall)

theorem ReachableBy.performAll (h : e.ReachableBy sort) (screen : Screen) {calls : List Call}
    (hcalls : ∀ call ∈ calls, sort call) :
    (Engine.performAll screen calls e).2.ReachableBy sort := by
  induction calls generalizing e with
  | nil => exact h
  | cons call calls ih =>
    exact ih (.perform h screen call (hcalls call List.mem_cons_self)) fun c hc =>
      hcalls c (List.mem_cons_of_mem _ hc)

/-! ### Playing on -/

theorem requireIdle_of_inFlight (h : e.inFlight = true) :
    e.requireIdle = .error (.usage .passInFlight) := by
  unfold requireIdle
  rw [if_pos h]

theorem requireIdle_of_idle (h : e.inFlight = false) : e.requireIdle = .ok () := by
  unfold requireIdle
  rw [if_neg (by simp [h])]

theorem change_of_inFlight (h : e.inFlight = true) (f : State → Except EvaluationError State) :
    e.change f = .error (.usage .passInFlight) := by
  unfold change
  rw [requireIdle_of_inFlight h]
  rfl

theorem change_of_idle (h : e.inFlight = false) (f : State → Except EvaluationError State) :
    e.change f = match f e.state with
      | .ok s => .ok (e.setState s)
      | .error cause => .error (.evaluation cause) := by
  unfold change
  rw [requireIdle_of_idle h]
  rfl

theorem tick_of_idle (h : e.inFlight = false) :
    e.tick = .ok (e.state.tick.1, e.setState e.state.tick.2) := by
  unfold tick
  rw [requireIdle_of_idle h]
  rfl

theorem idle_of_requireIdle {u : Unit} (h : e.requireIdle = .ok u) : e.inFlight = false := by
  unfold requireIdle at h
  split at h
  · cases h
  · rename_i hidle
    simpa using hidle

theorem change_eq_ok {f : State → Except EvaluationError State} (h : e.change f = .ok e') :
    e.inFlight = false ∧ ∃ s, f e.state = .ok s ∧ e' = e.setState s := by
  obtain ⟨_, hidle, h⟩ := exists_ok_of_bind h
  refine ⟨idle_of_requireIdle hidle, ?_⟩
  cases hf : f e.state with
  | error cause =>
    rw [hf] at h
    cases h
  | ok s =>
    rw [hf] at h
    cases h
    exact ⟨s, rfl, rfl⟩

theorem reset_eq_ok (h : e.reset = .ok e') : e' = e.setState
    { e.state with queue := {}, registry := e.state.registry.reset, ending := none } := by
  obtain ⟨_, -, h⟩ := exists_ok_of_bind h
  cases h
  rfl

theorem restore_eq_ok {save : Save} (h : e.restore save = .ok e') :
    ∃ s, save.restore e.state = .ok s ∧ e' = e.setState s := by
  obtain ⟨_, -, h⟩ := exists_ok_of_bind h
  cases hs : save.restore e.state with
  | error cause =>
    rw [hs] at h
    cases h
  | ok s =>
    rw [hs] at h
    cases h
    exact ⟨s, rfl, rfl⟩

theorem perform_tick (screen : Screen) : (e.perform screen .tick).2 =
    if e.inFlight then e else e.setState e.state.tick.2 := by
  unfold perform tick
  cases hidle : e.inFlight with
  | true =>
    rw [requireIdle_of_inFlight hidle]
    rfl
  | false =>
    rw [requireIdle_of_idle hidle]
    rfl

theorem defineVariable_eq_ok {id : String} {v : Variable} (h : e.defineVariable id v = .ok e') :
    e.state.vars.contains id = false ∧ validBounds v.min v.max ∧
      e' = e.setState { e.state with vars := e.state.vars.insert id v } := by
  unfold defineVariable at h
  split at h
  · cases h
  · rename_i hnew
    split at h
    · rename_i hvalid
      cases h
      exact ⟨Bool.not_eq_true _ ▸ hnew, hvalid, rfl⟩
    · cases h

theorem registerAttribute_eq_ok {a : Attribute} (h : e.registerAttribute a = .ok e') :
    e.state.attributes.contains a.id = false ∧ validBounds a.min a.max ∧
      e' = e.setState { e.state with attributes := e.state.attributes.insert a.id a } := by
  unfold registerAttribute at h
  split at h
  · cases h
  · rename_i hnew
    split at h
    · rename_i hvalid
      cases h
      exact ⟨Bool.not_eq_true _ ▸ hnew, hvalid, rfl⟩
    · cases h

theorem registerItem_eq_ok {p : Provider Expression} (h : e.registerItem p = .ok e') :
    e.state.items.contains p.id = false ∧
      e' = e.setState { e.state with items := e.state.items.insert p.id p } := by
  unfold registerItem at h
  split at h
  · cases h
  · rename_i hnew
    cases h
    exact ⟨Bool.not_eq_true _ ▸ hnew, rfl⟩

theorem registerStatus_eq_ok {p : Provider Expression} (h : e.registerStatus p = .ok e') :
    e.state.statusKinds.contains p.id = false ∧
      e' = e.setState { e.state with statusKinds := e.state.statusKinds.insert p.id p } := by
  unfold registerStatus at h
  split at h
  · cases h
  · rename_i hnew
    cases h
    exact ⟨Bool.not_eq_true _ ▸ hnew, rfl⟩

theorem registerEvent_eq_ok {event : Event Expression} (h : e.registerEvent event = .ok e') :
    ∃ registry, e.state.registry.register event = .ok registry ∧
      e' = e.setState { e.state with registry } := by
  unfold registerEvent at h
  split at h
  · rename_i registry hr
    cases h
    exact ⟨registry, hr, rfl⟩
  · cases h

theorem attempt_cases (x : Except Error Engine) :
    (∃ e', x = .ok e' ∧ (e.attempt x).2 = e') ∨ (e.attempt x).2 = e := by
  cases x with
  | ok e' => exact .inl ⟨e', rfl, rfl⟩
  | error cause => exact .inr rfl

section Keeping

variable {Q : Engine → Prop}

theorem attempt_keeps {x : Except Error Engine} (h : Q e) (hx : ∀ e', x = .ok e' → Q e') :
    Q (e.attempt x).2 := by
  rcases attempt_cases (e := e) x with ⟨e', hok, he'⟩ | hsame
  · rw [he']
    exact hx e' hok
  · rw [hsame]
    exact h

theorem registerEach_keeps {α : Type} {register : Engine → α → Except Error Engine} {as : List α}
    (hregister : ∀ e e' a, a ∈ as → Q e → register e a = .ok e' → Q e') (h : Q e) :
    Q (registerEach register as e).2 := by
  induction as generalizing e with
  | nil => exact h
  | cons a as ih =>
    unfold registerEach
    split
    · rename_i e' he'
      exact ih (fun e e' b hb => hregister e e' b (List.mem_cons_of_mem a hb))
        (hregister e e' a List.mem_cons_self h he')
    · exact h

theorem andThen_keeps {x : Except Error Unit × Engine} {f : Engine → Except Error Unit × Engine}
    (hx : Q x.2) (hf : ∀ e, Q e → Q (f e).2) : Q (andThen x f).2 := by
  rcases x with ⟨_ | _, e⟩
  · exact hx
  · exact hf e hx

theorem registerAll_keeps {d : Definitions}
    (hvariable : ∀ e e' id v, (id, v) ∈ d.vars → Q e → defineVariable e id v = .ok e' → Q e')
    (hattribute : ∀ e e' a, a ∈ d.attributes → Q e → registerAttribute e a = .ok e' → Q e')
    (hitem : ∀ e e' p, p ∈ d.items → Q e → registerItem e p = .ok e' → Q e')
    (hstatus : ∀ e e' p, p ∈ d.statuses → Q e → registerStatus e p = .ok e' → Q e')
    (hevent : ∀ e e' event, event ∈ d.events → Q e → registerEvent e event = .ok e' → Q e')
    (h : Q e) : Q (e.registerAll d).2 :=
  andThen_keeps (registerEach_keeps (fun e e' entry => hvariable e e' entry.1 entry.2) h)
    fun _ h => andThen_keeps (registerEach_keeps hattribute h) fun _ h =>
    andThen_keeps (registerEach_keeps hitem h) fun _ h =>
    andThen_keeps (registerEach_keeps hstatus h) fun _ h => registerEach_keeps hevent h

/-- Nothing that is defined makes an end of it. -/
structure KeptByDefining (Q : Engine → Prop) : Prop where
  compiler : ∀ {e : Engine} (compiler : Compiler), Q e → Q { e with compiler }
  defineVariable : ∀ {e e' : Engine} {id : String} {v : Variable}, Q e →
    e.defineVariable id v = .ok e' → Q e'
  registerAttribute : ∀ {e e' : Engine} {a : Attribute}, Q e → e.registerAttribute a = .ok e' → Q e'
  registerItem : ∀ {e e' : Engine} {p : Provider Expression}, Q e →
    e.registerItem p = .ok e' → Q e'
  registerStatus : ∀ {e e' : Engine} {p : Provider Expression}, Q e →
    e.registerStatus p = .ok e' → Q e'
  registerEvent : ∀ {e e' : Engine} {event : Event Expression}, Q e →
    e.registerEvent event = .ok e' → Q e'

namespace KeptByDefining

variable (hQ : KeptByDefining Q)

include hQ

theorem loadContent (h : Q e) (text : String) : Q (e.loadContent text).2 := by
  unfold Engine.loadContent
  split
  · exact registerAll_keeps (fun _ _ _ _ _ => hQ.defineVariable)
      (fun _ _ _ _ => hQ.registerAttribute) (fun _ _ _ _ => hQ.registerItem)
      (fun _ _ _ _ => hQ.registerStatus) (fun _ _ _ _ => hQ.registerEvent) (hQ.compiler _ h)
  · exact hQ.compiler _ h

theorem perform (h : Q e) (screen : Screen) {call : Call} (hcall : call.Defines) :
    Q (e.perform screen call).2 := by
  cases call with
  | load text => exact hQ.loadContent h text
  | defineVariable id v => exact attempt_keeps h fun _ => hQ.defineVariable h
  | registerAttribute a => exact attempt_keeps h fun _ => hQ.registerAttribute h
  | registerItem p => exact attempt_keeps h fun _ => hQ.registerItem h
  | registerStatus p => exact attempt_keeps h fun _ => hQ.registerStatus h
  | registerEvent event => exact attempt_keeps h fun _ => hQ.registerEvent h
  | _ => exact hcall.elim

end KeptByDefining

theorem runUntilIdle_keeps {screen : Screen} {patience : Nat}
    (hnext : ∀ e, Q e → Q (processNext e screen patience).2) (h : Q e) (passes : Nat) :
    Q (runUntilIdle screen patience passes e).2 := by
  induction passes generalizing e with
  | zero => exact h
  | succ passes ih =>
    have hpassed := hnext e h
    unfold runUntilIdle
    rcases hpass : e.processNext screen patience with ⟨outcome, e'⟩
    rw [hpass] at hpassed
    cases outcome with
    | done report =>
      cases report with
      | none => exact hpassed
      | some report =>
        have hrest := ih hpassed
        dsimp only
        rcases hmore : runUntilIdle screen patience passes e' with ⟨outcome', e''⟩
        rw [hmore] at hrest
        cases outcome' with
        | _ => exact hrest
    | failed _ => exact hpassed
    | suspended => exact hpassed
    | exhausted => exact hpassed

end Keeping

theorem attempt_change_becomes {m : Mutation} {sort : Mutation → Prop} (hm : sort m) :
    e.state.Becomes sort (e.attempt (e.change (·.mutate m))).2.state := by
  apply attempt_keeps (Q := fun e' => e.state.Becomes _ e'.state) (.refl _)
  intro e' he
  obtain ⟨-, s, hs, rfl⟩ := change_eq_ok he
  exact .single hm hs

theorem inFlightDuring_world {α : Type} (p : Play α) :
    (e.inFlightDuring p).2.world = (p e.world).2 := by
  unfold inFlightDuring
  split <;> simp_all

theorem map_world {α β : Type} (f : α → β) (p : Play α) (w : World) :
    ((f <$> p) w).2 = (p w).2 := by
  change ((p >>= fun a => pure (f a)) w).2 = (p w).2
  simp only [bind]
  split <;> simp_all [pure]

theorem compile_world (source : Source) : (e.compile source).2.world = e.world := rfl

theorem evaluate_world (source : Source) : (e.evaluate source).2.world = e.world := by
  unfold evaluate
  rcases hc : e.compile source with ⟨r, e'⟩
  have hworld : e'.world = e.world := by
    rw [← compile_world (e := e) source, hc]
  cases r with
  | ok expression => exact hworld
  | error cause => exact hworld

theorem processNext_cases (screen : Screen) (patience : Nat) :
    (e.processNext screen patience).2 = e ∨
      e.inFlight = false ∧ e.state.ending = none ∧ ∃ p queue, e.state.queue.pop? = some (p, queue) ∧
        e.processNext screen patience =
          (e.setState { e.state with queue }).inFlightDuring
            (some <$> Play.pass screen patience p) := by
  unfold processNext requireIdle
  cases hflight : e.inFlight with
  | true => exact .inl rfl
  | false =>
    cases hending : e.state.ending with
    | some ending => exact .inl rfl
    | none =>
      cases hpop : e.state.queue.pop? with
      | none => exact .inl rfl
      | some popped => exact .inr ⟨rfl, rfl, popped.1, popped.2, rfl, rfl⟩

theorem pop_queue {s : State} {p : PendingTrigger} {queue : TriggerQueue}
    (h : s.queue.pop? = some (p, queue)) :
    s.mutate .pop = .ok { s with queue } := by
  unfold TriggerQueue.pop? at h
  unfold State.mutate
  split at h
  · cases h
  · rename_i hpending
    cases h
    simp [hpending]

theorem processNext_becomes (screen : Screen) (patience : Nat) :
    e.state.Becomes Mutation.Numeric (e.processNext screen patience).2.state := by
  rcases processNext_cases (e := e) screen patience with
    hsame | ⟨-, -, p, queue, hpop, hpass⟩
  · rw [hsame]
    exact .refl _
  · have hworld : (e.processNext screen patience).2.world =
        (Play.pass screen patience p (e.setState { e.state with queue }).world).2 := by
      rw [hpass, inFlightDuring_world, map_world]
    unfold state
    rw [hworld]
    exact (State.Becomes.single trivial (pop_queue hpop)).trans
      ((pass_becomes screen patience p (e.setState { e.state with queue }).world).mono
        fun _ h => h.1)

theorem runUntilIdle_becomes (screen : Screen) (patience passes : Nat) :
    e.state.Becomes Mutation.Numeric (runUntilIdle screen patience passes e).2.state :=
  runUntilIdle_keeps (Q := fun e' => e.state.Becomes _ e'.state)
    (fun _ h => h.trans (processNext_becomes screen patience)) (.refl _) passes

theorem perform_mutates (screen : Screen) {call : Call} (h : call.Plays) (hpass : ¬ call.Passes) :
    e.state.Becomes (call.mutation? = some ·) (e.perform screen call).2.state := by
  cases call with
  | setVariable id x => exact attempt_change_becomes (m := .setVariable id x) rfl
  | giveItem id amount => exact attempt_change_becomes (m := .giveItem id amount) rfl
  | setStatus id duration => exact attempt_change_becomes (m := .setStatus id duration) rfl
  | tick =>
    rw [perform_tick]
    split
    · exact .refl _
    · exact .single (m := .tick) rfl rfl
  | trigger id probability priority =>
    exact .single (m := .request id (some priority) probability) rfl rfl
  | fire id => exact .single (m := .request id none 1.0) rfl rfl
  | evaluate source =>
    have hsame : (e.perform screen (.evaluate source)).2.state = e.state :=
      congrArg World.state (evaluate_world source)
    rw [hsame]
    exact .refl _
  | compile _ => exact .refl _
  | value _ => exact .refl _
  | save => exact .refl _
  | next _ => exact absurd trivial hpass
  | run _ _ => exact absurd trivial hpass
  | _ => exact h.elim

theorem perform_becomes (screen : Screen) {call : Call} (h : call.Plays) :
    e.state.Becomes (fun m => m.Numeric ∨ call.mutation? = some m)
      (e.perform screen call).2.state := by
  cases call with
  | next patience => exact (processNext_becomes screen patience).mono fun _ h => .inl h
  | run patience passes =>
    exact (runUntilIdle_becomes screen patience passes).mono fun _ h => .inl h
  | _ => exact (perform_mutates screen h fun h => h).mono fun _ h => .inr h

end Engine

end Scenario
