import Scenario.Proofs.Bare
import Scenario.Proofs.Saturated
import Scenario.Proofs.Session

/-!
What compilers make of sources. Building compiles one source after the other, so it keeps of a
compiler what compiling keeps. A compiler that has known the functions of the engine and no others
gives every source the same expression, whatever it compiled before, up to the place of the entry.
-/

namespace Scenario

namespace Build

variable {α β : Type}

/-- Building leaves a compiler with a property that it had. -/
def Keeps (P : Compiler → Prop) (b : Build α) : Prop := ∀ c : Compiler, P c → P (b c).2

/-- Building keeps a property of the compiler, and what is built has another one. -/
def Ensures (P : Compiler → Prop) (Q : α → Prop) (b : Build α) : Prop :=
  ∀ c : Compiler, P c → P (b c).2 ∧ ∀ a, (b c).1 = .ok a → Q a

variable {P : Compiler → Prop} {Q : α → Prop} {R : β → Prop}

theorem bind_eq_ok {x : Build α} {f : α → Build β} {b : β} {c c' : Compiler}
    (h : (x >>= f) c = (.ok b, c')) : ∃ a c₁, x c = (.ok a, c₁) ∧ f a c₁ = (.ok b, c') := by
  rw [bind_apply] at h
  rcases hx : x c with ⟨r, c₁⟩
  rw [hx] at h
  cases r with
  | ok a => exact ⟨a, c₁, rfl, h⟩
  | error cause => cases h

theorem Ensures.keeps {b : Build α} (h : Ensures P Q b) : Keeps P b := fun c hc => (h c hc).1

theorem ensures_pure {a : α} (h : Q a) : Ensures P Q (pure a) := by
  intro c hc
  refine ⟨hc, fun a' ha => ?_⟩
  cases ha
  exact h

theorem ensures_throw (e : DefinitionError) : Ensures P Q (throw e : Build α) := by
  intro c hc
  refine ⟨hc, fun a ha => ?_⟩
  cases ha

theorem Ensures.bind {x : Build α} {f : α → Build β} (hx : Ensures P Q x)
    (hf : ∀ a, Q a → Ensures P R (f a)) : Ensures P R (x >>= f) := by
  intro c hc
  obtain ⟨hkept, hmade⟩ := hx c hc
  rw [bind_apply]
  rcases hxc : x c with ⟨r, c'⟩
  rw [hxc] at hkept hmade
  cases r with
  | ok a => exact hf a (hmade a rfl) c' hkept
  | error cause =>
    refine ⟨hkept, fun b hb => ?_⟩
    cases hb

theorem ensures_each {f : α → Build β} (hf : ∀ a, Ensures P R (f a)) (as : List α) :
    Ensures P (fun bs => ∀ b ∈ bs, R b) (each f as) := by
  induction as with
  | nil => exact ensures_pure (List.forall_mem_nil R)
  | cons a as ih =>
    exact (hf a).bind fun _ hb => ih.bind fun _ hbs =>
      ensures_pure (List.forall_mem_cons.2 ⟨hb, hbs⟩)

theorem ensures_whenGiven {f : α → Build β} (hf : ∀ a, Ensures P R (f a)) (a : Option α) :
    Ensures P (fun b => ∀ x ∈ b, R x) (whenGiven f a) := by
  cases a with
  | none => exact ensures_pure (by simp)
  | some a => exact (hf a).bind fun _ hb => ensures_pure (by simpa using hb)

section Definitions

variable {Q : Expression → Prop}

theorem ensures_field (hP : ∀ source, Ensures P Q (compile source))
    (context : Context) (name : String) (source : Source) :
    Ensures P Q (field context name source) := by
  intro c hc
  have hcompiled := hP source c hc
  unfold Build.compile at hcompiled
  unfold field
  rcases hcompile : c.compile source with ⟨r, c'⟩
  rw [hcompile] at hcompiled
  cases r with
  | ok e => exact hcompiled
  | error cause =>
    refine ⟨hcompiled.1, fun e he => ?_⟩
    cases he

mutual

theorem ensures_condition (hP : ∀ source, Ensures P Q (compile source)) (context : Context) :
    ∀ c : Condition Source, Ensures P (Condition.Of Q) (condition context c)
  | .expression e =>
    (ensures_field hP context "expression" e).bind fun _ he => ensures_pure he
  | .not c => (ensures_condition hP context c).bind fun _ hc => ensures_pure hc
  | .all cs => (ensures_conditions hP context cs).bind fun _ hcs => ensures_pure hcs
  | .any cs => (ensures_conditions hP context cs).bind fun _ hcs => ensures_pure hcs
  | .count cs min max =>
    (ensures_conditions hP context cs).bind fun _ hcs =>
      (ensures_field hP context "min" min).bind fun _ hmin =>
      (ensures_field hP context "max" max).bind fun _ hmax =>
        ensures_pure (And.intro hcs (And.intro hmin hmax))

theorem ensures_conditions (hP : ∀ source, Ensures P Q (compile source)) (context : Context) :
    ∀ cs : List (Condition Source), Ensures P (Condition.AllOf Q) (conditions context cs)
  | [] => ensures_pure trivial
  | c :: cs => (ensures_condition hP context c).bind fun _ hc =>
      (ensures_conditions hP context cs).bind fun _ hcs => ensures_pure (And.intro hc hcs)

end

theorem ensures_update (hP : ∀ source, Ensures P Q (compile source))
    (context : Context) (u : VariableUpdate Source) :
    Ensures P (Q ·.value) (update context u) :=
  (ensures_field hP context "value" u.value).bind fun _ he => ensures_pure he

theorem ensures_amount (hP : ∀ source, Ensures P Q (compile source))
    (context : Context) (a : ItemAmount Source) :
    Ensures P (Q ·.amount) (amount context a) :=
  (ensures_field hP context "amount" a.amount).bind fun _ he => ensures_pure he

theorem ensures_request (hP : ∀ source, Ensures P Q (compile source))
    (context : Context) (r : TriggerRequest Source) :
    Ensures P (Q ·.probability) (request context r) :=
  (ensures_field hP context "probability" r.probability).bind fun _ he => ensures_pure he

mutual

theorem ensures_action (hP : ∀ source, Ensures P Q (compile source)) (context : Context) :
    ∀ a : Action Source, Ensures P (Action.Of Q) (action context a)
  | .message _ => ensures_pure trivial
  | .randomMessage texts confirm icon => by
    unfold action
    split
    · exact ensures_throw _
    · exact ensures_pure trivial
  | .choices text icon cs => (ensures_choices hP context cs).bind fun _ hcs => ensures_pure hcs
  | .random gs => by
    have hgroups := ensures_groups hP context gs
    unfold action
    split
    · exact ensures_throw _
    · exact hgroups.bind fun _ hgs => ensures_pure hgs
  | .coinFlip probability success failure =>
    (ensures_field hP context "probability" probability).bind fun _ hp =>
      (ensures_actions hP context success).bind fun _ hsuccess =>
      (ensures_actions hP context failure).bind fun _ hfailure =>
        ensures_pure (And.intro hp (And.intro hsuccess hfailure))
  | .switch bs => (ensures_branches hP context bs).bind fun _ hbs => ensures_pure hbs
  | .loop as stop _ _ =>
    (ensures_actions hP context as).bind fun _ has =>
      (ensures_whenGiven (ensures_condition hP context) stop).bind fun _ hstop =>
        ensures_pure (And.intro has hstop)
  | .stop _ => ensures_pure trivial
  | .endGame _ => ensures_pure trivial
  | .updateVariable u => (ensures_update hP context u).bind fun _ hu => ensures_pure hu
  | .updateVariables us =>
    (ensures_each (ensures_update hP context) us).bind fun _ hus => ensures_pure hus
  | .updateVariableLimits _ min max =>
    (ensures_whenGiven (ensures_field hP context "min") min).bind fun _ hmin =>
      (ensures_whenGiven (ensures_field hP context "max") max).bind fun _ hmax =>
        ensures_pure (And.intro hmin hmax)
  | .giveItem a => (ensures_amount hP context a).bind fun _ ha => ensures_pure ha
  | .updateItemAmounts as =>
    (ensures_each (ensures_amount hP context) as).bind fun _ has => ensures_pure has
  | .setStatus _ duration =>
    (ensures_field hP context "duration" duration).bind fun _ he => ensures_pure he
  | .triggerEvents rs =>
    (ensures_each (ensures_request hP context) rs).bind fun _ hrs => ensures_pure hrs
  | .toggleEvents _ _ => ensures_pure trivial

theorem ensures_actions (hP : ∀ source, Ensures P Q (compile source)) (context : Context) :
    ∀ as : List (Action Source), Ensures P (Action.AllOf Q) (actions context as)
  | [] => ensures_pure trivial
  | a :: as => (ensures_action hP context a).bind fun _ ha =>
      (ensures_actions hP context as).bind fun _ has => ensures_pure (And.intro ha has)

theorem ensures_choices (hP : ∀ source, Ensures P Q (compile source)) (context : Context) :
    ∀ cs : List (Choice Source (Action Source)), Ensures P (Action.ChoicesOf Q) (choices context cs)
  | [] => ensures_pure trivial
  | ⟨_, requirement, as⟩ :: cs =>
    (ensures_whenGiven (ensures_condition hP context) requirement).bind fun _ hrequirement =>
      (ensures_actions hP context as).bind fun _ has =>
      (ensures_choices hP context cs).bind fun _ hcs =>
        ensures_pure (And.intro hrequirement (And.intro has hcs))

theorem ensures_groups (hP : ∀ source, Ensures P Q (compile source)) (context : Context) :
    ∀ gs : List (Group Source (Action Source)), Ensures P (Action.GroupsOf Q) (groups context gs)
  | [] => ensures_pure trivial
  | ⟨weight, as⟩ :: gs =>
    (ensures_field hP context "weight" weight).bind fun _ hweight =>
      (ensures_actions hP context as).bind fun _ has =>
      (ensures_groups hP context gs).bind fun _ hgs =>
        ensures_pure (And.intro hweight (And.intro has hgs))

theorem ensures_branches (hP : ∀ source, Ensures P Q (compile source)) (context : Context) :
    ∀ bs : List (Branch Source (Action Source)),
      Ensures P (Action.BranchesOf Q) (branches context bs)
  | [] => ensures_pure trivial
  | ⟨c, as⟩ :: bs =>
    (ensures_condition hP context c).bind fun _ hc =>
      (ensures_actions hP context as).bind fun _ has =>
      (ensures_branches hP context bs).bind fun _ hbs =>
        ensures_pure (And.intro hc (And.intro has hbs))

end

theorem ensures_event (hP : ∀ source, Ensures P Q (compile source))
    (context : Context) (e : Event Source) :
    Ensures P (Event.Of Q) (event context e) :=
  (ensures_conditions hP context e.conditions).bind fun _ hconditions =>
    (ensures_actions hP context e.actions).bind fun _ hactions =>
      (ensures_field hP context "probability" e.probability).bind fun _ hprobability =>
        ensures_pure ⟨hconditions, hactions, hprobability⟩

theorem ensures_modifier (hP : ∀ source, Ensures P Q (compile source))
    (context : Context) (m : Modifier Source) :
    Ensures P (Q ·.amount) (modifier context m) :=
  (ensures_field hP context "amount" m.amount).bind fun _ he => ensures_pure he

theorem ensures_provider (hP : ∀ source, Ensures P Q (compile source))
    (kind : Kind) (p : Provider Source) :
    Ensures P (Provider.Of Q) (provider kind p) :=
  (ensures_each (ensures_modifier hP _) p.modifiers).bind fun _ hms => ensures_pure hms

theorem ensures_eventOf (hP : ∀ source, Ensures P Q (compile source)) (j : Json) :
    Ensures P (Event.Of Q) (eventOf j) := by
  unfold eventOf
  dsimp only
  split
  · exact ensures_throw _
  · exact ensures_event hP _ _

theorem ensures_checkBounds (kind : Kind) (id : String) (min max : Float) :
    Ensures P (fun _ => validBounds min max) (checkBounds kind id min max) := by
  unfold checkBounds
  split
  · rename_i hvalid
    exact ensures_pure hvalid
  · exact ensures_throw _

theorem ensures_variablesOf (saved : List (String × SavedVariable)) :
    Ensures P (fun vars => ∀ entry ∈ vars, validBounds entry.2.min entry.2.max)
      (each (fun (id, v) => variableOf id v) saved) := by
  refine ensures_each (fun entry => ?_) saved
  exact (ensures_checkBounds .variable entry.1 _ _).bind fun _ hvalid => ensures_pure hvalid

theorem ensures_checkAttribute (a : Attribute) :
    Ensures P (fun a => validBounds a.min a.max) (checkAttribute a) :=
  (ensures_checkBounds .attribute a.id a.min a.max).bind fun _ hvalid => ensures_pure hvalid

theorem ensures_content (hP : ∀ source, Ensures P Q (compile source)) (content : Content) :
    Ensures P (Definitions.Of Q) (Build.content content) := by
  unfold Build.content
  refine (ensures_variablesOf _).bind fun vars hvars => ?_
  refine (ensures_each ensures_checkAttribute _).bind fun attributes hattributes => ?_
  refine (ensures_each (ensures_provider hP .item) _).bind fun items hitems => ?_
  refine (ensures_each (ensures_provider hP .status) _).bind fun statuses hstatuses => ?_
  refine (ensures_each (ensures_eventOf hP) _).bind fun events hevents => ?_
  exact ensures_pure ⟨hvars, hattributes, hitems, hstatuses, hevents⟩

/-- A document that can be built has bounds in order, and of expressions what compiling ensures. -/
theorem ensures_contentOfText (hP : ∀ source, Ensures P Q (compile source)) (text : String) :
    Ensures P (Definitions.Of Q) (contentOfText text) := by
  unfold contentOfText
  split
  · exact ensures_throw _
  · exact ensures_content hP _

theorem keeps_contentOfText
    (hP : ∀ (c : Compiler) (source : Source), P c → P (c.compile source).2) (text : String) :
    Keeps P (contentOfText text) :=
  (ensures_contentOfText (Q := fun _ => True) (fun source c hc => ⟨hP c source hc, by simp⟩)
    text).keeps

end Definitions

theorem ensures_made (source : Source) :
    Ensures Compiler.Used Expression.Made (Build.compile source) :=
  fun c hc => ⟨hc.compile source, fun _ he => ⟨c, source, hc, he⟩⟩

end Build

/-! ### Engines -/

namespace Engine

variable {e : Engine}

def StateOnly (e : Engine) (x : Except Error Engine) : Prop :=
  ∀ e', x = .ok e' → ∃ s, e' = e.setState s

theorem defineVariable_stateOnly (id : String) (v : Variable) :
    e.StateOnly (e.defineVariable id v) := fun _ h => ⟨_, (defineVariable_eq_ok h).2.2⟩

theorem registerAttribute_stateOnly (a : Attribute) : e.StateOnly (e.registerAttribute a) :=
  fun _ h => ⟨_, (registerAttribute_eq_ok h).2.2⟩

theorem registerItem_stateOnly (p : Provider Expression) : e.StateOnly (e.registerItem p) :=
  fun _ h => ⟨_, (registerItem_eq_ok h).2⟩

theorem registerStatus_stateOnly (p : Provider Expression) : e.StateOnly (e.registerStatus p) :=
  fun _ h => ⟨_, (registerStatus_eq_ok h).2⟩

theorem registerEvent_stateOnly (event : Event Expression) :
    e.StateOnly (e.registerEvent event) := by
  intro e' h
  obtain ⟨registry, -, rfl⟩ := registerEvent_eq_ok h
  exact ⟨_, rfl⟩

theorem change_stateOnly (f : State → Except EvaluationError State) : e.StateOnly (e.change f) := by
  intro e' h
  obtain ⟨-, s, -, rfl⟩ := change_eq_ok h
  exact ⟨s, rfl⟩

theorem reset_stateOnly : e.StateOnly e.reset := fun _ h => ⟨_, reset_eq_ok h⟩

theorem restore_stateOnly (save : Save) : e.StateOnly (e.restore save) := by
  intro e' h
  obtain ⟨s, -, rfl⟩ := restore_eq_ok h
  exact ⟨s, rfl⟩

theorem StateOnly.compiler {e' : Engine} {x : Except Error Engine} (h : e.StateOnly x)
    (hx : x = .ok e') : e'.compiler = e.compiler := by
  obtain ⟨s, rfl⟩ := h e' hx
  rfl

theorem attempt_compiler {x : Except Error Engine} (h : e.StateOnly x) :
    (e.attempt x).2.compiler = e.compiler :=
  attempt_keeps (Q := (·.compiler = e.compiler)) rfl fun _ hx => h.compiler hx

theorem registerAll_compiler (d : Definitions) : (e.registerAll d).2.compiler = e.compiler :=
  registerAll_keeps (Q := (·.compiler = e.compiler))
    (fun _ _ id v _ h hx => ((defineVariable_stateOnly id v).compiler hx).trans h)
    (fun _ _ a _ h hx => ((registerAttribute_stateOnly a).compiler hx).trans h)
    (fun _ _ p _ h hx => ((registerItem_stateOnly p).compiler hx).trans h)
    (fun _ _ p _ h hx => ((registerStatus_stateOnly p).compiler hx).trans h)
    (fun _ _ event _ h hx => ((registerEvent_stateOnly event).compiler hx).trans h) rfl

theorem inFlightDuring_compiler {α : Type} (p : Play α) :
    (e.inFlightDuring p).2.compiler = e.compiler := by
  unfold inFlightDuring
  split <;> rfl

theorem processNext_compiler (screen : Screen) (patience : Nat) :
    (e.processNext screen patience).2.compiler = e.compiler := by
  rcases processNext_cases (e := e) screen patience with hsame | ⟨-, -, p, queue, -, hpass⟩
  · rw [hsame]
  · rw [hpass, inFlightDuring_compiler]
    rfl

theorem runUntilIdle_compiler (screen : Screen) (patience passes : Nat) :
    (runUntilIdle screen patience passes e).2.compiler = e.compiler :=
  runUntilIdle_keeps (Q := (·.compiler = e.compiler))
    (fun _ h => (processNext_compiler screen patience).trans h) rfl passes

theorem evaluate_compiler (source : Source) :
    (e.evaluate source).2.compiler = (e.compiler.compile source).2 := by
  unfold evaluate compile
  rcases e.compiler.compile source with ⟨_ | _, c⟩ <;> rfl

theorem perform_compiler {P : Compiler → Prop}
    (hP : ∀ (c : Compiler) (source : Source), P c → P (c.compile source).2) (h : P e.compiler)
    (screen : Screen) {call : Call} (hcall : call.KeepsFunctions) :
    P (e.perform screen call).2.compiler := by
  have hsame {x : Except Error Engine} (hx : e.StateOnly x) : P (e.attempt x).2.compiler := by
    rw [attempt_compiler hx]
    exact h
  cases call with
  | load text =>
    have hbuilt : P ((Build.contentOfText text).run e.compiler).2 :=
      Build.keeps_contentOfText hP text e.compiler h
    change P (e.loadContent text).2.compiler
    unfold loadContent
    rcases hbuild : (Build.contentOfText text).run e.compiler with ⟨r, c⟩
    rw [hbuild] at hbuilt
    cases r with
    | ok d =>
      dsimp only
      rw [registerAll_compiler]
      exact hbuilt
    | error cause => exact hbuilt
  | defineVariable id v => exact hsame (defineVariable_stateOnly id v)
  | registerAttribute a => exact hsame (registerAttribute_stateOnly a)
  | registerItem p => exact hsame (registerItem_stateOnly p)
  | registerStatus p => exact hsame (registerStatus_stateOnly p)
  | registerEvent event => exact hsame (registerEvent_stateOnly event)
  | registerFunction name arity => exact hcall.elim
  | compile source => exact hP e.compiler source h
  | evaluate source =>
    change P (e.evaluate source).2.compiler
    rw [evaluate_compiler]
    exact hP e.compiler source h
  | setVariable id x => exact hsame (change_stateOnly _)
  | giveItem id amount => exact hsame (change_stateOnly _)
  | setStatus id duration => exact hsame (change_stateOnly _)
  | tick =>
    rw [perform_tick]
    split
    · exact h
    · exact h
  | next patience =>
    change P (e.processNext screen patience).2.compiler
    rw [processNext_compiler]
    exact h
  | run patience passes =>
    change P (runUntilIdle screen patience passes e).2.compiler
    rw [runUntilIdle_compiler]
    exact h
  | reset => exact hsame reset_stateOnly
  | restore save => exact hsame (restore_stateOnly save)
  | value _ => exact h
  | drain => exact h
  | trigger _ _ _ => exact h
  | fire _ => exact h
  | save => exact h

end Engine

/-! ### Compilers of the engine -/

namespace Compiler

variable {c : Compiler}

/-- The compiler has known the functions of the engine and no others: every text that it holds is
what a new engine makes of it, but for the place. -/
structure Sound (c : Compiler) : Prop where
  functions : c.functions = Engine.hostCompiler.functions
  entries : ∀ (text : String) (e : Expression), c.entries[text]? = some e →
    (Engine.hostCompiler.compile (.text text)).1.map Expression.bare = .ok e.bare

theorem sound_hostCompiler : Engine.hostCompiler.Sound where
  functions := rfl
  entries text e h := by
    have hnone : Engine.hostCompiler.entries = ∅ := rfl
    rw [hnone] at h
    simp at h

theorem Sound.compile_new (h : c.Sound) {text : String} (hnew : c.entries[text]? = none) :
    (c.compile (.text text)).1.map Expression.bare =
      (Engine.hostCompiler.compile (.text text)).1.map Expression.bare := by
  have hempty : Engine.hostCompiler.entries[text]? = none := by
    have hnone : Engine.hostCompiler.entries = ∅ := rfl
    rw [hnone]
    simp
  rw [compile_of_new hnew, compile_of_new hempty, h.functions]
  cases checkText (Engine.hostCompiler.functions[·]?) text <;> rfl

theorem Sound.compile_eq (h : c.Sound) (source : Source) :
    (c.compile source).1.map Expression.bare =
      (Engine.hostCompiler.compile source).1.map Expression.bare := by
  cases source with
  | number x => rfl
  | text s =>
    cases hentry : c.entries[s]? with
    | none => exact h.compile_new hentry
    | some e =>
      rw [h.entries s e hentry, compile_of_entry hentry]
      rfl

theorem Sound.compile (h : c.Sound) (source : Source) : (c.compile source).2.Sound := by
  cases source with
  | number x => exact h
  | text s =>
    obtain hkept | ⟨hnew, code, hcode, hadded⟩ := compile_snd c s
    · rw [hkept]
      exact h
    · -- The new entry is what `compile_new` says of this text; the old ones stay.
      have hsame := h.compile_new hnew
      rw [compile_of_new hnew, hcode] at hsame
      rw [hadded]
      refine ⟨h.functions, fun text e he => ?_⟩
      dsimp only at he
      rw [getElem?_insert_id] at he
      split at he
      · rename_i htext
        subst htext
        cases he
        exact hsame.symm
      · exact h.entries text e he

end Compiler

theorem Compiler.used_hostCompiler : Engine.hostCompiler.Used :=
  List.foldlRecOn (motive := Used) Engine.hostFunctions _ .new fun _ h name _ =>
    h.register name (.exactly 1)

theorem Engine.ReachableBy.used {e : Engine} {sort : Call → Prop} (h : e.ReachableBy sort) :
    e.compiler.Used := by
  induction h with
  | start config random _ => exact Compiler.used_hostCompiler
  | perform _ screen call _ ih =>
    cases call with
    | registerFunction name arity => exact ih.register name arity
    | _ => exact perform_compiler (fun _ source h => h.compile source) ih screen trivial

theorem Engine.ReachableBy.sound {e : Engine} (h : e.ReachableBy Call.KeepsFunctions) :
    e.compiler.Sound := by
  induction h with
  | start config random _ => exact Compiler.sound_hostCompiler
  | perform _ screen call hcall ih =>
    exact Engine.perform_compiler (fun _ source h => h.compile source) ih screen hcall

end Scenario
