import Scenario.Proofs.Places
import Scenario.Proofs.Records

/-!
What building makes of records. It comes to their places in order and fails for the first one that
is faulty; if none is, what it makes says the same as the record, with every source compiled.
-/

namespace Scenario

theorem Expression.source_eq_of_bare {e e' : Expression} (h : e.bare = e'.bare) :
    e.source = e'.source := by
  have hsource : e.bare.source = e'.bare.source := by rw [h]
  exact hsource

/-! ### Compilers on the way -/

namespace Compiler

variable {c c' : Compiler}

/-- Compilers that make the same of every source, up to the places of their entries. -/
def Alike (c c' : Compiler) : Prop :=
  ∀ source, (c'.compile source).1.map Expression.bare = (c.compile source).1.map Expression.bare

theorem map_bare_compile (c : Compiler) (text : String) :
    (c.compile (.text text)).1.map Expression.bare =
      match c.entries[text]? with
      | some e => .ok e.bare
      | none =>
        match checkText (c.functions[·]?) text with
        | .error fault => .error (.expression text fault)
        | .ok code => .ok ⟨.text text, code, none⟩ := by
  cases hentry : c.entries[text]? with
  | some e =>
    rw [compile_of_entry hentry]
    rfl
  | none =>
    rw [compile_of_new hentry]
    cases checkText (c.functions[·]?) text <;> rfl

theorem Alike.compile (h : c.Alike c') (source : Source) : c.Alike (c'.compile source).2 := by
  intro other
  rw [← h other]
  cases source with
  | number x => rfl
  | text s =>
    obtain hkept | ⟨hnew, code, hcode, hadded⟩ := compile_snd c' s
    · rw [hkept]
    · rw [hadded]
      cases other with
      | number x => rfl
      | text t =>
        rw [map_bare_compile, map_bare_compile]
        dsimp only
        rw [getElem?_insert_id]
        by_cases hsame : s = t
        · subst hsame
          rw [if_pos rfl, hnew, hcode]
          rfl
        · rw [if_neg hsame]

theorem Used.source_of_entry (h : c.Used) {text : String} {e : Expression}
    (he : c.entries[text]? = some e) : e.source = .text text :=
  h.of_entry (P := fun text e => e.source = .text text) (fun _ _ _ _ _ => rfl) he

/-- Expressions say what they were compiled from. -/
theorem Used.source_of_compile (h : c.Used) {source : Source} {e : Expression}
    (he : (c.compile source).1 = .ok e) : e.source = source := by
  cases source with
  | number x =>
    cases he
    rfl
  | text s =>
    have hbare := map_bare_compile c s
    rw [he] at hbare
    split at hbare
    · rename_i entry hentry
      rw [Expression.source_eq_of_bare (Except.ok.inj hbare)]
      exact h.source_of_entry hentry
    · split at hbare
      · cases hbare
      · rename_i code _
        have hsame : e.bare = Expression.bare ⟨.text s, code, none⟩ := Except.ok.inj hbare
        exact Expression.source_eq_of_bare hsame

/-- An expression is what a compiler makes of its source, up to the place of its entry. -/
def Makes (c : Compiler) (e : Expression) : Prop :=
  (c.compile e.source).1.map Expression.bare = .ok e.bare

theorem Alike.makes (h : c.Alike c') (hc : c.Used) {source : Source} {e : Expression}
    (he : (c'.compile source).1 = .ok e) : e.source = source ∧ c.Makes e := by
  have hsame := h source
  rw [he] at hsame
  have hsource : e.source = source := by
    cases hcompiled : (c.compile source).1 with
    | error cause =>
      rw [hcompiled] at hsame
      cases hsame
    | ok e' =>
      rw [hcompiled] at hsame
      rw [Expression.source_eq_of_bare (Except.ok.inj hsame)]
      exact hc.source_of_compile hcompiled
  refine ⟨hsource, ?_⟩
  unfold Makes
  rw [hsource]
  exact hsame.symm

end Compiler

/-! ### The first fault -/

namespace Build

/-- Building comes to its places in order: it fails for the first of them at which a compiler fails,
and else has a result of this kind. What it compiles on the way changes nothing about that. -/
def Visits {β : Type} (context : Context) (c : Compiler) (places : List Place) (Q : β → Prop)
    (b : Build β) : Prop :=
  ∀ c', c.Alike c' → c.Alike (b c').2 ∧
    match places.findSome? (·.error? context c) with
    | some cause => (b c').1 = .error cause
    | none => ∃ x, (b c').1 = .ok x ∧ Q x

section Visits

variable {α β γ : Type} {context : Context} {c : Compiler} {places places' : List Place}
  {Q : β → Prop} {R : γ → Prop}

theorem visits_pure {x : β} (h : Q x) : Visits context c [] Q (pure x) :=
  fun _ halike => ⟨halike, x, rfl, h⟩

theorem visits_throw (d : Defect) :
    Visits context c [.defect d] Q (throw (.invalid context d)) := fun _ halike => ⟨halike, rfl⟩

theorem Visits.bind {x : Build β} {f : β → Build γ} (hx : Visits context c places Q x)
    (hf : ∀ b, Q b → Visits context c places' R (f b)) :
    Visits context c (places ++ places') R (x >>= f) := by
  intro c' halike
  obtain ⟨hkept, hresult⟩ := hx c' halike
  rw [bind_apply, List.findSome?_append]
  rcases hxc : x c' with ⟨r, c₁⟩
  rw [hxc] at hkept hresult
  cases hfault : places.findSome? (·.error? context c) with
  | some cause =>
    rw [hfault] at hresult
    cases hresult
    exact ⟨hkept, rfl⟩
  | none =>
    rw [hfault] at hresult
    obtain ⟨b, rfl, hb⟩ := hresult
    exact hf b hb c₁ hkept

/-- What comes last may be put together without another place. -/
theorem Visits.map {x : Build β} {f : β → γ} (hx : Visits context c places Q x)
    (hf : ∀ b, Q b → R (f b)) :
    Visits context c places R (x >>= fun b => pure (f b)) := by
  have hall := hx.bind fun b hb => (visits_pure (hf b hb) : Visits context c [] R (pure (f b)))
  rwa [List.append_nil] at hall

/-- Elements of a list are visited one after the other. What is made of each of them leads back to
it, so that what is made of all of them leads back to the list. -/
theorem visits_each {f : α → Build β} {visited : α → List Place} {back : β → α}
    (hf : ∀ a, Visits context c (visited a) (back · = a) (f a)) (as : List α) :
    Visits context c (as.flatMap visited) (·.map back = as) (each f as) := by
  induction as with
  | nil => exact visits_pure rfl
  | cons a as ih =>
    rw [List.flatMap_cons]
    refine (hf a).bind fun b hb => ih.map fun bs hbs => ?_
    rw [List.map_cons, hb, hbs]

theorem visits_whenGiven {f : α → Build β} {visited : α → List Place} {back : β → α}
    (hf : ∀ a, Visits context c (visited a) (back · = a) (f a)) (a : Option α) :
    Visits context c (a.elim [] visited) (·.map back = a) (whenGiven f a) := by
  cases a with
  | none => exact visits_pure rfl
  | some a => exact (hf a).map fun b hb => congrArg some hb

end Visits

section Records

variable (context : Context) {c : Compiler}

theorem visits_field (hc : c.Used) (name : String) (source : Source) :
    Visits context c [.expression name source] (Expression.source · = source)
      (field context name source) := by
  intro c' halike
  have hkept := halike.compile source
  have hsame := halike source
  have hmakes (e : Expression) (he : (c'.compile source).1 = .ok e) := halike.makes hc he
  unfold field
  rcases hcompiled' : c'.compile source with ⟨r', c₁⟩
  rcases hcompiled : c.compile source with ⟨r, c₂⟩
  rw [hcompiled'] at hkept hsame hmakes
  rw [hcompiled] at hsame
  cases r with
  | error cause =>
    cases r' with
    | error cause' =>
      cases hsame
      exact ⟨hkept, by simp [Place.error?, hcompiled]⟩
    | ok e' => cases hsame
  | ok e =>
    cases r' with
    | error cause' => cases hsame
    | ok e' => exact ⟨hkept, by simp [Place.error?, hcompiled, (hmakes e' rfl).1]⟩

mutual

theorem visits_condition (hc : c.Used) : ∀ condition : Condition Source,
    Visits context c condition.places (·.map Expression.source = condition)
      (Build.condition context condition)
  | .expression e =>
    (visits_field context hc "expression" e).map fun _ he => congrArg Condition.expression he
  | .not condition =>
    (visits_condition hc condition).map fun _ h => congrArg Condition.not h
  | .all cs => (visits_conditions hc cs).map fun _ hcs => congrArg Condition.all hcs
  | .any cs => (visits_conditions hc cs).map fun _ hcs => congrArg Condition.any hcs
  | .count cs min max =>
    (visits_conditions hc cs).bind fun _ hcs =>
      (visits_field context hc "min" min).bind fun _ hmin =>
        (visits_field context hc "max" max).map fun _ hmax => by
          simp only [Condition.map, hcs, hmin, hmax]

theorem visits_conditions (hc : c.Used) : ∀ cs : List (Condition Source),
    Visits context c (Condition.allPlaces cs) (Condition.mapAll Expression.source · = cs)
      (conditions context cs)
  | [] => visits_pure rfl
  | condition :: cs =>
    (visits_condition hc condition).bind fun _ h => (visits_conditions hc cs).map fun _ hcs => by
      simp only [Condition.mapAll, h, hcs]

end

theorem visits_update (hc : c.Used) (u : VariableUpdate Source) :
    Visits context c [.expression "value" u.value] (·.map Expression.source = u)
      (update context u) :=
  (visits_field context hc "value" u.value).map fun _ he => by
    simp only [VariableUpdate.map, he]

theorem visits_amount (hc : c.Used) (a : ItemAmount Source) :
    Visits context c [.expression "amount" a.amount] (·.map Expression.source = a)
      (amount context a) :=
  (visits_field context hc "amount" a.amount).map fun _ he => by
    simp only [ItemAmount.map, he]

theorem visits_request (hc : c.Used) (r : TriggerRequest Source) :
    Visits context c [.expression "probability" r.probability] (·.map Expression.source = r)
      (request context r) :=
  (visits_field context hc "probability" r.probability).map fun _ he => by
    simp only [TriggerRequest.map, he]

mutual

theorem visits_action (hc : c.Used) : ∀ a : Action Source,
    Visits context c a.places (·.map Expression.source = a) (action context a)
  | .message _ | .stop _ | .endGame _ | .toggleEvents _ _ => visits_pure rfl
  | .randomMessage texts confirm icon => by
    unfold action
    cases texts with
    | nil => exact visits_throw .noMessages
    | cons text texts => exact visits_pure rfl
  | .choices text icon cs =>
    (visits_choices hc cs).map fun _ hcs => congrArg (Action.choices text icon) hcs
  | .random gs => by
    have hgroups := visits_groups hc gs
    unfold action
    cases gs with
    | nil => exact visits_throw .noGroups
    | cons g gs => exact hgroups.map fun _ hgs => congrArg Action.random hgs
  | .coinFlip probability success failure =>
    (visits_field context hc "probability" probability).bind fun _ hp =>
      (visits_actions hc success).bind fun _ hsuccess =>
        (visits_actions hc failure).map fun _ hfailure => by
          simp only [Action.map, hp, hsuccess, hfailure]
  | .switch bs => (visits_branches hc bs).map fun _ hbs => congrArg Action.switch hbs
  | .loop as stop _ _ =>
    (visits_actions hc as).bind fun _ has =>
      (visits_whenGiven (visits_condition context hc) stop).map fun _ hstop => by
        simp only [Action.map, has, hstop]
  | .updateVariable u =>
    (visits_update context hc u).map fun _ hu => congrArg Action.updateVariable hu
  | .updateVariables us =>
    (visits_each (visits_update context hc) us).map fun _ hus =>
      congrArg Action.updateVariables hus
  | .updateVariableLimits id min max =>
    (visits_whenGiven (visits_field context hc "min") min).bind fun _ hmin =>
      (visits_whenGiven (visits_field context hc "max") max).map fun _ hmax => by
        simp only [Action.map, hmin, hmax]
  | .giveItem a => (visits_amount context hc a).map fun _ ha => congrArg Action.giveItem ha
  | .updateItemAmounts as =>
    (visits_each (visits_amount context hc) as).map fun _ has =>
      congrArg Action.updateItemAmounts has
  | .setStatus status duration =>
    (visits_field context hc "duration" duration).map fun _ he =>
      congrArg (Action.setStatus status) he
  | .triggerEvents rs =>
    (visits_each (visits_request context hc) rs).map fun _ hrs =>
      congrArg Action.triggerEvents hrs

theorem visits_actions (hc : c.Used) : ∀ as : List (Action Source),
    Visits context c (Action.allPlaces as) (Action.mapAll Expression.source · = as)
      (actions context as)
  | [] => visits_pure rfl
  | a :: as =>
    (visits_action hc a).bind fun _ ha => (visits_actions hc as).map fun _ has => by
      simp only [Action.mapAll, ha, has]

theorem visits_choices (hc : c.Used) : ∀ cs : List (Choice Source (Action Source)),
    Visits context c (Action.choicesPlaces cs) (Action.mapChoices Expression.source · = cs)
      (choices context cs)
  | [] => visits_pure rfl
  | ⟨_, requirement, as⟩ :: cs =>
    (visits_whenGiven (visits_condition context hc) requirement).bind fun _ hrequirement =>
      (visits_actions hc as).bind fun _ has => (visits_choices hc cs).map fun _ hcs => by
        simp only [Action.mapChoices, hrequirement, has, hcs]

theorem visits_groups (hc : c.Used) : ∀ gs : List (Group Source (Action Source)),
    Visits context c (Action.groupsPlaces gs) (Action.mapGroups Expression.source · = gs)
      (groups context gs)
  | [] => visits_pure rfl
  | ⟨weight, as⟩ :: gs =>
    (visits_field context hc "weight" weight).bind fun _ hweight =>
      (visits_actions hc as).bind fun _ has => (visits_groups hc gs).map fun _ hgs => by
        simp only [Action.mapGroups, hweight, has, hgs]

theorem visits_branches (hc : c.Used) : ∀ bs : List (Branch Source (Action Source)),
    Visits context c (Action.branchesPlaces bs) (Action.mapBranches Expression.source · = bs)
      (branches context bs)
  | [] => visits_pure rfl
  | ⟨condition, as⟩ :: bs =>
    (visits_condition context hc condition).bind fun _ h =>
      (visits_actions hc as).bind fun _ has => (visits_branches hc bs).map fun _ hbs => by
        simp only [Action.mapBranches, h, has, hbs]

end

theorem visits_event (hc : c.Used) (e : Event Source) :
    Visits context c e.places (·.map Expression.source = e) (event context e) :=
  (visits_conditions context hc e.conditions).bind fun _ hconditions =>
    (visits_actions context hc e.actions).bind fun _ hactions =>
      (visits_field context hc "probability" e.probability).map fun _ hp => by
        simp only [Event.map, hconditions, hactions, hp]

end Records

/-! ### The context of an event -/

/-- An event that is written as an object is called by its id. -/
theorem eventContext_eq {ms : List (String × Json)} {r : Event Source}
    (h : Json.Decoder.event (.object ms) = .ok r) :
    eventContext (.object ms) = .definition .event r.id := by
  unfold Json.Decoder.event at h
  have hnames : ["id", "trigger", "conditions", "actions", "probability", "exclusions", "once",
    "disabledByDefault"].Nodup := by decide
  obtain ⟨values, -, hgather, rfl⟩ := Json.record_object_eq_ok h hnames
  obtain ⟨hid, -⟩ := Json.Fields.gather_eq_some hgather
  obtain ⟨-, habsent⟩ | ⟨j, hvalues, hdecode⟩ := Json.Field.value?_eq_some hid
  · cases habsent
  · have hlookup : ms.lookup "id" = some j := by
      rw [Json.lookup_eq_head?_valuesOf]
      exact congrArg List.head? hvalues
    cases j with
    | string s =>
      have hname : s = values.1 := Except.ok.inj hdecode
      simp only [eventContext, hlookup, hname]
      rfl
    | _ => cases hdecode

theorem eventOf_object {ms : List (String × Json)} {r : Event Source}
    (h : Json.Decoder.event (Json.object ms).canonical = .ok r) :
    eventOf (.object ms) = event (.definition .event r.id) r := by
  unfold eventOf
  have hcontext : eventContext (Json.object ms).canonical = .definition .event r.id :=
    eventContext_eq h
  simp only [h]
  exact congrArg (event · r) hcontext

/-! ### What is built -/

variable {β : Type} {context : Context} {c : Compiler}

theorem ensures_makes (hc : c.Used) (source : Source) :
    Ensures c.Alike c.Makes (Build.compile source) := by
  intro c' halike
  exact ⟨halike.compile source, fun _ he => (halike.makes hc he).2⟩

/-- Building succeeds exactly if a record has no fault, what it makes is of some kind, and it fails
exactly with the error of the first faulty place. -/
structure Exact (context : Context) (c : Compiler) (places : List Place) (faultless : Prop)
    (Q : β → Prop) (b : Build β) : Prop where
  succeeds_iff : (∃ x, (b c).1 = .ok x) ↔ faultless
  made : ∀ x, (b c).1 = .ok x → Q x
  fails_iff : ∀ cause, (b c).1 = .error cause ↔
    places.findSome? (·.error? context c) = some cause

theorem Visits.exact {places : List Place} {faultless : Prop} {Q R : β → Prop} {b : Build β}
    (h : Visits context c places Q b) (hfaultless : Faultless context c places ↔ faultless)
    (hensures : Ensures c.Alike R b) :
    Exact context c places faultless (fun x => Q x ∧ R x) b := by
  have hrefl : c.Alike c := fun _ => rfl
  have hresult := (h c hrefl).2
  have hmade := (hensures c hrefl).2
  have hnone : places.findSome? (·.error? context c) = none ↔ faultless :=
    List.findSome?_eq_none_iff.trans hfaultless
  cases hfault : places.findSome? (·.error? context c) with
  | some cause =>
    rw [hfault] at hresult hnone
    refine ⟨?_, ?_, ?_⟩
    · simpa [hresult] using hnone
    · simp [hresult]
    · simp [hresult, hfault]
  | none =>
    rw [hfault] at hresult hnone
    obtain ⟨x, hx, hq⟩ := hresult
    refine ⟨?_, ?_, ?_⟩
    · simpa [hx] using hnone
    · intro x' hx'
      cases hx.symm.trans hx'
      exact ⟨hq, hmade x hx⟩
    · simp [hx, hfault]

/-- Building makes of records exactly what they say. It succeeds exactly if every expression of the
record compiles and no action in it, at any depth, has nothing to choose from. What is built then
leads back to the record when every expression in it is replaced by its source, and every expression
is what the compiler makes of its source. It fails with the error of the first faulty place, which
tells the context and the name of the field; the context of an event is its id. -/
theorem builds_exactly (c : Compiler) (hc : c.Used) (context : Context) :
    (∀ r : Condition Source, Exact context c r.places (r.Of c.Accepts)
      (fun built => built.map Expression.source = r ∧ built.Of c.Makes) (condition context r)) ∧
    (∀ r : Action Source, Exact context c r.places
      (r.Of c.Accepts ∧ ∀ a ∈ r.parts, ¬ a.Empty)
      (fun built => built.map Expression.source = r ∧ built.Of c.Makes) (action context r)) ∧
    (∀ r : Event Source, Exact context c r.places
      (r.Of c.Accepts ∧ ∀ a ∈ Action.allParts r.actions, ¬ a.Empty)
      (fun built => built.map Expression.source = r ∧ built.Of c.Makes) (event context r)) ∧
    ∀ ms r, Json.Decoder.event (Json.object ms).canonical = .ok r →
      eventOf (.object ms) = event (.definition .event r.id) r := by
  have hmakes := ensures_makes hc
  refine ⟨fun r => ?_, fun r => ?_, fun r => ?_, fun ms r => eventOf_object⟩
  · exact (visits_condition context hc r).exact (Condition.faultless_places context c r)
      (ensures_condition hmakes context r)
  · exact (visits_action context hc r).exact (Action.faultless_places context c r)
      (ensures_action hmakes context r)
  · exact (visits_event context hc r).exact (r.faultless_places context c)
      (ensures_event hmakes context r)

/-! ### A riddle -/

/-- An event with two faults: its condition is no expression, and it leaves chance no choice. -/
def riddle : Event Source where
  id := "riddle"
  trigger := "asked"
  conditions := [.expression (.text "@")]
  actions := [.random []]
  probability := .number 1.0

/-- An event without faults. -/
def answer : Event Source where
  id := "answer"
  trigger := "asked"
  conditions := [.not (.expression (.number 0.0))]
  actions := [.random [⟨.number 1.0, [.stop true]⟩]]
  probability := .number 1.0

/-- An event that leaves everything to its defaults. -/
def gong : List (String × Json) := [("trigger", .string "struck"), ("id", .string "gong")]

theorem compile_riddle : (({} : Compiler).compile (.text "@")).1 =
    .error (.expression "@" (.characters "@" 0)) := by
  have hlex : Expr.lex "@" = .error ⟨"@", 0⟩ := by
    change Expr.Lexer.lexFrom 0 ['@'] = _
    unfold Expr.Lexer.lexFrom
    rfl
  simp [Compiler.compile, checkText, hlex]

theorem builds_exactly_riddle :
    Compiler.Used {} ∧
      (event (.definition .event "riddle") riddle {}).1 =
        .error (.field (.definition .event "riddle") "expression"
          (.expression "@" (.characters "@" 0))) ∧
      (action (.definition .event "riddle") (.random []) {}).1 =
        .error (.invalid (.definition .event "riddle") .noGroups) ∧
      (∃ built, (event (.definition .event "answer") answer {}).1 = .ok built ∧
        built.map Expression.source = answer) ∧
      eventOf (.object gong) = event (.definition .event "gong")
        { id := "gong", trigger := "struck", probability := .number 1.0 } := by
  obtain ⟨-, haction, hevent, hobject⟩ := builds_exactly {} .new (.definition .event "riddle")
  obtain ⟨-, -, hanswer, -⟩ := builds_exactly {} .new (.definition .event "answer")
  have hfault : riddle.places.findSome? (·.error? (.definition .event "riddle") {}) =
      some (.field (.definition .event "riddle") "expression"
        (.expression "@" (.characters "@" 0))) := by
    simp [riddle, Event.places, Condition.allPlaces, Condition.places, Place.error?,
      compile_riddle]
  refine ⟨.new, ((hevent riddle).fails_iff _).2 hfault, ((haction _).fails_iff _).2 rfl, ?_⟩
  have hnumber (x : Float) : Compiler.Accepts {} (.number x) := ⟨.constant x, rfl⟩
  have hsound : answer.Of (Compiler.Accepts {}) ∧
      ∀ a ∈ Action.allParts answer.actions, ¬ a.Empty := by
    refine ⟨⟨⟨hnumber 0.0, trivial⟩, ⟨⟨hnumber 1.0, ⟨trivial, trivial⟩, trivial⟩, trivial⟩,
      hnumber 1.0⟩, ?_⟩
    simp [answer, Action.allParts, Action.parts, Action.groupsParts, Action.Empty]
  obtain ⟨built, hbuilt⟩ := (hanswer answer).succeeds_iff.2 hsound
  exact ⟨⟨built, hbuilt, ((hanswer answer).made built hbuilt).1⟩, hobject gong _ rfl⟩

end Build

end Scenario
