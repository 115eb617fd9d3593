import Mathlib.Data.List.Nodup
import Scenario.Proofs.Compiling
import Scenario.Proofs.Registry

/-!
What loading a document does to an engine. A document is built before any of it is registered, and
building touches nothing but the compiler. Registration then puts in one definition after the other
and stops at the first that is there already, be it from before or from the same document; all that
was there stays as it was.
-/

namespace Scenario

/-! ### Definitions -/

/-- One of the things that a document defines. -/
inductive Definition
  | var (id : String) (v : Variable)
  | attr (a : Attribute)
  | item (p : Provider Expression)
  | status (p : Provider Expression)
  | event (event : Event Expression)

namespace Definition

/-- What a definition defines: no two definitions may define the same. -/
def subject : Definition → Kind × String
  | .var id _ => (.variable, id)
  | .attr a => (.attribute, a.id)
  | .item p => (.item, p.id)
  | .status p => (.status, p.id)
  | .event e => (.event, e.id)

/-- The bounds of a definition, if it has any, are in order. -/
def Valid : Definition → Prop
  | .var _ v => validBounds v.min v.max
  | .attr a => validBounds a.min a.max
  | _ => True

end Definition

/-- Everything that a document defines, in the order in which it is registered. -/
def Definitions.all (d : Definitions) : List Definition :=
  d.vars.map (fun (id, v) => .var id v) ++ (d.attributes.map .attr ++
    (d.items.map .item ++ (d.statuses.map .status ++ d.events.map .event)))

theorem Definitions.Of.valid {P : Expression → Prop} {d : Definitions} (h : d.Of P) :
    ∀ definition ∈ d.all, definition.Valid := by
  unfold Definitions.all
  simp only [List.forall_mem_append, List.forall_mem_map]
  exact ⟨h.vars, h.attributes, fun _ _ => trivial, fun _ _ => trivial, fun _ _ => trivial⟩

/-- The registry with one more event. -/
def Registry.push (r : Registry) (event : Event Expression) : Registry where
  events := r.events.push event
  flags := r.flags.push (.initial event)
  index := r.index.insert event.id r.events.size
  byTrigger :=
    r.byTrigger.insert event.trigger ((r.byTrigger[event.trigger]?).getD [] ++ [r.events.size])

namespace State

def defines (s : State) : Kind × String → Bool
  | (.variable, id) => s.vars.contains id
  | (.attribute, id) => s.attributes.contains id
  | (.item, id) => s.items.contains id
  | (.status, id) => s.statusKinds.contains id
  | (.event, id) => s.registry.index.contains id

def install (s : State) : Definition → State
  | .var id v => { s with vars := s.vars.insert id v }
  | .attr a => { s with attributes := s.attributes.insert a.id a }
  | .item p => { s with items := s.items.insert p.id p }
  | .status p => { s with statusKinds := s.statusKinds.insert p.id p }
  | .event event => { s with registry := s.registry.push event }

theorem defines_install (s : State) (d : Definition) (subject : Kind × String) :
    (s.install d).defines subject = (decide (d.subject = subject) || s.defines subject) := by
  obtain ⟨kind, id⟩ := subject
  cases d <;> cases kind <;>
    simp [install, defines, Definition.subject, Registry.push, contains_insert_id,
      -Std.ExtTreeMap.contains_insert]

/-- A list of definitions of which each is new to a state and to those before it. -/
def Fresh (s : State) (ds : List Definition) : Prop :=
  (∀ d ∈ ds, s.defines d.subject = false) ∧ (ds.map Definition.subject).Nodup

theorem fresh_nil (s : State) : s.Fresh [] := ⟨List.forall_mem_nil _, List.nodup_nil⟩

theorem fresh_cons {s : State} {d : Definition} {ds : List Definition} :
    s.Fresh (d :: ds) ↔ s.defines d.subject = false ∧ (s.install d).Fresh ds := by
  unfold Fresh
  simp only [List.forall_mem_cons, List.map_cons, List.nodup_cons, defines_install,
    Bool.or_eq_false_iff, decide_eq_false_iff_not]
  constructor
  · rintro ⟨⟨hnew, hds⟩, hapart, hnodup⟩
    refine ⟨hnew, fun d' hd' => ⟨fun hsame => ?_, hds d' hd'⟩, hnodup⟩
    exact hapart (hsame ▸ List.mem_map_of_mem hd')
  · rintro ⟨hnew, hds, hnodup⟩
    refine ⟨⟨hnew, fun d' hd' => (hds d' hd').2⟩, fun hmem => ?_, hnodup⟩
    obtain ⟨d', hd', hsame⟩ := List.mem_map.1 hmem
    exact (hds d' hd').1 hsame.symm

/-! ### What stays -/

/-- A state has all that another one has and is the same in what definitions cannot touch. -/
structure KeptIn (s s' : State) : Prop where
  config : s'.config = s.config
  vars : ∀ (id : String) (v : Variable), s.vars[id]? = some v → s'.vars[id]? = some v
  attributes : ∀ (id : String) (a : Attribute),
    s.attributes[id]? = some a → s'.attributes[id]? = some a
  items : ∀ (id : String) (p : Provider Expression), s.items[id]? = some p → s'.items[id]? = some p
  statusKinds : ∀ (id : String) (p : Provider Expression),
    s.statusKinds[id]? = some p → s'.statusKinds[id]? = some p
  events : ∀ (id : String) (event : Event Expression),
    s.registry.get? id = some event → s'.registry.get? id = some event
  flags : ∀ (id : String) (flags : EventFlags),
    s.registry.flags? id = some flags → s'.registry.flags? id = some flags
  order : s.registry.events.toList <+: s'.registry.events.toList
  inventory : s'.inventory = s.inventory
  statuses : s'.statuses = s.statuses
  queue : s'.queue = s.queue
  random : s'.random = s.random
  ending : s'.ending = s.ending
  notifications : s'.notifications = s.notifications

theorem getElem?_push_of_some {α : Type} {as : Array α} {i : Nat} {a b : α}
    (h : as[i]? = some a) : (as.push b)[i]? = some a := by
  obtain ⟨hlt, -⟩ := Array.getElem?_eq_some_iff.1 h
  rw [Array.getElem?_push, if_neg (Nat.ne_of_lt hlt), h]

namespace KeptIn

variable {s s₁ s' : State}

theorem refl (s : State) : s.KeptIn s := by
  constructor
  case order => exact List.prefix_refl _
  all_goals intros; first | rfl | assumption

theorem trans (h : s.KeptIn s₁) (h' : s₁.KeptIn s') : s.KeptIn s' where
  config := h'.config.trans h.config
  vars id v hv := h'.vars id v (h.vars id v hv)
  attributes id a ha := h'.attributes id a (h.attributes id a ha)
  items id p hp := h'.items id p (h.items id p hp)
  statusKinds id p hp := h'.statusKinds id p (h.statusKinds id p hp)
  events id event hevent := h'.events id event (h.events id event hevent)
  flags id flags hflags := h'.flags id flags (h.flags id flags hflags)
  order := h.order.trans h'.order
  inventory := h'.inventory.trans h.inventory
  statuses := h'.statuses.trans h.statuses
  queue := h'.queue.trans h.queue
  random := h'.random.trans h.random
  ending := h'.ending.trans h.ending
  notifications := h'.notifications.trans h.notifications

theorem install {d : Definition} (h : s.defines d.subject = false) : s.KeptIn (s.install d) := by
  cases d with
  | var id v => exact { refl s with vars := fun _ _ => getElem?_insert_of_new h v }
  | attr a => exact { refl s with attributes := fun _ _ => getElem?_insert_of_new h a }
  | item p => exact { refl s with items := fun _ _ => getElem?_insert_of_new h p }
  | status p => exact { refl s with statusKinds := fun _ _ => getElem?_insert_of_new h p }
  | event event =>
    refine { refl s with events := ?_, flags := ?_, order := ?_ }
    · intro id old hold
      obtain ⟨i, hi, hevent⟩ := Option.bind_eq_some_iff.1 hold
      exact Option.bind_eq_some_iff.2
        ⟨i, getElem?_insert_of_new h _ hi, getElem?_push_of_some hevent⟩
    · intro id flags hflags
      obtain ⟨i, hi, hflags⟩ := Option.bind_eq_some_iff.1 hflags
      exact Option.bind_eq_some_iff.2
        ⟨i, getElem?_insert_of_new h _ hi, getElem?_push_of_some hflags⟩
    · exact ⟨[event], Array.toList_push.symm⟩

end KeptIn

theorem Fresh.kept {s : State} {ds : List Definition} (h : s.Fresh ds) :
    s.KeptIn (ds.foldl State.install s) := by
  induction ds generalizing s with
  | nil => exact .refl s
  | cons d ds ih =>
    obtain ⟨hnew, hrest⟩ := fresh_cons.1 h
    exact (KeptIn.install hnew).trans (ih hrest)

end State

/-! ### Registration -/

namespace Engine

variable {e : Engine}

def register (e : Engine) : Definition → Except Error Engine
  | .var id v => e.defineVariable id v
  | .attr a => e.registerAttribute a
  | .item p => e.registerItem p
  | .status p => e.registerStatus p
  | .event event => e.registerEvent event

/-- Registration refuses what is there already, and nothing else if bounds are in order. -/
theorem register_eq {d : Definition} (h : d.Valid) :
    e.register d =
      if e.state.defines d.subject then .error (.usage (.duplicate d.subject.1 d.subject.2))
      else .ok (e.setState (e.state.install d)) := by
  cases d with
  | var id v =>
    have hvalid : validBounds v.min v.max = true := h
    unfold register defineVariable
    dsimp only
    rw [hvalid]
    rfl
  | attr a =>
    have hvalid : validBounds a.min a.max = true := h
    unfold register registerAttribute
    dsimp only
    rw [hvalid]
    rfl
  | item p => rfl
  | status p => rfl
  | event event =>
    unfold register registerEvent Registry.register
    dsimp only
    cases hknown : e.state.registry.index.contains event.id with
    | true =>
      rw [show e.state.defines (Definition.event event).subject = true from hknown]
      rfl
    | false =>
      rw [show e.state.defines (Definition.event event).subject = false from hknown]
      rfl

theorem registerEach_map {α β : Type} (f : Engine → β → Except Error Engine) (g : α → β)
    (as : List α) : registerEach f (as.map g) = registerEach (fun e a => f e (g a)) as := by
  funext e
  induction as generalizing e with
  | nil => rfl
  | cons a as ih =>
    rw [List.map_cons, registerEach, registerEach]
    cases f e (g a) with
    | ok e' => exact ih e'
    | error cause => rfl

theorem registerEach_append {α : Type} (f : Engine → α → Except Error Engine) (as bs : List α) :
    registerEach f (as ++ bs) = fun e => andThen (registerEach f as e) (registerEach f bs) := by
  funext e
  induction as generalizing e with
  | nil => rfl
  | cons a as ih =>
    rw [List.cons_append, registerEach, registerEach]
    cases f e a with
    | ok e' => exact ih e'
    | error cause => rfl

theorem registerAll_eq (d : Definitions) : e.registerAll d = registerEach register d.all e := by
  unfold Definitions.all registerAll
  simp only [registerEach_append, registerEach_map]
  rfl

/-- Definitions leave what is there as it is. -/
theorem keptByDefining_keptIn (s : State) : KeptByDefining fun e => s.KeptIn e.state where
  compiler _ h := h
  defineVariable {_ _ id v} h hx := by
    obtain ⟨hnew, -, rfl⟩ := defineVariable_eq_ok hx
    exact h.trans (.install (d := .var id v) hnew)
  registerAttribute {_ _ a} h hx := by
    obtain ⟨hnew, -, rfl⟩ := registerAttribute_eq_ok hx
    exact h.trans (.install (d := .attr a) hnew)
  registerItem {_ _ p} h hx := by
    obtain ⟨hnew, rfl⟩ := registerItem_eq_ok hx
    exact h.trans (.install (d := .item p) hnew)
  registerStatus {_ _ p} h hx := by
    obtain ⟨hnew, rfl⟩ := registerStatus_eq_ok hx
    exact h.trans (.install (d := .status p) hnew)
  registerEvent {_ _ event} h hx := by
    obtain ⟨registry, hr, rfl⟩ := registerEvent_eq_ok hx
    obtain ⟨hnew, rfl⟩ := Registry.register_eq_ok hr
    exact h.trans (.install (d := .event event) hnew)

theorem perform_keptIn (screen : Screen) {call : Call} (h : call.Defines) :
    e.state.KeptIn (e.perform screen call).2.state :=
  (keptByDefining_keptIn e.state).perform (.refl _) screen h

/-- Registration puts in what is fresh and stops at the first definition that is not. -/
inductive Registration (e : Engine) (ds : List Definition) : Except Error Unit × Engine → Prop
  | finished (hfresh : e.state.Fresh ds) :
    Registration e ds (.ok (), e.setState (ds.foldl State.install e.state))
  | stopped {before after : List Definition} {d : Definition} (hds : ds = before ++ d :: after)
    (hfresh : e.state.Fresh before)
    (hknown : e.state.defines d.subject ∨ d.subject ∈ before.map Definition.subject) :
    Registration e ds (.error (.usage (.duplicate d.subject.1 d.subject.2)),
      e.setState (before.foldl State.install e.state))

theorem registerEach_registration {ds : List Definition} (h : ∀ d ∈ ds, d.Valid) :
    e.Registration ds (registerEach register ds e) := by
  induction ds generalizing e with
  | nil => exact .finished (e.state.fresh_nil)
  | cons d ds ih =>
    rw [registerEach, register_eq (h d List.mem_cons_self)]
    cases hdefined : e.state.defines d.subject with
    | true =>
      have hds : d :: ds = [] ++ d :: ds := rfl
      exact .stopped hds e.state.fresh_nil (.inl hdefined)
    | false =>
      have hrest := ih (e := e.setState (e.state.install d)) fun d' hd' =>
        h d' (List.mem_cons_of_mem d hd')
      rw [if_neg Bool.false_ne_true]
      dsimp only
      generalize registerEach register ds (e.setState (e.state.install d)) = outcome at hrest
      cases hrest with
      | finished hfresh => exact .finished (State.fresh_cons.2 ⟨hdefined, hfresh⟩)
      | @stopped before after d' hds hfresh hknown =>
        have hmore : d :: ds = (d :: before) ++ d' :: after := congrArg (d :: ·) hds
        refine .stopped hmore (State.fresh_cons.2 ⟨hdefined, hfresh⟩) ?_
        rw [List.map_cons, List.mem_cons]
        rcases hknown with hknown | hearlier
        · have hdefines : (decide (d.subject = d'.subject) || e.state.defines d'.subject) = true :=
            (State.defines_install e.state d d'.subject).symm.trans hknown
          rw [Bool.or_eq_true, decide_eq_true_eq] at hdefines
          exact hdefines.elim (fun hsame => .inr (.inl hsame.symm)) .inl
        · exact .inr (.inr hearlier)

end Engine

/-! ### Documents -/

/-- The definitions are those of the document, one for one and in its order, variables by id. -/
structure Definitions.BuiltFrom (document : Content) (d : Definitions) : Prop where
  vars : d.vars = document.vars.toList.map fun (id, saved) => (id, saved.toVariable)
  attributes : d.attributes = document.attributes
  items : List.Forall₂ (fun record p => ∃ c c', Build.provider .item record c = (.ok p, c'))
    document.items d.items
  statuses : List.Forall₂ (fun record p => ∃ c c', Build.provider .status record c = (.ok p, c'))
    document.statuses d.statuses
  events : List.Forall₂ (fun j event => ∃ c c', Build.eventOf j c = (.ok event, c'))
    document.events d.events

namespace Build

variable {α β : Type} {c c' : Compiler}

theorem forall₂_of_each_eq_ok {f : α → Build β} {as : List α} {bs : List β}
    (h : each f as c = (.ok bs, c')) :
    List.Forall₂ (fun a b => ∃ c c', f a c = (.ok b, c')) as bs := by
  induction as generalizing bs c c' with
  | nil =>
    cases h
    exact .nil
  | cons a as ih =>
    obtain ⟨b, c₁, hb, h⟩ := bind_eq_ok h
    obtain ⟨rest, c₂, hrest, h⟩ := bind_eq_ok h
    cases h
    exact .cons ⟨c, c₁, hb⟩ (ih hrest)

/-- Where each value is made in one way only, the list is. -/
theorem eq_map_of_each_eq_ok {f : α → Build β} {g : α → β}
    (hf : ∀ a b c c', f a c = (.ok b, c') → b = g a) {as : List α} {bs : List β}
    (h : each f as c = (.ok bs, c')) : bs = as.map g := by
  have hmade := forall₂_of_each_eq_ok h
  clear h
  induction hmade with
  | nil => rfl
  | cons hb _ ih =>
    obtain ⟨c, c', hb⟩ := hb
    rw [hf _ _ c c' hb, ih]
    rfl

theorem variableOf_eq_ok {id : String} {saved : SavedVariable} {entry : String × Variable}
    (h : variableOf id saved c = (.ok entry, c')) : entry = (id, saved.toVariable) := by
  obtain ⟨⟨⟩, c₁, -, h⟩ := bind_eq_ok h
  cases h
  rfl

theorem checkAttribute_eq_ok {a b : Attribute} (h : checkAttribute a c = (.ok b, c')) : b = a := by
  obtain ⟨⟨⟩, c₁, -, h⟩ := bind_eq_ok h
  cases h
  rfl

theorem contentOfText_eq_ok {text : String} {d : Definitions}
    (h : contentOfText text c = (.ok d, c')) :
    ∃ document, Json.Decoder.content.ofText text = .ok document ∧ d.BuiltFrom document := by
  unfold contentOfText at h
  cases hread : Json.Decoder.content.ofText text with
  | error fault =>
    rw [hread] at h
    cases h
  | ok document =>
    rw [hread] at h
    obtain ⟨vars, c₁, hvars, h⟩ := bind_eq_ok h
    obtain ⟨attributes, c₂, hattributes, h⟩ := bind_eq_ok h
    obtain ⟨items, c₃, hitems, h⟩ := bind_eq_ok h
    obtain ⟨statuses, c₄, hstatuses, h⟩ := bind_eq_ok h
    obtain ⟨events, c₅, hevents, h⟩ := bind_eq_ok h
    cases h
    have hvars' := eq_map_of_each_eq_ok (g := fun entry => (entry.1, entry.2.toVariable))
      (fun entry _ _ _ hmade => variableOf_eq_ok hmade) hvars
    have hattributes' := eq_map_of_each_eq_ok (g := fun a => a)
      (fun _ _ _ _ hmade => checkAttribute_eq_ok hmade) hattributes
    rw [List.map_id'] at hattributes'
    exact ⟨document, rfl, hvars', hattributes', forall₂_of_each_eq_ok hitems,
      forall₂_of_each_eq_ok hstatuses, forall₂_of_each_eq_ok hevents⟩

end Build

/-- A compiler that knows the same functions as another one, and has all of its expressions. -/
structure Compiler.Grows (c c' : Compiler) : Prop where
  functions : c'.functions = c.functions
  entries : ∀ (text : String) (x : Expression), c.entries[text]? = some x →
    c'.entries[text]? = some x

theorem Compiler.Grows.compile {c c' : Compiler} (h : c.Grows c') (source : Source) :
    c.Grows (c'.compile source).2 := by
  cases source with
  | number x => exact h
  | text s =>
    obtain hkept | ⟨hnew, code, -, hadded⟩ := compile_snd c' s
    · rw [hkept]
      exact h
    · rw [hadded]
      refine ⟨h.functions, fun text x hx => ?_⟩
      exact getElem?_insert_of_new (by rw [contains_eq_isSome, hnew]; rfl) _ (h.entries text x hx)

theorem Build.contentOfText_grows (text : String) (c : Compiler) :
    c.Grows (contentOfText text c).2 :=
  keeps_contentOfText (P := c.Grows) (fun _ source h => h.compile source) text c
    ⟨rfl, fun _ _ h => h⟩

/-! ### Loading -/

namespace Engine

variable {e : Engine}

/-- How loading a document can go: the document is refused, or what it defines is registered, all of
it or what stands before the first definition of something that is defined already. -/
inductive Loading (e : Engine) (text : String) : Except Error Unit × Engine → Prop
  | refused {cause : DefinitionError} {compiler : Compiler}
    (hbuild : Build.contentOfText text e.compiler = (.error cause, compiler)) :
    Loading e text (.error (.definition cause), { e with compiler })
  | registered {document : Content} {d : Definitions} {compiler : Compiler}
    {outcome : Except Error Unit × Engine}
    (hread : Json.Decoder.content.ofText text = .ok document) (hd : d.BuiltFrom document)
    (hbuild : Build.contentOfText text e.compiler = (.ok d, compiler))
    (hregistration : Registration { e with compiler } d.all outcome) :
    Loading e text outcome

theorem loadContent_loading (e : Engine) (text : String) : e.Loading text (e.loadContent text) := by
  unfold loadContent
  have hvalid := (Build.ensures_contentOfText (P := fun _ => True) (Q := fun _ => True)
    (fun _ _ _ => ⟨trivial, fun _ _ => trivial⟩) text e.compiler trivial).2
  rcases hbuild : (Build.contentOfText text).run e.compiler with ⟨built, compiler⟩
  have hrun : Build.contentOfText text e.compiler = (built, compiler) := hbuild
  rw [hrun] at hvalid
  cases built with
  | error cause => exact .refused hbuild
  | ok d =>
    obtain ⟨document, hread, hd⟩ := Build.contentOfText_eq_ok hrun
    refine .registered hread hd hrun ?_
    dsimp only
    rw [registerAll_eq]
    exact registerEach_registration (hvalid d rfl).valid

theorem Registration.kept {ds : List Definition} {outcome : Except Error Unit × Engine}
    (h : e.Registration ds outcome) :
    e.state.KeptIn outcome.2.state ∧ outcome.2 = e.setState outcome.2.state ∧
      ∀ cause, outcome.1 ≠ .error (.definition cause) := by
  cases h with
  | finished hfresh => exact ⟨hfresh.kept, rfl, by rintro cause ⟨⟩⟩
  | stopped hds hfresh hknown => exact ⟨hfresh.kept, rfl, by rintro cause ⟨⟩⟩

/-- A document that is refused leaves the engine as it was, but for the compiler; registration
refuses nothing but duplicates, and registers all that stands before the first one. Nothing that was
there changes in any case. -/
theorem loadContent_outcome (e : Engine) (text : String) :
    e.Loading text (e.loadContent text) ∧
    (∀ cause, (e.loadContent text).1 = .error (.definition cause) →
      (Build.contentOfText text e.compiler).1 = .error cause ∧
        (e.loadContent text).2 = { e with compiler := (e.loadContent text).2.compiler }) ∧
    e.state.KeptIn (e.loadContent text).2.state ∧
    (e.loadContent text).2.inFlight = e.inFlight ∧
    e.compiler.Grows (e.loadContent text).2.compiler := by
  have hloading := loadContent_loading e text
  have hgrows := Build.contentOfText_grows text e.compiler
  refine ⟨hloading, ?_⟩
  generalize e.loadContent text = outcome at hloading
  cases hloading with
  | refused hbuild =>
    rw [hbuild] at hgrows
    refine ⟨?_, .refl _, rfl, hgrows⟩
    rintro cause ⟨⟩
    rw [hbuild]
    exact ⟨rfl, rfl⟩
  | registered hread hd hbuild hregistration =>
    obtain ⟨hkept, hstate, hnone⟩ := hregistration.kept
    rw [hbuild] at hgrows
    refine ⟨fun cause hcause => absurd hcause (hnone cause), hkept, ?_, ?_⟩
    · rw [hstate]
      rfl
    · rw [hstate]
      exact hgrows

end Engine

end Scenario
