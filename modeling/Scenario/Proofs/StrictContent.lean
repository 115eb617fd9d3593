import Scenario.Proofs.JsonText
import Scenario.Proofs.KeyOrder
import Scenario.Proofs.Strictness

/-!
Loading is strict. A document that loads has no member in any of its records that their shapes do
not declare, and with one more of them, wherever it is put, the document is malformed.
-/

namespace Scenario

/-! ### Records inside -/

theorem Inside.accepts {holding : Holding} {t : Shape} {j i : Json} {around : Json → Json}
    (h : Inside holding j t i around) (haccepts : holding.Accepts j) : t.Accepts i := by
  induction h with
  | here => exact haccepts
  | given hgiven _ ih => exact ih (haccepts.resolve_left hgiven)
  | item before after _ ih =>
    obtain ⟨js, hjs, hall⟩ := haccepts
    cases hjs
    exact ih (hall _ (by simp))
  | @member s t key j i around roster holding before after hroster hkey hlast _ ih =>
    obtain ⟨roster', hroster', hfits⟩ := Shape.Accepts.fits haccepts
    obtain rfl : roster' = roster := Option.some.inj (hroster'.symm.trans hroster)
    exact ih (hfits.member hkey hlast)
  | @entry s t key j i around roster holding before after hroster hkey _ ih =>
    obtain ⟨roster', hroster', hfits⟩ := Shape.Accepts.fits haccepts
    obtain rfl : roster' = roster := Option.some.inj (hroster'.symm.trans hroster)
    exact ih (hfits.entry hkey)

/-- With a member that its shape does not declare no record decodes. -/
theorem Shape.not_accepts_undeclared {s : Shape} {before after : List (String × Json)}
    {roster : Roster} (hroster : s.roster? (.object (before ++ after)) = some roster) {key : String}
    (hkey : key ∉ roster.map Prod.fst) (v : Json) :
    ¬ s.Accepts (.object (before ++ (key, v) :: after)) := by
  intro h
  obtain ⟨roster', hroster', hfits⟩ := h.fits
  have hsame : roster' = roster := by
    unfold Shape.roster? at hroster hroster'
    cases hform : s.form with
    | fields roster₁ =>
      rw [hform] at hroster hroster'
      exact Option.some.inj (hroster'.symm.trans hroster)
    | kinds rosters =>
      rw [hform] at hroster hroster'
      have hne : key ≠ "id" := by
        rintro rfl
        obtain ⟨roster₁, -, rfl⟩ := Option.map_eq_some_iff.1 hroster
        exact hkey List.mem_cons_self
      dsimp only [Json.tag?] at hroster hroster'
      rw [Json.lastOf_of_ne hne] at hroster'
      exact Option.some.inj (hroster'.symm.trans hroster)
  subst hsame
  exact hkey (hfits.declared (by simp))

/-! ### Places of events -/

theorem Inside.not_accepts {holding : Holding} {t : Shape} {j i i' : Json} {around : Json → Json}
    (h : Inside holding j t i around) (hi : i' ≠ .null) (hbad : ¬ t.Accepts i') :
    ¬ holding.Accepts (around i') := fun haccepts => hbad ((h.replace hi).accepts haccepts)

/-- Among what documents hold, only events are not looked into until they are built. -/
theorem Inside.eq_events {c : Content} {holding : Holding} {t : Shape} {j i i' : Json}
    {around : Json → Json} (h : Inside holding j t i around) (hi : i' ≠ .null)
    (hbad : ¬ t.Accepts i') (hof : holding.Of c (around i')) : holding = .many .event := by
  unfold Holding.Of at hof
  split at hof
  · rfl
  · exact absurd hof (h.not_accepts hi hbad)

namespace Json.Fields

variable {αs : List Type}

/-- Values of fields that are the same but for that of the field of some name. -/
def Same (key : String) : {αs : List Type} → Fields αs → Values αs → Values αs → Prop
  | _, .nil, _, _ => True
  | _, .cons field fields, values, values' =>
    (field.name ≠ key → values.1 = values'.1) ∧ fields.Same key values.2 values'.2

theorem Same.refl (key : String) (fields : Fields αs) (values : Values αs) :
    fields.Same key values values := by
  induction fields with
  | nil => trivial
  | cons field fields ih => exact ⟨fun _ => rfl, ih values.2⟩

theorem same_of_gather {fields : Fields αs} {key : String} {before after : List (String × Json)}
    {x y : Json} {values values' : Values αs}
    (h : fields.gather (before ++ (key, x) :: after) = some values)
    (h' : fields.gather (before ++ (key, y) :: after) = some values') :
    fields.Same key values values' := by
  induction fields with
  | nil => trivial
  | cons field fields ih =>
    obtain ⟨hfirst, hrest⟩ := gather_eq_some h
    obtain ⟨hfirst', hrest'⟩ := gather_eq_some h'
    refine ⟨fun hne => ?_, ih hrest hrest'⟩
    unfold Field.value? at hfirst hfirst'
    rw [valuesOf_of_ne (Ne.symm hne)] at hfirst hfirst'
    exact Option.some.inj (hfirst.symm.trans hfirst')

theorem same_of_ofItems {fields : Fields αs} {key : String} {before after : List Json} {x y : Json}
    {values values' : Values αs} (hkey : fields.names[before.length]? = some key)
    (h : fields.ofItems (before ++ x :: after) = .ok values)
    (h' : fields.ofItems (before ++ y :: after) = .ok values') :
    fields.Same key values values' := by
  induction fields generalizing before with
  | nil => cases hkey
  | cons field fields ih =>
    cases before with
    | nil =>
      cases hkey
      have hrest := (ofItems_cons h).2
      have hrest' := (ofItems_cons h').2
      refine ⟨absurd rfl, ?_⟩
      rw [Except.ok.inj (hrest.symm.trans hrest')]
      exact .refl _ fields _
    | cons i before =>
      obtain ⟨hfirst, hrest⟩ := ofItems_cons h
      obtain ⟨hfirst', hrest'⟩ := ofItems_cons h'
      exact ⟨fun _ => Except.ok.inj (hfirst.symm.trans hfirst'), ih hkey hrest hrest'⟩

end Json.Fields

namespace Json

/-- Records that differ in the value of one field only, members of an object or items in the order
of the fields. -/
inductive Replaced (names : List String) (key : String) : Json → Json → Prop
  | member (before after : List (String × Json)) (x y : Json) :
    Replaced names key (.object (before ++ (key, x) :: after))
      (.object (before ++ (key, y) :: after))
  | entry (before after : List Json) (x y : Json) (hkey : names[before.length]? = some key) :
    Replaced names key (.array (before ++ x :: after)) (.array (before ++ y :: after))

theorem Replaced.same {α : Type} {αs : List Type} {fields : Fields αs} {build : Values αs → α}
    {key : String} {j j' : Json} {a a' : α} (hj : Decoder.record true fields build j = .ok a)
    (hj' : Decoder.record true fields build j' = .ok a') (hnames : fields.names.Nodup)
    (h : Replaced fields.names key j j') :
    ∃ values values', build values = a ∧ build values' = a' ∧ fields.Same key values values' := by
  cases h with
  | member before after x y =>
    obtain ⟨values, -, hgather, hbuild⟩ := record_object_eq_ok hj hnames
    obtain ⟨values', -, hgather', hbuild'⟩ := record_object_eq_ok hj' hnames
    exact ⟨values, values', hbuild, hbuild', Fields.same_of_gather hgather hgather'⟩
  | entry before after x y hkey =>
    obtain ⟨values, hitems, hbuild⟩ := record_array_eq_ok hj
    obtain ⟨values', hitems', hbuild'⟩ := record_array_eq_ok hj'
    exact ⟨values, values', hbuild, hbuild', Fields.same_of_ofItems hkey hitems hitems'⟩

end Json

section Documents

variable {c c' : Content}

/-- Documents in which only the events have been replaced are the same but for them. -/
theorem content_of_replaced {j j' : Json} (hc : Json.Decoder.content j = .ok c)
    (hc' : Json.Decoder.content j' = .ok c')
    (h : Json.Replaced ["variables", "attributes", "items", "statuses", "events"] "events" j j') :
    c' = { c with events := c'.events } := by
  obtain ⟨⟨vars, attributes, items, statuses, events⟩,
    ⟨vars', attributes', items', statuses', events'⟩, rfl, rfl, hvars, hattributes, hitems,
    hstatuses, -⟩ := Json.Replaced.same hc hc' (by decide) h
  cases hvars (by decide)
  cases hattributes (by decide)
  cases hitems (by decide)
  cases hstatuses (by decide)
  rfl

/-- When something that does not decode is put into a document in the place of a record, the
document does not decode either, or the record is in an event, which alone is another one. -/
theorem Inside.replaced {t : Shape} {j i i' : Json} {around : Json → Json}
    (h : Inside (.one .document) j t i around) (hi : i' ≠ .null) (hbad : ¬ t.Accepts i')
    (hdocument : t = .document → ∀ c, Json.Decoder.content i' ≠ .ok c)
    (hc : Json.Decoder.content j = .ok c) (hc' : Json.Decoder.content (around i') = .ok c') :
    ∃ before e e' after, c.events = before ++ e :: after ∧
      c' = { c with events := before ++ e' :: after } ∧ ¬ Shape.event.Accepts e' := by
  obtain ⟨roster₁, hroster₁, hfits⟩ := content_fits hc
  obtain ⟨roster₂, hroster₂, hfits'⟩ := content_fits hc'
  cases hroster₁
  cases hroster₂
  have hevents {j : Json} {around : Json → Json} (h : Inside (.many .event) j t i around)
      (hj : j = .array c.events) (haround : around i' = .array c'.events)
      (hothers : c' = { c with events := c'.events }) :
      ∃ before e e' after, c.events = before ++ e :: after ∧
        c' = { c with events := before ++ e' :: after } ∧ ¬ Shape.event.Accepts e' := by
    cases h with
    | @item _ _ e _ around before after h =>
      refine ⟨before, e, around i', after, (Json.array.inj hj).symm, ?_, h.not_accepts hi hbad⟩
      rw [hothers, Json.array.inj haround]
  cases h with
  | here => exact absurd hc' (hdocument rfl c')
  | @member _ _ key j _ around roster holding before after hroster hkey hlast h =>
    cases hroster
    have hold := hfits.member hkey hlast
    have hold' := hfits'.member hkey hlast
    -- Only events are taken over unread, so that nothing else can hold what does not decode.
    obtain rfl := h.eq_events hi hbad hold'
    obtain rfl : key = "events" := by
      obtain ⟨l, l', hroster, -⟩ := List.lookup_eq_some_iff.1 hkey
      have hmem : (key, Holding.many .event) ∈ l ++ (key, .many .event) :: l' := by simp
      rw [← hroster] at hmem
      simpa using hmem
    exact hevents h hold hold' (content_of_replaced hc hc' (.member before after j _))
  | @entry _ _ key j _ around roster holding before after hroster hkey h =>
    cases hroster
    have hold := hfits.entry hkey
    have hold' := hfits'.entry hkey
    obtain rfl := h.eq_events hi hbad hold'
    have hlength : before.length = 4 := by
      generalize before.length = n at hkey
      match n, hkey with
      | 4, _ => rfl
    exact hevents h hold hold'
      (content_of_replaced hc hc' (.entry before after j _ (by rw [hlength]; rfl)))

end Documents

/-! ### Building -/

namespace Build

variable {k k' : Compiler}

theorem eventOf_malformed {e : Json} (h : ¬ Shape.event.Accepts e) (k : Compiler) :
    ∃ context fault, eventOf e k = (.error (.malformed context fault), k) := by
  cases hdecode : Json.Decoder.event e.canonical with
  | ok r => exact absurd ⟨r, hdecode⟩ h
  | error fault =>
    refine ⟨eventContext e.canonical, fault, ?_⟩
    unfold eventOf
    rw [hdecode]
    rfl

theorem accepts_of_eventOf {e : Json} {event : Event Expression}
    (h : eventOf e k = (.ok event, k')) : Shape.event.Accepts e := by
  by_contra hbad
  obtain ⟨context, fault, hmalformed⟩ := eventOf_malformed hbad k
  rw [hmalformed] at h
  cases h

theorem accepts_of_each {es : List Json} {events : List (Event Expression)}
    (h : each eventOf es k = (.ok events, k')) : ∀ e ∈ es, Shape.event.Accepts e := by
  have hmade : List.Forall₂ (fun e _ => Shape.event.Accepts e ∧ True) es events :=
    (forall₂_of_each_eq_ok h).imp fun _ _ ⟨_, _, hevent⟩ => ⟨accepts_of_eventOf hevent, trivial⟩
  exact ((List.forall₂_and_left es events).1 hmade).1

/-- Events are built up to the first that does not decode. -/
theorem each_malformed {before after : List Json} {e e' : Json} {events : List (Event Expression)}
    (h : each eventOf (before ++ e :: after) k = (.ok events, k'))
    (hbad : ¬ Shape.event.Accepts e') :
    ∃ context fault k₁,
      each eventOf (before ++ e' :: after) k = (.error (.malformed context fault), k₁) := by
  induction before generalizing k k' events with
  | nil =>
    obtain ⟨context, fault, hmalformed⟩ := eventOf_malformed hbad k
    refine ⟨context, fault, k, ?_⟩
    rw [List.nil_append, each, bind_apply, hmalformed]
  | cons e₁ before ih =>
    obtain ⟨event, k₁, hevent, h⟩ := bind_eq_ok h
    obtain ⟨rest, k₂, hrest, -⟩ := bind_eq_ok h
    obtain ⟨context, fault, k₃, hmalformed⟩ := ih hrest
    refine ⟨context, fault, k₃, ?_⟩
    rw [List.cons_append, each, bind_apply, hevent]
    dsimp only
    rw [bind_apply, hmalformed]

/-- What comes before the events of a document is built without them. -/
theorem content_events {c : Content} {d : Definitions} (h : content c k = (.ok d, k')) :
    ∃ k₁ : Compiler, ∀ es, content { c with events := es } k =
      (each eventOf es >>= fun events => pure { d with events }) k₁ := by
  obtain ⟨vars, k₁, hvars, h⟩ := bind_eq_ok h
  obtain ⟨attributes, k₂, hattributes, h⟩ := bind_eq_ok h
  obtain ⟨items, k₃, hitems, h⟩ := bind_eq_ok h
  obtain ⟨statuses, k₄, hstatuses, h⟩ := bind_eq_ok h
  obtain ⟨events, k₅, hevents, h⟩ := bind_eq_ok h
  cases h
  refine ⟨k₄, fun es => ?_⟩
  unfold content
  rw [bind_apply, hvars]
  dsimp only
  rw [bind_apply, hattributes]
  dsimp only
  rw [bind_apply, hitems]
  dsimp only
  rw [bind_apply, hstatuses]

end Build

/-! ### Loading -/

namespace Engine

variable (e : Engine)

/-- Where a document loads, it decodes, and its events are built behind everything else. -/
theorem built_of_loadContent {text : String} {j : Json} (hread : Json.read? text = some j)
    (h : (e.loadContent text).1 = .ok ()) :
    ∃ (c : Content) (d : Definitions) (k k' : Compiler) (events : List (Event Expression)),
      Json.Decoder.content j = .ok c ∧
      (∀ es, Build.content { c with events := es } e.compiler =
        (Build.each Build.eventOf es >>= fun events => pure { d with events }) k) ∧
      Build.each Build.eventOf c.events k = (.ok events, k') := by
  cases hdecode : Json.Decoder.content j with
  | error fault =>
    obtain ⟨fault', hload⟩ := loadContent_of_error e hread hdecode
    rw [hload] at h
    cases h
  | ok c =>
    rw [loadContent_of_ok e hread hdecode] at h
    rcases hbuild : (Build.content c).run e.compiler with ⟨r, k⟩
    rw [hbuild] at h
    cases r with
    | error cause => cases h
    | ok d =>
      obtain ⟨k₁, hcontent⟩ := Build.content_events hbuild
      obtain ⟨events, k₂, hevents, -⟩ := Build.bind_eq_ok ((hcontent c.events).symm.trans hbuild)
      exact ⟨c, d, k₁, k₂, events, rfl, hcontent, hevents⟩

theorem loadContent_undeclared {text text' : String} {j : Json} {s : Shape}
    {before after : List (String × Json)} {around : Json → Json} {roster : Roster} {key : String}
    {v : Json} (hread : Json.read? text = some j) (hload : (e.loadContent text).1 = .ok ())
    (h : Inside (.one .document) j s (.object (before ++ after)) around)
    (hroster : s.roster? (.object (before ++ after)) = some roster)
    (hkey : key ∉ roster.map Prod.fst)
    (hread' : Json.read? text' = some (around (.object (before ++ (key, v) :: after)))) :
    ∃ context fault, (e.loadContent text').1 = .error (.definition (.malformed context fault)) := by
  obtain ⟨c, d, k, k', events, hdecode, hcontent, hbuilt⟩ := built_of_loadContent e hread hload
  have hbad := Shape.not_accepts_undeclared hroster hkey v
  cases hdecode' : Json.Decoder.content (around (.object (before ++ (key, v) :: after))) with
  | error fault =>
    obtain ⟨fault', hload'⟩ := loadContent_of_error e hread' hdecode'
    exact ⟨.document "content", fault', congrArg Prod.fst hload'⟩
  | ok c' =>
    have hdocument : s = .document →
        ∀ c, Json.Decoder.content (.object (before ++ (key, v) :: after)) ≠ .ok c := by
      rintro rfl c hc
      obtain ⟨_, ⟨⟩, hfits⟩ := content_fits hc
      cases hroster
      exact hkey (hfits.declared (by simp))
    obtain ⟨first, event, event', rest, hevents, rfl, hevent⟩ :=
      h.replaced (by simp) hbad hdocument hdecode hdecode'
    rw [hevents] at hbuilt
    obtain ⟨context, fault, k₁, hmalformed⟩ := Build.each_malformed hbuilt hevent
    refine ⟨context, fault, ?_⟩
    have hfailed : (Build.content { c with events := first ++ event' :: rest }).run e.compiler =
        (.error (.malformed context fault), k₁) := by
      change Build.content _ e.compiler = _
      rw [hcontent, bind_apply, hmalformed]
    rw [loadContent_of_ok e hread' hdecode', hfailed]

/-- A document that loads has only members that are declared, in every record in it: with another
one anywhere it is malformed. And of documents that differ in the order of their members either
both load or none does, and the engine is the same in the end. -/
theorem loadContent_strict (e : Engine) {text : String} {j : Json}
    (hread : Json.read? text = some j) :
    ((e.loadContent text).1 = .ok () →
      ∀ s ms around, Inside (.one .document) j s (.object ms) around →
        ∃ roster, s.roster? (.object ms) = some roster ∧
          (∀ key ∈ ms.map Prod.fst, key ∈ roster.map Prod.fst) ∧
          ∀ before after key v text', ms = before ++ after → key ∉ roster.map Prod.fst →
            Json.read? text' = some (around (.object (before ++ (key, v) :: after))) →
            ∃ context fault,
              (e.loadContent text').1 = .error (.definition (.malformed context fault))) ∧
      ∀ text' j', Json.read? text' = some j' → Json.Reordered j j' →
        (e.loadContent text).2 = (e.loadContent text').2 ∧
          ((e.loadContent text).1 = .ok () ↔ (e.loadContent text').1 = .ok ()) := by
  refine ⟨fun hload s ms around h => ?_, fun text' j' hread' hsame =>
    loadContent_reordered e hread hread' hsame⟩
  obtain ⟨c, d, k, k', events, hdecode, -, hbuilt⟩ := built_of_loadContent e hread hload
  have haccepts : Shape.document.Accepts j := ⟨c, hdecode, Build.accepts_of_each hbuilt⟩
  obtain ⟨roster, hroster, hfits⟩ := (h.accepts haccepts).fits
  refine ⟨roster, hroster, fun key hkey => hfits.declared hkey, ?_⟩
  rintro before after key v text' rfl hkey hread'
  exact loadContent_undeclared e hread hload h hroster hkey hread'

/-- A document with an event whose only action has the given members. -/
def sunrise (stop : List (String × Json)) : Json :=
  .object
    [("events",
      .array
        [.object
          [("id", .string "dawn"), ("trigger", .string "sun"),
            ("actions", .array [.object stop])]])]

theorem loadContent_strict_sunrise :
    ((new {}).loadContent (sunrise [("id", .string "Stop"), ("global", .bool true)]).render).1 =
      .ok () ∧
      (∃ context fault,
        ((new {}).loadContent
          (sunrise [("id", .string "Stop"), ("everywhere", .bool true),
            ("global", .bool true)]).render).1 = .error (.definition (.malformed context fault))) ∧
      ((new {}).loadContent
        (sunrise [("global", .bool true), ("id", .string "Stop")]).render).1 = .ok () := by
  have hread : Json.read? (sunrise [("id", .string "Stop"), ("global", .bool true)]).render =
      some (sunrise [("id", .string "Stop"), ("global", .bool true)]) :=
    Json.read?_render (by simp [sunrise, Json.Faithful, Json.FaithfulItems, Json.FaithfulMembers])
      (by decide)
  have hload :
      ((new {}).loadContent (sunrise [("id", .string "Stop"), ("global", .bool true)]).render).1 =
        .ok () := by
    rw [loadContent_of_ok _ hread rfl]
    rfl
  obtain ⟨hstrict, horder⟩ := loadContent_strict (new {}) hread
  refine ⟨hload, ?_, ?_⟩
  · obtain ⟨roster, hroster, -, hmalformed⟩ := hstrict hload .action _ _
      (.member [] [] rfl rfl List.not_mem_nil <| .item [] [] <|
        .member [("id", .string "dawn"), ("trigger", .string "sun")] [] rfl rfl
          List.not_mem_nil <| .item [] [] <| .here .action _)
    cases hroster
    exact hmalformed [("id", .string "Stop")] [("global", .bool true)] "everywhere" (.bool true) _
      rfl (by decide) (Json.read?_render
        (by simp [sunrise, Json.Faithful, Json.FaithfulItems, Json.FaithfulMembers]) (by decide))
  · have hread' := Json.read?_render
      (j := sunrise [("global", .bool true), ("id", .string "Stop")])
      (by simp [sunrise, Json.Faithful, Json.FaithfulItems, Json.FaithfulMembers]) (by decide)
    have hswapped : Json.Reordered (.object [("id", .string "Stop"), ("global", .bool true)])
        (.object [("global", .bool true), ("id", .string "Stop")]) :=
      .perm (.swap _ _ _) (by decide)
    exact (horder _ _ hread' (.member [] "events" [] <| .item [] [] <|
      .member [("id", .string "dawn"), ("trigger", .string "sun")] "actions" [] <|
        .item [] [] hswapped)).2.1 hload

end Engine

end Scenario
