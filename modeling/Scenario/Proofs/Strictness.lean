import Scenario.Proofs.Declared
import Scenario.Proofs.Runs

/-!
Every shape of record is strict: what decodes as a record of it fits its roster.
-/

namespace Scenario

open Json (Decoder record_fits tagged_fits)

section Holdings

variable {α : Type} {s : Shape} {d : Decoder α}

theorem accepts_plain (j : Json) (a : α) (_ : d j = .ok a) : Holding.plain.Accepts j := trivial

theorem acceptsSorted_plain (v : Json) (a : α) (_ : d v = .ok a) : Holding.plain.AcceptsSorted v :=
  fun _ _ => trivial

/-- Lists are found in arrays, all of whose items decode. -/
theorem array_of_list {j : Json} {as : List α} (h : d.list j = .ok as) :
    ∃ js, j = .array js ∧ ∀ i ∈ js, ∃ a, d i = .ok a := by
  cases j with
  | array js => exact ⟨js, rfl, ok_of_mapM_eq_ok h⟩
  | _ => cases h

theorem accepts_many (h : ∀ j a, d j = .ok a → s.Accepts j) (j : Json) (as : List α)
    (hlist : d.list j = .ok as) : (Holding.many s).Accepts j := by
  obtain ⟨js, rfl, hjs⟩ := array_of_list hlist
  refine ⟨js, rfl, fun i hi => ?_⟩
  obtain ⟨a, ha⟩ := hjs i hi
  exact h i a ha

variable (h : ∀ j a, d j.canonical = .ok a → s.Accepts j)

include h

theorem acceptsSorted_one (v : Json) (a : α) (hone : d v = .ok a) :
    (Holding.one s).AcceptsSorted v := by
  rintro j rfl
  exact h j a hone

theorem acceptsSorted_optional (v : Json) (a : Option α) (hoption : d.option v = .ok a) :
    (Holding.optional s).AcceptsSorted v := by
  rintro j rfl
  by_cases hnull : j.canonical = .null
  · exact .inl (Json.eq_null_of_canonical hnull)
  · rw [Json.option_of_ne_null hnull] at hoption
    cases hone : d j.canonical with
    | error fault =>
      rw [hone] at hoption
      cases hoption
    | ok a => exact .inr (h j a hone)

theorem acceptsSorted_many (v : Json) (as : List α) (hlist : d.list v = .ok as) :
    (Holding.many s).AcceptsSorted v := by
  rintro j rfl
  obtain ⟨js, hjs, hall⟩ := array_of_list hlist
  obtain ⟨is, rfl, rfl⟩ := Json.eq_array_of_canonical hjs
  refine ⟨is, rfl, fun i hi => ?_⟩
  obtain ⟨a, ha⟩ := hall i.canonical (List.mem_map_of_mem hi)
  exact h i a ha

end Holdings

/-! ### Shapes -/

/-- Records that are decoded as they stand. -/
theorem fits_of_record {α : Type} {αs : List Type} {fields : Json.Fields αs} {roster : Roster}
    {Q : Json.Values αs → Prop} {build : Json.Values αs → α} {s : Shape} {j : Json} {a : α}
    (hform : s.form = .fields roster) (h : Decoder.record true fields build j = .ok a)
    (hholds : fields.Holds Holding.Accepts roster Q) (hkeys : (roster.map Prod.fst).Nodup)
    (hknown : ∀ values, Q values) :
    ∃ roster, s.roster? j = some roster ∧ roster.Fits Holding.Accepts j := by
  refine ⟨roster, ?_, record_fits h hholds hkeys fun values _ => hknown values⟩
  simp only [Shape.roster?, hform]

/-- Records that are decoded when their members are sorted. -/
theorem fits_of_sorted {α : Type} {αs : List Type} {fields : Json.Fields αs} {roster : Roster}
    {Q : Json.Values αs → Prop} {build : Json.Values αs → α} {s : Shape} {j : Json} {a : α}
    (hform : s.form = .fields roster)
    (h : Decoder.record true fields build j.canonical = .ok a)
    (hholds : fields.Holds Holding.AcceptsSorted roster Q) (hkeys : (roster.map Prod.fst).Nodup)
    (hknown : ∀ values, Q values) :
    ∃ roster, s.roster? j = some roster ∧ roster.Fits Holding.Accepts j := by
  have hfits := record_fits h hholds hkeys fun values _ => hknown values
  refine ⟨roster, ?_, Roster.fits_of_canonical hfits⟩
  simp only [Shape.roster?, hform]

theorem fits_of_tagged {α : Type} {kinds : List (String × Decoder α)} {numbered : Bool}
    {rosters : List (String × Roster)} {s : Shape} {j : Json} {a : α}
    (hform : s.form = .kinds rosters)
    (h : Decoder.tagged numbered "id" kinds j.canonical = .ok a)
    (hkinds : Json.KindsFit Holding.AcceptsSorted kinds rosters) :
    ∃ roster, s.roster? j = some roster ∧ roster.Fits Holding.Accepts j := by
  obtain ⟨roster, hroster, hfits⟩ := tagged_fits hkinds (fun _ _ _ => trivial) h
  refine ⟨_, ?_, Roster.fits_of_canonical hfits⟩
  simp only [Shape.roster?, hform, Json.kind_of_canonical hroster]
  rfl

theorem kind_fits {α : Type} {αs : List Type} {fields : Json.Fields αs} {roster : Roster}
    {Q : Json.Values αs → Prop} {build : Json.Values αs → α}
    (hholds : fields.Holds Holding.AcceptsSorted roster Q) (hkeys : (roster.map Prod.fst).Nodup)
    (hknown : ∀ values, Q values) (v : Json) (a : α)
    (h : Decoder.record true fields build v = .ok a) : roster.Fits Holding.AcceptsSorted v :=
  record_fits h hholds hkeys fun values _ => hknown values

section Nested

variable {numbered : Bool} {depth : Nat} {j : Json}

theorem accepts_condition (j : Json) (c : Condition Source)
    (h : Decoder.condition numbered depth j.canonical = .ok c) : Shape.condition.Accepts j :=
  ⟨numbered, depth, c, h⟩

theorem accepts_action (j : Json) (a : Action Source)
    (h : Decoder.action numbered depth j.canonical = .ok a) : Shape.action.Accepts j :=
  ⟨numbered, depth, a, h⟩

theorem accepts_choice (j : Json) (c : Choice Source (Action Source))
    (h : Decoder.choice (Decoder.condition true depth) (Decoder.action true depth) j.canonical =
      .ok c) : Shape.choice.Accepts j := ⟨depth, c, h⟩

theorem accepts_group (j : Json) (g : Group Source (Action Source))
    (h : Decoder.group (Decoder.action true depth) j.canonical = .ok g) : Shape.group.Accepts j :=
  ⟨depth, g, h⟩

theorem accepts_branch (j : Json) (b : Branch Source (Action Source))
    (h : Decoder.branch (Decoder.condition true depth) (Decoder.action true depth) j.canonical =
      .ok b) : Shape.branch.Accepts j := ⟨depth, b, h⟩

theorem condition_fits {c : Condition Source}
    (h : Decoder.condition numbered depth j.canonical = .ok c) :
    ∃ roster, Shape.condition.roster? j = some roster ∧ roster.Fits Holding.Accepts j := by
  cases depth with
  | zero => cases h
  | succ depth =>
    have hmany (v : Json) (cs : List (Condition Source))
        (h : (Decoder.condition true depth).list v = .ok cs) :
        (Holding.many .condition).AcceptsSorted v := acceptsSorted_many accepts_condition v cs h
    refine fits_of_tagged rfl h (.cons ⟨rfl, ?expression⟩ <| .cons ⟨rfl, ?not⟩ <|
      .cons ⟨rfl, ?all⟩ <| .cons ⟨rfl, ?any⟩ <| .cons ⟨rfl, ?some⟩ .nil)
    case expression => exact kind_fits (.cons acceptsSorted_plain .nil) (by decide) (by simp)
    case not =>
      exact kind_fits (.cons (acceptsSorted_one accepts_condition) .nil) (by decide) (by simp)
    case all | any => exact kind_fits (.cons hmany .nil) (by decide) (by simp)
    case some =>
      exact kind_fits (.cons hmany <| .cons acceptsSorted_plain <| .cons acceptsSorted_plain .nil)
        (by decide) (by simp)

theorem action_fits {a : Action Source} (h : Decoder.action numbered depth j.canonical = .ok a) :
    ∃ roster, Shape.action.roster? j = some roster ∧ roster.Fits Holding.Accepts j := by
  cases depth with
  | zero => cases h
  | succ depth =>
    have hactions (v : Json) (as : List (Action Source))
        (h : (Decoder.action true depth).list v = .ok as) :
        (Holding.many .action).AcceptsSorted v := acceptsSorted_many accepts_action v as h
    refine fits_of_tagged rfl h (.cons ⟨rfl, ?message⟩ <| .cons ⟨rfl, ?randomMessage⟩ <|
      .cons ⟨rfl, ?choices⟩ <| .cons ⟨rfl, ?random⟩ <| .cons ⟨rfl, ?coinFlip⟩ <|
      .cons ⟨rfl, ?switch⟩ <| .cons ⟨rfl, ?loop⟩ <| .cons ⟨rfl, ?stop⟩ <|
      .cons ⟨rfl, ?endGame⟩ <| .cons ⟨rfl, ?updateVariable⟩ <| .cons ⟨rfl, ?updateVariables⟩ <|
      .cons ⟨rfl, ?updateVariableLimits⟩ <| .cons ⟨rfl, ?giveItem⟩ <|
      .cons ⟨rfl, ?updateItemAmounts⟩ <| .cons ⟨rfl, ?setStatus⟩ <| .cons ⟨rfl, ?triggerEvents⟩ <|
      .cons ⟨rfl, ?enableEvents⟩ <| .cons ⟨rfl, ?disableEvents⟩ .nil)
    case message =>
      exact kind_fits (.cons acceptsSorted_plain <| .cons acceptsSorted_plain <|
        .cons acceptsSorted_plain <| .cons acceptsSorted_plain .nil) (by decide) (by simp)
    case randomMessage | updateVariableLimits =>
      exact kind_fits (.cons acceptsSorted_plain <| .cons acceptsSorted_plain <|
        .cons acceptsSorted_plain .nil) (by decide) (by simp)
    case choices =>
      exact kind_fits (.cons acceptsSorted_plain <| .cons acceptsSorted_plain <|
        .cons (acceptsSorted_many accepts_choice) .nil) (by decide) (by simp)
    case random =>
      exact kind_fits (.cons (acceptsSorted_many accepts_group) .nil) (by decide) (by simp)
    case coinFlip =>
      exact kind_fits (.cons acceptsSorted_plain <| .cons hactions <| .cons hactions .nil)
        (by decide) (by simp)
    case switch =>
      exact kind_fits (.cons (acceptsSorted_many accepts_branch) .nil) (by decide) (by simp)
    case loop =>
      exact kind_fits (.cons hactions <| .cons (acceptsSorted_optional accepts_condition) <|
        .cons acceptsSorted_plain <| .cons acceptsSorted_plain .nil) (by decide) (by simp)
    case updateVariable | giveItem | setStatus =>
      exact kind_fits (.cons acceptsSorted_plain <| .cons acceptsSorted_plain .nil)
        (by decide) (by simp)
    case updateVariables =>
      exact kind_fits (.cons (acceptsSorted_many fun _ u h => ⟨u, h⟩) .nil) (by decide) (by simp)
    case updateItemAmounts =>
      exact kind_fits (.cons (acceptsSorted_many fun _ a h => ⟨a, h⟩) .nil) (by decide) (by simp)
    case triggerEvents =>
      exact kind_fits (.cons (acceptsSorted_many fun _ r h => ⟨r, h⟩) .nil) (by decide) (by simp)
    case stop | endGame | enableEvents | disableEvents =>
      exact kind_fits (.cons acceptsSorted_plain .nil) (by decide) (by simp)

end Nested

/-- The events of a document are the items of the array that they are read from. -/
theorem array_of_values {j : Json} {es : List Json} (h : Decoder.value.list j = .ok es) :
    j = .array es := by
  cases j with
  | array js =>
    change js.mapM Decoder.value = .ok es at h
    induction js generalizing es with
    | nil =>
      cases h
      rfl
    | cons j js ih =>
      rw [List.mapM_cons] at h
      obtain ⟨j', hj, h⟩ := exists_ok_of_bind h
      obtain ⟨rest, hrest, h⟩ := exists_ok_of_bind h
      cases h
      unfold Decoder.value at hj
      split at hj
      · cases hj
        cases ih hrest
        rfl
      · cases hj
  | _ => cases h

/-- What the fields of a document hold, when its events are taken as they stand. -/
def Holding.Of (c : Content) : Holding → Json → Prop
  | .many .event, j => j = .array c.events
  | holding, j => holding.Accepts j

theorem content_fits {j : Json} {c : Content} (h : Decoder.content j = .ok c) :
    ∃ roster, Shape.document.roster? j = some roster ∧ roster.Fits (Holding.Of c) j := by
  have hproviders :=
    accepts_many (s := .provider) fun j p (hp : Decoder.provider j = .ok p) => ⟨p, hp⟩
  refine ⟨_, rfl, record_fits h (.cons accepts_plain <|
    .cons (accepts_many fun j a ha => ⟨a, ha⟩) <| .cons hproviders <| .cons hproviders <|
    .known (R := (· = c.events)) ?_ .nil) (by decide) ?_⟩
  · rintro j es hes rfl
    exact array_of_values hes
  · rintro values rfl
    exact ⟨trivial, trivial, trivial, trivial, rfl, trivial⟩

theorem Holding.Of.accepts {c : Content} (hevents : ∀ e ∈ c.events, Shape.event.Accepts e)
    {holding : Holding} {j : Json} (h : holding.Of c j) : holding.Accepts j := by
  unfold Holding.Of at h
  split at h
  · exact ⟨c.events, h, hevents⟩
  · exact h

theorem Shape.Accepts.fits {s : Shape} {j : Json} (h : s.Accepts j) :
    ∃ roster, s.roster? j = some roster ∧ roster.Fits Holding.Accepts j := by
  cases s with
  | document =>
    obtain ⟨c, hc, hevents⟩ := h
    obtain ⟨roster, hroster, hfits⟩ := content_fits hc
    exact ⟨roster, hroster, hfits.mono fun _ _ => Holding.Of.accepts hevents⟩
  | attr =>
    obtain ⟨a, ha⟩ := h
    exact fits_of_record rfl ha (.cons accepts_plain <| .cons accepts_plain <|
      .cons accepts_plain <| .cons accepts_plain .nil) (by decide) (by simp)
  | provider =>
    obtain ⟨p, hp⟩ := h
    exact fits_of_record rfl hp (.cons accepts_plain <|
      .cons (accepts_many fun j m hm => ⟨m, hm⟩) <| .cons accepts_plain .nil)
      (by decide) (by simp)
  | modifier =>
    obtain ⟨m, hm⟩ := h
    exact fits_of_record rfl hm (.cons accepts_plain <| .cons accepts_plain <|
      .cons accepts_plain .nil) (by decide) (by simp)
  | event =>
    obtain ⟨r, hr⟩ := h
    exact fits_of_sorted rfl hr (.cons acceptsSorted_plain <| .cons acceptsSorted_plain <|
      .cons (acceptsSorted_many accepts_condition) <| .cons (acceptsSorted_many accepts_action) <|
      .cons acceptsSorted_plain <| .cons acceptsSorted_plain <| .cons acceptsSorted_plain <|
      .cons acceptsSorted_plain .nil) (by decide) (by simp)
  | condition =>
    obtain ⟨numbered, depth, c, hc⟩ := h
    exact condition_fits hc
  | action =>
    obtain ⟨numbered, depth, a, ha⟩ := h
    exact action_fits ha
  | choice =>
    obtain ⟨depth, c, hc⟩ := h
    exact fits_of_sorted rfl hc (.cons acceptsSorted_plain <|
      .cons (acceptsSorted_optional accepts_condition) <|
      .cons (acceptsSorted_many accepts_action) .nil) (by decide) (by simp)
  | group =>
    obtain ⟨depth, g, hg⟩ := h
    exact fits_of_sorted rfl hg (.cons acceptsSorted_plain <|
      .cons (acceptsSorted_many accepts_action) .nil) (by decide) (by simp)
  | branch =>
    obtain ⟨depth, b, hb⟩ := h
    exact fits_of_sorted rfl hb (.cons (acceptsSorted_one accepts_condition) <|
      .cons (acceptsSorted_many accepts_action) .nil) (by decide) (by simp)
  | update =>
    obtain ⟨u, hu⟩ := h
    exact fits_of_sorted rfl hu (.cons acceptsSorted_plain <| .cons acceptsSorted_plain .nil)
      (by decide) (by simp)
  | amount =>
    obtain ⟨a, ha⟩ := h
    exact fits_of_sorted rfl ha (.cons acceptsSorted_plain <| .cons acceptsSorted_plain .nil)
      (by decide) (by simp)
  | request =>
    obtain ⟨r, hr⟩ := h
    exact fits_of_sorted rfl hr (.cons acceptsSorted_plain <| .cons acceptsSorted_plain <|
      .cons acceptsSorted_plain .nil) (by decide) (by simp)

end Scenario
