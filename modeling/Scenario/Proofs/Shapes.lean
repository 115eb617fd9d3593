import Scenario.Proofs.Records

/-!
The records that a document is made of, by their shapes: which fields each of them has, and which of
its fields hold records again. Conditions and actions have the fields of their kind, and the member
`id` that names it.
-/

namespace Scenario

inductive Shape
  | document
  | attr
  | provider
  | modifier
  | event
  | condition
  | action
  | choice
  | group
  | branch
  | update
  | amount
  | request
deriving DecidableEq

/-- What a field holds: no record, a record of some shape, possibly none, or a list of them. -/
inductive Holding
  | plain
  | one (shape : Shape)
  | optional (shape : Shape)
  | many (shape : Shape)

/-- The fields of a record in their order. -/
abbrev Roster := List (String × Holding)

inductive Form
  | fields (roster : Roster)
  | kinds (rosters : List (String × Roster))

namespace Shape

def form : Shape → Form
  | .document =>
    .fields
      [("variables", .plain), ("attributes", .many .attr), ("items", .many .provider),
        ("statuses", .many .provider), ("events", .many .event)]
  | .attr => .fields [("id", .plain), ("base", .plain), ("min", .plain), ("max", .plain)]
  | .provider => .fields [("id", .plain), ("modifiers", .many .modifier), ("maxStack", .plain)]
  | .modifier => .fields [("target", .plain), ("kind", .plain), ("amount", .plain)]
  | .event =>
    .fields
      [("id", .plain), ("trigger", .plain), ("conditions", .many .condition),
        ("actions", .many .action), ("probability", .plain), ("exclusions", .plain),
        ("once", .plain), ("disabledByDefault", .plain)]
  | .condition =>
    .kinds
      [("Expression", [("expression", .plain)]), ("Not", [("condition", .one .condition)]),
        ("All", [("conditions", .many .condition)]), ("Any", [("conditions", .many .condition)]),
        ("Some", [("conditions", .many .condition), ("min", .plain), ("max", .plain)])]
  | .action =>
    .kinds
      [("DisplayMessage",
          [("message", .plain), ("confirm", .plain), ("icon", .plain), ("fx", .plain)]),
        ("DisplayRandomMessage", [("messages", .plain), ("confirm", .plain), ("icon", .plain)]),
        ("DisplayChoices", [("message", .plain), ("icon", .plain), ("choices", .many .choice)]),
        ("Random", [("groups", .many .group)]),
        ("CoinFlip",
          [("probability", .plain), ("success", .many .action), ("fail", .many .action)]),
        ("Switch", [("branches", .many .branch)]),
        ("Loop",
          [("actions", .many .action), ("stop", .optional .condition), ("maxIterations", .plain),
            ("checkStopConditionAtEnd", .plain)]),
        ("Stop", [("global", .plain)]), ("EndGame", [("outcome", .plain)]),
        ("UpdateVariable", [("variable", .plain), ("value", .plain)]),
        ("UpdateVariables", [("updates", .many .update)]),
        ("UpdateVariableLimits", [("variable", .plain), ("min", .plain), ("max", .plain)]),
        ("GiveItem", [("item", .plain), ("amount", .plain)]),
        ("UpdateItemAmounts", [("items", .many .amount)]),
        ("SetStatus", [("status", .plain), ("duration", .plain)]),
        ("TriggerEvents", [("triggers", .many .request)]), ("EnableEvents", [("events", .plain)]),
        ("DisableEvents", [("events", .plain)])]
  | .choice =>
    .fields [("text", .plain), ("requirement", .optional .condition), ("actions", .many .action)]
  | .group => .fields [("weight", .plain), ("actions", .many .action)]
  | .branch => .fields [("condition", .one .condition), ("actions", .many .action)]
  | .update => .fields [("variable", .plain), ("value", .plain)]
  | .amount => .fields [("item", .plain), ("amount", .plain)]
  | .request => .fields [("trigger", .plain), ("priority", .plain), ("probability", .plain)]

end Shape

namespace Json

/-- The last value under a key. -/
def lastOf (key : String) (ms : List (String × Json)) : Option Json := (valuesOf key ms).getLast?

theorem lastOf_append_cons (key : String) (before : List (String × Json)) (j : Json)
    {after : List (String × Json)} (hlast : key ∉ after.map Prod.fst) :
    lastOf key (before ++ (key, j) :: after) = some j := by
  rw [mem_keys_iff, not_not] at hlast
  rw [lastOf, valuesOf_append, valuesOf_cons, if_pos rfl, hlast, List.getLast?_concat]

theorem lastOf_of_ne {key key' : String} (hne : key' ≠ key) (before : List (String × Json))
    (j : Json) (after : List (String × Json)) :
    lastOf key (before ++ (key', j) :: after) = lastOf key (before ++ after) := by
  rw [lastOf, lastOf, valuesOf_of_ne hne]

/-- Where a record says of which kind it is. -/
def tag? : Json → Option Json
  | .object ms => lastOf "id" ms
  | .array (j :: _) => some j
  | _ => none

end Json

/-- The fields of a kind, which is told by its name or by its number. -/
def kindRoster? (rosters : List (String × Roster)) : Json → Option Roster
  | .string name => rosters.lookup name
  | .integer false n => (rosters[n]?).map Prod.snd
  | _ => none

/-- The members that a record of some shape may have. -/
def Shape.roster? (s : Shape) (j : Json) : Option Roster :=
  match s.form with
  | .fields roster => some roster
  | .kinds rosters => (j.tag?.bind (kindRoster? rosters)).map fun roster => ("id", .plain) :: roster

/-! ### Places -/

/-- Inside something that a field holds there stands a record of some shape. What is around it makes
of anything in its place the whole again. Of members with one key the last is the one that counts.
-/
inductive Inside : Holding → Json → Shape → Json → (Json → Json) → Prop
  | here (s : Shape) (j : Json) : Inside (.one s) j s j id
  | given {s t : Shape} {j i : Json} {around : Json → Json} (hgiven : j ≠ .null)
    (h : Inside (.one s) j t i around) : Inside (.optional s) j t i around
  | item {s t : Shape} {j i : Json} {around : Json → Json} (before after : List Json)
    (h : Inside (.one s) j t i around) :
    Inside (.many s) (.array (before ++ j :: after)) t i fun i =>
      .array (before ++ around i :: after)
  | member {s t : Shape} {key : String} {j i : Json} {around : Json → Json} {roster : Roster}
    {holding : Holding} (before after : List (String × Json))
    (hroster : s.roster? (.object (before ++ (key, j) :: after)) = some roster)
    (hkey : roster.lookup key = some holding) (hlast : key ∉ after.map Prod.fst)
    (h : Inside holding j t i around) :
    Inside (.one s) (.object (before ++ (key, j) :: after)) t i fun i =>
      .object (before ++ (key, around i) :: after)
  | entry {s t : Shape} {key : String} {j i : Json} {around : Json → Json} {roster : Roster}
    {holding : Holding} (before after : List Json)
    (hroster : s.roster? (.array (before ++ j :: after)) = some roster)
    (hkey : roster[before.length]? = some (key, holding)) (h : Inside holding j t i around) :
    Inside (.one s) (.array (before ++ j :: after)) t i fun i =>
      .array (before ++ around i :: after)

namespace Inside

variable {holding : Holding} {s t : Shape} {j i i' : Json} {around : Json → Json} {roster : Roster}

theorem around_ne_null (h : Inside holding j t i around) (hi : i' ≠ .null) : around i' ≠ .null := by
  induction h with
  | here => exact hi
  | given _ _ ih => exact ih
  | item | member | entry => exact nofun

theorem holding_ne_plain (h : Inside holding j t i around) : holding ≠ .plain := by
  cases h <;> exact nofun

/-- The tag is no record. -/
theorem roster?_lookup_id {rosters : List (String × Roster)} (hform : s.form = .kinds rosters)
    (hroster : s.roster? j = some roster) :
    roster.lookup "id" = some .plain ∧ roster[0]? = some ("id", .plain) := by
  simp only [Shape.roster?, hform, Option.map_eq_some_iff] at hroster
  obtain ⟨rest, -, rfl⟩ := hroster
  exact ⟨rfl, rfl⟩

/-- What members a record may have does not depend on the value of a member that is not its tag. -/
theorem roster?_member {key : String} {holding : Holding} (before after : List (String × Json))
    (hroster : s.roster? (.object (before ++ (key, j) :: after)) = some roster)
    (hkey : roster.lookup key = some holding) (hplain : holding ≠ .plain) (j' : Json) :
    s.roster? (.object (before ++ (key, j') :: after)) = some roster := by
  rw [← hroster]
  unfold Shape.roster?
  cases hform : s.form with
  | fields => rfl
  | kinds rosters =>
    have hne : key ≠ "id" := by
      rintro rfl
      rw [(roster?_lookup_id hform hroster).1] at hkey
      exact hplain (Option.some.inj hkey).symm
    simp only [Json.tag?, Json.lastOf_of_ne hne]

theorem roster?_entry {key : String} {holding : Holding} (before after : List Json)
    (hroster : s.roster? (.array (before ++ j :: after)) = some roster)
    (hkey : roster[before.length]? = some (key, holding)) (hplain : holding ≠ .plain) (j' : Json) :
    s.roster? (.array (before ++ j' :: after)) = some roster := by
  rw [← hroster]
  unfold Shape.roster?
  cases hform : s.form with
  | fields => rfl
  | kinds rosters =>
    cases before with
    | nil =>
      rw [List.length_nil, (roster?_lookup_id hform hroster).2] at hkey
      cases hkey
      exact absurd rfl hplain
    | cons i before => rfl

theorem replace (h : Inside holding j t i around) (hi : i' ≠ .null) :
    Inside holding (around i') t i' around := by
  induction h with
  | here s j => exact .here s i'
  | given hgiven h ih => exact .given (h.around_ne_null hi) ih
  | item before after _ ih => exact .item before after ih
  | member before after hroster hkey hlast h ih =>
    have hroster' := roster?_member before after hroster hkey h.holding_ne_plain
    exact .member before after (hroster' _) hkey hlast ih
  | entry before after hroster hkey h ih =>
    have hroster' := roster?_entry before after hroster hkey h.holding_ne_plain
    exact .entry before after (hroster' _) hkey ih

end Inside

end Scenario
