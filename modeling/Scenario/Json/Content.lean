import Scenario.Json.Save

/-!
The JSON forms of content. Records of content have no members but their fields; conditions and
actions name their kind in the member `id`.
-/

namespace Scenario

/-- A content document. Events stay as they are written until they are built one by one. -/
structure Content where
  vars : Std.ExtTreeMap String SavedVariable
  attributes : List Attribute
  items : List (Provider Source)
  statuses : List (Provider Source)
  events : List Json

namespace Json.Decoder

def modifier : Decoder (Modifier Source) :=
  record true
    (.required "target" string <| .required "kind" modifierKind <| .required "amount" source .nil)
    fun (target, kind, amount, ()) => ⟨target, kind, amount⟩

def provider : Decoder (Provider Source) :=
  record true
    (.required "id" string <| .default "modifiers" (list modifier) [] <|
      .optional "maxStack" u32 .nil)
    fun (id, modifiers, maxStack, ()) => ⟨id, modifiers, maxStack⟩

def attributeRecord : Decoder Attribute :=
  record true
    (.required "id" string <| .required "base" anyNumber <| .optional "min" anyNumber <|
      .optional "max" anyNumber .nil)
    fun (id, base, min, max, ()) => ⟨id, base, min.getD (-infinity), max.getD infinity⟩

def content : Decoder Content :=
  record true
    (.default "variables" savedVariables ∅ <|
      .default "attributes" (list attributeRecord) [] <|
      .default "items" (list provider) [] <|
      .default "statuses" (list provider) [] <|
      .default "events" (list value) [] .nil)
    fun (vars, attributes, items, statuses, events, ()) =>
      ⟨vars, attributes, items, statuses, events⟩

def one : Source := .number 1.0

section Nested

def tooDeep {α : Type} : Decoder α := fun _ => .error .mismatch

/-- A condition in which records are nested less than `depth` deep. -/
def condition (numbered : Bool) : Nat → Decoder (Condition Source)
  | 0 => tooDeep
  | depth + 1 =>
    tagged numbered "id"
      [("Expression",
          record true (.required "expression" source .nil) fun (e, ()) => .expression e),
        ("Not",
          record true (.required "condition" (condition true depth) .nil) fun (c, ()) => .not c),
        ("All",
          record true (.required "conditions" (list (condition true depth)) .nil)
            fun (cs, ()) => .all cs),
        ("Any",
          record true (.required "conditions" (list (condition true depth)) .nil)
            fun (cs, ()) => .any cs),
        ("Some",
          record true
            (.required "conditions" (list (condition true depth)) <| .required "min" source <|
              .required "max" source .nil)
            fun (cs, min, max, ()) => .count cs min max)]

def update : Decoder (VariableUpdate Source) :=
  record true (.required "variable" string <| .required "value" source .nil)
    fun (id, value, ()) => ⟨id, value⟩

def amount : Decoder (ItemAmount Source) :=
  record true (.required "item" string <| .default "amount" source one .nil)
    fun (item, amount, ()) => ⟨item, amount⟩

def request : Decoder (TriggerRequest Source) :=
  record true
    (.required "trigger" string <| .optional "priority" i32 <|
      .default "probability" source one .nil)
    fun (trigger, priority, probability, ()) => ⟨trigger, priority, probability⟩

variable {α : Type}

def choice (condition : Decoder (Condition Source)) (action : Decoder α) :
    Decoder (Choice Source α) :=
  record true
    (.required "text" string <| .optional "requirement" condition <|
      .default "actions" (list action) [] .nil)
    fun (text, requirement, actions, ()) => ⟨text, requirement, actions⟩

def group (action : Decoder α) : Decoder (Group Source α) :=
  record true (.required "weight" source <| .default "actions" (list action) [] .nil)
    fun (weight, actions, ()) => ⟨weight, actions⟩

def branch (condition : Decoder (Condition Source)) (action : Decoder α) :
    Decoder (Branch Source α) :=
  record true (.required "condition" condition <| .default "actions" (list action) [] .nil)
    fun (condition, actions, ()) => ⟨condition, actions⟩

def action (numbered : Bool) : Nat → Decoder (Action Source)
  | 0 => tooDeep
  | depth + 1 =>
    let actions := list (action true depth)
    let condition := condition true depth
    tagged numbered "id"
      [("DisplayMessage",
          record true
            (.required "message" string <| .optional "confirm" string <| .optional "icon" string <|
              .optional "fx" string .nil)
            fun (text, confirm, icon, fx, ()) => .message ⟨text, confirm, icon, fx⟩),
        ("DisplayRandomMessage",
          record true
            (.required "messages" (list string) <| .optional "confirm" string <|
              .optional "icon" string .nil)
            fun (texts, confirm, icon, ()) => .randomMessage texts confirm icon),
        ("DisplayChoices",
          record true
            (.required "message" string <| .optional "icon" string <|
              .required "choices" (list (choice condition (action true depth))) .nil)
            fun (text, icon, choices, ()) => .choices text icon choices),
        ("Random",
          record true (.required "groups" (list (group (action true depth))) .nil)
            fun (groups, ()) => .random groups),
        ("CoinFlip",
          record true
            (.required "probability" source <| .default "success" actions [] <|
              .default "fail" actions [] .nil)
            fun (probability, success, failure, ()) => .coinFlip probability success failure),
        ("Switch",
          record true (.required "branches" (list (branch condition (action true depth))) .nil)
            fun (branches, ()) => .switch branches),
        ("Loop",
          record true
            (.required "actions" actions <| .optional "stop" condition <|
              .default "maxIterations" u32 0 <| .default "checkStopConditionAtEnd" bool false .nil)
            fun (actions, stop, maxIterations, checkAtEnd, ()) =>
              .loop actions stop maxIterations checkAtEnd),
        ("Stop",
          record true (.default "global" bool false .nil) fun (everywhere, ()) => .stop everywhere),
        ("EndGame",
          record true (.optional "outcome" string .nil) fun (outcome, ()) => .endGame outcome),
        ("UpdateVariable",
          record true (.required "variable" string <| .required "value" source .nil)
            fun (id, value, ()) => .updateVariable ⟨id, value⟩),
        ("UpdateVariables",
          record true (.required "updates" (list update) .nil)
            fun (updates, ()) => .updateVariables updates),
        ("UpdateVariableLimits",
          record true
            (.required "variable" string <| .optional "min" source <| .optional "max" source .nil)
            fun (id, min, max, ()) => .updateVariableLimits id min max),
        ("GiveItem",
          record true (.required "item" string <| .default "amount" source one .nil)
            fun (item, amount, ()) => .giveItem ⟨item, amount⟩),
        ("UpdateItemAmounts",
          record true (.required "items" (list amount) .nil)
            fun (amounts, ()) => .updateItemAmounts amounts),
        ("SetStatus",
          record true (.required "status" string <| .required "duration" source .nil)
            fun (status, duration, ()) => .setStatus status duration),
        ("TriggerEvents",
          record true (.required "triggers" (list request) .nil)
            fun (requests, ()) => .triggerEvents requests),
        ("EnableEvents",
          record true (.required "events" (list string) .nil)
            fun (events, ()) => .toggleEvents true events),
        ("DisableEvents",
          record true (.required "events" (list string) .nil)
            fun (events, ()) => .toggleEvents false events)]

end Nested

/-- An event. The depth of its text bounds that of its records. -/
def event : Decoder (Event Source) := fun j =>
  record true
    (.required "id" string <| .required "trigger" string <|
      .default "conditions" (list (condition false j.depth)) [] <|
      .default "actions" (list (action false j.depth)) [] <|
      .default "probability" source one <| .default "exclusions" (list string) [] <|
      .default "once" bool false <| .default "disabledByDefault" bool false .nil)
    (fun (id, trigger, conditions, actions, probability, exclusions, once, disabled, ()) =>
      { id, trigger, conditions, actions, probability, exclusions, once, disabled })
    j

end Json.Decoder

end Scenario
