import Scenario.Json.Decoder
import Scenario.Play
import Scenario.Save

/-!
The JSON forms of saves, configurations and what the host is told.
-/

namespace Scenario.Json

def ofFloat (x : Float) : Json := if x.isFinite then .double x else .null

/-- A number that may be infinite or none: those are written as words. -/
def ofNumber (x : Float) : Json :=
  if x.isNaN then .string "NaN"
  else if x == infinity then .string "Infinity"
  else if x == -infinity then .string "-Infinity"
  else .double x

namespace Decoder

def anyNumber : Decoder Float
  | .string "NaN" => .ok notANumber
  | .string "Infinity" => .ok infinity
  | .string "-Infinity" => .ok (-infinity)
  | j => number j

def savedVariable : Decoder SavedVariable
  | .array [x, min, max] => do
    let x ← anyNumber x
    let min ← anyNumber min
    let max ← anyNumber max
    return .bounded x min max
  | j => (anyNumber j).map .value

/-- Variables by id; of one id the last one counts. -/
def savedVariables : Decoder (Std.ExtTreeMap String SavedVariable) :=
  (members savedVariable).map (·.foldl (fun vs (id, v) => vs.insert id v) ∅)

def source : Decoder Source
  | .string s => .ok (.text s)
  | j => (number j).map .number

def u32 : Decoder Nat := nat 32

def i32 : Decoder Int := integer (-2147483648) 2147483647

def eventFlags : Decoder EventFlags :=
  record false (.required "disabled" bool <| .required "occurrences" u32 .nil)
    fun (disabled, occurrences, ()) => ⟨disabled, occurrences⟩

def randomPosition : Decoder RandomPosition :=
  record false (.required "seed" string <| .required "position" (nat 128) .nil)
    fun (seed, position, ()) => ⟨seed, position⟩

def ending : Decoder Ending :=
  record false (.nullable "outcome" string .nil) fun (outcome, ()) => ⟨outcome⟩

def save : Decoder Save :=
  record false
    (.required "variables" savedVariables <|
      .required "inventory" (list (pair string u32)) <|
      .required "statuses" (list (pair string anyNumber)) <|
      .required "events" (list (pair string eventFlags)) <|
      .required "rng" randomPosition <|
      .optional "endState" ending .nil)
    fun (vars, inventory, statuses, events, random, ending, ()) =>
      ⟨vars, inventory, statuses, events, random, ending⟩

def config : Decoder Config :=
  record false
    (.default "seed" string "default" <|
      .default "maxItemStack" u32 4294967295 <|
      .default "defaultTriggerPriority" i32 0 .nil)
    fun (seed, maxItemStack, priority, ()) => ⟨seed, maxItemStack, priority⟩

def message : Decoder Message :=
  record false
    (.required "text" string <| .nullable "confirm" string <| .nullable "icon" string <|
      .nullable "fx" string .nil)
    fun (text, confirm, icon, fx, ()) => ⟨text, confirm, icon, fx⟩

def choiceOption : Decoder ChoiceOption :=
  record false (.required "label" string <| .required "index" (nat 64) .nil)
    fun (label, index, ()) => ⟨label, index⟩

def choicePrompt : Decoder ChoicePrompt :=
  record false
    (.required "text" string <| .nullable "icon" string <|
      .required "options" (list choiceOption) .nil)
    fun (text, icon, options, ()) => ⟨text, icon, options⟩

def modifierKind : Decoder ModifierKind :=
  name
    [("Absolute", .absolute), ("Relative", .relative), ("RelativeToBase", .relativeToBase),
      ("Assignment", .assignment)]

def notification : Decoder Notification :=
  keyed
    [("VariableChanged",
        record false
          (.required "id" string <| .required "old" number <| .required "new" number .nil)
          fun (id, old, new, ()) => .variableChanged id old new),
      ("VariableLimitsChanged",
        record false
          (.required "id" string <| .required "min" number <| .required "max" number .nil)
          fun (id, min, max, ()) => .variableLimitsChanged id min max),
      ("ItemChanged",
        record false (.required "id" string <| .required "old" u32 <| .required "new" u32 .nil)
          fun (id, old, new, ()) => .itemChanged id old new),
      ("StatusChanged",
        record false (.required "id" string <| .nullable "remaining" number .nil)
          fun (id, remaining, ()) => .statusChanged id remaining),
      ("EventFired",
        record false (.required "event" string <| .required "trigger" string .nil)
          fun (event, trigger, ()) => .eventFired event trigger),
      ("EventToggled",
        record false (.required "event" string <| .required "enabled" bool .nil)
          fun (event, enabled, ()) => .eventToggled event enabled),
      ("GameEnded",
        record false (.nullable "outcome" string .nil) fun (outcome, ()) => .gameEnded outcome)]

end Decoder

def ofSavedVariable : SavedVariable → Json
  | .value x => ofNumber x
  | .bounded x min max => .array [ofNumber x, ofNumber min, ofNumber max]

def ofSource : Source → Json
  | .number x => ofFloat x
  | .text s => .string s

def ofEventFlags (flags : EventFlags) : Json :=
  .object [("disabled", .bool flags.disabled), ("occurrences", .nat flags.occurrences)]

def ofRandomPosition (p : RandomPosition) : Json :=
  .object [("seed", .string p.seed), ("position", .nat p.position)]

def ofEnding (ending : Ending) : Json := .object [("outcome", .option .string ending.outcome)]

def ofSave (save : Save) : Json :=
  .object
    [("variables", .object (save.vars.toList.map fun (id, v) => (id, ofSavedVariable v))),
      ("inventory", .array (save.inventory.map fun (id, n) => .array [.string id, .nat n])),
      ("statuses", .array (save.statuses.map fun (id, x) => .array [.string id, ofNumber x])),
      ("events", .array (save.events.map fun (id, f) => .array [.string id, ofEventFlags f])),
      ("rng", ofRandomPosition save.random),
      ("endState", .option ofEnding save.ending)]

def ofConfig (config : Config) : Json :=
  .object
    [("seed", .string config.seed), ("maxItemStack", .nat config.maxItemStack),
      ("defaultTriggerPriority", .int config.defaultTriggerPriority)]

def ofMessage (message : Message) : Json :=
  .object
    [("text", .string message.text), ("confirm", .option .string message.confirm),
      ("icon", .option .string message.icon), ("fx", .option .string message.fx)]

def ofChoicePrompt (prompt : ChoicePrompt) : Json :=
  .object
    [("text", .string prompt.text), ("icon", .option .string prompt.icon),
      ("options",
        .array (prompt.options.map fun o =>
          .object [("label", .string o.label), ("index", .nat o.index)]))]

def ofModifierKind : ModifierKind → Json
  | .absolute => .string "Absolute"
  | .relative => .string "Relative"
  | .relativeToBase => .string "RelativeToBase"
  | .assignment => .string "Assignment"

def ofNotification : Notification → Json
  | .variableChanged id old new =>
    .object [("VariableChanged",
      .object [("id", .string id), ("old", ofFloat old), ("new", ofFloat new)])]
  | .variableLimitsChanged id min max =>
    .object [("VariableLimitsChanged",
      .object [("id", .string id), ("min", ofFloat min), ("max", ofFloat max)])]
  | .itemChanged id old new =>
    .object [("ItemChanged", .object [("id", .string id), ("old", .nat old), ("new", .nat new)])]
  | .statusChanged id remaining =>
    .object [("StatusChanged",
      .object [("id", .string id), ("remaining", .option ofFloat remaining)])]
  | .eventFired event trigger =>
    .object [("EventFired", .object [("event", .string event), ("trigger", .string trigger)])]
  | .eventToggled event enabled =>
    .object [("EventToggled", .object [("event", .string event), ("enabled", .bool enabled)])]
  | .gameEnded outcome => .object [("GameEnded", .object [("outcome", .option .string outcome)])]

end Scenario.Json
