import Scenario.Json.Reader

/-!
Typed readings of JSON values. A record has a row of fields, and may be written as an object or as
the array of its fields in their order; its members are visited in the order of the text, and the
first one at fault is reported. A tagged record names its kind in one of its members, or as the
first item of an array.
-/

namespace Scenario.Json

inductive Fault
  | notJson
  | missingField (name : String)
  | unknownField (name : String)
  | duplicateField (name : String)
  | unknownVariant (name : String)
  | mismatch
deriving Repr, DecidableEq

abbrev Decoder (α : Type) := Json → Except Fault α

namespace Decoder

variable {α β : Type}

def map (f : α → β) (d : Decoder α) : Decoder β := fun j => (d j).map f

def bool : Decoder Bool
  | .bool b => .ok b
  | _ => .error .mismatch

def string : Decoder String
  | .string s => .ok s
  | _ => .error .mismatch

def number : Decoder Float := fun j =>
  match j.number? with
  | some x => .ok x
  | none => .error .mismatch

/-- An integer from `low` up to `high`. Minus zero is no integer. -/
def integer (low high : Int) : Decoder Int
  | .integer negative magnitude =>
    let n : Int := if negative then -magnitude else magnitude
    if (negative && magnitude = 0) || n < low || high < n then .error .mismatch else .ok n
  | _ => .error .mismatch

def nat (bits : Nat) : Decoder Nat
  | .integer false n => if n < Nat.pow 2 bits then .ok n else .error .mismatch
  | _ => .error .mismatch

def option (d : Decoder α) : Decoder (Option α)
  | .null => .ok none
  | j => (d j).map some

def list (d : Decoder α) : Decoder (List α)
  | .array items => items.mapM d
  | _ => .error .mismatch

def pair (first : Decoder α) (second : Decoder β) : Decoder (α × β)
  | .array (a :: rest) => do
    let a ← first a
    match rest with
    | [b] => return (a, ← second b)
    | b :: _ =>
      let _ ← second b
      .error .mismatch
    | [] => .error .mismatch
  | _ => .error .mismatch

def members (d : Decoder α) : Decoder (List (String × α))
  | .object ms => ms.mapM fun (k, j) => do return (k, ← d j)
  | _ => .error .mismatch

def value : Decoder Json := fun j => if j.readable then .ok j else .error .mismatch

end Decoder

inductive Absence (α : Type)
  | refused
  /-- Objects may leave the field out, arrays may not. -/
  | inObjects (value : α)
  /-- Objects and arrays may leave the field out. -/
  | anywhere (value : α)

structure Field (α : Type) where
  name : String
  absence : Absence α
  decode : Decoder α

inductive Fields : List Type → Type 1
  | nil : Fields []
  | cons {α : Type} {αs : List Type} (field : Field α) (fields : Fields αs) : Fields (α :: αs)

def Values : List Type → Type
  | [] => Unit
  | α :: αs => α × Values αs

/-- The values of the fields that have been visited. -/
def Slots : List Type → Type
  | [] => Unit
  | α :: αs => Option α × Slots αs

def Slots.empty : (αs : List Type) → Slots αs
  | [] => ()
  | _ :: αs => (none, Slots.empty αs)

namespace Fields

def names : {αs : List Type} → Fields αs → List String
  | _, .nil => []
  | _, .cons field fields => field.name :: fields.names

/-- Reads a member into its slot; nothing if the record has no such field. -/
def visit (key : String) (j : Json) :
    {αs : List Type} → Fields αs → Slots αs → Except Fault (Option (Slots αs))
  | _, .nil, _ => .ok none
  | _, .cons field fields, (slot, slots) =>
    if field.name = key then
      match slot with
      | some _ => .error (.duplicateField key)
      | none => (field.decode j).map fun a => some (some a, slots)
    else (visit key j fields slots).map (·.map fun slots => (slot, slots))

/-- Visits members in turn. A strict record refuses members that are none of its fields. -/
def visitAll (strict : Bool) {αs : List Type} (fields : Fields αs) :
    List (String × Json) → Slots αs → Except Fault (Slots αs)
  | [], slots => .ok slots
  | (key, j) :: rest, slots => do
    match ← fields.visit key j slots with
    | some slots => fields.visitAll strict rest slots
    | none =>
      if strict then .error (.unknownField key) else fields.visitAll strict rest slots

def finish : {αs : List Type} → Fields αs → Slots αs → Except Fault (Values αs)
  | _, .nil, _ => .ok ()
  | _, .cons field fields, (slot, slots) => do
    let a ←
      match slot, field.absence with
      | some a, _ | none, .inObjects a | none, .anywhere a => .ok a
      | none, .refused => .error (.missingField field.name)
    return (a, ← fields.finish slots)

def ofItems : {αs : List Type} → Fields αs → List Json → Except Fault (Values αs)
  | _, .nil, [] => .ok ()
  | _, .nil, _ :: _ => .error .mismatch
  | _, .cons field fields, [] => do
    match field.absence with
    | .anywhere a => return (a, ← fields.ofItems [])
    | _ => .error .mismatch
  | _, .cons field fields, j :: js => do
    let a ← field.decode j
    return (a, ← fields.ofItems js)

def required {α : Type} {αs : List Type} (name : String) (d : Decoder α) (fields : Fields αs) :
    Fields (α :: αs) :=
  .cons ⟨name, .refused, d⟩ fields

def default {α : Type} {αs : List Type} (name : String) (d : Decoder α) (value : α)
    (fields : Fields αs) : Fields (α :: αs) :=
  .cons ⟨name, .anywhere value, d⟩ fields

/-- A field that may be `null` or left out. -/
def optional {α : Type} {αs : List Type} (name : String) (d : Decoder α) (fields : Fields αs) :
    Fields (Option α :: αs) :=
  .cons ⟨name, .anywhere none, d.option⟩ fields

/-- A field that may be `null`, and that objects may leave out. -/
def nullable {α : Type} {αs : List Type} (name : String) (d : Decoder α) (fields : Fields αs) :
    Fields (Option α :: αs) :=
  .cons ⟨name, .inObjects none, d.option⟩ fields

end Fields

namespace Decoder

variable {α : Type}

def record {αs : List Type} (strict : Bool) (fields : Fields αs) (build : Values αs → α) :
    Decoder α
  | .object ms => do
    let slots ← fields.visitAll strict ms (.empty αs)
    return build (← fields.finish slots)
  | .array js => (fields.ofItems js).map build
  | _ => .error .mismatch

/-- The decoder for a kind of record. A kind inside another record may be told by its number. -/
def kind? (numbered : Bool) (kinds : List (String × Decoder α)) : Json → Except Fault (Decoder α)
  | .string name =>
    match kinds.lookup name with
    | some d => .ok d
    | none => .error (.unknownVariant name)
  | .integer false n =>
    match numbered, kinds[n]? with
    | true, some (_, d) => .ok d
    | _, _ => .error .mismatch
  | _ => .error .mismatch

def untag (numbered : Bool) (tag : String) (kinds : List (String × Decoder α)) :
    List (String × Json) → Except Fault (Option (Decoder α) × List (String × Json))
  | [] => .ok (none, [])
  | (key, j) :: rest => do
    if key = tag then
      let d ← kind? numbered kinds j
      if (rest.lookup tag).isSome then .error (.duplicateField tag) else return (some d, rest)
    else
      let (d, others) ← untag numbered tag kinds rest
      return (d, (key, j) :: others)

def tagged (numbered : Bool) (tag : String) (kinds : List (String × Decoder α)) : Decoder α
  | .object ms => do
    match ← untag numbered tag kinds ms with
    | (some d, others) => d (.object others)
    | (none, _) => .error (.missingField tag)
  | .array [] => .error (.missingField tag)
  | .array (j :: js) => do
    let d ← kind? numbered kinds j
    d (.array js)
  | _ => .error .mismatch

/-- A kind that is the only key of an object, with its record as the value. -/
def keyed (kinds : List (String × Decoder α)) : Decoder α
  | .object ((key, j) :: rest) => do
    let d ← kind? false kinds (.string key)
    let a ← d j
    if rest.isEmpty then return a else .error .mismatch
  | .string name => do
    let _ ← kind? false kinds (.string name)
    .error .mismatch
  | _ => .error .mismatch

/-- One of some names. A name may also be the only key of an object, with `null` as the value. -/
def name (names : List (String × α)) : Decoder α
  | .string s =>
    match names.lookup s with
    | some a => .ok a
    | none => .error (.unknownVariant s)
  | .object ((key, j) :: rest) =>
    match names.lookup key with
    | none => .error (.unknownVariant key)
    | some a =>
      match j, rest with
      | .null, [] => .ok a
      | _, _ => .error .mismatch
  | _ => .error .mismatch

/-- Reads a text. What is wrong with a value matters only if the whole text has a value. -/
def ofText (d : Decoder α) (text : String) : Except Fault α :=
  match read? text with
  | none => .error .notJson
  | some j =>
    match d j with
    | .ok a => .ok a
    | .error e => .error (if j.readable then e else .notJson)

end Decoder

end Scenario.Json
