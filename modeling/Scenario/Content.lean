import Scenario.Build
import Scenario.Json.Content

/-!
From content documents to definitions.
-/

namespace Scenario

/-- All that a document defines, in the order of registration. -/
structure Definitions where
  vars : List (String × Variable)
  attributes : List Attribute
  items : List (Provider Expression)
  statuses : List (Provider Expression)
  events : List (Event Expression)

namespace Build

def checkBounds (kind : Kind) (id : String) (min max : Float) : Build Unit :=
  if validBounds min max then return ()
  else throw (.invalid (.definition kind id) (.bounds min max))

def variableOf (id : String) (saved : SavedVariable) : Build (String × Variable) := do
  let v := saved.toVariable
  checkBounds .variable id v.min v.max
  return (id, v)

def checkAttribute (a : Attribute) : Build Attribute := do
  checkBounds .attribute a.id a.min a.max
  return a

/-- What errors in an event are about: the event, if it is an object with an id. -/
def eventContext : Json → Context
  | .object ms =>
    match ms.lookup "id" with
    | some (.string id) => .definition .event id
    | _ => .document "event"
  | _ => .document "event"

/-- Builds an event from its JSON form, whose members are taken in the order of their keys. -/
def eventOf (j : Json) : Build (Event Expression) := do
  let j := j.canonical
  match Json.Decoder.event j with
  | .error fault => throw (.malformed (eventContext j) fault)
  | .ok record => event (eventContext j) record

def eventOfText (text : String) : Build (Event Expression) := do
  match Json.Decoder.value.ofText text with
  | .error fault => throw (.malformed (.document "event") fault)
  | .ok j => eventOf j

/-- Builds a document: variables by id, then attributes, items, statuses and events in order. -/
def content (c : Content) : Build Definitions := do
  let vars ← each (fun (id, v) => variableOf id v) c.vars.toList
  let attributes ← each checkAttribute c.attributes
  let items ← each (provider .item) c.items
  let statuses ← each (provider .status) c.statuses
  let events ← each eventOf c.events
  return { vars, attributes, items, statuses, events }

def contentOfText (text : String) : Build Definitions := do
  match Json.Decoder.content.ofText text with
  | .error fault => throw (.malformed (.document "content") fault)
  | .ok c => content c

end Build

end Scenario
