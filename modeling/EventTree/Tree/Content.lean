import EventTree.Event.Json
import EventTree.Number.FixedPlaces

/-!
# Fields of an event as files

The content of a file is the text of one field. `.json` holds the whole event; of
the other names, an attribute comes before a fixed field of the same name.
-/
namespace EventTree
open Number

/-- The fields that every event has, in the order in which they are listed. -/
inductive FixedField where
  | service
  | host
  | metric
  | description
  | state
  | time
  | tags
  | ttl
deriving DecidableEq, Repr

namespace FixedField

def all : List FixedField :=
  [.service, .host, .metric, .description, .state, .time, .tags, .ttl]

def name : FixedField → String
  | .service => "Service"
  | .host => "Host"
  | .metric => "Metric"
  | .description => "Description"
  | .state => "State"
  | .time => "Time"
  | .tags => "Tags"
  | .ttl => "Ttl"

def ofName? (name : String) : Option FixedField := all.find? (·.name = name)

/-- The text of a field. Tags stand in one line, numbers have six decimal places. -/
def text (e : Event) : FixedField → String
  | .service => e.service
  | .host => e.host
  | .metric => e.metric.fixedText
  | .description => e.description
  | .state => e.state
  | .time => .ofList (Json.intText e.time.toInt)
  | .tags => ", ".intercalate e.tags
  | .ttl => e.ttl.fixedText

end FixedField

def isFixedField (name : String) : Bool := (FixedField.ofName? name).isSome

namespace Event

/-- The file that holds the whole event. -/
def jsonName : String := ".json"

/-- The text of the file with this name, if the event has one. -/
def fileText? (e : Event) (name : String) : Option String :=
  if name = jsonName then some e.toJson
  else match e.attributes.get? name with
    | some value => some value
    | none => (FixedField.ofName? name).map (·.text e)

def fileBytes? (e : Event) (name : String) : Option Bytes := (e.fileText? name).map Text.encode

end Event
end EventTree
