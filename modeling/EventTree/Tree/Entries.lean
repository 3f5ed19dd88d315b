import EventTree.Tree.Content
import EventTree.Tree.Fault
import EventTree.Tree.Names
import EventTree.Tree.Node

/-!
# Directory listings

A directory between the root and a service lists the distinct hosts or services of
the events found for it, in ascending order. The directory of one event lists its
fixed fields, then its other attributes, then `.json`. Values that cannot be one
component of a path are left out.
-/
namespace EventTree

structure Entry where
  name : String
  kind : NodeKind
deriving DecidableEq, Repr

namespace Entry

def directory (name : String) : Entry := ⟨name, .directory⟩
def file (name : String) : Entry := ⟨name, .file⟩

/-- The distinct usable values that `value` takes on the events. -/
def valueNames (value : Event → String) (events : List Event) : List String :=
  distinctNames ((events.map value).filter isSegment)

/-- A directory for each distinct value. -/
def ofValues (value : Event → String) (events : List Event) : List Entry :=
  (valueNames value events).map directory

/-- The root: every host, and the directory of filters. -/
def ofRoot (events : List Event) : List Entry :=
  (insertName Node.queryName (valueNames (·.host) events)).map directory

/-- The attributes of an event that are listed beside its fixed fields. -/
def attributeNames (e : Event) : List String :=
  e.attributes.keys.filter fun key => !isFixedField key && key != Event.jsonName && isSegment key

/-- The files of one event. -/
def ofEvent (e : Event) : List Entry :=
  (FixedField.all.map (·.name) ++ attributeNames e ++ [Event.jsonName]).map file

end Entry

/-- The only event of an answer, if there is one; `filter` is what was asked. -/
def singleEvent (filter : String) : List Event → Except TreeFault (Option Event)
  | [] => .ok none
  | [e] => .ok (some e)
  | events => .error (.ambiguous filter events.length)

end EventTree
