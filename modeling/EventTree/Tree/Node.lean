import EventTree.Path

/-!
# Nodes of the tree

The tree has two branches of one shape. A plain path is host, service, field; under
`.query` a filter comes before these three. A node is a file exactly one level below
a service, and nothing lies deeper.
-/
namespace EventTree

inductive NodeKind where
  | directory
  | file
deriving DecidableEq, Repr

/-- The one event behind a service's directory. -/
structure Selector where
  /-- The user's filter, under `.query`. -/
  filter : Option String
  host : String
  service : String
deriving DecidableEq, Repr

inductive Node where
  | root
  | queryRoot
  | hosts (filter : String)
  | services (filter : Option String) (host : String)
  | record (selector : Selector)
  | field (selector : Selector) (name : String)
deriving DecidableEq, Repr

namespace Node

/-- The directory whose subdirectories are filters. -/
def queryName : String := ".query"

def kind : Node → NodeKind
  | .field .. => .file
  | _ => .directory

/-- The node below `.query`. -/
def underQuery? : List String → Option Node
  | [] => some .queryRoot
  | [filter] => some (.hosts filter)
  | [filter, host] => some (.services (some filter) host)
  | [filter, host, service] => some (.record ⟨some filter, host, service⟩)
  | [filter, host, service, name] => some (.field ⟨some filter, host, service⟩ name)
  | _ => none

/-- The node of a plain path. -/
def plain? : List String → Option Node
  | [] => some .root
  | [host] => some (.services none host)
  | [host, service] => some (.record ⟨none, host, service⟩)
  | [host, service, name] => some (.field ⟨none, host, service⟩ name)
  | _ => none

def ofNames? (names : List String) : Option Node :=
  match names with
  | first :: rest => if first = queryName then underQuery? rest else plain? names
  | [] => plain? []

end Node
end EventTree
