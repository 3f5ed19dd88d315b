import EventTree.Tree.Node

/-!
# Filters sent to the index

The text asked of the index for each node. A user's filter is never looked into: it
is put in parentheses whenever clauses are added to it, so an `or` inside it cannot
take them in. Host and service go into string literals, where quotes and backslashes
are escaped.
-/
namespace EventTree.Filter

/-- Holds of every event. -/
def everything : String := "true"

def literalChar (c : Char) : List Char :=
  match c with
  | '"' => ['\\', '"']
  | '\\' => ['\\', '\\']
  | c => [c]

/-- A string literal of the query language. -/
def literal (value : String) : String :=
  .ofList ('"' :: value.toList.flatMap literalChar ++ ['"'])

def hostIs (host : String) : String := "host = " ++ literal host

def serviceIs (service : String) : String := "service = " ++ literal service

/-- A clause under a user's filter, if there is one. -/
def under (filter : Option String) (clause : String) : String :=
  match filter with
  | some f => "(" ++ f ++ ") and " ++ clause
  | none => clause

/-- The events of one host. -/
def ofHost (filter : Option String) (host : String) : String := under filter (hostIs host)

/-- The event behind a selector. -/
def ofSelector (s : Selector) : String :=
  under s.filter (hostIs s.host ++ " and " ++ serviceIs s.service)

/-- The filter to ask for a node; nothing is asked for `.query` itself. -/
def ofNode? : Node → Option String
  | .root => some everything
  | .queryRoot => none
  | .hosts filter => some filter
  | .services filter host => some (ofHost filter host)
  | .record selector => some (ofSelector selector)
  | .field selector _ => some (ofSelector selector)

end EventTree.Filter
