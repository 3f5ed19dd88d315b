import EventTree.Number.Binary

/-!
# Messages exchanged with the index

Requests and answers have one shape. Every field that may be left out is an option,
so a message says exactly which fields were sent.
-/
namespace EventTree.Wire
open Number

structure Attribute where
  key : String := ""
  value : Option String := none
deriving DecidableEq, Repr, Inhabited

/-- An event as it is sent. -/
structure SentEvent where
  time : Option Int64 := none
  state : Option String := none
  service : Option String := none
  host : Option String := none
  description : Option String := none
  tags : List String := []
  ttl : Option Binary32 := none
  attributes : List Attribute := []
  timeMicros : Option Int64 := none
  metricInt : Option Int64 := none
  metricDouble : Option Binary64 := none
  metricFloat : Option Binary32 := none
deriving DecidableEq, Repr, Inhabited

structure Query where
  text : Option String := none
deriving DecidableEq, Repr, Inhabited

structure Message where
  ok : Option Bool := none
  error : Option String := none
  query : Option Query := none
  events : List SentEvent := []
deriving DecidableEq, Repr, Inhabited

/-- A request for the events that satisfy a filter. -/
def Message.ofFilter (filter : String) : Message := { query := some { text := some filter } }

end EventTree.Wire
