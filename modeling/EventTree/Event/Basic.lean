import EventTree.Event.Attributes
import EventTree.Number.Binary

/-!
# Events

One record of the index: what a service on a host last reported.
-/
namespace EventTree
open Number

structure Event where
  host : String := ""
  service : String := ""
  metric : Binary64 := .zero
  description : String := ""
  state : String := ""
  /-- Seconds since the epoch. -/
  time : Int64 := 0
  tags : List String := []
  ttl : Binary64 := .zero
  attributes : Attributes := .empty
deriving DecidableEq, Repr, Inhabited

end EventTree
