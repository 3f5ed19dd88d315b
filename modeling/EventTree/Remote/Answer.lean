import EventTree.Event.Basic
import EventTree.Number.Shortest
import EventTree.Remote.Fault
import EventTree.Wire.Message

/-!
# Events from answers

What is left out of a sent event is empty or zero. Of several metrics the integer
counts before the double and that before the float; whole seconds count before
microseconds, which are rounded down.
-/
namespace EventTree
open Number

namespace Wire.SentEvent

def metric (e : SentEvent) : Binary64 :=
  match e.metricInt, e.metricDouble, e.metricFloat with
  | some n, _, _ => .ofInt n.toInt
  | none, some x, _ => x
  | none, none, some x => x.widen
  | none, none, none => .zero

def seconds (e : SentEvent) : Int64 :=
  match e.time, e.timeMicros with
  | some t, _ => t
  | none, some us => Int64.ofInt (us.toInt.fdiv 1000000)
  | none, none => 0

def toEvent (e : SentEvent) : Event where
  host := e.host.getD ""
  service := e.service.getD ""
  metric := e.metric
  description := e.description.getD ""
  state := e.state.getD ""
  time := e.seconds
  tags := e.tags
  ttl := (e.ttl.map Binary32.widen).getD .zero
  attributes := .ofList (e.attributes.map fun a => (a.key, a.value.getD ""))

end Wire.SentEvent

/-- The events of an answer, or the refusal that it is. -/
def Wire.Message.events? (m : Wire.Message) : Except ExchangeFault (List Event) :=
  if m.ok = some false then .error (.server (m.error.getD "query rejected"))
  else .ok (m.events.map (·.toEvent))

end EventTree
