import EventTree.Event.Basic
import EventTree.Index.Fault

/-!
# Sources of events

What the tree needs of an index: an answer to a filter, which the source may
remember. What the filter means is the source's own business.
-/
namespace EventTree

class QuerySource (σ : Type) where
  query : σ → String → Except QueryFault (List Event) × σ

/-- A source without memory, given by its answers. -/
instance : QuerySource (String → Except QueryFault (List Event)) where
  query answer filter := (answer filter, answer)

end EventTree
