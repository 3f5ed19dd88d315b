import EventTree.Index.Source
import EventTree.Keyed
import EventTree.Tree.Filter
import EventTree.Tree.Names

/-!
# A scripted index

An index that holds prepared answers to exact filter texts and gives no events for
any other. It keeps the filters it was asked, failing or not.
-/
namespace EventTree

structure ScriptedIndex where
  answers : Keyed String (List Event) := .empty
  /-- Every query fails while this is set. -/
  failing : Bool := false
  /-- A fault that takes the place of every result. -/
  override : Option QueryFault := none
  asked : List String := []
deriving Repr

namespace ScriptedIndex

/-- Answers `filter` with `events` from now on. -/
def respond (s : ScriptedIndex) (filter : String) (events : List Event) : ScriptedIndex :=
  { s with answers := s.answers.insert filter events }

def ask (s : ScriptedIndex) (filter : String) : Except QueryFault (List Event) × ScriptedIndex :=
  let result :=
    match s.override with
    | some fault => .error fault
    | none =>
      if s.failing then .error (.transport "memory store set to fail")
      else .ok ((s.answers.get? filter).getD [])
  (result, { s with asked := s.asked ++ [filter] })

instance : QuerySource ScriptedIndex := ⟨ask⟩

/-- The user filters under which the hosts of an index are prepared. -/
def preparedFilters : List (Option String) := [none, some Filter.everything]

/-- Answers for one host: its events, and those of each of its services. -/
def respondHost (events : List Event) (s : ScriptedIndex) (host : String) : ScriptedIndex :=
  let ofHost := events.filter (·.host = host)
  let s := preparedFilters.foldl (fun s f => s.respond (Filter.ofHost f host) ofHost) s
  (distinctNames (ofHost.map (·.service))).foldl (fun s service =>
    let matching := ofHost.filter (·.service = service)
    preparedFilters.foldl
      (fun s f => s.respond (Filter.ofSelector ⟨f, host, service⟩) matching) s) s

/-- The index of `events`: it answers the filters of all their nodes, plain and under
the filter that holds of everything. -/
def ofEvents (events : List Event) : ScriptedIndex :=
  (distinctNames (events.map (·.host))).foldl (respondHost events)
    (respond {} Filter.everything events)

end ScriptedIndex
end EventTree
