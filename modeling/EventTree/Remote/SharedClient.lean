import EventTree.Keyed
import EventTree.Remote.Client

/-!
# A client with many callers

Calls are put in a queue and run one after the other in the order of their arrival,
each to its end, whether its caller still waits for it or not. The calls behind a
shutdown are turned away, and so are those that come later.
-/
namespace EventTree

inductive Command where
  | query (filter : String)
  | shutdown
deriving DecidableEq, Repr

/-- What the caller of a command gets. -/
inductive Outcome where
  | answered (result : Except ExchangeFault (List Event))
  | stopped
deriving Repr

/-- The outcome of a command that comes too late. -/
def Command.turnedAway : Command → Outcome
  | .query _ => .answered (.error .shutdown)
  | .shutdown => .stopped

/-- A command under the number that its caller knows it by. -/
structure Call where
  number : Nat
  command : Command
deriving DecidableEq, Repr

structure SharedClient (ν : Type) [Network ν] where
  client : Client ν
  /-- Calls that have not been run, the oldest first. -/
  waiting : List Call := []
  /-- The outcomes of calls by their numbers. -/
  outcomes : Keyed Nat Outcome := .empty
  /-- The number of the next call. -/
  next : Nat := 0

namespace SharedClient
variable {ν : Type} [Network ν]

/-- Takes a call from a caller. -/
def submit (s : SharedClient ν) (command : Command) : Nat × SharedClient ν :=
  let number := s.next
  let s := { s with next := s.next + 1 }
  (number,
    if s.client.closed then { s with outcomes := s.outcomes.insert number command.turnedAway }
    else { s with waiting := s.waiting ++ [⟨number, command⟩] })

/-- Turns all waiting calls away. -/
def dismiss (s : SharedClient ν) : SharedClient ν where
  client := s.client
  outcomes := s.waiting.foldl (fun outcomes call =>
    outcomes.insert call.number call.command.turnedAway) s.outcomes
  next := s.next

/-- Runs the oldest call, if one waits. -/
def advance (s : SharedClient ν) : SharedClient ν :=
  match s.waiting with
  | [] => s
  | ⟨number, .query filter⟩ :: waiting =>
    let (result, client) := s.client.query filter
    { s with client, waiting, outcomes := s.outcomes.insert number (.answered result) }
  | ⟨number, .shutdown⟩ :: waiting =>
    dismiss
      { s with
        client := s.client.shutdown
        waiting
        outcomes := s.outcomes.insert number .stopped }

/-- Runs all calls that wait. -/
def settle (s : SharedClient ν) : SharedClient ν := Nat.repeat advance s.waiting.length s

def outcome? (s : SharedClient ν) (number : Nat) : Option Outcome := s.outcomes.get? number

/-- Takes calls and runs them, in their order. -/
def runAll (s : SharedClient ν) (commands : List Command) :
    List (Option Outcome) × SharedClient ν :=
  let (numbers, s) := commands.foldl (fun (numbers, s) command =>
    let (number, s) := s.submit command
    (numbers ++ [number], s)) (([] : List Nat), s)
  let s := s.settle
  (numbers.map s.outcome?, s)

end SharedClient
end EventTree
