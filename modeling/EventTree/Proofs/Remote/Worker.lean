import EventTree.Remote.SharedClient

/-!
# A worker and its callers, action by action

`SharedClient` runs a call in one go. Here a worker serves the same queue by single actions,
and whoever holds a handle makes calls at any time between two of them. For a shutdown the
worker first lets no more calls in, then gives the connection up, then replies, and at last
drops the calls that are still in the queue. A query is one action, since it looks at nothing
but the network; what the callers do while it is under way comes before it or behind it.

Callers may stop waiting. The worker does not ask whether they do: their calls stay where they
are and are replied to like others.
-/
namespace EventTree

/-- What a worker does next. -/
inductive Worker.Task where
  /-- It takes the oldest call. Without a call it waits for one, as long as there are handles. -/
  | take
  | ask (number : Nat) (filter : String)
  | answer (number : Nat) (result : Except ExchangeFault (List Event))
  /-- A shutdown was taken: no more calls are let in. -/
  | close (number : Nat)
  | disconnect (number : Nat)
  | confirm (number : Nat)
  /-- It drops the calls that are left, one by one. -/
  | quit
  | gone
deriving Repr

structure Worker (ν : Type) [Network ν] where
  client : Client ν
  task : Worker.Task := .take
  /-- Calls that were not taken, the oldest first. -/
  queue : List Call := []
  /-- Whether calls are let into the queue. All handles see this. -/
  accepting : Bool := true
  handles : Nat := 1
  /-- The commands of all calls by their numbers. Calls are numbered in their order. -/
  commands : List Command := []
  /-- What was replied to which call, the latest last. A call that is dropped is replied to
  by that: its caller knows that it was turned away. -/
  replies : List (Nat × Outcome) := []
  /-- The filters of the queries that were run, the latest last. -/
  executed : List String := []
  /-- The calls whose callers no longer wait. -/
  abandoned : List Nat := []

namespace Worker
variable {ν : Type} [Network ν]

/-- The call that the worker has taken and not replied to. -/
def Task.number? : Task → Option Nat
  | .ask number _ | .answer number _ | .close number | .disconnect number | .confirm number =>
    some number
  | .take | .quit | .gone => none

def reply (s : Worker ν) (number : Nat) (o : Outcome) : Worker ν :=
  { s with replies := s.replies ++ [(number, o)] }

/-- A call by one of the handles. -/
def call (s : Worker ν) (command : Command) : Worker ν :=
  let number := s.commands.length
  if s.accepting then
    { s with commands := s.commands ++ [command], queue := s.queue ++ [⟨number, command⟩] }
  else { s.reply number command.turnedAway with commands := s.commands ++ [command] }

/-- The worker's next action. -/
def work (s : Worker ν) : Worker ν :=
  match s.task with
  | .take =>
    match s.queue with
    | ⟨number, .query filter⟩ :: queue => { s with queue, task := .ask number filter }
    | ⟨number, .shutdown⟩ :: queue => { s with queue, task := .close number }
    | [] => if s.handles = 0 then { s with task := .quit } else s
  | .ask number filter =>
    let (result, client) := s.client.query filter
    { s with client, executed := s.executed ++ [filter], task := .answer number result }
  | .answer number result => { s.reply number (.answered result) with task := .take }
  | .close number => { s with accepting := false, task := .disconnect number }
  | .disconnect number => { s with client := s.client.disconnect, task := .confirm number }
  | .confirm number => { s.reply number .stopped with task := .quit }
  | .quit =>
    match s.queue with
    | ⟨number, command⟩ :: queue =>
      { s.reply number command.turnedAway with queue, accepting := false }
    | [] => { s with client := s.client.disconnect, accepting := false, task := .gone }
  | .gone => s

inductive Move where
  | call (command : Command)
  /-- A caller stops waiting for a reply. -/
  | abandon (number : Nat)
  | cloneHandle
  | dropHandle
  | work
deriving DecidableEq, Repr

/-- The calls that were replied to. -/
def replied (s : Worker ν) : List Nat := s.replies.map (·.1)

/-- The calls that were not replied to: that in the worker's hands, then the queue. -/
def pending (s : Worker ν) : List Nat := s.task.number?.toList ++ s.queue.map (·.number)

/-- Without handles no calls are made, and there will be no handles again. -/
def move (s : Worker ν) : Move → Worker ν
  | .call command => if s.handles = 0 then s else s.call command
  | .abandon number =>
    if number ∈ s.pending then { s with abandoned := s.abandoned ++ [number] } else s
  | .cloneHandle => if s.handles = 0 then s else { s with handles := s.handles + 1 }
  | .dropHandle => { s with handles := s.handles - 1 }
  | .work => s.work

def run (s : Worker ν) (moves : List Move) : Worker ν := moves.foldl move s

/-- All that an action of the worker can do. -/
inductive Worked (s : Worker ν) : Worker ν → Prop where
  | wait : s.task = .take → s.queue = [] → Worked s s
  | takeQuery {number : Nat} {filter : String} {rest : List Call} : s.task = .take →
    s.queue = ⟨number, .query filter⟩ :: rest →
    Worked s { s with queue := rest, task := .ask number filter }
  | takeShutdown {number : Nat} {rest : List Call} : s.task = .take →
    s.queue = ⟨number, .shutdown⟩ :: rest →
    Worked s { s with queue := rest, task := .close number }
  | desert : s.task = .take → s.queue = [] → s.handles = 0 → Worked s { s with task := .quit }
  | ask {number : Nat} {filter : String} : s.task = .ask number filter →
    Worked s
      { s with
        client := (s.client.query filter).2
        executed := s.executed ++ [filter]
        task := .answer number (s.client.query filter).1 }
  | answer {number : Nat} {result : Except ExchangeFault (List Event)} :
    s.task = .answer number result →
    Worked s { s with replies := s.replies ++ [(number, .answered result)], task := .take }
  | close {number : Nat} : s.task = .close number →
    Worked s { s with accepting := false, task := .disconnect number }
  | disconnect {number : Nat} : s.task = .disconnect number →
    Worked s { s with client := s.client.disconnect, task := .confirm number }
  | confirm {number : Nat} : s.task = .confirm number →
    Worked s { s with replies := s.replies ++ [(number, .stopped)], task := .quit }
  | drop {number : Nat} {command : Command} {rest : List Call} : s.task = .quit →
    s.queue = ⟨number, command⟩ :: rest →
    Worked s
      { s with
        replies := s.replies ++ [(number, command.turnedAway)]
        queue := rest
        accepting := false }
  | leave : s.task = .quit → s.queue = [] →
    Worked s { s with client := s.client.disconnect, accepting := false, task := .gone }
  | gone : s.task = .gone → Worked s s

theorem work_worked (s : Worker ν) : Worked s s.work := by
  unfold work
  split
  · next htask =>
    split
    · next hqueue => exact .takeQuery htask hqueue
    · next hqueue => exact .takeShutdown htask hqueue
    · next hqueue =>
      split
      · next hhandles => exact .desert htask hqueue hhandles
      · exact .wait htask hqueue
  · next htask => exact .ask htask
  · next htask => exact .answer htask
  · next htask => exact .close htask
  · next htask => exact .disconnect htask
  · next htask => exact .confirm htask
  · next htask =>
    split
    · next hqueue => exact .drop htask hqueue
    · next hqueue => exact .leave htask hqueue
  · next htask => exact .gone htask

/-- All that a move can do. -/
inductive Moved (s : Worker ν) : Worker ν → Prop where
  | callers (handles : Nat) (abandoned : List Nat) : (s.handles = 0 → handles = 0) →
    Moved s { s with handles, abandoned }
  | accepted (command : Command) : s.handles ≠ 0 → s.accepting = true →
    Moved s
      { s with
        commands := s.commands ++ [command]
        queue := s.queue ++ [⟨s.commands.length, command⟩] }
  | refused (command : Command) : s.handles ≠ 0 → s.accepting = false →
    Moved s
      { s with
        commands := s.commands ++ [command]
        replies := s.replies ++ [(s.commands.length, command.turnedAway)] }
  | worked {t : Worker ν} : Worked s t → Moved s t

theorem Moved.nothing (s : Worker ν) : Moved s s := .callers s.handles s.abandoned id

theorem call_moved {s : Worker ν} (hhandles : s.handles ≠ 0) (command : Command) :
    Moved s (s.call command) := by
  unfold call
  split
  · next haccepting => exact .accepted command hhandles haccepting
  · next haccepting => exact .refused command hhandles (Bool.eq_false_iff.2 haccepting)

theorem move_moved (s : Worker ν) (m : Move) : Moved s (s.move m) := by
  cases m with
  | call command =>
    simp only [move]
    split
    · exact .nothing s
    · next hhandles => exact call_moved hhandles command
  | abandon number =>
    simp only [move]
    split
    · exact .callers s.handles _ id
    · exact .nothing s
  | cloneHandle =>
    simp only [move]
    split
    · exact .nothing s
    · next hhandles => exact .callers _ s.abandoned fun h => absurd h hhandles
  | dropHandle => exact .callers (s.handles - 1) s.abandoned fun h => by rw [h]
  | work => exact .worked s.work_worked

/-- What every move keeps, every run keeps. -/
theorem run_keeps {P : Worker ν → Prop} (hmove : ∀ s t : Worker ν, Moved s t → P s → P t)
    {s : Worker ν} (h : P s) (moves : List Move) : P (s.run moves) := by
  induction moves generalizing s with
  | nil => exact h
  | cons m rest ih => exact ih (hmove s _ (s.move_moved m) h)

end Worker
end EventTree
