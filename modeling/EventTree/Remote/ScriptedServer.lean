import EventTree.Keyed
import EventTree.Remote.Frame
import EventTree.Remote.Network

/-!
# A scripted server

A server that does for each request it receives, over all of its connections, the
next action of a script, and closes the connection when the script is at its end.
It notes what it receives. No time passes by itself: a client that waits for bytes
that nothing will bring runs out of time at once.
-/
namespace EventTree

inductive ServerAction where
  | reply (message : Wire.Message)
  /-- Sends bytes that need not be a frame. -/
  | send (bytes : Bytes)
  | sendAndClose (bytes : Bytes)
  | close
  /-- Keeps the connection without an answer. -/
  | silence
deriving DecidableEq, Repr

/-- A request as the server noted it; connections are counted from one. -/
structure ReceivedRequest where
  connection : Nat
  filter : String
deriving DecidableEq, Repr

/-- The way of a connection from the server to its client. -/
structure ServerStream where
  /-- Bytes that were sent and not yet taken. -/
  unread : Bytes := []
  /-- Whether the server has closed its end. -/
  ended : Bool := false
deriving DecidableEq, Repr

structure ScriptedServer where
  script : List ServerAction := []
  /-- Whether any way leads to the server. -/
  reachable : Bool := true
  listening : Bool := true
  accepted : Nat := 0
  streams : Keyed Nat ServerStream := .empty
  /-- One item for each query sent towards the server, nothing for one that was
  lost on the way. -/
  received : List (Option ReceivedRequest) := []

/-- What an action does to the stream of the connection that it answers on. -/
def ServerStream.after (s : ServerStream) : ServerAction → ServerStream
  | .reply message => { s with unread := s.unread ++ message.frame.toOption.getD [] }
  | .send bytes => { s with unread := s.unread ++ bytes }
  | .sendAndClose bytes => { s with unread := s.unread ++ bytes, ended := true }
  | .close => { s with ended := true }
  | .silence => s

namespace ScriptedServer

def connect (s : ScriptedServer) : Except NetworkFault Nat × ScriptedServer :=
  if !s.reachable then
    (.error (.broken networkUnreachable), { s with received := s.received ++ [none] })
  else if !s.listening then (.error (.broken connectionRefused), s)
  else
    let number := s.accepted + 1
    (.ok number, { s with accepted := number, streams := s.streams.insert number {} })

/-- Lets the server have a request. -/
def handle (s : ScriptedServer) (connection : Nat) (stream : ServerStream) (filter : String) :
    ScriptedServer :=
  { s with
    script := s.script.tail
    streams := s.streams.insert connection (stream.after (s.script.head?.getD .close))
    received := s.received ++ [some ⟨connection, filter⟩] }

/-- The filter of a request that is sent in one piece. -/
def requestFilter? (bytes : Bytes) : Option String :=
  match readMessage bytes.length bytes with
  | (.ok message, _) => message.query.bind (·.text)
  | (.error _, _) => none

/-- What is sent over a connection that the server has closed is lost. -/
def send (s : ScriptedServer) (connection : Nat) (bytes : Bytes) :
    Except NetworkFault Unit × ScriptedServer :=
  match s.streams.get? connection, requestFilter? bytes with
  | some stream, some filter =>
    (.ok (), if stream.ended then s else s.handle connection stream filter)
  | _, _ => (.ok (), s)

def receive (s : ScriptedServer) (connection count : Nat) :
    Except NetworkFault (Option Bytes) × ScriptedServer :=
  match s.streams.get? connection with
  | none => (.ok none, s)
  | some stream =>
    if stream.unread.length < count then (if stream.ended then .ok none else .error .timeout, s)
    else
      let (taken, unread) := stream.unread.splitAt count
      (.ok (some taken),
        { s with streams := s.streams.insert connection { stream with unread } })

instance : Network ScriptedServer where
  Connection := Nat
  connect := connect
  send := send
  receive := receive
  close s connection := { s with streams := s.streams.erase connection }

end ScriptedServer
end EventTree
