import EventTree.Remote.Fault

/-!
# Networks

What a client needs of a network: connections to the index, and over each of them a
stream of bytes in either direction. The network is a value that every use may
change, so one network stands for one course of outside events, with the passing of
time and the doings of the index among them.
-/
namespace EventTree

class Network (ν : Type) where
  /-- What a connection is known by. -/
  Connection : Type
  connect : ν → Except NetworkFault Connection × ν
  send : ν → Connection → Bytes → Except NetworkFault Unit × ν
  /-- Waits for `count` bytes; there are none if the stream ends before the last. -/
  receive : ν → Connection → (count : Nat) → Except NetworkFault (Option Bytes) × ν
  close : ν → Connection → ν

/-- A connection that cannot be made: nobody listens at the address. -/
def connectionRefused : String := "Connection refused (os error 111)"

/-- A connection that cannot be made: no way leads to the address. -/
def networkUnreachable : String := "Network is unreachable (os error 101)"

end EventTree
