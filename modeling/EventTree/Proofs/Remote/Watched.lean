import EventTree.Proofs.Remote.Fates

/-!
# A network that is watched

What a client does to its network is not seen in its results. Here every use of a network is
written down, with the connections numbered in the order in which they were made, whatever
the network itself calls them. A client over the watched network is the client over the
network: it gets the same results, and only the notes are added to its state.
-/
namespace EventTree

inductive NetworkUse where
  /-- An attempt to connect, with the number of the connection if it was made. -/
  | connect (made : Option Nat)
  | send (connection : Nat)
  | receive (connection : Nat)
  | close (connection : Nat)
deriving DecidableEq, Repr

/-- The connection that is used. -/
def NetworkUse.connection? : NetworkUse → Option Nat
  | .connect made => made
  | .send k | .receive k | .close k => some k

structure Watched (ν : Type) where
  network : ν
  /-- The number of the next connection. -/
  made : Nat
  /-- The uses so far, the oldest first. -/
  uses : List NetworkUse := []

namespace Watched
variable {ν : Type} [Network ν]

def note (w : Watched ν) (network : ν) (use : NetworkUse) : Watched ν :=
  { w with network, uses := w.uses ++ [use] }

def connect (w : Watched ν) : Except NetworkFault (Nat × Network.Connection ν) × Watched ν :=
  match Network.connect w.network with
  | (.error fault, network) => (.error fault, w.note network (.connect none))
  | (.ok k, network) =>
    (.ok (w.made, k), { w.note network (.connect (some w.made)) with made := w.made + 1 })

def send (w : Watched ν) (k : Nat × Network.Connection ν) (bytes : Bytes) :
    Except NetworkFault Unit × Watched ν :=
  let (result, network) := Network.send w.network k.2 bytes
  (result, w.note network (.send k.1))

def receive (w : Watched ν) (k : Nat × Network.Connection ν) (count : Nat) :
    Except NetworkFault (Option Bytes) × Watched ν :=
  let (result, network) := Network.receive w.network k.2 count
  (result, w.note network (.receive k.1))

def close (w : Watched ν) (k : Nat × Network.Connection ν) : Watched ν :=
  w.note (Network.close w.network k.2) (.close k.1)

instance : Network (Watched ν) where
  Connection := Nat × Network.Connection ν
  connect := connect
  send := send
  receive := receive
  close := close

end Watched

namespace Client
variable {ν : Type} [Network ν]

/-- The client with its network watched from now on. A connection that it has is the first
one. -/
def watch (c : Client ν) : Client (Watched ν) where
  network := { network := c.network, made := c.connection.toList.length }
  frameLimit := c.frameLimit
  connection := c.connection.map fun k => ((0, k) : Nat × Network.Connection ν)
  closed := c.closed

/-- The client without the notes. -/
def unwatch (c : Client (Watched ν)) : Client ν where
  network := c.network.network
  frameLimit := c.frameLimit
  connection := c.connection.map Prod.snd
  closed := c.closed

/-- The number of the connection at hand. -/
def held (c : Client (Watched ν)) : Option Nat := c.connection.map Prod.fst

theorem unwatch_watch (c : Client ν) : c.watch.unwatch = c := by
  obtain ⟨network, limit, connection, closed⟩ := c
  cases connection <;> rfl

theorem held_isSome (c : Client (Watched ν)) : c.held.isSome = c.unwatch.connection.isSome := by
  obtain ⟨network, limit, connection, closed⟩ := c
  cases connection <;> rfl

/-! ## The same results -/

theorem connect_unwatch (c : Client (Watched ν)) :
    c.unwatch.connect = (c.connect.1.map Prod.snd, c.connect.2.unwatch) := by
  obtain ⟨w, limit, connection, closed⟩ := c
  cases connection with
  | some k => rfl
  | none =>
    have hwatched : Network.connect w = w.connect := rfl
    simp only [connect, unwatch, Option.map_none, hwatched, Watched.connect]
    rcases Network.connect w.network with ⟨fault | k, network⟩ <;> rfl

theorem disconnect_unwatch (c : Client (Watched ν)) :
    c.unwatch.disconnect = c.disconnect.unwatch := by
  obtain ⟨w, limit, connection, closed⟩ := c
  cases connection <;> rfl

theorem exchange_unwatch (c : Client (Watched ν)) (k : Nat × Network.Connection ν)
    (filter : String) :
    c.unwatch.exchange k.2 filter =
      ((c.exchange k filter).1, (c.exchange k filter).2.network) := by
  unfold exchange
  cases (Wire.Message.ofFilter filter).frame with
  | error fault => rfl
  | ok frame =>
    have hwatched : Network.send c.network k frame = c.network.send k frame := rfl
    have hnetwork : c.unwatch.network = c.network.network := rfl
    simp only [hwatched, hnetwork, Watched.send]
    rcases Network.send c.network.network k.2 frame with ⟨fault | ⟨⟩, network⟩
    · rfl
    · exact takeMessage_map Watched.network (fun w => w.receive k)
        (fun network => Network.receive network k.2) (fun _ _ => rfl) _
        (c.network.note network (.send k.1))

theorem query_unwatch (c : Client (Watched ν)) (filter : String) :
    c.unwatch.query filter = ((c.query filter).1, (c.query filter).2.unwatch) := by
  unfold query ask
  rw [connect_unwatch]
  change (if c.closed = true then _ else _) = _
  split
  · rfl
  · rcases c.connect with ⟨fault | k, opened⟩
    · rfl
    · dsimp only [Except.map]
      rw [exchange_unwatch]
      rcases opened.exchange k filter with ⟨answer, network⟩
      dsimp only
      split
      · rfl
      · split
        · exact congrArg (Prod.mk _) (disconnect_unwatch { opened with network })
        · rfl

theorem queryAll_unwatch (c : Client (Watched ν)) (filters : List String) :
    c.unwatch.queryAll filters = (c.queryAll filters).unwatch := by
  induction filters generalizing c with
  | nil => rfl
  | cons filter rest ih =>
    change (c.unwatch.query filter).2.queryAll rest = _
    rw [query_unwatch]
    exact ih _

end Client
end EventTree
