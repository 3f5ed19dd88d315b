import EventTree.Index.Source
import EventTree.Remote.Answer
import EventTree.Remote.Frame
import EventTree.Remote.Network

/-!
# The client of the index

A client holds at most one connection. One is made when a query needs it, kept from
query to query, and given up after any fault that may have left it inside a frame or
with an answer still to come; so an answer that is read belongs to the request that
was sent last. A shutdown gives the connection up for good.
-/
namespace EventTree

structure Client (ν : Type) [Network ν] where
  network : ν
  /-- The longest frame taken. -/
  frameLimit : Nat := defaultFrameLimit
  connection : Option (Network.Connection ν) := none
  closed : Bool := false

namespace Client
variable {ν : Type} [Network ν]

/-- The connection at hand or a new one. -/
def connect (c : Client ν) : Except ExchangeFault (Network.Connection ν) × Client ν :=
  match c.connection with
  | some connection => (.ok connection, c)
  | none =>
    match Network.connect c.network with
    | (.error fault, network) => (.error (.ofNetwork fault), { c with network })
    | (.ok connection, network) =>
      (.ok connection, { c with network, connection := some connection })

/-- Gives the connection up, if there is one. -/
def disconnect (c : Client ν) : Client ν :=
  match c.connection with
  | none => c
  | some connection =>
    { c with network := Network.close c.network connection, connection := none }

/-- Sends a request over a connection and waits for one message. -/
def exchange (c : Client ν) (connection : Network.Connection ν) (filter : String) :
    Except ExchangeFault Wire.Message × ν :=
  match (Wire.Message.ofFilter filter).frame with
  | .error fault => (.error fault, c.network)
  | .ok frame =>
    match Network.send c.network connection frame with
    | (.error fault, network) => (.error (.ofNetwork fault), network)
    | (.ok (), network) =>
      takeMessage c.frameLimit (fun network => Network.receive network connection) network

/-- A query of a client that is not closed. -/
def ask (c : Client ν) (filter : String) : Except ExchangeFault (List Event) × Client ν :=
  match c.connect with
  | (.error fault, c) => (.error fault, c)
  | (.ok connection, c) =>
    let (answer, network) := c.exchange connection filter
    let c := { c with network }
    match answer.bind (·.events?) with
    | .ok events => (.ok events, c)
    | .error fault => (.error fault, if fault.breaksConnection then c.disconnect else c)

def query (c : Client ν) (filter : String) : Except ExchangeFault (List Event) × Client ν :=
  if c.closed then (.error .shutdown, c) else c.ask filter

def shutdown (c : Client ν) : Client ν := { c.disconnect with closed := true }

instance : QuerySource (Client ν) where
  query c filter :=
    let (result, c) := c.query filter
    (result.mapError (·.toQueryFault), c)

end Client
end EventTree
