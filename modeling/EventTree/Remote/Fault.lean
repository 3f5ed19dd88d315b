import EventTree.Index.Fault
import EventTree.Wire.Primitive

/-!
# Why an exchange with the index can fail
-/
namespace EventTree

/-- Why the network did not do what was asked of it. -/
inductive NetworkFault where
  | broken (reason : String)
  /-- The time allowed was over before. -/
  | timeout
deriving DecidableEq, Repr

inductive ExchangeFault where
  | io (reason : String)
  | decode (fault : Wire.DecodeFault)
  | frameTooLarge (length : Nat)
  /-- The index refused the query. -/
  | server (reason : String)
  | timeout
  | notConnected
  | shutdown
deriving DecidableEq, Repr

namespace ExchangeFault

def ofNetwork : NetworkFault → ExchangeFault
  | .broken reason => .io reason
  | .timeout => .timeout

def tooLargeMessage (length : Nat) : String :=
  "frame of " ++ toString length ++ " bytes exceeds limit"

def message : ExchangeFault → String
  | .io reason => "IO error: " ++ reason
  | .decode fault => "decode error: " ++ fault.message
  | .frameTooLarge length => tooLargeMessage length
  | .server reason => "server error: " ++ reason
  | .timeout => "timed out"
  | .notConnected => "not connected to server"
  | .shutdown => "store client shut down"

/-- Whether the connection is lost with it. A refused query leaves the stream between
two frames; anything else may have left it inside one. -/
def breaksConnection : ExchangeFault → Bool
  | .server _ | .shutdown => false
  | _ => true

/-- The fault as the tree sees it. -/
def toQueryFault : ExchangeFault → QueryFault
  | .io reason => .transport reason
  | .notConnected => .transport "not connected"
  | .decode fault => .protocol fault.message
  | .frameTooLarge length => .protocol (tooLargeMessage length)
  | .server reason => .server reason
  | .timeout => .timeout
  | .shutdown => .shutdown

end ExchangeFault
end EventTree
