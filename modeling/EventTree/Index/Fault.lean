/-!
# Why a query can fail
-/
namespace EventTree

inductive QueryFault where
  /-- No connection, or it broke during the query. -/
  | transport (reason : String)
  /-- The index refused the query. -/
  | server (reason : String)
  /-- The answer could not be understood. -/
  | protocol (reason : String)
  | timeout
  | shutdown
deriving DecidableEq, Repr

def QueryFault.message : QueryFault → String
  | .transport reason => "transport error: " ++ reason
  | .server reason => "server error: " ++ reason
  | .protocol reason => "protocol error: " ++ reason
  | .timeout => "query timed out"
  | .shutdown => "store client shut down"

end EventTree
