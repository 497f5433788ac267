/-
What can go wrong between a question to an execution client and its answer.
-/
import PoolKeeper.Numeral

namespace PoolKeeper.Rpc

/-- Why a request did not get through. -/
inductive TransportFault where
  | backendGone
  | noSubscriptions
  | missingResponse (id : Nat)
  | status (code : Nat) (body : String)
  | custom (message : String)
  deriving DecidableEq

def TransportFault.message : TransportFault → String
  | .backendGone => "backend connection task has stopped"
  | .noSubscriptions => "subscriptions are not available on this provider"
  | .missingResponse id => "missing response for request with ID " ++ Numeral.decimal id
  | .status code body => "HTTP error " ++ Numeral.decimal code ++ " with body: " ++ body
  | .custom message => message

/-- Why a request has no result. -/
inductive Fault where
  /-- The endpoint answered with an error. -/
  | answered (code : Int) (message : String)
  | nullResponse
  | unsupported (feature : String)
  | localUsage
  | serialization
  | deserialization
  | transport (f : TransportFault)
  deriving DecidableEq

/-- The decimal text of an integer. -/
def integerText : Int → String
  | .ofNat n => Numeral.decimal n
  | .negSucc n => "-" ++ Numeral.decimal (n + 1)

def Fault.message : Fault → String
  | .answered code message =>
    "server returned an error response: error code " ++ integerText code ++ ": " ++ message
  | .nullResponse => "server returned a null response when a non-null response was expected"
  | .unsupported feature => "unsupported feature: " ++ feature
  | .localUsage => "local usage error"
  | .serialization => "serialization error"
  | .deserialization => "deserialization error"
  | .transport f => f.message

end PoolKeeper.Rpc
