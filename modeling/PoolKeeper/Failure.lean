/-
Failures as chains: what could not be done, why that could not be done, and so
on down to a first cause.
-/
import PoolKeeper.Json.Read
import PoolKeeper.Rpc.Fault

namespace PoolKeeper

/-- Why an HTTP request has no answer that can be used. -/
inductive HttpFault where
  | unreachable (url : String)
  | status (code : Nat) (url : String)
  | cutShort
  deriving DecidableEq

def HttpFault.message : HttpFault → String
  | .unreachable url => "error sending request for url (" ++ url ++ ")"
  | .status code url =>
    (if code < 500 then "HTTP status client error (" else "HTTP status server error (") ++
      Numeral.decimal code ++ ") for url (" ++ url ++ ")"
  | .cutShort => "error decoding response body"

/-- Where a chain of failures ends. -/
inductive Cause where
  | text (message : String)
  | json (e : Json.ReadError)
  | http (f : HttpFault)
  | rpc (f : Rpc.Fault)
  /-- The file system refused. -/
  | file
  deriving DecidableEq

def Cause.message : Cause → String
  | .text message => message
  | .json .broken => "malformed JSON"
  | .json (.misfit path) => "unexpected value at " ++ path.text
  | .http f => f.message
  | .rpc f => f.message
  | .file => "file system error"

/-- A failure, and what it was a consequence of. -/
inductive Failure where
  | first (cause : Cause)
  | because (message : String) (source : Failure)
  deriving DecidableEq

namespace Failure

def text (message : String) : Failure := .first (.text message)

/-- What the failure says of itself. -/
def message : Failure → String
  | first cause => cause.message
  | because m _ => m

/-- The messages of the failure and of all it is a consequence of. -/
def messages : Failure → List String
  | first cause => [cause.message]
  | because m source => m :: source.messages

/-- What a failure is a consequence of, numbered if there is more than one. -/
def causes : List String → List String
  | [] => []
  | [m] => ["", "Caused by:", "    " ++ m]
  | ms => ["", "Caused by:"] ++ ms.mapIdx fun i m => "    " ++ Numeral.decimal i ++ ": " ++ m

/-- The lines by which a failure is reported to the user. -/
def report (f : Failure) : List String := ("Error: " ++ f.message) :: causes (f.messages.drop 1)

/-- The whole chain in one line. -/
def line (f : Failure) : String := ": ".intercalate f.messages

end Failure
end PoolKeeper
