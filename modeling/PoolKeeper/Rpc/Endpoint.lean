/-
Requests to an execution client, and what its answers are read as.

The endpoint may answer a request with a result or with an error. Both are
answers: the line has carried the request and is not asked to send it again.
-/
import PoolKeeper.Json.Record
import PoolKeeper.Json.Value
import PoolKeeper.Rpc.Retry

namespace PoolKeeper.Rpc

structure Request where
  method : String
  params : List Json

inductive Answer where
  | result (t : Json.Tree)
  | refusal (code : Int) (message : String)

/-- A line to an execution client. -/
abbrev Endpoint : Interface := Line Request Answer

/-- What an answer amounts to for one who wants a result of a certain shape. -/
def Answer.read {α : Type} (r : Json.Reader α) : Answer → Except Fault α
  | .refusal code message => .error (.answered code message)
  | .result t => (r [] t).mapError fun _ => .deserialization

/-- Sends a request, again if that may help, and reads the result. -/
def ask {α : Type} (b : Backoff) (method : String) (params : List Json) (r : Json.Reader α) :
    Attempt Endpoint Fault α :=
  .ofOutcome do
    let sent ← send b ⟨method, params⟩
    return sent.bind (Answer.read r)

/-- The block that a read is about. -/
inductive BlockTag where
  | number (n : UInt64)
  | latest
  deriving DecidableEq

namespace BlockTag

def json : BlockTag → Json
  | number n => .string (Word.ofUInt64 n).hexText
  | latest => .string "latest"

/-- The latest block stands for none in particular. -/
def ofOption : Option UInt64 → BlockTag
  | some n => number n
  | none => latest

end BlockTag
end PoolKeeper.Rpc
