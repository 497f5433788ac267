/-
Requests to an execution client, carried over HTTP.
-/
import PoolKeeper.Http.Basic
import PoolKeeper.Rpc.Endpoint

namespace PoolKeeper.Rpc.Http

open Json

/-- The body of a request, which its answer refers to by a number. -/
def requestBody (id : Nat) (r : Request) : Bytes :=
  (Json.object [
    ("method", .string r.method),
    ("params", .array r.params),
    ("id", .number id),
    ("jsonrpc", .string "2.0")]).write

def refusalReader : Reader Answer :=
  record (.refusal
    <$> field "code" .int64
    <*> field "message" .string)

/-- A result or a refusal, and not both. -/
def answerReader : Reader Answer := fun path t => do
  let (result, refusal) ← record (Prod.mk
    <$> fieldOr "result" none (fun path t => some <$> Reader.anything path t)
    <*> fieldOr "error" none (fun path t => some <$> refusalReader path t)) path t
  match result, refusal with
  | some t, none => return .result t
  | none, some refusal => return refusal
  | _, _ => throw (.misfit path)

/-- A failure of the connection, as a failure of the line. -/
def lineFault (f : HttpFault) : Fault := .transport (.custom f.message)

/-- The answer in a response. -/
def answerIn (response : HttpResponse) : Except Fault Answer := do
  let body ← (PoolKeeper.Http.bodyOf response).mapError lineFault
  if response.status ≠ 200 then
    throw (.transport (.status response.status ((Bytes.text? body).getD "")))
  (answerReader.read body).mapError fun _ => .deserialization

/-- Sends a request to a URL, once. -/
def post (url : Url) (id : Nat) (r : Request) : Program PoolKeeper.Http (Except Fault Answer) := do
  match ← (PoolKeeper.Http.request (.post url (requestBody id r))).outcome with
  | .error f => return .error (lineFault f)
  | .ok response => return answerIn response

end PoolKeeper.Rpc.Http
