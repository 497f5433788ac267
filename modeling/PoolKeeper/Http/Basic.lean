/-
Requests over HTTP.
-/
import PoolKeeper.Failure
import PoolKeeper.Http.Url
import PoolKeeper.Program

namespace PoolKeeper

structure HttpResponse where
  status : Nat
  /-- Nothing if the connection broke before all of it had come. -/
  body : Option Bytes

namespace HttpResponse

/-- The status says that all is well. -/
def isSuccess (r : HttpResponse) : Bool := 200 ≤ r.status && r.status < 300

/-- The status says that something is wrong. -/
def isError (r : HttpResponse) : Bool := 400 ≤ r.status && r.status < 600

end HttpResponse

inductive Http.Call where
  | get (url : Url)
  | post (url : Url) (body : Bytes)

/-- Nothing if no response came. -/
abbrev Http.Reply (_ : Http.Call) : Type := Option HttpResponse

/-- Servers that can be reached over HTTP. -/
abbrev Http : Interface := ⟨Http.Call, Http.Reply⟩

namespace Http

/-- What answers a request, if anything does. -/
def request (call : Http.Call) : Attempt Http HttpFault HttpResponse :=
  let url := match call with | .get url => url | .post url _ => url
  .ofOutcome do
    match ← Program.call (I := Http) call with
    | some response => return .ok response
    | none => return .error (.unreachable url.text)

/-- The whole body of a response. -/
def bodyOf (r : HttpResponse) : Except HttpFault Bytes :=
  match r.body with
  | some bytes => .ok bytes
  | none => .error .cutShort

end Http
end PoolKeeper
