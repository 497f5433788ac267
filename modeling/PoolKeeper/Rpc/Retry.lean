/-
Retrying requests that may succeed when they are sent again.

The wait doubles from one retry to the next, up to a longest wait. Only a
request without an answer is worth another attempt, or one that was refused for
coming too soon.
-/
import PoolKeeper.Program
import PoolKeeper.Rpc.Fault

namespace PoolKeeper.Rpc

/-- The longest wait between two attempts, in milliseconds. -/
def maxDelay : Nat := 30000

/-- Error codes by which an endpoint asks for fewer requests. -/
def rateLimitCodes : List Int := [429, -32005]

/-- Sending again may help. -/
def Fault.worthRetrying : Fault → Bool
  | .transport _ => true
  | .answered code _ => rateLimitCodes.contains code
  | _ => false

structure Backoff where
  /-- The first wait, in milliseconds. -/
  initial : Nat
  maxRetries : Nat
  deriving DecidableEq

/-- The wait before a retry, the first one being number zero. -/
def Backoff.delay (b : Backoff) (attempt : Nat) : Nat :=
  min (b.initial * 2 ^ min attempt 16) maxDelay

inductive Line.Call (Request : Type) where
  | send (request : Request)
  | sleep (milliseconds : Nat)

abbrev Line.Reply {Request : Type} (Response : Type) : Line.Call Request → Type
  | .send _ => Except Fault Response
  | .sleep _ => Unit

/-- A line to an endpoint, and the time to wait. -/
abbrev Line (Request Response : Type) : Interface := ⟨Line.Call Request, Line.Reply Response⟩

variable {Request Response : Type}

/-- Sends a request until it is settled, with so many retries left after
`attempt` of them. -/
def sendFrom (b : Backoff) (request : Request) :
    (left : Nat) → (attempt : Nat) → Program (Line Request Response) (Except Fault Response)
  | 0, _ => Program.call (I := Line Request Response) (.send request)
  | left + 1, attempt =>
    .ask (.send request) fun reply =>
      match (reply : Except Fault Response) with
      | .ok response => .done (.ok response)
      | .error f =>
        if f.worthRetrying then
          .ask (.sleep (b.delay attempt)) fun _ => sendFrom b request left (attempt + 1)
        else .done (.error f)

/-- Sends a request, again if that may help. -/
def send (b : Backoff) (request : Request) :
    Program (Line Request Response) (Except Fault Response) :=
  sendFrom b request b.maxRetries 0

end PoolKeeper.Rpc
