/-
A session with the outside world: an execution client and a beacon node that
are reached over HTTP, a file system, and time to wait.

Programs that ask for something of the chain, of the consensus layer, of
mirrors or of files are performed by asking the world. What a session
remembers only saves requests.
-/
import PoolKeeper.Beacon.Rest
import PoolKeeper.Chain.HeaderCache
import PoolKeeper.Disk
import PoolKeeper.Rewards.Served
import PoolKeeper.Rpc.Contracts
import PoolKeeper.Rpc.Http
import PoolKeeper.Settings.Chain

namespace PoolKeeper

inductive Clock.Call where
  | sleep (milliseconds : Nat)

/-- Time to wait. -/
abbrev Clock : Interface := ⟨Clock.Call, fun _ => Unit⟩

/-- All that is outside of the program. -/
abbrev World : Interface := Http.sum (Disk.sum Clock)

/-- What a session remembers. -/
structure Session where
  headers : HeaderCache
  /-- The timing of the consensus layer, once it is known. -/
  timing : Option BeaconConfig
  /-- How many requests have been sent to the execution client. -/
  requests : Nat

namespace Session

/-- A session in which nothing has been asked. -/
def start : Session := ⟨.empty, none, 0⟩

/-- A part of a session. -/
abbrev Action := StateT Session (Program World)

/-- One part that may fail. -/
abbrev Trial := ExceptT Failure Action

def overHttp {α : Type} (p : Program Http α) : Action α := liftM (p.onLeft : Program World α)

/-- Answers for the line to the execution client. -/
def line (c : ChainSettings) (call : Rpc.Endpoint.Call) : Action (Rpc.Endpoint.Reply call) :=
  match call with
  | .sleep ms => liftM (Program.call (I := World) (.inr (.inr (.sleep ms))))
  | .send request => do
    let s ← get
    set { s with requests := s.requests + 1 }
    overHttp (Rpc.Http.post c.rpcUrl s.requests request)

/-- Answers for the contracts. -/
def askChain (c : ChainSettings) (call : Chain.Call) : Action (Chain.Reply call) :=
  (Rpc.contracts c.backoff call).run (line c)

/-- Answers for the headers of the execution chain. -/
def askHeaders (c : ChainSettings) (call : Headers.Call) : Action (Headers.Reply call) := do
  let s ← get
  let (reply, cache) ← ((HeaderCache.answer call s.headers).run fun call =>
    (Rpc.headers c.backoff call).run (line c) : Action (Except Failure BlockHeader × HeaderCache))
  modify fun s => { s with headers := cache }
  return reply

/-- Answers for the consensus layer. -/
def askBeacon (c : ChainSettings) (call : Beacon.Call) : Action (Beacon.Reply call) := do
  let s ← get
  let (reply, timing) ← overHttp (Beacon.Rest.answer c.beaconUrl call s.timing)
  set { s with timing }
  return reply

/-- Answers for mirrors. -/
def askMirror (call : Web.Call) : Action (Web.Reply call) := overHttp (Web.overHttp call)

/-- Answers for the file system. -/
def askDisk (call : Disk.Call) : Action (Disk.Reply call) :=
  liftM (Program.call (I := World) (.inr (.inl call)))

/-- Answers for either of two interfaces. -/
def askEither {I J : Interface} (left : (c : I.Call) → Action (I.Reply c))
    (right : (c : J.Call) → Action (J.Reply c)) (call : (I.sum J).Call) :
    Action ((I.sum J).Reply call) :=
  match call with
  | .inl c => left c
  | .inr c => right c

/-- Performs a program by answering its calls. -/
def perform {I : Interface} {ε α : Type} (answer : (c : I.Call) → Action (I.Reply c))
    (failure : ε → Failure) (p : Attempt I ε α) : Trial α :=
  ExceptT.mk do return (← p.outcome.run answer).mapError failure

end Session
end PoolKeeper
