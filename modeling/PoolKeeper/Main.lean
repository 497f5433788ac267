/-
The program: it reads its settings, runs one command against the world, and
prints the result.

Connections are plain. A server that wants an encrypted one cannot be reached.
-/
import PoolKeeper.CommandLine.Dotenv
import PoolKeeper.CommandLine.Help
import PoolKeeper.Http.Message
import PoolKeeper.Run
import Std.Async.DNS
import Std.Async.System
import Std.Async.TCP

namespace PoolKeeper.Main

open Std.Async Std.Net

/-! ## Connections -/

/-- All that a server sends, in pieces of which there are not too many. -/
def receive (client : TCP.Socket.Client) : (pieces : Nat) → Bytes → Async Bytes
  | 0, sofar => return sofar
  | pieces + 1, sofar => do
    match ← client.recv? 65536 with
    | some piece => receive client pieces (sofar ++ piece.data.toList)
    | none => return sofar

/-- Sends a request to an address, and takes what comes back. -/
def exchangeAt (address : IPAddr) (service : UInt16) (request : Bytes) : Async Bytes := do
  let client ← TCP.Socket.Client.mk
  client.connect (match address with
    | .v4 a => .v4 ⟨a, service⟩
    | .v6 a => .v6 ⟨a, service⟩)
  client.send ⟨request.toArray⟩
  receive client (2 ^ 20) []

/-- Sends a request to the server of a URL. -/
def exchange (url : Url) (request : Bytes) : IO (Option HttpResponse) := do
  match url.scheme, url.authority with
  | "http", some place =>
    let service := place.service.getD 80
    let bytes? ← ((do
      let addresses ← DNS.getAddrInfo place.host (Numeral.decimal service)
      match addresses[0]? with
      | some address => return some (← exchangeAt address (UInt16.ofNat service) request)
      | none => return none : Async (Option Bytes)).block).toBaseIO
    match bytes? with
    | .ok (some bytes) => return HttpMessage.response? bytes
    | _ => return none
  | _, _ => return none

/-! ## The world -/

/-- What came of an action on a file. -/
def fileOutcome {α : Type} (action : IO α) : IO (Except DiskFault α) := do
  match ← action.toBaseIO with
  | .ok a => return .ok a
  | .error (.noFileOrDirectory ..) => return .error .absent
  | .error _ => return .error .refused

def disk (c : Disk.Call) : IO (Disk.Reply c) :=
  match c with
  | .read path => fileOutcome do return (← IO.FS.readBinFile path).data.toList
  | .makeDirs path => fileOutcome (if path.isEmpty then pure () else IO.FS.createDirAll path)
  | .write path bytes => fileOutcome (IO.FS.writeBinFile path ⟨bytes.toArray⟩)
  | .rename source target => fileOutcome (IO.FS.rename source target)

def world (c : World.Call) : IO (World.Reply c) :=
  match c with
  | .inl (.get url) => exchange url (HttpMessage.ofCall (.get url))
  | .inl (.post url body) => exchange url (HttpMessage.ofCall (.post url body))
  | .inr (.inl c) => disk c
  | .inr (.inr (.sleep milliseconds)) => IO.sleep (UInt32.ofNat milliseconds)

/-! ## Settings -/

/-- The text of the first file that can be read. -/
def firstText : List String → IO String
  | [] => return ""
  | path :: paths => do
    match ← (IO.FS.readBinFile path).toBaseIO with
    | .ok bytes => return (Bytes.text? bytes.data.toList).getD ""
    | .error _ => firstText paths

/-- The environment, together with what a file of it assigns. -/
def environment : IO (String → Option String) := do
  let around ← System.getEnv
  let here ← IO.currentDir
  return Dotenv.extend around.get? (← firstText (Dotenv.candidates here.toString))

/-- The directory for data of the user. -/
def userData (environment : String → Option String) : IO String := do
  match environment "XDG_DATA_HOME" with
  | some dir => if dir.startsWith "/" then return dir
  | none => pure ()
  return Disk.join (← System.getHomeDir).toString ".local/share"

end PoolKeeper.Main

open PoolKeeper in
def main (arguments : List String) : IO UInt32 := do
  let environment ← Main.environment
  match CommandLine.parse environment arguments with
  | .error e =>
    match e with
    | .help => CommandLine.help.forM fun line => IO.println line
    | .version => IO.println e.message
    | _ => IO.eprintln ("error: " ++ e.message)
    return e.exitCode
  | .ok invocation =>
    let program := (invocation.run (← Main.userData environment)).run.run Session.start
    let (result, _) ← program.run Main.world
    match result with
    | .ok shown =>
      IO.println ((Bytes.text? (shown.writePretty 0)).getD "")
      return 0
    | .error failure =>
      failure.report.forM fun line => IO.eprintln line
      return 1
