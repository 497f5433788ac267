/-
Downloading the rewards file of an interval from the first mirror that serves
one which commits to the recorded root.

The bytes are stored as they were published, compressed if the mirror served
them uncompressed. What goes wrong with a mirror is noted and the next one is
tried; only a verified file that cannot be stored is an error.
-/
import PoolKeeper.Rewards.Store

namespace PoolKeeper

inductive Web.Call where
  | fetch (url : String)
  deriving DecidableEq

abbrev Web.Reply (_ : Web.Call) : Type := Except Failure Bytes

/-- What is published under URLs. -/
abbrev Web : Interface := ⟨Web.Call, Web.Reply⟩

def Web.fetch (url : String) : Attempt Web Failure Bytes :=
  .ofOutcome (Program.call (I := Web) (.fetch url))

/-- What a mirror failed at. -/
inductive MirrorFault where
  /-- It did not serve the file. -/
  | transport (source : Failure)
  /-- It served something else. -/
  | decode (f : FileFault)
  | otherInterval (index : UInt64)
  /-- It served a file that does not commit to the recorded root. -/
  | rootMismatch (f : FileFault)
  deriving DecidableEq

namespace MirrorFault

def kind : MirrorFault → String
  | transport _ => "transport"
  | decode _ | otherInterval _ => "decode"
  | rootMismatch _ => "rootMismatch"

def reason : MirrorFault → String
  | transport source => source.line
  | decode f => f.message
  | otherInterval index => "file is for interval " ++ Numeral.decimal index.toNat
  | rootMismatch f => f.message

end MirrorFault

structure MirrorFailure where
  url : String
  fault : MirrorFault
  deriving DecidableEq

def MirrorFailure.json (f : MirrorFailure) : Json :=
  .object [
    ("url", .string f.url),
    ("kind", .string f.fault.kind),
    ("reason", .string f.fault.reason)]

inductive DownloadOutcome where
  | saved (path url : String)
  /-- No mirror served a valid file, and nothing was stored. -/
  | unavailable (attempts : List MirrorFailure)
  deriving DecidableEq

def DownloadOutcome.json : DownloadOutcome → Json
  | .saved path url =>
    .object [("outcome", .string "saved"), ("path", .string path), ("url", .string url)]
  | .unavailable attempts =>
    .object [
      ("outcome", .string "unavailable"),
      ("attempts", .array (attempts.map MirrorFailure.json))]

namespace Download
variable [Compression]

/-- The text and the compressed form of what a mirror served. -/
def unpack (m : Mirror) (bytes : Bytes) : Except FileFault (Bytes × Bytes) :=
  if m.compressed then (decompressed bytes).map fun text => (text, bytes)
  else .ok (bytes, Compression.compress bytes)

/-- The compressed form of what a mirror served, if it is the file of an event. -/
def verify (m : Mirror) (event : RewardsEvent) (bytes : Bytes) : Except MirrorFault Bytes := do
  let (text, compressed) ← (unpack m bytes).mapError .decode
  let file ← (RewardsFile.parse text).mapError .decode
  if file.header.index ≠ event.index then throw (.otherInterval file.header.index)
  (file.checkRoot event.merkleRoot).mapError .rootMismatch
  return compressed

/-- What a mirror serves under a URL, if it is the file of an event. -/
def fromMirror (m : Mirror) (event : RewardsEvent) (url : String) :
    Attempt Web MirrorFault Bytes := do
  let bytes ← (Web.fetch url).mapError .transport
  verify m event bytes

/-- Tries mirrors one after the other, after some that have failed. -/
def tryMirrors (s : Store) (event : RewardsEvent) :
    List Mirror → List MirrorFailure → Attempt (Web.sum Disk) ArtifactFault DownloadOutcome
  | [], failures => return .unavailable failures
  | m :: ms, failures => do
    let url := m.url event.merkleTreeCid s.network (s.fileName event.index)
    match ← ExceptT.lift (fromMirror m event url).outcome.onLeft with
    | .ok compressed => return .saved (← (s.saveBytes event.index compressed).onRight) url
    | .error fault => tryMirrors s event ms (failures ++ [⟨url, fault⟩])

/-- Downloads and stores the file of an event. -/
def run (s : Store) (mirrors : List Mirror) (event : RewardsEvent) :
    Attempt (Web.sum Disk) ArtifactFault DownloadOutcome :=
  tryMirrors s event mirrors []

end Download
end PoolKeeper
