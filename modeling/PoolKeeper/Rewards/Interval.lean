/-
What a node needs to know of an interval before it claims it: the recorded
event, and whether the local rewards file can be trusted.
-/
import PoolKeeper.Rewards.Store

namespace PoolKeeper

/-- The state of the local file of an interval. -/
inductive FileStatus where
  | missing
  /-- The file cannot be read, or does not commit to the recorded root. -/
  | invalid (reason : String)
  /-- The file commits to the root; `node` is the entry of the node in question. -/
  | valid (node : Option NodeRewards)
  deriving DecidableEq

def FileStatus.json : FileStatus → Json
  | .missing => .object [("status", .string "missing")]
  | .invalid reason => .object [("status", .string "invalid"), ("reason", .string reason)]
  | .valid node => .object [("status", .string "valid"), ("node", .ofOption NodeRewards.json node)]

structure IntervalInfo where
  index : UInt64
  cid : String
  startTime : UInt64
  endTime : UInt64
  treeFilePath : String
  status : FileStatus
  deriving DecidableEq

namespace IntervalInfo

def json (i : IntervalInfo) : Json :=
  .object [
    ("index", .ofUInt64 i.index),
    ("cid", .string i.cid),
    ("startTime", .ofUInt64 i.startTime),
    ("endTime", .ofUInt64 i.endTime),
    ("treeFilePath", .string i.treeFilePath),
    ("status", i.status.json)]

/-- The state of a file that was found, or not. -/
def statusOf (node : Address) (root : Hash) : Option RewardsFile → FileStatus
  | none => .missing
  | some f =>
    match f.checkRoot root with
    | .ok () => .valid (f.nodes.get? node)
    | .error e => .invalid e.message

variable [Compression]

/-- The state of a store's file of an interval. -/
def readStatus (s : Store) (node : Address) (interval : UInt64) (root : Hash) :
    Attempt Disk ArtifactFault FileStatus :=
  .ofOutcome do
    match ← (s.load interval).outcome with
    | .ok found => return .ok (statusOf node root found)
    | .error (.file e) => return .ok (.invalid e.message)
    | .error e => return .error e

/-- What there is to know of an interval. -/
def read (s : Store) (previousPools : List Address) (node : Address) (interval : UInt64) :
    Attempt (Chain.sum Disk) ArtifactFault IntervalInfo := do
  let event ← ((RewardsEvent.resolve s.network previousPools interval none).mapError .event).onLeft
  let status ← (readStatus s node interval event.merkleRoot).onRight
  return ⟨interval, event.merkleTreeCid, event.startTime, event.endTime, s.path interval, status⟩

end IntervalInfo
end PoolKeeper
