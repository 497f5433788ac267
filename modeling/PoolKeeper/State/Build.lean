/-
Building a snapshot: every read is pinned to the execution block that the
beacon block of a slot carries.

The settings and the pages of nodes and minipools are read in one fan-out, and
the minipools' shares in another, after the validators' balances are known. A
read that fails, or one that returns too few or too many records, ends the
build; the other reads of its fan-out are still made.
-/
import PoolKeeper.Chain.Basic
import PoolKeeper.FanOut
import PoolKeeper.Pieces
import PoolKeeper.State.Snapshot
import PoolKeeper.Units

namespace PoolKeeper

/-- Why no snapshot was built. -/
inductive BuildFault where
  | slotNotFound (slot : UInt64)
  | beacon (slot : UInt64) (source : Failure)
  | read (what : String) (block : UInt64) (source : Failure)
  | inconsistent (block : UInt64) (reason : String)
  deriving DecidableEq

def BuildFault.failure : BuildFault → Failure
  | .slotNotFound slot =>
    .text ("slot " ++ Numeral.decimal slot.toNat ++ " did not have a beacon block")
  | .beacon slot source =>
    .because ("error reading the consensus layer at slot " ++ Numeral.decimal slot.toNat) source
  | .read what block source =>
    .because ("error reading " ++ what ++ " at block " ++ Numeral.decimal block.toNat) source
  | .inconsistent block reason =>
    .text ("inconsistent state at block " ++ Numeral.decimal block.toNat ++ ": " ++ reason)

namespace Snapshot.Build

/-- The chain and the consensus layer. -/
abbrev World : Interface := Chain.sum Beacon

/-- The numbers from `start` on in steps of `step`, up to `stop`. A step that 64 bits do not
hold ends them too. -/
def steps (step stop start : UInt64) : List UInt64 :=
  if start < stop then
    start :: if _h : start < start + step then steps step stop (start + step) else []
  else []
termination_by UInt64.size - start.toNat
decreasing_by
  have hlt := UInt64.lt_iff_toNat_lt.1 _h
  have hsize := (start + step).toNat_lt
  unfold UInt64.size
  omega

/-- Offsets and sizes of pages over `count` records. -/
def pages (count pageSize : UInt64) : List (UInt64 × UInt64) :=
  (steps (max pageSize 1) count 0).map fun offset => (offset, min pageSize (count - offset))

/-- A page holds something. -/
theorem toNat_max_one_pos (pageSize : UInt64) : 0 < (max pageSize 1).toNat := by
  change 0 < (if pageSize ≤ 1 then 1 else pageSize).toNat
  split
  · decide
  · rename_i h
    rw [UInt64.not_le, UInt64.lt_iff_toNat_lt] at h
    exact Nat.lt_of_le_of_lt (Nat.zero_le _) h

/-- One read of the first fan-out. -/
inductive Part where
  | setting (s : Setting)
  | nodes (offset limit : UInt64)
  | minipools (offset limit : UInt64)
  deriving DecidableEq

namespace Part

/-- What a read is of, for messages. -/
def title : Part → String
  | setting s => "network setting " ++ s.title
  | nodes offset limit => "nodes " ++ range offset limit
  | minipools offset limit => "minipools " ++ range offset limit
where
  range (offset limit : UInt64) : String :=
    Numeral.decimal offset.toNat ++ ".." ++ Numeral.decimal (offset + limit).toNat

/-- All reads of the first fan-out. -/
def all (isAtlasDeployed : Bool) (nodeCount minipoolCount pageSize : UInt64) : List Part :=
  (Setting.ofVersion isAtlasDeployed).map .setting ++
    ((pages nodeCount pageSize).map (fun p => .nodes p.1 p.2) ++
      (pages minipoolCount pageSize).map (fun p => .minipools p.1 p.2))

end Part

/-- What came of a read of the first fan-out. -/
inductive PartContent where
  | setting (s : Setting) (value : Word)
  | nodes (page : List NodeDetails)
  | minipools (page : List MinipoolDetails)

namespace PartContent

def settings (os : List PartContent) : List (Setting × Word) :=
  os.filterMap fun | setting s v => some (s, v) | _ => none

def allNodes (os : List PartContent) : List NodeDetails :=
  os.flatMap fun | nodes page => page | _ => []

def allMinipools (os : List PartContent) : List MinipoolDetails :=
  os.flatMap fun | minipools page => page | _ => []

end PartContent

/-- Reads one part at a block. -/
def partContent (block : UInt64) (p : Part) : Attempt Chain BuildFault PartContent :=
  (match p with
    | .setting s => do
      match ← Chain.readWords [.setting s] (some block) with
      | value :: _ => pure (.setting s value)
      | [] => throw (.text "empty read result")
    | .nodes offset limit => .nodes <$> Chain.nodeDetails offset limit block
    | .minipools offset limit => .minipools <$> Chain.minipoolDetails offset limit block
  : Attempt Chain Failure PartContent).mapError (.read p.title block)

/-- So many records were expected. -/
def checkCount (what : String) (got : Nat) (expected : UInt64) (block : UInt64) :
    Except BuildFault Unit :=
  if got = expected.toNat then .ok ()
  else .error (.inconsistent block ("expected " ++ Numeral.decimal expected.toNat ++ " " ++ what ++
    " records, got " ++ Numeral.decimal got))

/-- Reads the shares of some minipools at a block, one for each. -/
def sharePage (block : UInt64) (balances : List (Address × Word)) :
    Attempt Chain BuildFault (List MinipoolShares) := do
  let shares ← (Chain.minipoolShares balances block).mapError
    (.read ("balance shares of " ++ Numeral.decimal balances.length ++ " minipools") block)
  checkCount "minipool share" shares.length (UInt64.ofNat balances.length) block
  return shares

/-- Runs tasks one after the other, all of them, and lists what came of each. -/
def outcomes {τ α : Type} (task : τ → Attempt Chain BuildFault α) :
    List τ → Program Chain (List (Except BuildFault α))
  | [] => return []
  | t :: ts => do
    let r ← (task t).outcome
    return r :: (← outcomes task ts)

/-- A fan-out: all tasks are run, and the schedule says in which order they complete. -/
def fanOut {τ α : Type} {limit : Nat} (schedule : FanOut.Schedule limit)
    (task : τ → Attempt Chain BuildFault α) (ts : List τ) : Attempt World BuildFault (List α) :=
  (Attempt.ofOutcome do
    return FanOut.collect (← outcomes task ts) (schedule.order ts.length)
  : Attempt Chain BuildFault (List α)).onLeft

/-- A count of records, as a 64-bit number. -/
def readCount (block : UInt64) (value : Word) : Except BuildFault UInt64 :=
  match value.toUInt64? with
  | some n => .ok n
  | none => .error (.inconsistent block ("count " ++ value.decimal ++ " does not fit in 64 bits"))

/-- How many nodes and minipools there are at a block. -/
def readCounts (block : UInt64) : Attempt Chain BuildFault (UInt64 × UInt64) := do
  match ← (Chain.readWords [.nodeCount, .minipoolCount] (some block)).mapError
      (.read "node and minipool counts" block) with
  | [nodes, minipools] => return (← readCount block nodes, ← readCount block minipools)
  | words =>
    throw (.inconsistent block ("expected 2 counts, got " ++ Numeral.decimal words.length))

/-- The balance of a minipool's validator in wei, zero if it is not known. -/
def balance (validators : Validators) (m : MinipoolDetails) : Word :=
  match validators.get? m.pubkey with
  | some v => gweiToWei v.balance
  | none => 0

/-- Minipools with their shares filled in. -/
def withShares (ms : List MinipoolDetails) (shares : List MinipoolShares) : List MinipoolDetails :=
  ms.zipWith (fun m s =>
    { m with nodeShareOfBalance := s.nodeShare, userShareOfBalance := s.userShare }) shares

/-- How a snapshot is built: how many reads may be in flight, in which order
those of either fan-out complete, and how many records are asked for at once. -/
structure Plan where
  limit : Nat
  parts : FanOut.Schedule limit
  shares : FanOut.Schedule limit
  pageSize : UInt64
  pageSize_pos : 0 < pageSize.toNat

/-- Records asked for at once. -/
def defaultPageSize : UInt64 := 200

/-- The plan in which reads complete in their order. -/
def Plan.inOrder (limit : Nat) (pageSize : UInt64) : Plan :=
  ⟨limit, .inOrder limit, .inOrder limit, max pageSize 1, toNat_max_one_pos pageSize⟩

/-- What is read from the chain before the validators are looked up. -/
structure Details where
  isAtlasDeployed : Bool
  network : NetworkDetails
  nodes : List NodeDetails
  minipools : List MinipoolDetails

/-- The network details from the words read at a block. -/
def details (isAtlasDeployed : Bool) (block : UInt64) (values : List (Setting × Word)) :
    Except BuildFault NetworkDetails :=
  (NetworkDetails.ofValues values isAtlasDeployed).mapError fun f => .inconsistent block f.message

/-- The snapshot that parts make. -/
def assemble (p : SnapshotParts) : Except BuildFault Snapshot :=
  (Snapshot.ofParts p).mapError fun e => .inconsistent p.elBlock e.message

/-- Reads settings, nodes and minipools at a block. -/
def readDetails (plan : Plan) (block : UInt64) : Attempt World BuildFault Details := do
  let isAtlasDeployed ← ((Chain.isAtlasDeployed block).mapError
    (.read "protocol version" block)).onLeft
  let (nodeCount, minipoolCount) ← (readCounts block).onLeft
  let outputs ← fanOut plan.parts (partContent block)
    (Part.all isAtlasDeployed nodeCount minipoolCount plan.pageSize)
  let network ← details isAtlasDeployed block (PartContent.settings outputs)
  let nodes := PartContent.allNodes outputs
  let minipools := PartContent.allMinipools outputs
  checkCount "node" nodes.length nodeCount block
  checkCount "minipool" minipools.length minipoolCount block
  return ⟨isAtlasDeployed, network, nodes, minipools⟩

end Snapshot.Build

open Snapshot.Build in
/-- Builds the snapshot of a slot. -/
def Snapshot.build (plan : Plan) (slot : UInt64) : Attempt World BuildFault Snapshot := do
  let beaconBlock ← ((Beacon.block slot).mapError (.beacon slot)).onRight
  match beaconBlock with
  | none => throw (.slotNotFound slot)
  | some beaconBlock =>
    let beaconConfig ← (Beacon.config.mapError (.beacon slot)).onRight
    let block := beaconBlock.executionBlock
    let details ← readDetails plan block
    let keys := (details.minipools.filter MinipoolDetails.hasPubkey).map MinipoolDetails.pubkey
    let validators ← ((Beacon.validators keys slot).mapError (.beacon slot)).onRight
    let balances := details.minipools.map fun m => (m.address, balance validators m)
    let shares ← fanOut plan.shares (sharePage block) (pieces plan.pageSize.toNat balances)
    assemble {
      elBlock := block
      slot
      beaconConfig
      isAtlasDeployed := details.isAtlasDeployed
      network := details.network
      nodes := details.nodes
      minipools := withShares details.minipools shares.flatten
      validators }

end PoolKeeper
