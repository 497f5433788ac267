/-
Running commands. Each one ends with a value to be shown, or with a failure.
-/
import PoolKeeper.Bond.Pass
import PoolKeeper.Claims
import PoolKeeper.CommandLine.Command
import PoolKeeper.Locate.Block
import PoolKeeper.Locate.Slot
import PoolKeeper.Rewards.Collateral
import PoolKeeper.Rewards.Interval
import PoolKeeper.Rewards.Package
import PoolKeeper.Session
import PoolKeeper.Stake
import PoolKeeper.State.Build

namespace PoolKeeper

namespace Invocation
open Session

variable (i : Invocation)

/-- The snapshot of a slot, or of the newest one. -/
def takeSnapshot (slot : Option UInt64) : Trial Snapshot := do
  let c := i.settings.chain
  let slot ← match slot with
    | some slot => pure slot
    | none => BeaconHead.slot <$> perform (askBeacon c) id Beacon.head
  let plan := Snapshot.Build.Plan.inOrder c.concurrency Snapshot.Build.defaultPageSize
  perform (askEither (askChain c) (askBeacon c)) BuildFault.failure (Snapshot.build plan slot)

def stakesOf (s : Snapshot) : Trial EffectiveStakes :=
  liftExcept <| (s.effectiveStakes i.settings.rewards.scaleByParticipation).mapError
    fun f => Failure.text f.message
where
  liftExcept {α : Type} (r : Except Failure α) : Trial α := ExceptT.mk (pure r)

/-- The interval that is running at the latest block. -/
def currentInterval : Trial UInt64 := do
  let words ← perform (askChain i.settings.chain) id (Chain.readWords [.setting .rewardIndex] none)
  match (words.head?.getD 0).toUInt64? with
  | some n => return n
  | none => throw (.text "reward index does not fit in 64 bits")

def eventOf (interval : UInt64) : Trial RewardsEvent :=
  perform (askChain i.settings.chain) EventFault.failure
    (RewardsEvent.resolve i.settings.chain.network i.settings.rewards.previousPools interval none)

/-- The header of the running interval's file, were it to end with the snapshot. -/
def headerAt (s : Snapshot) : IntervalHeader where
  index := s.parts.network.rewardIndex
  network := i.settings.chain.network.name
  startTime := s.parts.network.intervalStart
  endTime := s.slotTime
  consensusEndBlock := s.parts.slot
  executionEndBlock := s.parts.elBlock
  intervalsPassed := 1

/-- What is shown of rewards that have not been published. -/
def preview (f : RewardsFile) (p : Package) : Json :=
  .object [
    ("cid", .string p.cid.text),
    ("compressedBytes", .number p.compressed.length),
    ("fileName", .string p.fileName),
    ("interval", .ofUInt64 f.header.index),
    ("merkleRoot", f.merkleRoot.json),
    ("nodes", .number f.nodes.entries.length),
    ("totalRewards", f.totals.json)]

/-- Runs the command. Data of the user is kept below a directory. -/
def run (userData : String) : Trial Json := do
  let c := i.settings.chain
  let store : Store := ⟨i.settings.rewards.directory userData, c.network⟩
  match i.command with
  | .state slot => return (← i.takeSnapshot slot).json
  | .effectiveStake slot => return (← i.stakesOf (← i.takeSnapshot slot)).json
  | .claimStatus node =>
    let current ← i.currentInterval
    return (← perform (askChain c) id (Claims.status node current none)).json
  | .interval node interval =>
    return (← perform (askEither (askChain c) askDisk) ArtifactFault.failure
      (IntervalInfo.read store i.settings.rewards.previousPools node interval)).json
  | .download interval =>
    let event ← i.eventOf interval
    return (← perform (askEither askMirror askDisk) ArtifactFault.failure
      (Download.run store i.settings.rewards.mirrors event)).json
  | .reduceBonds node slot =>
    let s ← i.takeSnapshot slot
    let header ← perform (askHeaders c) id (Headers.byNumber s.parts.elBlock)
    let outcomes ← liftM
      ((BondPass.run s i.settings.gas.settings node header.timestamp).run (askChain c))
    return .array (outcomes.map MinipoolOutcome.json)
  | .blockForTime time =>
    let header ← perform (askHeaders c) LocateFault.failure (Locate.blockForTime c.deployBlock time)
    return header.json
  | .startSlot interval =>
    let previous ← i.eventOf (interval - 1)
    let slot ← perform (askBeacon c) LocateFault.failure (Locate.startSlotAfter previous)
    return .object [("interval", .ofUInt64 interval), ("startSlot", .ofUInt64 slot)]
  | .previewRewards slot =>
    let s ← i.takeSnapshot slot
    let stakes ← i.stakesOf s
    let f := s.collateralRewards stakes (i.headerAt s)
    return preview f (f.package c.network)

end Invocation
end PoolKeeper
