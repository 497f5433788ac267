/-
The consensus layer: its timing, and what may be asked of it.
-/
import PoolKeeper.Failure
import PoolKeeper.KeyMap
import PoolKeeper.Program
import PoolKeeper.Rewards.Json

namespace PoolKeeper

/-- When slots and epochs begin. -/
structure BeaconConfig where
  genesisTime : UInt64
  secondsPerSlot : UInt64
  slotsPerEpoch : UInt64
  deriving DecidableEq

namespace BeaconConfig

/-- The unix time at which a slot starts, or the largest number. -/
def slotTime (c : BeaconConfig) (slot : UInt64) : UInt64 :=
  UInt64Sat.add c.genesisTime (UInt64Sat.mul slot c.secondsPerSlot)

/-- The epoch of a slot. Epochs of no slots are taken to have one. -/
def epochOf (c : BeaconConfig) (slot : UInt64) : UInt64 := slot / max c.slotsPerEpoch 1

def firstSlotOf (c : BeaconConfig) (epoch : UInt64) : UInt64 := UInt64Sat.mul epoch c.slotsPerEpoch

def json (c : BeaconConfig) : Json :=
  .object [
    ("genesis_time", .ofUInt64 c.genesisTime),
    ("seconds_per_slot", .ofUInt64 c.secondsPerSlot),
    ("slots_per_epoch", .ofUInt64 c.slotsPerEpoch)]

open Json in
def reader : Reader BeaconConfig :=
  record (BeaconConfig.mk
    <$> field "genesis_time" .uint64
    <*> field "seconds_per_slot" .uint64
    <*> field "slots_per_epoch" .uint64)

end BeaconConfig

/-- A consensus block, and the execution block that it carries. -/
structure BeaconBlock where
  slot : UInt64
  /-- Zero for a block that carries none. -/
  executionBlock : UInt64
  deriving DecidableEq

def BeaconBlock.json (b : BeaconBlock) : Json :=
  .object [
    ("slot", .ofUInt64 b.slot),
    ("execution_block_number", .ofUInt64 b.executionBlock)]

structure BeaconHead where
  slot : UInt64
  epoch : UInt64
  finalizedEpoch : UInt64
  deriving DecidableEq

def BeaconHead.json (h : BeaconHead) : Json :=
  .object [
    ("slot", .ofUInt64 h.slot),
    ("epoch", .ofUInt64 h.epoch),
    ("finalized_epoch", .ofUInt64 h.finalizedEpoch)]

/-- What the consensus layer knows of a validator. -/
structure ValidatorStatus where
  pubkey : Pubkey
  index : UInt64
  /-- In gwei. -/
  balance : UInt64
  activationEpoch : UInt64
  exitEpoch : UInt64
  slashed : Bool
  status : String
  deriving DecidableEq

namespace ValidatorStatus

/-- The validator is active in an epoch: activated, and not out yet. -/
def isActiveAt (v : ValidatorStatus) (epoch : UInt64) : Bool :=
  v.activationEpoch ≤ epoch && epoch < v.exitEpoch

def json (v : ValidatorStatus) : Json :=
  .object [
    ("pubkey", v.pubkey.json),
    ("index", .ofUInt64 v.index),
    ("balance", .ofUInt64 v.balance),
    ("activation_epoch", .ofUInt64 v.activationEpoch),
    ("exit_epoch", .ofUInt64 v.exitEpoch),
    ("slashed", .bool v.slashed),
    ("status", .string v.status)]

end ValidatorStatus

/-- Validators by their keys. -/
abbrev Validators := KeyMap 48 ValidatorStatus

def Validators.json (vs : Validators) : Json :=
  .object (vs.entries.map fun e => (e.1.text, e.2.json))

inductive Beacon.Call where
  /-- The block of a slot, if it has one. -/
  | block (slot : UInt64)
  /-- The validators with the given keys, as far as they are known. -/
  | validators (pubkeys : List Pubkey) (slot : UInt64)
  | head
  | config

abbrev Beacon.Reply : Beacon.Call → Type
  | .block _ => Except Failure (Option BeaconBlock)
  | .validators _ _ => Except Failure Validators
  | .head => Except Failure BeaconHead
  | .config => Except Failure BeaconConfig

/-- The consensus layer. -/
abbrev Beacon : Interface := ⟨Beacon.Call, Beacon.Reply⟩

namespace Beacon

def block (slot : UInt64) : Attempt Beacon Failure (Option BeaconBlock) :=
  .ofOutcome (Program.call (I := Beacon) (.block slot))

def validators (pubkeys : List Pubkey) (slot : UInt64) : Attempt Beacon Failure Validators :=
  .ofOutcome (Program.call (I := Beacon) (.validators pubkeys slot))

def head : Attempt Beacon Failure BeaconHead := .ofOutcome (Program.call (I := Beacon) .head)

def config : Attempt Beacon Failure BeaconConfig := .ofOutcome (Program.call (I := Beacon) .config)

end Beacon
end PoolKeeper
