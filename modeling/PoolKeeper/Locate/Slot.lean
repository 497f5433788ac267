/-
The consensus slot that an interval starts at: the first one with a block, from
the epoch after the previous interval on.
-/
import PoolKeeper.Beacon.Basic
import PoolKeeper.Locate.Fault
import PoolKeeper.Rewards.Event

namespace PoolKeeper.Locate

/-- Looks at slots one after the other, until one has a block or lies in an epoch
after the last. -/
def scan (config : BeaconConfig) (lastEpoch slot : UInt64) : Attempt Beacon LocateFault UInt64 :=
  if config.epochOf slot ≤ lastEpoch then do
    match ← (Beacon.block slot).mapError .chain with
    | some _ => pure slot
    | none =>
      if _h : slot < slot + 1 then scan config lastEpoch (slot + 1)
      else throw .overflow
  else throw (.headReached slot)
termination_by UInt64.size - slot.toNat
decreasing_by
  have hlt := UInt64.lt_iff_toNat_lt.1 _h
  have hsize := (slot + 1).toNat_lt
  unfold UInt64.size
  omega

/-- The first slot from `start` on that has a block, up to the head's epoch. -/
def firstFilledSlot (start : UInt64) : Attempt Beacon LocateFault UInt64 := do
  let head ← Beacon.head.mapError .chain
  let config ← Beacon.config.mapError .chain
  scan config head.epoch start

/-- The first slot of the interval after `previous`. -/
def startSlotAfter (previous : RewardsEvent) : Attempt Beacon LocateFault UInt64 := do
  let slot := previous.consensusBlock
  match ← (Beacon.block slot).mapError .chain with
  | none => throw (.previousIntervalUnavailable slot)
  | some _ =>
    let config ← Beacon.config.mapError .chain
    firstFilledSlot (config.firstSlotOf (config.epochOf slot + 1))

end PoolKeeper.Locate
