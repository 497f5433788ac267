/-
The event by which the rewards pool records that an interval is over: its span,
the root of its rewards file, and the identifier that the file is published
under.
-/
import PoolKeeper.State.Node

namespace PoolKeeper

structure RewardsEvent where
  index : UInt64
  startTime : UInt64
  endTime : UInt64
  /-- The slot that the interval was settled at. -/
  consensusBlock : UInt64
  executionBlock : UInt64
  merkleRoot : Hash
  merkleTreeCid : String
  intervalsPassed : UInt64
  deriving DecidableEq

namespace RewardsEvent

def json (e : RewardsEvent) : Json :=
  .object [
    ("index", quotedJson e.index),
    ("startTime", quotedJson e.startTime),
    ("endTime", quotedJson e.endTime),
    ("consensusBlock", quotedJson e.consensusBlock),
    ("executionBlock", quotedJson e.executionBlock),
    ("merkleRoot", e.merkleRoot.json),
    ("merkleTreeCid", .string e.merkleTreeCid),
    ("intervalsPassed", quotedJson e.intervalsPassed)]

open Json in
def reader : Reader RewardsEvent :=
  record (RewardsEvent.mk
    <$> field "index" .quotedUInt64
    <*> field "startTime" .quotedUInt64
    <*> field "endTime" .quotedUInt64
    <*> field "consensusBlock" .quotedUInt64
    <*> field "executionBlock" .quotedUInt64
    <*> field "merkleRoot" .fixedBytes
    <*> field "merkleTreeCid" .string
    <*> fieldOr "intervalsPassed" 1 .quotedUInt64)

end RewardsEvent
end PoolKeeper
