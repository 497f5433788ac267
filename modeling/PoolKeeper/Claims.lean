/-
Which intervals a node has claimed already.

The protocol's storage has one word for a node and every 256 intervals, whose
bits stand for them: bit `i % 256` of word `i / 256` is set once interval `i`
has been claimed.
-/
import PoolKeeper.Chain.Basic
import PoolKeeper.Hash.Keccak

namespace PoolKeeper

/-- The intervals claimed and not claimed, both ascending. -/
structure ClaimStatus where
  claimed : List UInt64
  unclaimed : List UInt64
  deriving DecidableEq

def ClaimStatus.json (s : ClaimStatus) : Json :=
  .object [
    ("claimed", .array (s.claimed.map .ofUInt64)),
    ("unclaimed", .array (s.unclaimed.map .ofUInt64))]

namespace Claims

/-- Intervals that share a word. -/
def bucketSize : Nat := 256

/-- The key of the storage word for a node's intervals of one bucket. -/
def bitmapKey (node : Address) (bucket : UInt64) : Hash :=
  keccak256 (Bytes.ofText "rewards.interval.claimed" ++
    (node.toBytes ++ Bytes.bigEndian 32 bucket.toNat))

/-- How many words it takes for the intervals up to the current one. -/
def bucketCount (current : UInt64) : UInt64 := current / 256 + 1

/-- The bit of an interval. Words that are missing have no bit set. -/
def isClaimed (bitmaps : Array Word) (interval : Nat) : Bool :=
  (bitmaps.getD (interval / bucketSize) 0).getLsbD (interval % bucketSize)

/-- The intervals before the current one, divided by their bits. -/
def decode (bitmaps : Array Word) (current : UInt64) : ClaimStatus :=
  let (claimed, unclaimed) := (List.range current.toNat).partition (isClaimed bitmaps)
  ⟨claimed.map UInt64.ofNat, unclaimed.map UInt64.ofNat⟩

/-- The reads of all words up to the current interval. -/
def reads (node : Address) (current : UInt64) : List ReadCall :=
  (List.range (bucketCount current).toNat).map fun b =>
    .storageUint (bitmapKey node (UInt64.ofNat b))

/-- Reads what a node has claimed, at a block or at the latest one. -/
def status (node : Address) (current : UInt64) (block : Option UInt64) :
    Attempt Chain Failure ClaimStatus := do
  let bitmaps ← (Chain.readWords (reads node current) block).mapError
    (.because ("error reading claimed intervals of node " ++ node.checksum))
  return decode bitmaps.toArray current

end Claims
end PoolKeeper
