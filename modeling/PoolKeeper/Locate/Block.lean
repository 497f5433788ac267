/-
The execution block of a time, found by bisection.

The search keeps a block at or before the time and the number of one after it,
the head counting as after it. It starts from the block that the contracts were
deployed at, and from genesis when that is too late.
-/
import PoolKeeper.Chain.Headers
import PoolKeeper.Locate.Fault

namespace PoolKeeper.Locate

/-- A header, as part of a search. -/
def headerAt (number : UInt64) : Attempt Headers LocateFault BlockHeader :=
  (Headers.byNumber number).mapError .chain

/-- The last of the blocks from `before` up to `after`, without it, that is at
or before the target. `fuel` is how many more headers may be read: each of them
halves the distance, unless it is another block's than was asked for. -/
def bisect (target : UInt64) : (fuel : Nat) → (before : BlockHeader) → (after : UInt64) →
    Attempt Headers LocateFault BlockHeader
  | 0, _, _ => throw .endless
  | fuel + 1, before, after =>
    if after - before.number ≤ 1 then pure before
    else do
      let pivot := before.number + (after - before.number) / 2
      let candidate ← headerAt pivot
      if candidate.timestamp ≤ target then bisect target fuel candidate after
      else bisect target fuel before pivot

/-- The latest block at or before a time, never the head itself. -/
def blockForTime (deployBlock target : UInt64) : Attempt Headers LocateFault BlockHeader := do
  let head ← Headers.latest.mapError .chain
  if head.number = 0 then throw (.notFound target)
  let floor ← headerAt (min deployBlock (head.number - 1))
  if floor.timestamp ≤ target then
    bisect target UInt64.size floor head.number
  else if floor.number = 0 then throw (.notFound target)
  else
    let genesis ← headerAt 0
    if target < genesis.timestamp then throw (.notFound target)
    bisect target UInt64.size genesis floor.number

end PoolKeeper.Locate
