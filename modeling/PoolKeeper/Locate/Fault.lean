/-
Why a block or a slot cannot be located.
-/
import PoolKeeper.Failure

namespace PoolKeeper

inductive LocateFault where
  | notFound (target : UInt64)
  | headReached (slot : UInt64)
  | previousIntervalUnavailable (slot : UInt64)
  | chain (source : Failure)
  deriving DecidableEq

namespace LocateFault

/-- A search for a slot would go on past the largest one. -/
def overflow : LocateFault := .chain (.text "attempt to add with overflow")

/-- A search for a block has read more headers than there are numbers of blocks. Headers of other
blocks than were asked for can keep it going. -/
def endless : LocateFault := .chain (.text "the search for a block does not end")

def failure : LocateFault → Failure
  | .notFound target =>
    .text ("no execution block at or before unix time " ++ Numeral.decimal target.toNat)
  | .headReached slot =>
    .text ("scanned up to the chain head (slot " ++ Numeral.decimal slot.toNat ++
      ") without finding a beacon block")
  | .previousIntervalUnavailable slot =>
    .text ("couldn't retrieve the beacon block of the previous interval (slot " ++
      Numeral.decimal slot.toNat ++
      "); the beacon node was likely checkpoint synced and has not backfilled that far yet")
  | .chain source => .because "error reading the chain" source

end LocateFault
end PoolKeeper
