/-
Fee settings: as they are given, in fractional gwei, and as they are used.
-/
import PoolKeeper.Units

namespace PoolKeeper

/-- Fees in gwei. Zero stands for no setting. -/
structure GasOptions where
  threshold : Float
  maxFee : Float
  priorityFee : Float
  gasLimit : UInt64

/-- Fees in wei. -/
structure GasSettings where
  /-- Only a fee cap below this is cheap. -/
  threshold : Word
  /-- A fee cap to use instead of the one that the execution client suggests. -/
  maxFee : Option Word
  priorityFee : Word
  /-- A gas limit to use instead of an estimate. -/
  gasLimit : Option UInt64
  deriving DecidableEq

/-- The priority fee when none is set, in gwei. -/
def defaultPriorityFee : Float := 2.0

/-- The settings that are meant. A priority fee that is not positive, or not a
number, is no setting. -/
def GasOptions.settings (c : GasOptions) : GasSettings where
  threshold := fractionalGweiToWei c.threshold
  maxFee := some (fractionalGweiToWei c.maxFee) |>.filter (· ≠ 0)
  priorityFee :=
    fractionalGweiToWei (if c.priorityFee > 0.0 then c.priorityFee else defaultPriorityFee)
  gasLimit := some c.gasLimit |>.filter (· ≠ 0)

end PoolKeeper
