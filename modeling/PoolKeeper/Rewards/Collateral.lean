/-
The collateral rewards of an interval: the part of the pending RPL that is due
to node operators, split in proportion to effective stake.
-/
import PoolKeeper.Rewards.Payout
import PoolKeeper.Stake
import PoolKeeper.Units

namespace PoolKeeper

/-- What is due to node operators. -/
def NetworkDetails.operatorPool (d : NetworkDetails) : Word :=
  Word.saturatingMul d.pendingRplRewards d.nodeOperatorRewardsPercent /
    BitVec.ofNat 256 weiPerEther

/-- The rewards file that pays nodes for their effective stake. -/
def Snapshot.collateralRewards (s : Snapshot) (stakes : EffectiveStakes)
    (header : IntervalHeader) : RewardsFile :=
  let shares := apportion s.parts.network.operatorPool stakes.weights
  .ofCredits header (shares.entries.map fun e => ⟨e.1, e.2, 0, 0⟩)

end PoolKeeper
