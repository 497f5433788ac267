/-
The settings of the protocol that can be read from the chain. Each is one
256-bit word: an amount or a fraction scaled by 10¹⁸, a whole number, an
address in the low bytes, or a flag.
-/
import PoolKeeper.Json.Read

namespace PoolKeeper

inductive Setting where
  | rplPrice
  | minCollateralFraction
  | maxCollateralFraction
  | rewardIndex
  | intervalDuration
  | intervalStart
  | nodeOperatorRewardsPercent
  | trustedNodeOperatorRewardsPercent
  | protocolDaoRewardsPercent
  | pendingRplRewards
  | scrubPeriod
  | smoothingPoolAddress
  | smoothingPoolBalance
  | depositPoolBalance
  | depositPoolExcess
  | queueCapacity
  | rplInflationIntervalRate
  | rplTotalSupply
  | pricesBlock
  | latestReportablePricesBlock
  | ethUtilizationRate
  | stakingEthBalance
  | rethExchangeRate
  | totalEthBalance
  | rethContractBalance
  | totalRethSupply
  | totalRplStake
  | nodeFee
  | balancesBlock
  | latestReportableBalancesBlock
  | submitBalancesEnabled
  | submitPricesEnabled
  | minipoolLaunchTimeout
  | promotionScrubPeriod
  | bondReductionWindowStart
  | bondReductionWindowLength
  | depositPoolUserBalance
  deriving DecidableEq

namespace Setting

/-- The settings that every version of the protocol has. -/
def base : List Setting := [
    .rplPrice, .minCollateralFraction, .maxCollateralFraction, .rewardIndex, .intervalDuration,
    .intervalStart, .nodeOperatorRewardsPercent, .trustedNodeOperatorRewardsPercent,
    .protocolDaoRewardsPercent, .pendingRplRewards, .scrubPeriod, .smoothingPoolAddress,
    .smoothingPoolBalance, .depositPoolBalance, .depositPoolExcess, .queueCapacity,
    .rplInflationIntervalRate, .rplTotalSupply, .pricesBlock, .latestReportablePricesBlock,
    .ethUtilizationRate, .stakingEthBalance, .rethExchangeRate, .totalEthBalance,
    .rethContractBalance, .totalRethSupply, .totalRplStake, .nodeFee, .balancesBlock,
    .latestReportableBalancesBlock, .submitBalancesEnabled, .submitPricesEnabled,
    .minipoolLaunchTimeout]

/-- The settings that came with the Atlas upgrade. -/
def atlas : List Setting := [
    .promotionScrubPeriod, .bondReductionWindowStart, .bondReductionWindowLength,
    .depositPoolUserBalance]

def all : List Setting := base ++ atlas

theorem mem_all (s : Setting) : s ∈ all := by cases s <;> decide

/-- The settings to be read, depending on whether Atlas is deployed. -/
def ofVersion (isAtlasDeployed : Bool) : List Setting := if isAtlasDeployed then all else base

def name : Setting → String
  | rplPrice => "rplPrice"
  | minCollateralFraction => "minCollateralFraction"
  | maxCollateralFraction => "maxCollateralFraction"
  | rewardIndex => "rewardIndex"
  | intervalDuration => "intervalDuration"
  | intervalStart => "intervalStart"
  | nodeOperatorRewardsPercent => "nodeOperatorRewardsPercent"
  | trustedNodeOperatorRewardsPercent => "trustedNodeOperatorRewardsPercent"
  | protocolDaoRewardsPercent => "protocolDaoRewardsPercent"
  | pendingRplRewards => "pendingRplRewards"
  | scrubPeriod => "scrubPeriod"
  | smoothingPoolAddress => "smoothingPoolAddress"
  | smoothingPoolBalance => "smoothingPoolBalance"
  | depositPoolBalance => "depositPoolBalance"
  | depositPoolExcess => "depositPoolExcess"
  | queueCapacity => "queueCapacity"
  | rplInflationIntervalRate => "rplInflationIntervalRate"
  | rplTotalSupply => "rplTotalSupply"
  | pricesBlock => "pricesBlock"
  | latestReportablePricesBlock => "latestReportablePricesBlock"
  | ethUtilizationRate => "ethUtilizationRate"
  | stakingEthBalance => "stakingEthBalance"
  | rethExchangeRate => "rethExchangeRate"
  | totalEthBalance => "totalEthBalance"
  | rethContractBalance => "rethContractBalance"
  | totalRethSupply => "totalRethSupply"
  | totalRplStake => "totalRplStake"
  | nodeFee => "nodeFee"
  | balancesBlock => "balancesBlock"
  | latestReportableBalancesBlock => "latestReportableBalancesBlock"
  | submitBalancesEnabled => "submitBalancesEnabled"
  | submitPricesEnabled => "submitPricesEnabled"
  | minipoolLaunchTimeout => "minipoolLaunchTimeout"
  | promotionScrubPeriod => "promotionScrubPeriod"
  | bondReductionWindowStart => "bondReductionWindowStart"
  | bondReductionWindowLength => "bondReductionWindowLength"
  | depositPoolUserBalance => "depositPoolUserBalance"

/-- The name with its first letter capitalised, for messages. -/
def title (s : Setting) : String := s.name.capitalize

def ofName? (name : String) : Option Setting := all.find? fun s => s.name == name

def reader : Json.Reader Setting := .named ofName?

end Setting
end PoolKeeper
