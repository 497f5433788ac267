/-
The settings of the protocol at one block, each in the form it is meant in.

`ofValues` assembles them from the words that were read, one after the other;
every setting of the version must be among these, and a whole number must fit
into 64 bits.
-/
import PoolKeeper.Rewards.Json
import PoolKeeper.State.Setting

namespace PoolKeeper

/-- The settings at a block. What is not read is zero, as those of Atlas are before it. -/
structure NetworkDetails where
  rplPrice : Word := 0
  minCollateralFraction : Word := 0
  maxCollateralFraction : Word := 0
  rewardIndex : UInt64 := 0
  intervalDuration : UInt64 := 0
  intervalStart : UInt64 := 0
  nodeOperatorRewardsPercent : Word := 0
  trustedNodeOperatorRewardsPercent : Word := 0
  protocolDaoRewardsPercent : Word := 0
  pendingRplRewards : Word := 0
  scrubPeriod : UInt64 := 0
  smoothingPoolAddress : Address := .zero
  smoothingPoolBalance : Word := 0
  depositPoolBalance : Word := 0
  depositPoolExcess : Word := 0
  queueCapacity : Word := 0
  rplInflationIntervalRate : Word := 0
  rplTotalSupply : Word := 0
  pricesBlock : UInt64 := 0
  latestReportablePricesBlock : UInt64 := 0
  ethUtilizationRate : Word := 0
  stakingEthBalance : Word := 0
  rethExchangeRate : Word := 0
  totalEthBalance : Word := 0
  rethContractBalance : Word := 0
  totalRethSupply : Word := 0
  totalRplStake : Word := 0
  nodeFee : Word := 0
  balancesBlock : UInt64 := 0
  latestReportableBalancesBlock : UInt64 := 0
  submitBalancesEnabled : Bool := false
  submitPricesEnabled : Bool := false
  minipoolLaunchTimeout : UInt64 := 0
  promotionScrubPeriod : UInt64 := 0
  bondReductionWindowStart : UInt64 := 0
  bondReductionWindowLength : UInt64 := 0
  depositPoolUserBalance : Word := 0
  deriving DecidableEq

/-- A word in hexadecimal digits, as few as it needs. -/
def Word.hexJson (w : Word) : Json := .string w.hexText

namespace NetworkDetails

/-- What words that were read may lack. -/
inductive Fault where
  | tooLarge (s : Setting) (value : Word)
  | missing (s : Setting)
  deriving DecidableEq

def Fault.message : Fault → String
  | .tooLarge s value =>
    "network setting " ++ s.title ++ " does not fit in 64 bits: " ++ value.decimal
  | .missing s => "network setting " ++ s.title ++ " was not read"

/-- Sets the field of a setting to what a word stands for. -/
def apply (d : NetworkDetails) (s : Setting) (value : Word) : Except Fault NetworkDetails :=
  let integer : Except Fault UInt64 :=
    match value.toUInt64? with
    | some n => .ok n
    | none => .error (.tooLarge s value)
  match s with
  | .rplPrice => .ok { d with rplPrice := value }
  | .minCollateralFraction => .ok { d with minCollateralFraction := value }
  | .maxCollateralFraction => .ok { d with maxCollateralFraction := value }
  | .rewardIndex => integer.map fun n => { d with rewardIndex := n }
  | .intervalDuration => integer.map fun n => { d with intervalDuration := n }
  | .intervalStart => integer.map fun n => { d with intervalStart := n }
  | .nodeOperatorRewardsPercent => .ok { d with nodeOperatorRewardsPercent := value }
  | .trustedNodeOperatorRewardsPercent => .ok { d with trustedNodeOperatorRewardsPercent := value }
  | .protocolDaoRewardsPercent => .ok { d with protocolDaoRewardsPercent := value }
  | .pendingRplRewards => .ok { d with pendingRplRewards := value }
  | .scrubPeriod => integer.map fun n => { d with scrubPeriod := n }
  | .smoothingPoolAddress => .ok { d with smoothingPoolAddress := .ofWord value }
  | .smoothingPoolBalance => .ok { d with smoothingPoolBalance := value }
  | .depositPoolBalance => .ok { d with depositPoolBalance := value }
  | .depositPoolExcess => .ok { d with depositPoolExcess := value }
  | .queueCapacity => .ok { d with queueCapacity := value }
  | .rplInflationIntervalRate => .ok { d with rplInflationIntervalRate := value }
  | .rplTotalSupply => .ok { d with rplTotalSupply := value }
  | .pricesBlock => integer.map fun n => { d with pricesBlock := n }
  | .latestReportablePricesBlock => integer.map fun n => { d with latestReportablePricesBlock := n }
  | .ethUtilizationRate => .ok { d with ethUtilizationRate := value }
  | .stakingEthBalance => .ok { d with stakingEthBalance := value }
  | .rethExchangeRate => .ok { d with rethExchangeRate := value }
  | .totalEthBalance => .ok { d with totalEthBalance := value }
  | .rethContractBalance => .ok { d with rethContractBalance := value }
  | .totalRethSupply => .ok { d with totalRethSupply := value }
  | .totalRplStake => .ok { d with totalRplStake := value }
  | .nodeFee => .ok { d with nodeFee := value }
  | .balancesBlock => integer.map fun n => { d with balancesBlock := n }
  | .latestReportableBalancesBlock =>
    integer.map fun n => { d with latestReportableBalancesBlock := n }
  | .submitBalancesEnabled => .ok { d with submitBalancesEnabled := value != 0 }
  | .submitPricesEnabled => .ok { d with submitPricesEnabled := value != 0 }
  | .minipoolLaunchTimeout => integer.map fun n => { d with minipoolLaunchTimeout := n }
  | .promotionScrubPeriod => integer.map fun n => { d with promotionScrubPeriod := n }
  | .bondReductionWindowStart => integer.map fun n => { d with bondReductionWindowStart := n }
  | .bondReductionWindowLength => integer.map fun n => { d with bondReductionWindowLength := n }
  | .depositPoolUserBalance => .ok { d with depositPoolUserBalance := value }

/-- The details at a block, from the words read there. -/
def ofValues (values : List (Setting × Word)) (isAtlasDeployed : Bool) :
    Except Fault NetworkDetails := do
  let details ← values.foldlM (fun d v => d.apply v.1 v.2) {}
  match (Setting.ofVersion isAtlasDeployed).find? fun s => !values.any (·.1 == s) with
  | some s => throw (.missing s)
  | none => return details

def json (d : NetworkDetails) : Json :=
  .object [
    ("rplPrice", d.rplPrice.hexJson),
    ("minCollateralFraction", d.minCollateralFraction.hexJson),
    ("maxCollateralFraction", d.maxCollateralFraction.hexJson),
    ("rewardIndex", .ofUInt64 d.rewardIndex),
    ("intervalDuration", .ofUInt64 d.intervalDuration),
    ("intervalStart", .ofUInt64 d.intervalStart),
    ("nodeOperatorRewardsPercent", d.nodeOperatorRewardsPercent.hexJson),
    ("trustedNodeOperatorRewardsPercent", d.trustedNodeOperatorRewardsPercent.hexJson),
    ("protocolDaoRewardsPercent", d.protocolDaoRewardsPercent.hexJson),
    ("pendingRplRewards", d.pendingRplRewards.hexJson),
    ("scrubPeriod", .ofUInt64 d.scrubPeriod),
    ("smoothingPoolAddress", d.smoothingPoolAddress.json),
    ("smoothingPoolBalance", d.smoothingPoolBalance.hexJson),
    ("depositPoolBalance", d.depositPoolBalance.hexJson),
    ("depositPoolExcess", d.depositPoolExcess.hexJson),
    ("queueCapacity", d.queueCapacity.hexJson),
    ("rplInflationIntervalRate", d.rplInflationIntervalRate.hexJson),
    ("rplTotalSupply", d.rplTotalSupply.hexJson),
    ("pricesBlock", .ofUInt64 d.pricesBlock),
    ("latestReportablePricesBlock", .ofUInt64 d.latestReportablePricesBlock),
    ("ethUtilizationRate", d.ethUtilizationRate.hexJson),
    ("stakingEthBalance", d.stakingEthBalance.hexJson),
    ("rethExchangeRate", d.rethExchangeRate.hexJson),
    ("totalEthBalance", d.totalEthBalance.hexJson),
    ("rethContractBalance", d.rethContractBalance.hexJson),
    ("totalRethSupply", d.totalRethSupply.hexJson),
    ("totalRplStake", d.totalRplStake.hexJson),
    ("nodeFee", d.nodeFee.hexJson),
    ("balancesBlock", .ofUInt64 d.balancesBlock),
    ("latestReportableBalancesBlock", .ofUInt64 d.latestReportableBalancesBlock),
    ("submitBalancesEnabled", .bool d.submitBalancesEnabled),
    ("submitPricesEnabled", .bool d.submitPricesEnabled),
    ("minipoolLaunchTimeout", .ofUInt64 d.minipoolLaunchTimeout),
    ("promotionScrubPeriod", .ofUInt64 d.promotionScrubPeriod),
    ("bondReductionWindowStart", .ofUInt64 d.bondReductionWindowStart),
    ("bondReductionWindowLength", .ofUInt64 d.bondReductionWindowLength),
    ("depositPoolUserBalance", d.depositPoolUserBalance.hexJson)]

end NetworkDetails
end PoolKeeper
