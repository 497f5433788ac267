/-
The fee cap that an execution client suggests: twice the base fee of the next
block, and the median tip of the latest blocks.
-/
import PoolKeeper.Rpc.Block

namespace PoolKeeper.Rpc

/-- Base fees of some blocks and of the one after them, and for each block the
tips at the percentiles asked for. -/
structure FeeHistory where
  baseFees : List Fee
  rewards : List (List Fee)

namespace FeeHistory
open Json

def reader : Reader FeeHistory :=
  record ((fun baseFees rewards _ _ _ _ => FeeHistory.mk baseFees (rewards.getD []))
    <$> fieldOr "baseFeePerGas" [] (.list .quantity)
    <*> fieldOr "reward" none (.optional (.list (.list .quantity)))
    <*> field "gasUsedRatio" (.list .anyNumber)
    <*> fieldOr "baseFeePerBlobGas" [] (.list (.quantity : Reader Fee))
    <*> fieldOr "blobGasUsedRatio" [] (.list .anyNumber)
    <*> fieldOr "oldestBlock" 0 (.quantity : Reader (BitVec 64)))

/-- The base fee of the latest block: the last but one, the last being that of
the block to come. -/
def latestBaseFee? (h : FeeHistory) : Option Fee := (h.baseFees.reverse.drop 1).head?

end FeeHistory

/-- The least tip that is suggested. -/
def leastTip : Fee := 1

/-- The middle of the tips, or the mean of the two in the middle. -/
def median (tips : List Fee) : Fee :=
  let sorted := tips.mergeSort fun a b => a ≤ b
  let middle := sorted.length / 2
  let upper := sorted.getD middle 0
  if sorted.length % 2 = 0 then (sorted.getD (middle - 1) 0 + upper) / 2 else upper

/-- The tip to offer, from the first tip of every block. Blocks in which nobody
gave one do not count. -/
def suggestedTip (rewards : List (List Fee)) : Fee :=
  let tips := (rewards.filterMap List.head?).filter (· ≠ 0)
  if tips.isEmpty then leastTip
  else
    let m := median tips
    if m < leastTip then leastTip else m

/-- Room for the base fee to double, and the tip. -/
def feeCap (base : Fee) (rewards : List (List Fee)) : Fee := base * 2 + suggestedTip rewards

/-- Blocks looked back on, and the percentile of the tips in each. -/
def feeHistoryParams : List Json :=
  [.string "0xa", BlockTag.latest.json, .array [.number 20]]

/-- The fee cap that the execution client suggests. -/
def suggestedFee (b : Backoff) : Attempt Endpoint Fault Fee := do
  let history ← ask b "eth_feeHistory" feeHistoryParams FeeHistory.reader
  let base ←
    match history.latestBaseFee? with
    | none => ofLatestBlock
    | some base => if base = 0 then ofLatestBlock else pure base
  return feeCap base history.rewards
where
  ofLatestBlock : Attempt Endpoint Fault Fee := do
    match ← block? b .latest with
    | none => throw .nullResponse
    | some block =>
      match block.baseFee with
      | some fee => return fee
      | none => throw (.unsupported "eip1559")

end PoolKeeper.Rpc
