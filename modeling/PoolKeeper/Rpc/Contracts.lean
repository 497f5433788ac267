/-
The contracts of the protocol, reached through an execution client that knows
how to read them.
-/
import PoolKeeper.Address
import PoolKeeper.Chain.Basic
import PoolKeeper.Rpc.Fee

namespace PoolKeeper.Rpc

/-- Asks for something about the contracts. -/
def contract {α : Type} (b : Backoff) (method : String) (params : List Json) (r : Json.Reader α) :
    Attempt Endpoint Failure α :=
  .mapError (.first ∘ .rpc) (ask b method params r)

/-- Asks for one result for each of some questions. -/
def oneForEach {α : Type} (b : Backoff) (method : String) (params : List Json)
    (r : Json.Reader α) (count : Nat) (questions : String) :
    Attempt Endpoint Failure (List α) := do
  let results ← contract b method params (.list r)
  if results.length = count then return results
  else throw (.text (method ++ " returned " ++ Numeral.decimal results.length ++ " results for " ++
    Numeral.decimal count ++ " " ++ questions))

/-- The parameters of a read of one page. -/
def pageParams (offset limit block : UInt64) : List Json :=
  [.ofUInt64 offset, .ofUInt64 limit, (BlockTag.number block).json]

/-- Answers a call to the contracts. -/
def contracts (b : Backoff) (call : Chain.Call) : Program Endpoint (Chain.Reply call) :=
  match call with
  | .readWords reads block =>
    (oneForEach b "rp_batchRead" [.array (reads.map ReadCall.json), (BlockTag.ofOption block).json]
      .word reads.length "calls").outcome
  | .isAtlasDeployed block =>
    (contract b "rp_isAtlasDeployed" [(BlockTag.number block).json] .bool).outcome
  | .nodeDetails offset limit block =>
    (contract b "rp_nodeDetails" (pageParams offset limit block)
      (.list NodeDetails.reader)).outcome
  | .minipoolDetails offset limit block =>
    (contract b "rp_minipoolDetails" (pageParams offset limit block)
      (.list MinipoolDetails.reader)).outcome
  | .minipoolShares balances block =>
    (oneForEach b "rp_minipoolShares"
      [.array (balances.map fun (a, w) => .array [a.json, w.hexJson]), (BlockTag.number block).json]
      MinipoolShares.reader balances.length "minipools").outcome
  | .rewardsEvent pool interval =>
    ((contract b "rp_getRewardsEvent" [pool.json, .ofUInt64 interval]
        (.optional RewardsEvent.reader)).mapError
      (.because ("error scanning rewards pool " ++ Address.checksum pool ++ " for interval " ++
        Numeral.decimal interval.toNat))).outcome
  | .estimateReduceBond minipool =>
    (contract b "rp_estimateReduceBondAmountGas" [minipool.json] GasInfo.reader).outcome
  | .sendReduction minipool options =>
    (contract b "rp_reduceBondAmount" [minipool.json, options.json] .fixedBytes).outcome
  | .suggestedFeeCap =>
    ((BitVec.setWidth 256 <$> suggestedFee b).mapError fun f =>
      .because "error estimating EIP-1559 fees" (.first (.rpc f))).outcome

end PoolKeeper.Rpc
