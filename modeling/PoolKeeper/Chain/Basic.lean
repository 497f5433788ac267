/-
The contracts of the protocol, as far as they are needed: reads, most of them
at a given block, gas estimates, and the one transaction that is sent.
-/
import PoolKeeper.Failure
import PoolKeeper.Program
import PoolKeeper.Rewards.Event
import PoolKeeper.State.Minipool
import PoolKeeper.State.NetworkDetails

namespace PoolKeeper

/-- One read of a batch, which yields one word. -/
inductive ReadCall where
  | setting (s : Setting)
  /-- A number in the protocol's key and value storage. -/
  | storageUint (key : Hash)
  /-- The address of a contract by its name. -/
  | contractAddress (name : String)
  | nodeCount
  | minipoolCount
  /-- When a minipool's bond reduction was requested, zero if it was not. -/
  | reduceBondTime (minipool : Address)
  /-- Not zero if the requested reduction was cancelled. -/
  | reduceBondCancelled (minipool : Address)
  deriving DecidableEq

namespace ReadCall

def kind : ReadCall → String
  | setting _ => "setting"
  | storageUint _ => "storageUint"
  | contractAddress _ => "contractAddress"
  | nodeCount => "nodeCount"
  | minipoolCount => "minipoolCount"
  | reduceBondTime _ => "reduceBondTime"
  | reduceBondCancelled _ => "reduceBondCancelled"

def arg? : ReadCall → Option String
  | setting s => some s.name
  | storageUint key => some key.text
  | contractAddress name => some name
  | nodeCount | minipoolCount => none
  | reduceBondTime a | reduceBondCancelled a => some a.text

def json (c : ReadCall) : Json :=
  .object (("kind", .string c.kind) :: (c.arg?.map fun a => ("arg", .string a)).toList)

end ReadCall

/-- How a minipool's balance divides between its node and the pool. -/
structure MinipoolShares where
  nodeShare : Word
  userShare : Word
  deriving DecidableEq

namespace MinipoolShares

def json (s : MinipoolShares) : Json :=
  .object [("nodeShare", s.nodeShare.json), ("userShare", s.userShare.json)]

open Json in
def reader : Reader MinipoolShares :=
  record (MinipoolShares.mk
    <$> field "nodeShare" .quotedWord
    <*> field "userShare" .quotedWord)

end MinipoolShares

structure GasInfo where
  estimatedGasLimit : UInt64
  /-- The estimate and a margin. -/
  safeGasLimit : UInt64
  deriving DecidableEq

namespace GasInfo

def json (g : GasInfo) : Json :=
  .object [
    ("estimatedGasLimit", .ofUInt64 g.estimatedGasLimit),
    ("safeGasLimit", .ofUInt64 g.safeGasLimit)]

open Json in
def reader : Reader GasInfo :=
  record (GasInfo.mk
    <$> field "estimatedGasLimit" .uint64
    <*> field "safeGasLimit" .uint64)

end GasInfo

/-- What a transaction may cost. -/
structure TxOptions where
  gasFeeCap : Word
  gasTipCap : Word
  gasLimit : UInt64
  deriving DecidableEq

def TxOptions.json (o : TxOptions) : Json :=
  .object [
    ("gasFeeCap", o.gasFeeCap.hexJson),
    ("gasTipCap", o.gasTipCap.hexJson),
    ("gasLimit", .ofUInt64 o.gasLimit)]

inductive Chain.Call where
  /-- A word for every read, at a block or at the latest one. -/
  | readWords (reads : List ReadCall) (block : Option UInt64)
  | isAtlasDeployed (block : UInt64)
  /-- The nodes from `offset` on, in the order of their registration. -/
  | nodeDetails (offset limit block : UInt64)
  /-- The minipools from `offset` on, in the order of their creation. -/
  | minipoolDetails (offset limit block : UInt64)
  /-- The shares of minipools with given balances in wei, in order. -/
  | minipoolShares (balances : List (Address × Word)) (block : UInt64)
  /-- The event by which a rewards pool closed an interval, if it did. -/
  | rewardsEvent (pool : Address) (interval : UInt64)
  | estimateReduceBond (minipool : Address)
  | sendReduction (minipool : Address) (options : TxOptions)
  /-- The fee cap that the execution client suggests at present. -/
  | suggestedFeeCap
  deriving DecidableEq

abbrev Chain.Reply : Chain.Call → Type
  | .readWords _ _ => Except Failure (List Word)
  | .isAtlasDeployed _ => Except Failure Bool
  | .nodeDetails _ _ _ => Except Failure (List NodeDetails)
  | .minipoolDetails _ _ _ => Except Failure (List MinipoolDetails)
  | .minipoolShares _ _ => Except Failure (List MinipoolShares)
  | .rewardsEvent _ _ => Except Failure (Option RewardsEvent)
  | .estimateReduceBond _ => Except Failure GasInfo
  | .sendReduction _ _ => Except Failure Hash
  | .suggestedFeeCap => Except Failure Word

/-- The contracts of the protocol. -/
abbrev Chain : Interface := ⟨Chain.Call, Chain.Reply⟩

namespace Chain

def readWords (reads : List ReadCall) (block : Option UInt64) : Attempt Chain Failure (List Word) :=
  .ofOutcome (Program.call (I := Chain) (.readWords reads block))

def isAtlasDeployed (block : UInt64) : Attempt Chain Failure Bool :=
  .ofOutcome (Program.call (I := Chain) (.isAtlasDeployed block))

def nodeDetails (offset limit block : UInt64) : Attempt Chain Failure (List NodeDetails) :=
  .ofOutcome (Program.call (I := Chain) (.nodeDetails offset limit block))

def minipoolDetails (offset limit block : UInt64) : Attempt Chain Failure (List MinipoolDetails) :=
  .ofOutcome (Program.call (I := Chain) (.minipoolDetails offset limit block))

def minipoolShares (balances : List (Address × Word)) (block : UInt64) :
    Attempt Chain Failure (List MinipoolShares) :=
  .ofOutcome (Program.call (I := Chain) (.minipoolShares balances block))

def rewardsEvent (pool : Address) (interval : UInt64) :
    Attempt Chain Failure (Option RewardsEvent) :=
  .ofOutcome (Program.call (I := Chain) (.rewardsEvent pool interval))

def estimateReduceBond (minipool : Address) : Attempt Chain Failure GasInfo :=
  .ofOutcome (Program.call (I := Chain) (.estimateReduceBond minipool))

def sendReduction (minipool : Address) (options : TxOptions) : Attempt Chain Failure Hash :=
  .ofOutcome (Program.call (I := Chain) (.sendReduction minipool options))

def suggestedFeeCap : Attempt Chain Failure Word :=
  .ofOutcome (Program.call (I := Chain) .suggestedFeeCap)

end Chain
end PoolKeeper
