/-
What the chain records of a minipool: a validator paid for in part by its node
(the bond) and in part by the pool.
-/
import PoolKeeper.State.Node

namespace PoolKeeper

/-- How far a minipool has come. -/
inductive MinipoolStatus where
  | pendingCreation
  | prelaunch
  | staking
  | withdrawable
  | dissolved
  deriving DecidableEq

namespace MinipoolStatus

def all : List MinipoolStatus := [pendingCreation, prelaunch, staking, withdrawable, dissolved]

def name : MinipoolStatus → String
  | pendingCreation => "pendingCreation"
  | prelaunch => "prelaunch"
  | staking => "staking"
  | withdrawable => "withdrawable"
  | dissolved => "dissolved"

def ofName? (name : String) : Option MinipoolStatus := all.find? fun s => s.name == name

theorem ofName?_name (s : MinipoolStatus) : ofName? s.name = some s := by cases s <;> decide

def json (s : MinipoolStatus) : Json := .string s.name

def reader : Json.Reader MinipoolStatus := .named ofName?

end MinipoolStatus

structure MinipoolDetails where
  address : Address
  doesExist : Bool
  nodeAddress : Address
  status : MinipoolStatus
  /-- All zero while the key is not known. -/
  pubkey : Pubkey
  /-- The bond. -/
  nodeDepositBalance : Word
  /-- What the pool has lent. -/
  userDepositBalance : Word
  nodeFee : Word
  /-- The unix time of the last reduction of the bond, zero if there was none. -/
  lastBondReductionTime : UInt64
  lastBondReductionPrevValue : Word
  /-- Zero for reductions from before the previous fee was recorded. -/
  lastBondReductionPrevNodeFee : Word
  nodeShareOfBalance : Word
  userShareOfBalance : Word
  deriving DecidableEq

namespace MinipoolDetails

def hasPubkey (m : MinipoolDetails) : Bool := m.pubkey != .zero

/-- The bond and the fee in effect at a time. Before the last reduction the
bond was the previous one, and so was the fee where it was recorded. -/
def termsAt (m : MinipoolDetails) (time : UInt64) : Word × Word :=
  if m.lastBondReductionTime = 0 ∨ m.lastBondReductionTime ≤ time then
    (m.nodeDepositBalance, m.nodeFee)
  else if m.lastBondReductionPrevNodeFee = 0 then (m.lastBondReductionPrevValue, m.nodeFee)
  else (m.lastBondReductionPrevValue, m.lastBondReductionPrevNodeFee)

def json (m : MinipoolDetails) : Json :=
  .object [
    ("address", m.address.json),
    ("exists", .bool m.doesExist),
    ("nodeAddress", m.nodeAddress.json),
    ("status", m.status.json),
    ("pubkey", m.pubkey.json),
    ("nodeDepositBalance", m.nodeDepositBalance.json),
    ("userDepositBalance", m.userDepositBalance.json),
    ("nodeFee", m.nodeFee.json),
    ("lastBondReductionTime", quotedJson m.lastBondReductionTime),
    ("lastBondReductionPrevValue", m.lastBondReductionPrevValue.json),
    ("lastBondReductionPrevNodeFee", m.lastBondReductionPrevNodeFee.json),
    ("nodeShareOfBalance", m.nodeShareOfBalance.json),
    ("userShareOfBalance", m.userShareOfBalance.json)]

open Json in
def reader : Reader MinipoolDetails :=
  record (MinipoolDetails.mk
    <$> field "address" .fixedBytes
    <*> field "exists" .bool
    <*> field "nodeAddress" .fixedBytes
    <*> field "status" MinipoolStatus.reader
    <*> field "pubkey" .fixedBytes
    <*> field "nodeDepositBalance" .quotedWord
    <*> field "userDepositBalance" .quotedWord
    <*> field "nodeFee" .quotedWord
    <*> fieldOr "lastBondReductionTime" 0 .quotedUInt64
    <*> fieldOr "lastBondReductionPrevValue" 0 .quotedWord
    <*> fieldOr "lastBondReductionPrevNodeFee" 0 .quotedWord
    <*> fieldOr "nodeShareOfBalance" 0 .quotedWord
    <*> fieldOr "userShareOfBalance" 0 .quotedWord)

end MinipoolDetails
end PoolKeeper
