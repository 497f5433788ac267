/-
The contracts held in memory, answering every call at once.

Some calls can be made to fail, by a key that names the call and what it is
about. Lists of words or shares can be cut short.
-/
import PoolKeeper.Chain.Basic
import PoolKeeper.Hash.Keccak
import PoolKeeper.KeyMap

namespace PoolKeeper.InMemory

structure Contracts where
  isAtlasDeployed : Bool
  settings : List (Setting × Word)
  nodes : List NodeDetails
  minipools : List MinipoolDetails
  storage : KeyMap 32 Word
  addresses : List (String × Word)
  /-- Counts told in place of the lengths of the lists. -/
  nodeCount : Option Word
  minipoolCount : Option Word
  reduceBondTimes : KeyMap 20 Word
  reduceBondCancelled : KeyMap 20 Word
  /-- Events by their pools and intervals. -/
  events : List ((Address × UInt64) × RewardsEvent)
  gas : GasInfo
  suggestedFeeCap : Word
  maxWords : Option Nat
  maxShares : Option Nat
  failures : List (String × String)

namespace Contracts

/-- Contracts that record nothing yet. -/
def initial : Contracts where
  isAtlasDeployed := true
  settings := []
  nodes := []
  minipools := []
  storage := .empty
  addresses := []
  nodeCount := none
  minipoolCount := none
  reduceBondTimes := .empty
  reduceBondCancelled := .empty
  events := []
  gas := ⟨100000, 150000⟩
  suggestedFeeCap := 0
  maxWords := none
  maxShares := none
  failures := []

variable (c : Contracts)

/-- The call with this key fails if it is meant to. -/
def guarded {α : Type} (key : String) (result : Except Failure α) : Except Failure α :=
  match c.failures.lookup key with
  | some message => .error (.text message)
  | none => result

/-- The key of a read of a batch. -/
def readKey (r : ReadCall) : String := r.kind ++ (r.arg?.map (":" ++ ·)).getD ""

/-- The word of one read. -/
def read (r : ReadCall) : Except Failure Word :=
  c.guarded (readKey r) <|
    match r with
    | .setting s => .ok ((c.settings.lookup s).getD 0)
    | .storageUint key => .ok ((c.storage.get? key).getD 0)
    | .contractAddress name =>
      match c.addresses.lookup name with
      | some w => .ok w
      | none => .error (.text "unknown contract")
    | .nodeCount => .ok (c.nodeCount.getD (BitVec.ofNat 256 c.nodes.length))
    | .minipoolCount => .ok (c.minipoolCount.getD (BitVec.ofNat 256 c.minipools.length))
    | .reduceBondTime a => .ok ((c.reduceBondTimes.get? a).getD 0)
    | .reduceBondCancelled a => .ok ((c.reduceBondCancelled.get? a).getD 0)

/-- At most so many items. -/
def cut {α : Type} (most : Option Nat) (xs : List α) : List α :=
  match most with
  | some n => xs.take n
  | none => xs

/-- The division of a balance in proportion to the deposits. -/
def shares (balance : Address × Word) : Except Failure MinipoolShares :=
  match c.minipools.find? (·.address = balance.1) with
  | none => .error (.text "unknown minipool")
  | some m =>
    let deposits := m.nodeDepositBalance + m.userDepositBalance
    if deposits = 0 then .ok ⟨0, 0⟩
    else
      let node := balance.2 * m.nodeDepositBalance / deposits
      .ok ⟨node, balance.2 - node⟩

/-- One page of a list. -/
def page {α : Type} (xs : List α) (offset limit : UInt64) : List α :=
  (xs.drop offset.toNat).take limit.toNat

/-- The reply to a call. -/
def answer : (call : Chain.Call) → Chain.Reply call
  | .readWords reads _ => (cut c.maxWords) <$> reads.mapM c.read
  | .isAtlasDeployed _ => c.guarded "isAtlasDeployed" (.ok c.isAtlasDeployed)
  | .nodeDetails offset limit _ =>
    c.guarded ("nodeDetails:" ++ Numeral.decimal offset.toNat) (.ok (page c.nodes offset limit))
  | .minipoolDetails offset limit _ =>
    c.guarded ("minipoolDetails:" ++ Numeral.decimal offset.toNat)
      (.ok (page c.minipools offset limit))
  | .minipoolShares balances _ =>
    c.guarded ("minipoolShares:" ++ (balances.head?.map (·.1.text)).getD "")
      ((cut c.maxShares) <$> balances.mapM c.shares)
  | .rewardsEvent pool interval =>
    c.guarded ("rewardsEvent:" ++ pool.text) (.ok (c.events.lookup (pool, interval)))
  | .estimateReduceBond a => c.guarded ("estimate:" ++ a.text) (.ok c.gas)
  | .sendReduction a _ => c.guarded ("submit:" ++ a.text) (.ok (keccak256 a.toBytes))
  | .suggestedFeeCap => c.guarded "suggestedMaxFee" (.ok c.suggestedFeeCap)

end Contracts
end PoolKeeper.InMemory
