/-
Effective stake: how much of its RPL a node is rewarded for.

A node's eligible ether is that of its staking minipools whose validators are
active in the snapshot's epoch. The stake counts from a minimum, a fraction of
the ether borrowed, up to a maximum, a fraction of the ether bonded, both at the
price of RPL. It may be scaled by how long the node has been registered.
-/
import PoolKeeper.State.Snapshot

namespace PoolKeeper

/-- The bounds of a node's collateral and what comes of them, in wei. -/
structure NodeCollateral where
  eligibleBorrowedEth : Word
  eligibleBondedEth : Word
  minCollateral : Word
  maxCollateral : Word
  rplStake : Word
  effectiveStake : Word
  deriving DecidableEq

def NodeCollateral.json (c : NodeCollateral) : Json :=
  .object [
    ("eligibleBorrowedEth", c.eligibleBorrowedEth.hexJson),
    ("eligibleBondedEth", c.eligibleBondedEth.hexJson),
    ("minCollateral", c.minCollateral.hexJson),
    ("maxCollateral", c.maxCollateral.hexJson),
    ("rplStake", c.rplStake.hexJson),
    ("effectiveStake", c.effectiveStake.hexJson)]

structure EffectiveStakes where
  nodes : KeyMap 20 NodeCollateral
  total : Word

namespace EffectiveStakes

def weights (e : EffectiveStakes) : KeyMap 20 Word := e.nodes.mapValues fun _ c => c.effectiveStake

def json (e : EffectiveStakes) : Json :=
  .object [
    ("nodes", .object (e.nodes.entries.map fun n => (n.1.text, n.2.json))),
    ("total", e.total.hexJson)]

end EffectiveStakes

/-- Why stakes cannot be computed. -/
inductive StakeFault where
  | zeroRplPrice (block : UInt64)
  | zeroIntervalDuration (block : UInt64)
  deriving DecidableEq

def StakeFault.message : StakeFault → String
  | .zeroRplPrice block => "RPL price is zero at block " ++ Numeral.decimal block.toNat
  | .zeroIntervalDuration block =>
    "reward interval duration is zero at block " ++ Numeral.decimal block.toNat

/-- A sum that wraps. -/
def sumWords (ws : List Word) : Word := ws.foldl (· + ·) 0

namespace Snapshot
variable (s : Snapshot)

/-- The minipool's ether counts: it is staking, and its validator is known and
active in the snapshot's epoch. -/
def isEligible (m : MinipoolDetails) : Bool :=
  m.doesExist && m.status == .staking && (s.validator? m.pubkey).any (·.isActiveAt s.epoch)

/-- The minipools of a node whose ether counts. -/
def eligibleMinipools (node : Address) : List MinipoolDetails :=
  (s.minipoolsOf node).filter s.isEligible

/-- A node's collateral, its stake counted in full. -/
def collateral (node : NodeDetails) : NodeCollateral :=
  let eligible := s.eligibleMinipools node.address
  let borrowed := sumWords (eligible.map MinipoolDetails.userDepositBalance)
  let bonded := sumWords (eligible.map MinipoolDetails.nodeDepositBalance)
  let network := s.parts.network
  let least := Word.saturatingMul borrowed network.minCollateralFraction / network.rplPrice
  let most := Word.saturatingMul bonded network.maxCollateralFraction / network.rplPrice
  { eligibleBorrowedEth := borrowed
    eligibleBondedEth := bonded
    minCollateral := least
    maxCollateral := most
    rplStake := node.rplStake
    effectiveStake :=
      if node.rplStake < least then 0 else if node.rplStake < most then node.rplStake else most }

/-- A stake scaled by the part of an interval that a node took part in. -/
def scaledStake (stake : Word) (seconds duration : UInt64) : Word :=
  if duration ≤ seconds then stake
  else Word.saturatingMul stake (Word.ofUInt64 seconds) / Word.ofUInt64 duration

/-- A node's collateral, its stake scaled if that is wanted. -/
def collateralOf (scale : Bool) (node : NodeDetails) : NodeCollateral :=
  let c := s.collateral node
  let seconds := UInt64Sat.sub s.slotTime node.registrationTime
  let duration := s.parts.network.intervalDuration
  if scale then { c with effectiveStake := scaledStake c.effectiveStake seconds duration } else c

/-- The effective stakes of all nodes. -/
def effectiveStakes (scale : Bool) : Except StakeFault EffectiveStakes :=
  if s.parts.network.rplPrice = 0 then .error (.zeroRplPrice s.parts.elBlock)
  else if scale ∧ s.parts.network.intervalDuration = 0 then
    .error (.zeroIntervalDuration s.parts.elBlock)
  else
    let nodes := s.parts.nodes.map fun n => (n.address, s.collateralOf scale n)
    .ok ⟨.ofList nodes, sumWords (nodes.map (·.2.effectiveStake))⟩

end Snapshot
end PoolKeeper
