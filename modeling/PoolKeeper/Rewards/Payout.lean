/-
Paying out an interval: amounts are added up node by node, nodes without any
amount are left out, and the rest makes a file with its root and its proofs.
-/
import PoolKeeper.Rewards.File

namespace PoolKeeper

/-- The version of the files that are made here. -/
def rewardsFileVersion : UInt64 := 1

/-- What a node is owed for one reason. -/
structure Credit where
  node : Address
  collateralRpl : Word
  oracleRpl : Word
  smoothingPoolEth : Word

/-- The amounts owed so far, without proofs. -/
abbrev Payouts := KeyMap 20 NodeRewards

namespace Payouts

/-- Adds a credit to what its node is owed. -/
def add (p : Payouts) (c : Credit) : Payouts :=
  let r := (p.get? c.node).getD .none
  p.insert c.node
    { r with
      collateralRpl := r.collateralRpl + c.collateralRpl
      oracleRpl := r.oracleRpl + c.oracleRpl
      smoothingPoolEth := r.smoothingPoolEth + c.smoothingPoolEth }

def addAll (p : Payouts) (cs : List Credit) : Payouts := cs.foldl add p

/-- The sums over all nodes. -/
def totals (p : Payouts) : TotalRewards :=
  p.entries.foldl (fun t e =>
    ⟨t.collateralRpl + e.2.collateralRpl, t.oracleRpl + e.2.oracleRpl,
      t.smoothingPoolEth + e.2.smoothingPoolEth⟩) ⟨0, 0, 0⟩

/-- The file that pays what is owed. -/
def toFile (p : Payouts) (header : IntervalHeader) : RewardsFile :=
  let owed := p.filter fun _ r => !r.isEmpty
  let tree := RewardsTree.ofLeaves keccak256 (owed.entries.map fun e => e.2.leaf e.1)
  { version := rewardsFileVersion
    header
    merkleRoot := tree.root
    totals := Payouts.totals owed
    nodes := owed.mapValues fun node r =>
      { r with merkleProof := (tree.proof? (r.leaf node)).getD [] } }

end Payouts

/-- The file that pays the given credits. -/
def RewardsFile.ofCredits (header : IntervalHeader) (cs : List Credit) : RewardsFile :=
  (Payouts.addAll .empty cs).toFile header

/-- The sum of all weights, as far as a word can hold it. -/
def totalWeight (weights : KeyMap 20 Word) : Word :=
  weights.entries.foldl (fun t e => Word.saturatingAdd t e.2) 0

/-- Splits a pool in proportion to weights. Every share is rounded down, and
all are zero when there is no weight. -/
def apportion (pool : Word) (weights : KeyMap 20 Word) : KeyMap 20 Word :=
  let total := totalWeight weights
  weights.mapValues fun _ weight =>
    if total = 0 then 0 else Word.saturatingMul pool weight / total

end PoolKeeper
