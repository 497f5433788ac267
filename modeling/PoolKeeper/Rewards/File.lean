/-
Rewards files: what every node has earned in one interval, with the proofs
that let the nodes claim it, and the checks that a file must pass before it is
trusted.
-/
import PoolKeeper.Address
import PoolKeeper.KeyMap
import PoolKeeper.Rewards.Tree

namespace PoolKeeper

/-- What one node has earned, and the proof of it. -/
structure NodeRewards where
  rewardNetwork : UInt64
  collateralRpl : Word
  oracleRpl : Word
  smoothingPoolEth : Word
  merkleProof : List Hash
  deriving DecidableEq

namespace NodeRewards

def none : NodeRewards := ⟨0, 0, 0, 0, []⟩

/-- All RPL of the node, which is what its leaf commits to. -/
def totalRpl (r : NodeRewards) : Word := r.collateralRpl + r.oracleRpl

/-- The entry carries no amount. -/
def isEmpty (r : NodeRewards) : Bool :=
  r.collateralRpl == 0 && r.oracleRpl == 0 && r.smoothingPoolEth == 0

/-- The bytes that a node's leaf is the hash of. -/
def leafBytes (node : Address) (r : NodeRewards) : Bytes :=
  node.toBytes ++ (Bytes.bigEndian 32 r.rewardNetwork.toNat ++
    (Bytes.bigEndian 32 r.totalRpl.toNat ++ Bytes.bigEndian 32 r.smoothingPoolEth.toNat))

/-- The leaf of a node's entry. -/
def leaf (node : Address) (r : NodeRewards) : Hash := keccak256 (leafBytes node r)

end NodeRewards

/-- Sums over all nodes. -/
structure TotalRewards where
  collateralRpl : Word
  oracleRpl : Word
  smoothingPoolEth : Word
  deriving DecidableEq

/-- What is known of an interval before anything is paid for it. -/
structure IntervalHeader where
  index : UInt64
  network : String
  startTime : UInt64
  endTime : UInt64
  consensusEndBlock : UInt64
  executionEndBlock : UInt64
  intervalsPassed : UInt64
  deriving DecidableEq

/-- The rewards of one interval. -/
structure RewardsFile where
  version : UInt64
  header : IntervalHeader
  merkleRoot : Hash
  totals : TotalRewards
  nodes : KeyMap 20 NodeRewards
  deriving DecidableEq

/-- Why a rewards file is not to be trusted. -/
inductive Distrust where
  | rootMismatch (expected computed : Hash)
  | missingNode (node : Address)
  deriving DecidableEq

def Distrust.message : Distrust → String
  | .rootMismatch expected computed =>
    "merkle root mismatch: expected " ++ expected.text ++ ", computed " ++ computed.text
  | .missingNode node => "node " ++ node.checksum ++ " has no entry in the rewards file"

namespace RewardsFile

/-- The leaves of all entries. -/
def leaves (f : RewardsFile) : List Hash := f.nodes.entries.map fun e => e.2.leaf e.1

/-- The root over the entries, whatever the file says its root is. -/
def treeRoot (f : RewardsFile) : Hash := (RewardsTree.ofLeaves keccak256 f.leaves).root

/-- The entries, and the root stored in the file, agree with the expected root. -/
def trust (f : RewardsFile) (expected : Hash) : Except Distrust Unit :=
  if f.treeRoot ≠ expected then .error (.rootMismatch expected f.treeRoot)
  else if f.merkleRoot ≠ expected then .error (.rootMismatch expected f.merkleRoot)
  else .ok ()

theorem trust_eq_ok_iff {f : RewardsFile} {expected : Hash} :
    f.trust expected = .ok () ↔ f.treeRoot = expected ∧ f.merkleRoot = expected := by
  unfold trust
  split
  · simp_all
  · split <;> simp_all

/-- The proof stored for a node leads to the file's root. -/
def verifyNode (f : RewardsFile) (node : Address) : Except Distrust Bool :=
  match f.nodes.get? node with
  | none => .error (.missingNode node)
  | some r => .ok (RewardsTree.verify keccak256 (r.leaf node) r.merkleProof f.merkleRoot)

end RewardsFile
end PoolKeeper
