/-
Where rewards files are kept and downloaded from, and how stakes are weighed.
-/
import PoolKeeper.Disk
import PoolKeeper.FixedBytes
import PoolKeeper.Rewards.Mirror

namespace PoolKeeper

structure RewardsSettings where
  /-- Nothing for the usual directory. -/
  dataDir : Option String
  /-- Rewards pools that have been replaced. -/
  previousPools : List Address
  primaryMirror : String
  secondaryMirror : String
  fallbackMirror : String
  /-- Stakes count by the part of the interval that a node took part in. -/
  scaleByParticipation : Bool

namespace RewardsSettings

def defaultPrimaryMirror : String := "https://\x7bcid\x7d.ipfs.dweb.link/\x7bfilename\x7d"

def defaultSecondaryMirror : String := "https://ipfs.io/ipfs/\x7bcid\x7d/\x7bfilename\x7d"

def defaultFallbackMirror : String :=
  "https://github.com/rocket-pool/rewards-trees/raw/main/\x7bnetwork\x7d/\x7bfilename\x7d"

/-- The mirrors in the order in which they are tried. The last one serves files
uncompressed. -/
def mirrors (s : RewardsSettings) : List Mirror :=
  [⟨s.primaryMirror, true⟩, ⟨s.secondaryMirror, true⟩, ⟨s.fallbackMirror, false⟩]

/-- What the usual directory ends with. -/
def usualDirectory : String := "rp-node/rewards-trees"

/-- The directory of rewards files: the one that is set, or the usual one in
the place for data of the user. -/
def directory (s : RewardsSettings) (userData : String) : String :=
  s.dataDir.getD (Disk.join userData usualDirectory)

end RewardsSettings
end PoolKeeper
