/-
A rewards file as it is published: compressed, named, and identified by its
name and its bytes.
-/
import PoolKeeper.Content.Dag
import PoolKeeper.Rewards.Compressed
import PoolKeeper.Rewards.Mirror

namespace PoolKeeper

structure Package where
  compressed : Bytes
  /-- The name of the file in the directory that `cid` identifies. -/
  fileName : String
  cid : Cid

/-- A file as it is published for a network. -/
def RewardsFile.package [Compression] (f : RewardsFile) (network : Network) : Package :=
  let compressed := f.encode
  let fileName := publishedName network f.header.index ++ compressedExtension
  ⟨compressed, fileName, Cid.ofFile compressed fileName⟩

end PoolKeeper
