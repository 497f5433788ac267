/-
Rewards files as they are stored and published: their canonical text,
compressed.

Which compressed form a text gets does not matter to anything here, only that
the text can be had back from it: `Compression` is what is relied upon.
-/
import PoolKeeper.Rewards.Json
import PoolKeeper.Zstd.RoundTrip

namespace PoolKeeper

/-- A way to compress bytes such that they can be had back. -/
class Compression where
  compress : Bytes → Bytes
  decompress : Bytes → Except Zstd.Fault Bytes
  decompress_compress (bytes : Bytes) : decompress (compress bytes) = .ok bytes

instance zstdCompression : Compression :=
  ⟨Zstd.compress, Zstd.decompress, Zstd.decompress_compress⟩

/-- Why bytes are not the rewards file they should be. -/
inductive FileFault where
  | malformed (e : Json.ReadError)
  | codec (f : Zstd.Fault)
  | distrusted (d : Distrust)
  deriving DecidableEq

namespace FileFault

def message : FileFault → String
  | .malformed _ => "malformed rewards file"
  | .codec f => "codec error: " ++ f.message
  | .distrusted d => d.message

end FileFault

variable [Compression]

/-- Decompressed bytes. -/
def decompressed (bytes : Bytes) : Except FileFault Bytes :=
  (Compression.decompress bytes).mapError .codec

namespace RewardsFile

/-- Reads a file from its text. -/
def parse (text : Bytes) : Except FileFault RewardsFile :=
  (ofText text).mapError .malformed

/-- The compressed form of a file. -/
def encode (f : RewardsFile) : Bytes := Compression.compress f.text

/-- Reads a file from its compressed form. -/
def decode (bytes : Bytes) : Except FileFault RewardsFile := do
  parse (← decompressed bytes)

/-- The file commits to the expected root. -/
def checkRoot (f : RewardsFile) (expected : Hash) : Except FileFault Unit :=
  (f.trust expected).mapError .distrusted

end RewardsFile
end PoolKeeper
