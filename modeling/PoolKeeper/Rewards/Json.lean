/-
The JSON form of rewards files. Amounts are decimal digits between quotes;
members that are not known are skipped when a file is read.
-/
import PoolKeeper.Json.Record
import PoolKeeper.Json.Value
import PoolKeeper.Rewards.File

namespace PoolKeeper

/-- A word as decimal digits between quotes. -/
def Word.json (w : Word) : Json := .string w.decimal

def FixedBytes.json {n : Nat} (x : FixedBytes n) : Json := .string x.text

namespace NodeRewards

def json (r : NodeRewards) : Json :=
  .object [
    ("rewardNetwork", .ofUInt64 r.rewardNetwork),
    ("collateralRpl", r.collateralRpl.json),
    ("oracleRpl", r.oracleRpl.json),
    ("smoothingPoolEth", r.smoothingPoolEth.json),
    ("merkleProof", .array (r.merkleProof.map FixedBytes.json))]

open Json in
def reader : Reader NodeRewards :=
  record (NodeRewards.mk
    <$> fieldOr "rewardNetwork" 0 .uint64
    <*> field "collateralRpl" .quotedDecimal
    <*> field "oracleRpl" .quotedDecimal
    <*> field "smoothingPoolEth" .quotedDecimal
    <*> fieldOr "merkleProof" [] (.list .fixedBytes))

end NodeRewards

namespace TotalRewards

def json (t : TotalRewards) : Json :=
  .object [
    ("totalCollateralRpl", t.collateralRpl.json),
    ("totalOracleRpl", t.oracleRpl.json),
    ("totalSmoothingPoolEth", t.smoothingPoolEth.json)]

open Json in
def reader : Reader TotalRewards :=
  record (TotalRewards.mk
    <$> field "totalCollateralRpl" .quotedDecimal
    <*> field "totalOracleRpl" .quotedDecimal
    <*> field "totalSmoothingPoolEth" .quotedDecimal)

end TotalRewards

namespace RewardsFile

def json (f : RewardsFile) : Json :=
  .object [
    ("rewardsFileVersion", .ofUInt64 f.version),
    ("index", .ofUInt64 f.header.index),
    ("network", .string f.header.network),
    ("startTime", .ofUInt64 f.header.startTime),
    ("endTime", .ofUInt64 f.header.endTime),
    ("consensusEndBlock", .ofUInt64 f.header.consensusEndBlock),
    ("executionEndBlock", .ofUInt64 f.header.executionEndBlock),
    ("intervalsPassed", .ofUInt64 f.header.intervalsPassed),
    ("merkleRoot", f.merkleRoot.json),
    ("totalRewards", f.totals.json),
    ("nodeRewards", .object (f.nodes.entries.map fun e => (e.1.text, e.2.json)))]

/-- The canonical text of a file. -/
def text (f : RewardsFile) : Bytes := f.json.write

open Json in
def reader : Reader RewardsFile :=
  record ((fun version index network start stop slot block passed =>
      RewardsFile.mk version ⟨index, network, start, stop, slot, block, passed⟩)
    <$> field "rewardsFileVersion" .uint64
    <*> field "index" .uint64
    <*> field "network" .string
    <*> field "startTime" .uint64
    <*> field "endTime" .uint64
    <*> field "consensusEndBlock" .uint64
    <*> field "executionEndBlock" .uint64
    <*> field "intervalsPassed" .uint64
    <*> field "merkleRoot" .fixedBytes
    <*> field "totalRewards" TotalRewards.reader
    <*> field "nodeRewards" (nodes NodeRewards.reader))
where
  /-- Entries under their addresses; of two for one address the later counts. -/
  nodes (r : Reader NodeRewards) : Reader (KeyMap 20 NodeRewards) := fun path t =>
    (Reader.mapOf FixedBytes.ofText? r path t).map KeyMap.ofList

/-- Reads a file from its text. -/
def ofText (text : Bytes) : Except Json.ReadError RewardsFile := reader.read text

end RewardsFile
end PoolKeeper
