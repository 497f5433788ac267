/-
A rewards file comes back from its canonical text, and from the compressed form
of it, as the file it was (`decode_encode`).

The text is scanned as the value it is the text of; what is left is that every
record is read from its own members. Nothing is asked of a file: the network may
be any text, and an amount or a root any word.
-/
import PoolKeeper.Proofs.Rewards.Members
import PoolKeeper.Rewards.Compressed

namespace PoolKeeper

open Json Json.Reader Json.FieldReader

namespace RewardsFile

theorem reader_reads (f : RewardsFile) : reader.Reads f.json.tree f := by
  rw [← tree_value f.json f.fits_json]
  exact reads_of_rearranged (.same f.json)

/-! ## The file comes back -/

theorem ofText_text (f : RewardsFile) : ofText f.text = .ok f := by
  rw [ofText, Reader.read, text, scan_write f.fits_json, f.reader_reads]

theorem parse_text (f : RewardsFile) : parse f.text = .ok f := by
  rw [parse, ofText_text]
  rfl

theorem decompressed_encode [Compression] (f : RewardsFile) :
    decompressed f.encode = .ok f.text := by
  rw [decompressed, encode, Compression.decompress_compress]
  rfl

theorem decode_of_encode [Compression] (f : RewardsFile) : decode f.encode = .ok f := by
  rw [decode, decompressed_encode]
  exact f.parse_text

/-- **A file comes back from what is made of it**: its text is read as the file, and its compressed
form holds that text, so that the file is had back from it. -/
theorem decode_encode [Compression] (f : RewardsFile) :
    parse f.text = .ok f ∧ decompressed f.encode = .ok f.text ∧ decode f.encode = .ok f :=
  ⟨f.parse_text, f.decompressed_encode, f.decode_of_encode⟩

end RewardsFile
end PoolKeeper
