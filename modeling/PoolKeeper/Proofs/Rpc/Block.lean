/-
Blocks as they are read from what a client shows.

The numbers of a block are shown in hexadecimal digits and its hashes as bytes, and a
reader has both back (`reader_reads`), so what is shown of a header is read as that
header (`headerIn?_shown`). A client that shows the blocks of a chain (`Client.ofChain`)
therefore shows the headers of the chain and no others.
-/
import PoolKeeper.Proofs.Json.Read
import PoolKeeper.Proofs.Rpc.Endpoint

namespace PoolKeeper

namespace Json.Reader

/-- A number of so many bits is read from its hexadecimal digits. -/
theorem quantity_reads {width : Nat} {w : Word} (h : w.toNat < 2 ^ width) :
    (quantity : Reader (BitVec width)).Reads (.string (some w.hexText)) (w.setWidth width) := by
  intro path
  simp only [quantity, word_reads w path]
  exact if_pos h

theorem quantity_ofUInt64_reads (n : UInt64) :
    (quantity : Reader (BitVec 64)).Reads (.string (some (Word.ofUInt64 n).hexText))
      n.toBitVec := by
  have hlt : (Word.ofUInt64 n).toNat < 2 ^ 64 := by
    rw [Word.toNat_ofUInt64]
    exact n.toNat_lt
  have hbits : (Word.ofUInt64 n).setWidth 64 = n.toBitVec := by
    apply BitVec.eq_of_toNat_eq
    rw [BitVec.toNat_setWidth, Word.toNat_ofUInt64, Nat.mod_eq_of_lt n.toNat_lt]
    rfl
  rw [← hbits]
  exact quantity_reads hlt

/-- Bytes are read from their hexadecimal digits. -/
theorem hexBytes_reads (bs : Bytes) : hexBytes.Reads (.string (some ("0x" ++ bs.toHex))) bs := by
  have hchars : ("0x" ++ bs.toHex).toList = '0' :: 'x' :: Bytes.toHexChars bs := by
    simp [Bytes.toHex]
  refine parsed_reads ?_
  simp only [hchars, Bytes.ofHexChars?_toHexChars]

end Json.Reader

namespace Rpc

open Json Json.Reader Json.FieldReader

/-- A number, as a client shows it. -/
def shownNumber (w : Word) : Tree := .string (some w.hexText)

/-- Bytes, as a client shows them. -/
def shownBytes (bs : Bytes) : Tree := .string (some ("0x" ++ Bytes.toHex bs))

namespace Block

/-- What a block holds that is of no use here. -/
structure Unused where
  parentHash : Hash
  sha3Uncles : Hash
  stateRoot : Hash
  transactionsRoot : Hash
  receiptsRoot : Hash
  miner : Address
  logsBloom : FixedBytes 256
  difficulty : Word
  gasLimit : UInt64
  gasUsed : UInt64
  extraData : Bytes
  deriving Inhabited

/-- The members of a block whose base fee is not given. -/
def members (h : BlockHeader) (u : Unused) : List (String × Tree) :=
  [("number", shownNumber (.ofUInt64 h.number)),
    ("timestamp", shownNumber (.ofUInt64 h.timestamp)), ("hash", shownBytes h.hash.toBytes),
    ("baseFeePerGas", .null), ("parentHash", shownBytes u.parentHash.toBytes),
    ("sha3Uncles", shownBytes u.sha3Uncles.toBytes),
    ("stateRoot", shownBytes u.stateRoot.toBytes),
    ("transactionsRoot", shownBytes u.transactionsRoot.toBytes),
    ("receiptsRoot", shownBytes u.receiptsRoot.toBytes), ("miner", shownBytes u.miner.toBytes),
    ("logsBloom", shownBytes u.logsBloom.toBytes), ("difficulty", shownNumber u.difficulty),
    ("gasLimit", shownNumber (.ofUInt64 u.gasLimit)),
    ("gasUsed", shownNumber (.ofUInt64 u.gasUsed)), ("extraData", shownBytes u.extraData)]

/-- A block, as a client shows it. -/
def shown (h : BlockHeader) (u : Unused) : Tree :=
  .object ((members h u).map fun m => (some m.1, m.2)) true

/-- The fields that a block is made of. -/
def ofFields (number timestamp : BitVec 64) (hash : Hash) (baseFee : Option Fee) (_ : Unit) :
    Block :=
  ⟨⟨.ofBitVec number, .ofBitVec timestamp, hash⟩, baseFee⟩

theorem also_reads {α : Type} {value? : String → Option Tree} {r : FieldReader α}
    {rs : FieldReader Unit} {a : α} (hrs : rs.Reads value? ()) (hr : r.Reads value? a) :
    (otherFields.also r rs).Reads value? () :=
  seq_reads (map_reads (f := fun _ _ => ()) hrs) hr

theorem otherFields_reads (h : BlockHeader) (u : Unused) :
    otherFields.Reads ((members h u).lookup ·) () := by
  have hgas : ∀ n : UInt64, (quantity : Reader (BitVec 128)).Reads
      (shownNumber (.ofUInt64 n)) ((Word.ofUInt64 n).setWidth 128) := by
    intro n
    apply quantity_reads
    rw [Word.toNat_ofUInt64]
    exact Nat.lt_trans n.toNat_lt (by decide)
  have hash : ∀ name (x : Hash), (members h u).lookup name = some (shownBytes x.toBytes) →
      (otherFields.hash name).Reads ((members h u).lookup ·) x :=
    fun _ x hvalue => field_reads hvalue (fixedBytes_reads x)
  have hhashes := seq_reads (seq_reads (seq_reads (seq_reads (map_reads (f := fun _ _ _ _ _ => ())
    (hash "parentHash" u.parentHash rfl))
    (hash "sha3Uncles" u.sha3Uncles rfl))
    (hash "stateRoot" u.stateRoot rfl))
    (hash "transactionsRoot" u.transactionsRoot rfl))
    (hash "receiptsRoot" u.receiptsRoot rfl)
  exact also_reads (also_reads (also_reads (also_reads (also_reads (also_reads hhashes
    (field_reads rfl (fixedBytes_reads u.miner)))
    (field_reads rfl (fixedBytes_reads u.logsBloom)))
    (field_reads rfl (word_reads u.difficulty)))
    (field_reads rfl (hgas u.gasLimit)))
    (field_reads rfl (hgas u.gasUsed)))
    (field_reads rfl (hexBytes_reads u.extraData))

/-- **A block is read from what is shown of it.** -/
theorem reader_reads (h : BlockHeader) (u : Unused) : Block.reader.Reads (shown h u) ⟨h, none⟩ := by
  have hbase : (optional (quantity : Reader Fee)).Reads .null none := fun _ => rfl
  have hfields : (ofFields <$> field "number" .quantity <*> field "timestamp" .quantity <*>
      field "hash" .fixedBytes <*> fieldOr "baseFeePerGas" none (.optional .quantity) <*>
      otherFields).Reads ((members h u).lookup ·) ⟨h, none⟩ :=
    seq_reads (seq_reads (seq_reads (seq_reads (map_reads (f := ofFields)
      (field_reads rfl (quantity_ofUInt64_reads h.number)))
      (field_reads rfl (quantity_ofUInt64_reads h.timestamp)))
      (field_reads rfl (fixedBytes_reads h.hash)))
      (fieldOr_reads rfl hbase))
      (otherFields_reads h u)
  have hrecord := record_reads_of_keys rfl (by decide) hfields
  intro path
  rw [reader, objectOnly]
  · exact hrecord path
  · exact nofun

end Block

/-- **What is shown of a block is read as its header.** -/
theorem headerIn?_shown (h : BlockHeader) (u : Block.Unused) :
    headerIn? (.ok (.result (Block.shown h u))) = some h := by
  have hread : blockIn (.ok (.result (Block.shown h u))) = .ok (some ⟨h, none⟩) := by
    have hoptional : Reader.optional Block.reader [] (Block.shown h u) = .ok (some ⟨h, none⟩) := by
      rw [Reader.optional, Block.reader_reads]
      · rfl
      · exact nofun
    show ((Reader.optional Block.reader [] (Block.shown h u)).mapError
      fun _ => Fault.deserialization) = _
    rw [hoptional]
    rfl
  rw [headerIn?, hread]

/-! ## A client of a chain -/

/-- Blocks are numbered by their places in the chain. -/
def Numbered (chain : List BlockHeader) : Prop :=
  ∀ (i : Nat) (h : BlockHeader), chain[i]? = some h → h.number.toNat = i

/-- The header that the parameters of a request name. -/
def headerNamed? (chain : List BlockHeader) : List Json → Option BlockHeader
  | .string tag :: _ =>
    if tag = "latest" then chain.getLast?
    else chain.find? fun h => (Word.ofUInt64 h.number).hexText = tag
  | _ => none

/-- A client that shows the blocks of a chain, the last of them as the latest, and `null` for every
other. -/
def Client.ofChain (chain : List BlockHeader) (u : Block.Unused) : Client := fun _ call =>
  match call with
  | .sleep _ => ()
  | .send r => .ok (.result ((headerNamed? chain r.params).elim .null (Block.shown · u)))

variable {chain : List BlockHeader} {u : Block.Unused} {said : List (Exchange Endpoint)}

theorem headerIn?_ofChain (r : Request) :
    headerIn? (Client.ofChain chain u said (.send r)) = headerNamed? chain r.params := by
  rw [Client.ofChain]
  cases headerNamed? chain r.params with
  | none => rfl
  | some h => exact headerIn?_shown h u

theorem mem_of_headerNamed? {params : List Json} {h : BlockHeader}
    (hnamed : headerNamed? chain params = some h) : h ∈ chain := by
  unfold headerNamed? at hnamed
  split at hnamed
  · split at hnamed
    · exact List.mem_of_getLast? hnamed
    · exact List.mem_of_find?_eq_some hnamed
  · cases hnamed

/-- A block is found by its number. -/
theorem headerNamed?_of_getElem? {n : UInt64} {h : BlockHeader} (hnumbered : Numbered chain)
    (hplace : chain[n.toNat]? = some h) :
    headerNamed? chain (blockRequest (.number n)).params = some h := by
  have hinj : ∀ {v w : Word}, v.hexText = w.hexText → v = w := by
    intro v w htext
    have hv := word_reads v []
    rw [htext, word_reads w []] at hv
    exact (Except.ok.inj hv).symm
  have hlatest : (Word.ofUInt64 n).hexText ≠ "latest" := by
    intro htext
    have hfirst := congrArg (fun s => s.toList.head?) htext
    simp [Word.hexText] at hfirst
  have hn : h.number = n := UInt64.toNat_inj.1 (hnumbered n.toNat h hplace)
  have hfound : (chain.find? fun a =>
      (Word.ofUInt64 a.number).hexText = (Word.ofUInt64 n).hexText).isSome := by
    rw [List.find?_isSome]
    exact ⟨h, List.mem_of_getElem? hplace, by simp [hn]⟩
  obtain ⟨h', hh'⟩ := Option.isSome_iff_exists.1 hfound
  have htext : (Word.ofUInt64 h'.number).hexText = (Word.ofUInt64 n).hexText := by
    simpa using List.find?_some hh'
  obtain ⟨i, hi⟩ := List.mem_iff_getElem?.1 (List.mem_of_find?_eq_some hh')
  have hplace' : chain[n.toNat]? = some h' := by
    rw [← Word.ofUInt64_inj (hinj htext), hnumbered i h' hi, hi]
  rw [blockRequest, BlockTag.json, headerNamed?, if_neg hlatest, hh', ← hplace', hplace]

end Rpc
end PoolKeeper
