/-
Records come back from every text that spells them.

A text leaves three things open: whether a number stands between quotes, whether
a word is in decimal digits or, behind `0x`, in hexadecimal ones, and the order
of the members. A `Spelling` settles the first two for each field. The reader of
a number or a word takes each of its spellings (`number_reads`, `amount_reads`),
and a record looks its fields up by name, so the order does not show
(`record_read_perm`).
-/
import PoolKeeper.Chain.Basic
import PoolKeeper.Proofs.Json.Quoted
import PoolKeeper.Proofs.Rewards.RoundTrip

namespace PoolKeeper

namespace Json

/-! ## The order of members -/

/-- A record is read from the text of its members in any order. -/
theorem record_read_perm {α : Type} {r : FieldReader α} {ms ms' : List (String × Json)} {a : α}
    (hperm : ms'.Perm ms) (hkeys : ms.map Prod.fst = r.names) (hnodup : r.names.Nodup)
    (hfits : MembersFit ms) (h : r.Reads ((ms.map fun m => (m.1, m.2.tree)).lookup ·) a) :
    (record r).read (Json.object ms').write = .ok a := by
  have hfits' : (Json.object ms').Fits :=
    membersFit_iff.2 fun m hm => membersFit_iff.1 hfits m (hperm.subset hm)
  have hnodup' : (ms'.map Prod.fst).Nodup := (hperm.map _).nodup_iff.2 (hkeys ▸ hnodup)
  have hnames : ((ms.map fun m => (m.1, m.2.tree)).map Prod.fst).Nodup := by
    rw [List.map_map]
    exact hkeys ▸ hnodup
  rw [Reader.read, scan_write hfits']
  -- whatever is looked for is a member, and found in either order
  refine record_reads_of_mem hnodup' (fun value? hvalue fs hfs => h fs fun name hname => ?_) []
  obtain ⟨m, hm, rfl⟩ := List.mem_map.1 (hkeys ▸ hname)
  rw [hfs m.1 hname, hvalue m (hperm.symm.subset hm)]
  exact (lookup_of_mem hnames (List.mem_map_of_mem hm)).symm

/-! ## Spellings -/

/-- How the numbers and the words of a record are written. -/
structure Spelling where
  /-- The fields whose numbers are written without quotes. -/
  plain : String → Bool
  /-- What is written for a word in a field. -/
  word : String → Word → String
  spelledBy_word : ∀ (name : String) (w : Word), w.SpelledBy (word name w)

namespace Spelling

/-- What is written when a choice is to be made: quotes, and decimal digits. -/
def canonical : Spelling where
  plain := fun _ => false
  word := fun _ w => w.decimal
  spelledBy_word := fun _ _ => .decimal

variable (sp : Spelling)

def number (name : String) (n : UInt64) : String × Json :=
  (name, if sp.plain name then .ofUInt64 n else quotedJson n)

def amount (name : String) (w : Word) : String × Json := (name, .string (sp.word name w))

theorem fits_number (name : String) (n : UInt64) : (sp.number name n).2.Fits := by
  rw [number]
  split
  · exact fits_ofUInt64 n
  · trivial

theorem number_reads (name : String) (n : UInt64) :
    Reader.quotedUInt64.Reads (sp.number name n).2.tree n := by
  rw [number]
  split
  · exact (Reader.quotedUInt64_reads n).1
  · exact (Reader.quotedUInt64_reads n).2

theorem amount_reads (name : String) (w : Word) :
    Reader.quotedWord.Reads (sp.amount name w).2.tree w :=
  Reader.quotedWord_reads (sp.spelledBy_word name w)

end Spelling

/-- A value is read from the text of its JSON, and from every other text that spells its members,
in any order. -/
def ComesBack {α : Type} (reader : Reader α) (json : α → Json)
    (members : α → Spelling → List (String × Json)) : Prop :=
  ∀ a, json a = .object (members a .canonical) ∧ reader.read (json a).write = .ok a ∧
    ∀ sp ms, ms.Perm (members a sp) → reader.read (Json.object ms).write = .ok a

theorem ComesBack.of_reads {α : Type} {r : FieldReader α} {json : α → Json}
    {members : α → Spelling → List (String × Json)} (hnodup : r.names.Nodup)
    (hjson : ∀ a, json a = .object (members a .canonical))
    (hkeys : ∀ a sp, (members a sp).map Prod.fst = r.names)
    (hfits : ∀ a sp, MembersFit (members a sp))
    (h : ∀ a sp, r.Reads (((members a sp).map fun m => (m.1, m.2.tree)).lookup ·) a) :
    ComesBack (record r) json members := by
  have hread : ∀ a sp ms, ms.Perm (members a sp) →
      (record r).read (Json.object ms).write = .ok a :=
    fun a sp ms hperm => record_read_perm hperm (hkeys a sp) hnodup (hfits a sp) (h a sp)
  refine fun a => ⟨hjson a, ?_, hread a⟩
  rw [hjson]
  exact hread a .canonical _ (.refl _)

end Json

/-! ## The records -/

open Json Json.Reader Json.FieldReader

namespace NodeDetails

/-- The members of a node's JSON in a spelling. -/
def members (n : NodeDetails) (sp : Spelling) : List (String × Json) := [
    ("address", n.address.json),
    ("exists", .bool n.doesExist),
    sp.number "registrationTime" n.registrationTime,
    sp.amount "rplStake" n.rplStake,
    ("smoothingPoolRegistered", .bool n.smoothingPoolRegistered),
    sp.number "minipoolCount" n.minipoolCount]

theorem comesBack : ComesBack reader json members := by
  refine .of_reads (by decide) (fun _ => rfl) (fun _ _ => rfl) (fun n sp => ?_) fun n sp => ?_
  · exact ⟨trivial, trivial, sp.fits_number _ _, trivial, trivial, sp.fits_number _ _, trivial⟩
  · exact seq_reads (seq_reads (seq_reads (seq_reads (seq_reads (map_reads
      (field_reads rfl (fixedBytes_reads n.address)))
      (field_reads rfl (bool_reads n.doesExist)))
      (field_reads rfl (sp.number_reads _ n.registrationTime)))
      (field_reads rfl (sp.amount_reads _ n.rplStake)))
      (fieldOr_reads rfl (bool_reads n.smoothingPoolRegistered)))
      (fieldOr_reads rfl (sp.number_reads _ n.minipoolCount))

end NodeDetails

namespace MinipoolDetails

/-- The members of a minipool's JSON in a spelling. -/
def members (m : MinipoolDetails) (sp : Spelling) : List (String × Json) := [
    ("address", m.address.json),
    ("exists", .bool m.doesExist),
    ("nodeAddress", m.nodeAddress.json),
    ("status", m.status.json),
    ("pubkey", m.pubkey.json),
    sp.amount "nodeDepositBalance" m.nodeDepositBalance,
    sp.amount "userDepositBalance" m.userDepositBalance,
    sp.amount "nodeFee" m.nodeFee,
    sp.number "lastBondReductionTime" m.lastBondReductionTime,
    sp.amount "lastBondReductionPrevValue" m.lastBondReductionPrevValue,
    sp.amount "lastBondReductionPrevNodeFee" m.lastBondReductionPrevNodeFee,
    sp.amount "nodeShareOfBalance" m.nodeShareOfBalance,
    sp.amount "userShareOfBalance" m.userShareOfBalance]

theorem comesBack : ComesBack reader json members := by
  refine .of_reads (by decide) (fun _ => rfl) (fun _ _ => rfl) (fun m sp => ?_) fun m sp => ?_
  · exact ⟨trivial, trivial, trivial, trivial, trivial, trivial, trivial, trivial,
      sp.fits_number _ _, trivial, trivial, trivial, trivial, trivial⟩
  · exact seq_reads (seq_reads (seq_reads (seq_reads (seq_reads (seq_reads (seq_reads (seq_reads
      (seq_reads (seq_reads (seq_reads (seq_reads (map_reads
      (field_reads rfl (fixedBytes_reads m.address)))
      (field_reads rfl (bool_reads m.doesExist)))
      (field_reads rfl (fixedBytes_reads m.nodeAddress)))
      (field_reads rfl (named_reads m.status.ofName?_name)))
      (field_reads rfl (fixedBytes_reads m.pubkey)))
      (field_reads rfl (sp.amount_reads _ m.nodeDepositBalance)))
      (field_reads rfl (sp.amount_reads _ m.userDepositBalance)))
      (field_reads rfl (sp.amount_reads _ m.nodeFee)))
      (fieldOr_reads rfl (sp.number_reads _ m.lastBondReductionTime)))
      (fieldOr_reads rfl (sp.amount_reads _ m.lastBondReductionPrevValue)))
      (fieldOr_reads rfl (sp.amount_reads _ m.lastBondReductionPrevNodeFee)))
      (fieldOr_reads rfl (sp.amount_reads _ m.nodeShareOfBalance)))
      (fieldOr_reads rfl (sp.amount_reads _ m.userShareOfBalance))

end MinipoolDetails

namespace MinipoolShares

/-- The members of the JSON of shares in a spelling. -/
def members (s : MinipoolShares) (sp : Spelling) : List (String × Json) :=
  [sp.amount "nodeShare" s.nodeShare, sp.amount "userShare" s.userShare]

theorem comesBack : ComesBack reader json members := by
  refine .of_reads (by decide) (fun _ => rfl) (fun _ _ => rfl) (fun s sp => ?_) fun s sp => ?_
  · exact ⟨trivial, trivial, trivial⟩
  · exact seq_reads (map_reads
      (field_reads rfl (sp.amount_reads _ s.nodeShare)))
      (field_reads rfl (sp.amount_reads _ s.userShare))

end MinipoolShares

namespace RewardsEvent

/-- The members of an event's JSON in a spelling. -/
def members (e : RewardsEvent) (sp : Spelling) : List (String × Json) := [
    sp.number "index" e.index,
    sp.number "startTime" e.startTime,
    sp.number "endTime" e.endTime,
    sp.number "consensusBlock" e.consensusBlock,
    sp.number "executionBlock" e.executionBlock,
    ("merkleRoot", e.merkleRoot.json),
    ("merkleTreeCid", .string e.merkleTreeCid),
    sp.number "intervalsPassed" e.intervalsPassed]

theorem comesBack : ComesBack reader json members := by
  refine .of_reads (by decide) (fun _ => rfl) (fun _ _ => rfl) (fun e sp => ?_) fun e sp => ?_
  · exact ⟨sp.fits_number _ _, sp.fits_number _ _, sp.fits_number _ _, sp.fits_number _ _,
      sp.fits_number _ _, trivial, trivial, sp.fits_number _ _, trivial⟩
  · exact seq_reads (seq_reads (seq_reads (seq_reads (seq_reads (seq_reads (seq_reads (map_reads
      (field_reads rfl (sp.number_reads _ e.index)))
      (field_reads rfl (sp.number_reads _ e.startTime)))
      (field_reads rfl (sp.number_reads _ e.endTime)))
      (field_reads rfl (sp.number_reads _ e.consensusBlock)))
      (field_reads rfl (sp.number_reads _ e.executionBlock)))
      (field_reads rfl (fixedBytes_reads e.merkleRoot)))
      (field_reads rfl (string_reads e.merkleTreeCid)))
      (fieldOr_reads rfl (sp.number_reads _ e.intervalsPassed))

end RewardsEvent

/-- **What is written of a record is read as that record**, with its numbers quoted or plain, its
words in decimal or hexadecimal digits, and its members in any order. -/
theorem records_come_back :
    ComesBack NodeDetails.reader NodeDetails.json NodeDetails.members ∧
    ComesBack MinipoolDetails.reader MinipoolDetails.json MinipoolDetails.members ∧
    ComesBack MinipoolShares.reader MinipoolShares.json MinipoolShares.members ∧
    ComesBack RewardsEvent.reader RewardsEvent.json RewardsEvent.members :=
  ⟨NodeDetails.comesBack, MinipoolDetails.comesBack, MinipoolShares.comesBack,
    RewardsEvent.comesBack⟩

example : MinipoolShares.reader.read
    (Json.object [("userShare", .string "0x00Ff"), ("nodeShare", .string "10")]).write =
      .ok ⟨10, 255⟩ := by
  rfl

end PoolKeeper
