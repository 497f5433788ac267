/-
Two checks that bytes are the rewards file of an interval: the look at what the
store holds, and the download.

Both read a file from the bytes and ask whether it commits to the event's root.
The download also asks which interval the file is for; the look at the store does
not, and a root does not tell. `valid_and_named_iff_accepted` says that nothing else
sets them apart, whatever the bytes are. `valid_but_not_accepted` is a file of
another interval: valid in the store, and refused where it is downloaded.
-/
import PoolKeeper.Proofs.Rewards.Download
import PoolKeeper.Proofs.Rewards.Interval

namespace PoolKeeper

namespace IntervalInfo
open InMemory FileTree

section Run
variable [Compression] {σ τ : Type} {w : Surroundings Chain σ} {v : Surroundings Disk τ}
variable {s : Store} {node : Address} {interval : UInt64} {root : Hash} {bytes : Bytes}

/-- Bytes are valid, whoever asks, when they hold a file that commits to the root. -/
theorem exists_storedStatus_eq_valid_iff (node : Address) (root : Hash) (bytes : Bytes) :
    (∃ entry, storedStatus node root bytes = .valid entry) ↔
      ∃ f, RewardsFile.decode bytes = .ok f ∧ f.trust root = .ok () := by
  simp only [storedStatus_eq_valid_iff]
  constructor
  · rintro ⟨entry, f, hf, htrust, -⟩
    exact ⟨f, hf, htrust⟩
  · rintro ⟨f, hf, htrust⟩
    exact ⟨_, f, hf, htrust, rfl⟩

/-- **A look at the store and a download accept the same files, but for the interval that is named
in them.** Whatever bytes stand where the store keeps an interval's file, and whatever event was
resolved for the interval: the file is valid if the bytes hold one that commits to the event's root,
and a compressed mirror that serves these bytes is accepted if, besides, that file is for the
interval. What is kept then is the bytes as they are. -/
theorem valid_and_named_iff_accepted (node : Address) {pools : List Address} {event : RewardsEvent}
    {c c' : σ} {t t' : τ} {m : Mirror}
    (hread : (Disk.read (s.path interval)).runIn v t = (.ok bytes, t'))
    (hevent : (RewardsEvent.resolve s.network pools interval none).runIn w c = (.ok event, c'))
    (hindex : event.index = interval) (hm : m.compressed = true)
    (answer : List Web.Call → (c : Web.Call) → Web.Reply c) (calls : List Web.Call) (url : String)
    (hserved : answer calls (.fetch url) = .ok bytes) :
    ∃ info, (read s pools node interval).runIn (w.sum v) (c, t) = (.ok info, c', t') ∧
      ((∃ entry, info.status = .valid entry) ↔
        ∃ f, RewardsFile.decode bytes = .ok f ∧ f.trust event.merkleRoot = .ok ()) ∧
      ∀ kept, ((Download.fromMirror m event url).runIn (.noting answer) calls).1 = .ok kept ↔
        kept = bytes ∧ (∃ entry, info.status = .valid entry) ∧
          ∀ f, RewardsFile.decode bytes = .ok f → f.header.index = interval := by
  have hvalid := exists_storedStatus_eq_valid_iff node event.merkleRoot bytes
  refine ⟨_, runIn_read_of_bytes hevent hread, hvalid, fun kept => ?_⟩
  have hjudge : ((Download.fromMirror m event url).runIn (.noting answer) calls).1 =
      Download.judge event (m, .ok bytes) := by
    rw [← hserved]
    exact congrArg Prod.fst (Download.runIn_fromMirror answer event m url calls)
  rw [hjudge, Download.judge_eq_ok_iff, hvalid, Download.storedForm, if_pos hm, eq_comm]
  refine and_congr_right fun _ => ?_
  simp only [Download.serves_iff_of_compressed hm, hindex]
  constructor
  · rintro ⟨f, hf, hnamed, htrust⟩
    refine ⟨⟨f, hf, htrust⟩, fun g hg => ?_⟩
    obtain rfl : f = g := Except.ok.inj (hf.symm.trans hg)
    exact hnamed
  · rintro ⟨⟨f, hf, htrust⟩, hnamed⟩
    exact ⟨f, hf, hnamed f hf, htrust⟩

end Run

/-! ## Files of intervals in which nothing was paid -/

namespace Unpaid

/-- The file of an interval in which nothing was paid. All of them have one root. -/
def file (interval : UInt64) : RewardsFile where
  version := 1
  header := ⟨interval, "holesky", 0, 0, 0, 0, 1⟩
  merkleRoot := .zero
  totals := ⟨0, 0, 0⟩
  nodes := .empty

def event : RewardsEvent := ⟨6, 1000, 2000, 0, 0, .zero, "bafyinterval", 1⟩

def store : Store := ⟨"", .holesky⟩

/-- The file system once a file has been stored as that of interval 6. -/
def tree (f : RewardsFile) : FileTree := ((store.save 6 f).runIn disk .empty).2

def mirror : Mirror := ⟨"https://mirror/{filename}", true⟩

/-- Where the mirror has the file of interval 6. -/
def url : String := Download.urlOf store event mirror

/-- One file is served whatever is asked for. -/
def answer (f : RewardsFile) : List Web.Call → (c : Web.Call) → Web.Reply c
  | _, .fetch _ => .ok f.encode

theorem runIn_read_tree (f : RewardsFile) :
    (Disk.read (store.path 6)).runIn disk (tree f) = (.ok f.encode, tree f) := by
  obtain ⟨t', hsave, hread⟩ := store.read_saveBytes (store.unobstructed_empty 6) f.encode
  have htree : tree f = t' := congrArg Prod.snd hsave
  rw [htree]
  exact hread

theorem trust_file (interval : UInt64) : (file interval).trust .zero = .ok () :=
  RewardsFile.trust_eq_ok_iff.2 ⟨RewardsFile.treeRoot_of_nil rfl, rfl⟩

theorem resolve_event :
    (RewardsEvent.resolve store.network [] 6 none).runIn (.fixed (recording event).answer) () =
      (.ok event, ()) := resolve_recording _ event

/-- The file of any interval that nothing was paid in is valid as that of interval 6. -/
theorem read_file (interval : UInt64) :
    (read store [] (.ofNat 1) 6).runIn ((Surroundings.fixed (recording event).answer).sum disk)
        ((), tree (file interval)) =
      (.ok ⟨6, "bafyinterval", 1000, 2000, store.path 6, .valid none⟩, (),
        tree (file interval)) :=
  runIn_read_of_save resolve_event (store.unobstructed_empty 6) (trust_file interval)

end Unpaid

open Unpaid in
/-- The file of the interval itself is valid, and is accepted from a mirror. -/
theorem valid_and_accepted :
    (∃ info, (read store [] (.ofNat 1) 6).runIn
        ((Surroundings.fixed (recording event).answer).sum disk) ((), tree (file 6)) =
          (.ok info, (), tree (file 6)) ∧ ∃ entry, info.status = .valid entry) ∧
      ((Download.fromMirror mirror event url).runIn (.noting (answer (file 6))) []).1 =
        .ok (file 6).encode := by
  obtain ⟨info, hinfo, hvalid, haccepted⟩ := valid_and_named_iff_accepted
    (.ofNat 1) (runIn_read_tree (file 6)) resolve_event rfl (m := mirror) rfl (answer (file 6)) []
      url rfl
  have hvalid := hvalid.2 ⟨file 6, (file 6).decode_of_encode, trust_file 6⟩
  refine ⟨⟨info, hinfo, hvalid⟩, (haccepted _).2 ⟨rfl, hvalid, fun f hf => ?_⟩⟩
  obtain rfl : file 6 = f := Except.ok.inj ((file 6).decode_of_encode.symm.trans hf)
  rfl

open Unpaid in
/-- **The file of another interval may be valid, and is refused where it is downloaded.** -/
theorem valid_but_not_accepted :
    event.index = 6 ∧
      (Disk.read (store.path 6)).runIn disk (tree (file 5)) =
        (.ok (file 5).encode, tree (file 5)) ∧
      (RewardsEvent.resolve store.network [] 6 none).runIn (.fixed (recording event).answer) () =
        (.ok event, ()) ∧
      (read store [] (.ofNat 1) 6).runIn ((Surroundings.fixed (recording event).answer).sum disk)
          ((), tree (file 5)) =
        (.ok ⟨6, "bafyinterval", 1000, 2000, store.path 6, .valid none⟩, (), tree (file 5)) ∧
      mirror.compressed = true ∧ answer (file 5) [] (.fetch url) = .ok (file 5).encode ∧
      ((Download.fromMirror mirror event url).runIn (.noting (answer (file 5))) []).1 =
        .error (.otherInterval 5) := by
  refine ⟨rfl, runIn_read_tree _, resolve_event, read_file 5, rfl, rfl, ?_⟩
  have hm : mirror.compressed = true := rfl
  have htext : Download.textOf mirror (file 5).encode = .ok (file 5).text := by
    rw [Download.textOf, if_pos hm, RewardsFile.encode, Compression.decompress_compress]
  have hjudge := Download.judge_of_parsed event htext (file 5).parse_text
  have hrun := Download.runIn_fromMirror (answer (file 5)) event mirror url []
  exact (congrArg Prod.fst hrun).trans hjudge

end IntervalInfo
end PoolKeeper
