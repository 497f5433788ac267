/-
The directory of rewards files, over the file system in memory.

`path_inj` and `path_ne_partialPath`: networks and intervals have files of their
own, and a file that is not complete is never under the name of one that is.
`saveBytes_eq_ok`: where nothing stands in the way a file is stored whole, and
no other file is touched. `load_eq_ok` and `load_save`: what is stored is what is
loaded.
-/
import PoolKeeper.Proofs.FileTree
import PoolKeeper.Proofs.Rewards.RoundTrip
import PoolKeeper.Rewards.Store

namespace PoolKeeper

/-! ## Names -/

theorem Network.name_inj {n n' : Network} (h : n.name = n'.name) : n = n' := by
  have hn := ofName?_name n
  rw [h, ofName?_name] at hn
  exact (Option.some.inj hn).symm

/-- The name of a rewards file tells its network and its interval. -/
theorem publishedName_inj {n n' : Network} {i i' : UInt64}
    (h : publishedName n i = publishedName n' i') : n = n' ∧ i = i' := by
  have hname : ∀ n : Network, '-' ∉ n.name.toList := fun n => by cases n <;> decide
  have hchars := congrArg String.toList h
  simp only [publishedName, String.toList_append, List.append_assoc] at hchars
  have hrest := List.append_cancel_left hchars
  have hnetwork : n = n' := by
    have hsplit : ∀ (n : Network) (cs : List Char),
        (Text.splitOn '-' (n.name.toList ++ ("-".toList ++ cs))).head? = some n.name.toList :=
      fun n cs => by
        rw [show "-".toList = ['-'] from rfl, List.singleton_append, Text.splitOn_append_sep,
          Text.splitOn_of_not_mem (hname n)]
        rfl
    have hhead := congrArg (fun cs => (Text.splitOn '-' cs).head?) hrest
    simp only [hsplit, Option.some.injEq] at hhead
    exact Network.name_inj (String.toList_inj.1 hhead)
  subst hnetwork
  refine ⟨rfl, ?_⟩
  have hnumber := List.append_cancel_right
    (List.append_cancel_left (List.append_cancel_left hrest))
  exact UInt64.toNat_inj.1 (Numeral.decimal_inj (String.toList_inj.1 hnumber))

theorem slash_not_mem_publishedName (n : Network) (i : UInt64) :
    '/' ∉ (publishedName n i).toList := by
  have hname : '/' ∉ n.name.toList := by cases n <;> decide
  have hdigit : ∀ d < 10, '/' ≠ Numeral.digitChar d := by decide
  simp only [publishedName, String.toList_append, List.mem_append, not_or]
  refine ⟨⟨⟨⟨by decide, hname⟩, by decide⟩, fun h => ?_⟩, by decide⟩
  obtain ⟨d, hd, he⟩ := Numeral.exists_digit_of_mem_decimal h
  exact hdigit d hd he

namespace Store
open InMemory FileTree

variable (s : Store) {t t' : FileTree} {interval : UInt64} {bytes : Bytes}

/-- The name in the directory of an interval's file. -/
def storedName (interval : UInt64) : String := s.fileName interval ++ compressedExtension

/-- The name in the directory of an interval's file before it is complete. -/
def partialName (interval : UInt64) : String := s.storedName interval ++ ".partial"

/-- What is put behind the name of a rewards file leaves a name. -/
theorem plain_append (interval : UInt64) {tail : String} (h : '/' ∉ tail.toList) :
    Plain (s.fileName interval ++ tail) := by
  have hhead : (s.fileName interval ++ tail).toList.head? = some 'r' := by
    simp only [fileName, publishedName, String.toList_append, List.append_assoc]
    rfl
  refine ⟨fun he => ?_, fun he => ?_, fun he => ?_, ?_⟩
  · simp [he] at hhead
  · simp [he] at hhead
  · simp [he] at hhead
  · rw [String.toList_append, List.mem_append, not_or]
    exact ⟨slash_not_mem_publishedName _ _, h⟩

theorem parsePath_path (interval : UInt64) :
    parsePath (s.path interval) = parsePath s.dir ++ [s.storedName interval] :=
  parsePath_join s.dir (s.plain_append interval (by decide))

theorem parsePath_partialPath (interval : UInt64) :
    parsePath (s.partialPath interval) = parsePath s.dir ++ [s.partialName interval] := by
  rw [partialPath, path, join_append, partialName, storedName, String.append_assoc]
  exact parsePath_join s.dir (s.plain_append interval (by decide))

/-- Different networks and intervals have different files. -/
theorem path_inj {s' : Store} {i i' : UInt64} (hdir : s'.dir = s.dir)
    (h : parsePath (s'.path i') = parsePath (s.path i)) :
    s'.network = s.network ∧ i' = i := by
  rw [parsePath_path, parsePath_path, hdir, List.append_cancel_left_eq, List.singleton_inj,
    storedName, storedName, String.append_left_inj] at h
  exact publishedName_inj h

theorem path_ne_partialPath {s' : Store} (hdir : s'.dir = s.dir) (i i' : UInt64) :
    parsePath (s'.path i') ≠ parsePath (s.partialPath i) := by
  rw [parsePath_path, parsePath_partialPath, hdir]
  intro h
  rw [List.append_cancel_left_eq, List.singleton_inj, storedName, partialName] at h
  have hlast := congrArg (fun name : String => name.toList.getLast?) h
  simp [compressedExtension] at hlast

/-! ## Storing and loading -/

/-- The calls that store the file of an interval succeed, whatever is stored. -/
def Writable (s : Store) (interval : UInt64) (t : FileTree) : Prop :=
  ∀ bytes, ∃ path t', (s.saveBytes interval bytes).runIn disk t = (.ok path, t')

/-- Nothing stands in the way of storing the file of an interval: no file where
the directory has to be, and no directory under the names that are written. -/
structure Unobstructed (s : Store) (interval : UInt64) (t : FileTree) : Prop where
  clear : t.Clear (parsePath s.dir)
  path : t.get? (parsePath (s.path interval)) ≠ some .directory
  partialPath : t.get? (parsePath (s.partialPath interval)) ≠ some .directory

/-- Nothing stands in the way in an empty file system. -/
theorem unobstructed_empty (interval : UInt64) : s.Unobstructed interval .empty := by
  have hnone : ∀ dir name, FileTree.empty.get? (dir ++ [name]) ≠ some .directory :=
    fun dir name => by simp [get?, FileTree.empty]
  refine ⟨clear_empty _, ?_, ?_⟩
  · rw [s.parsePath_path]
    exact hnone _ _
  · rw [s.parsePath_partialPath]
    exact hnone _ _

/-- **A file is stored whole**: under its own name there is what was stored, under
the name of an incomplete file nothing is left, and every other file is as before. -/
theorem saveBytes_eq_ok (h : s.Unobstructed interval t) (bytes : Bytes) :
    ∃ t', (s.saveBytes interval bytes).runIn disk t = (.ok (s.path interval), t') ∧
      t'.Reaches (parsePath s.dir) ∧
      t'.get? (parsePath (s.path interval)) = some (.file bytes) ∧
      t'.get? (parsePath (s.partialPath interval)) = none ∧
      ∀ path, parsePath path ≠ parsePath (s.path interval) →
        parsePath path ≠ parsePath (s.partialPath interval) → t'.file? path = t.file? path := by
  obtain ⟨hclear, htarget, hpartial⟩ := h
  have hne : s.partialName interval ≠ s.storedName interval := fun he =>
    s.path_ne_partialPath rfl interval interval (by rw [parsePath_path, parsePath_partialPath, he])
  obtain ⟨t₁, hmake⟩ := makeDirs_eq_ok hclear
  obtain ⟨-, hreach, hother⟩ := of_makeDirs_eq_ok hmake
  rw [parsePath_path, ← hother _ (not_prefix_of_concat _ _)] at htarget
  rw [parsePath_partialPath, ← hother _ (not_prefix_of_concat _ _)] at hpartial
  obtain ⟨t₂, t₃, hwrite, hrename, hreach₃, hstored, hpart, hsame⟩ :=
    write_rename_eq_ok hreach hne hpartial htarget bytes
  rw [← parsePath_path] at hrename hstored hsame
  rw [← parsePath_partialPath] at hwrite hrename hpart hsame
  refine ⟨t₃, ?_, hreach₃, hstored, hpart, fun path hpath hpartial => ?_⟩
  · have hmake : (Disk.makeDirs s.dir).runIn disk t = (.ok (), t₁) := by
      rw [runIn_makeDirs, hmake, after_ok]
    have hwrite : (Disk.write (s.partialPath interval) bytes).runIn disk t₁ = (.ok (), t₂) := by
      rw [runIn_write, hwrite, after_ok]
    have hrename : (Disk.rename (s.partialPath interval) (s.path interval)).runIn disk t₂ =
        (.ok (), t₃) := by
      rw [runIn_rename, hrename, after_ok]
    rw [saveBytes, Attempt.runIn_bind_ok (Attempt.runIn_mapError_ok hmake _),
      Attempt.runIn_bind_ok (Attempt.runIn_mapError_ok hwrite _),
      Attempt.runIn_bind_ok (Attempt.runIn_mapError_ok hrename _)]
    rfl
  · by_cases hdir : parsePath path <+: parsePath s.dir
    · rw [file?_of_clear hclear hdir, file?_of_clear hreach₃.clear hdir]
    · exact file?_congr ((hsame _ hpartial hpath).trans (hother _ hdir))

theorem unobstructed_of_saveBytes {path : String}
    (h : (s.saveBytes interval bytes).runIn disk t = (.ok path, t')) :
    s.Unobstructed interval t := by
  simp only [saveBytes, Attempt.runIn_bind_eq_ok, Attempt.runIn_mapError_eq_ok] at h
  obtain ⟨⟨⟩, t₁, hmake, ⟨⟩, t₂, hwrite, ⟨⟩, t₃, hrename, -⟩ := h
  rw [runIn_makeDirs, after_eq_ok] at hmake
  rw [runIn_write, after_eq_ok] at hwrite
  rw [runIn_rename, after_eq_ok] at hrename
  obtain ⟨hclear, hreach, hother⟩ := of_makeDirs_eq_ok hmake
  have hpartial := get?_ne_directory_of_write hwrite
  have hpath := get?_ne_directory_of_rename hrename
  have hne := s.path_ne_partialPath rfl interval interval
  rw [parsePath_partialPath] at hwrite hpartial hne
  rw [parsePath_path] at hpath hne
  rw [write_eq_ok hreach hpartial, Except.ok.injEq] at hwrite
  rw [← hwrite, get?_put_other _ hne, hother _ (not_prefix_of_concat _ _)] at hpath
  rw [hother _ (not_prefix_of_concat _ _)] at hpartial
  exact ⟨hclear, by rwa [parsePath_path], by rwa [parsePath_partialPath]⟩

/-- Storing succeeds just where nothing stands in the way. -/
theorem writable_iff : s.Writable interval t ↔ s.Unobstructed interval t := by
  constructor
  · intro h
    obtain ⟨path, t', hsave⟩ := h []
    exact s.unobstructed_of_saveBytes hsave
  · intro h bytes
    obtain ⟨t', hsave, -⟩ := s.saveBytes_eq_ok h bytes
    exact ⟨_, t', hsave⟩

/-- Only the file system can keep bytes from being stored. -/
theorem exists_disk_of_saveBytes {fault : ArtifactFault}
    (h : (s.saveBytes interval bytes).runIn disk t = (.error fault, t')) :
    ∃ path, fault = .disk path := by
  simp only [saveBytes, Attempt.runIn_bind_eq_error, Attempt.runIn_mapError_eq_error] at h
  obtain ⟨_, -, rfl⟩ | ⟨_, _, -, h⟩ := h
  · exact ⟨_, rfl⟩
  obtain ⟨_, -, rfl⟩ | ⟨_, _, -, h⟩ := h
  · exact ⟨_, rfl⟩
  obtain ⟨_, -, rfl⟩ | ⟨_, _, -, h⟩ := h
  · exact ⟨_, rfl⟩
  · cases h

theorem saveBytes_of_not_writable (h : ¬ s.Writable interval t) (bytes : Bytes) :
    ∃ path t', (s.saveBytes interval bytes).runIn disk t = (.error (.disk path), t') := by
  cases hsave : (s.saveBytes interval bytes).runIn disk t with
  | mk r t' =>
    cases r with
    | ok path => exact absurd (s.writable_iff.2 (s.unobstructed_of_saveBytes hsave)) h
    | error fault =>
      obtain ⟨path, rfl⟩ := s.exists_disk_of_saveBytes hsave
      exact ⟨path, t', rfl⟩

/-- What stands under the path of an interval's file can be read. -/
theorem runIn_read_path (hdir : t.Reaches (parsePath s.dir))
    (hfile : t.get? (parsePath (s.path interval)) = some (.file bytes)) :
    (Disk.read (s.path interval)).runIn disk t = (.ok bytes, t) := by
  rw [parsePath_path] at hfile
  rw [runIn_read, parsePath_path, read_eq_ok hdir hfile]

/-- Over any file system, what is loaded is the file that the bytes hold, or what is wrong with
them. -/
theorem runIn_load [Compression] {τ : Type} {v : Surroundings Disk τ} {d d' : τ}
    (h : (Disk.read (s.path interval)).runIn v d = (.ok bytes, d')) :
    (s.load interval).runIn v d = (((RewardsFile.decode bytes).map some).mapError .file, d') := by
  have hread : (Disk.read (s.path interval)).outcome.runIn v d = (.ok bytes, d') := h
  rw [load, Attempt.runIn_ofOutcome, Program.runIn_bind, hread]
  cases hf : RewardsFile.decode bytes <;> simp only [hf] <;> rfl

/-- Where there is no file none is loaded. -/
theorem runIn_load_of_absent [Compression] {τ : Type} {v : Surroundings Disk τ} {d d' : τ}
    (h : (Disk.read (s.path interval)).runIn v d = (.error .absent, d')) :
    (s.load interval).runIn v d = (.ok none, d') := by
  have hread : (Disk.read (s.path interval)).outcome.runIn v d = (.error .absent, d') := h
  rw [load, Attempt.runIn_ofOutcome, Program.runIn_bind, hread]
  rfl

theorem runIn_load_of_refused [Compression] {τ : Type} {v : Surroundings Disk τ} {d d' : τ}
    (h : (Disk.read (s.path interval)).runIn v d = (.error .refused, d')) :
    (s.load interval).runIn v d = (.error (.disk (s.path interval)), d') := by
  have hread : (Disk.read (s.path interval)).outcome.runIn v d = (.error .refused, d') := h
  rw [load, Attempt.runIn_ofOutcome, Program.runIn_bind, hread]
  rfl

theorem load_eq_ok [Compression] {f : RewardsFile} (hdir : t.Reaches (parsePath s.dir))
    (hfile : t.get? (parsePath (s.path interval)) = some (.file bytes))
    (hf : RewardsFile.decode bytes = .ok f) :
    (s.load interval).runIn disk t = (.ok (some f), t) := by
  rw [s.runIn_load (s.runIn_read_path hdir hfile), hf]
  rfl

/-- Bytes that are stored are the ones that are read then. -/
theorem read_saveBytes (h : s.Unobstructed interval t) (bytes : Bytes) :
    ∃ t', (s.saveBytes interval bytes).runIn disk t = (.ok (s.path interval), t') ∧
      (Disk.read (s.path interval)).runIn disk t' = (.ok bytes, t') := by
  obtain ⟨t', hsave, hreach, hstored, -, -⟩ := s.saveBytes_eq_ok h bytes
  exact ⟨t', hsave, s.runIn_read_path hreach hstored⟩

/-- A file that is stored is the one that is loaded then. -/
theorem load_save [Compression] (h : s.Unobstructed interval t) (f : RewardsFile) :
    ∃ t', (s.save interval f).runIn disk t = (.ok (s.path interval), t') ∧
      (s.load interval).runIn disk t' = (.ok (some f), t') := by
  obtain ⟨t', hsave, hread⟩ := s.read_saveBytes h f.encode
  refine ⟨t', hsave, ?_⟩
  rw [s.runIn_load hread, f.decode_of_encode]
  rfl

end Store
end PoolKeeper
