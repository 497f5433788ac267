/-
The file system in memory, entry by entry.

Making a directory, writing and renaming are each described by when they
succeed and by what is found under every path afterwards. `parsePath_join` says
that a file in a directory is one name further than the directory.
-/
import Mathlib.Data.List.Induction
import PoolKeeper.InMemory.Disk
import PoolKeeper.Proofs.Surroundings

namespace PoolKeeper.InMemory

namespace FileTree
variable {t t' : FileTree} {p q dir : DiskPath} {name : String} {bytes : Bytes}

/-! ## Entries -/

@[simp] theorem get?_nil (t : FileTree) : t.get? [] = some .directory := rfl

theorem get?_erase_self (t : FileTree) (h : p ≠ []) : (t.erase p).get? p = none := by
  simp only [get?, h, if_false, erase, List.lookup_eq_none_iff, List.mem_filter]
  rintro e ⟨-, he⟩
  exact bne_iff_ne.2 fun hp => of_decide_eq_true he hp.symm

theorem get?_erase_other (t : FileTree) (h : q ≠ p) : (t.erase p).get? q = t.get? q := by
  unfold get? erase
  split
  · rfl
  · induction t.entries with
    | nil => rfl
    | cons e es ih =>
      obtain ⟨r, e⟩ := e
      by_cases hr : r = p
      · have hq : (q == r) = false := by simpa [hr] using h
        simp only [hr, ne_eq, not_true_eq_false, decide_false, Bool.false_eq_true,
          not_false_eq_true, List.filter_cons_of_neg]
        rw [ih, List.lookup_cons, ← hr, hq]
      · rw [List.filter_cons_of_pos (by simpa using hr), List.lookup_cons, List.lookup_cons, ih]

@[simp] theorem get?_put_self (t : FileTree) (h : p ≠ []) (e : DiskEntry) :
    (t.put p e).get? p = some e := by
  simp [get?, put, h]

theorem get?_put_other (t : FileTree) (h : q ≠ p) (e : DiskEntry) :
    (t.put p e).get? q = t.get? q := by
  have hq : (q == p) = false := beq_eq_false_iff_ne.2 h
  rw [← get?_erase_other t h, get?, get?, put, List.lookup_cons, hq]

/-! ## Directories -/

/-- The path is a directory, and so is all that it lies in. -/
def Reaches (t : FileTree) (dir : DiskPath) : Prop :=
  ∀ p, p <+: dir → t.get? p = some .directory

/-- No file stands where the directory, or one that it lies in, would be made. -/
def Clear (t : FileTree) (dir : DiskPath) : Prop :=
  ∀ p, p <+: dir → ∀ bytes, t.get? p ≠ some (.file bytes)

theorem Reaches.of_eq (h : t.Reaches dir) (heq : ∀ p, p <+: dir → t'.get? p = t.get? p) :
    t'.Reaches dir :=
  fun p hp => (heq p hp).trans (h p hp)

theorem Reaches.clear (h : t.Reaches dir) : t.Clear dir := fun p hp bytes hf => by
  rw [h p hp] at hf
  cases hf

theorem clear_empty (dir : DiskPath) : FileTree.empty.Clear dir := fun p _ bytes => by
  unfold get?
  split <;> simp [FileTree.empty]

/-- What is in a directory is nothing that the directory lies in. -/
theorem isPrefix_ne_concat (h : p <+: dir) (name : String) : p ≠ dir ++ [name] := by
  rintro rfl
  have := h.length_le
  rw [List.length_append, List.length_singleton] at this
  omega

theorem not_prefix_of_concat (dir : DiskPath) (name : String) : ¬ dir ++ [name] <+: dir :=
  fun h => isPrefix_ne_concat h name rfl

theorem Reaches.put (h : t.Reaches dir) (name : String) (e : DiskEntry) :
    (t.put (dir ++ [name]) e).Reaches dir :=
  h.of_eq fun _ hp => get?_put_other t (isPrefix_ne_concat hp name) e

theorem Reaches.erase (h : t.Reaches dir) (name : String) : (t.erase (dir ++ [name])).Reaches dir :=
  h.of_eq fun _ hp => get?_erase_other t (isPrefix_ne_concat hp name)

theorem enter_go_eq_ok {path : DiskPath} :
    ∀ n, (∀ k < n, t.get? (path.take k) = some .directory) → enter.go t path n = .ok ()
  | 0, _ => rfl
  | n + 1, h => by
    rw [enter.go, enter_go_eq_ok n fun k hk => h k (by omega)]
    simp only [bind, Except.bind, h n (by omega)]

/-- A name in a directory can be entered. -/
theorem enter_eq_ok (h : t.Reaches dir) (name : String) : t.enter (dir ++ [name]) = .ok () := by
  refine enter_go_eq_ok _ fun k hk => h _ ?_
  rw [List.take_append_of_le_length (by simp at hk; omega)]
  exact List.take_prefix k dir

theorem enter_go_of_clear {path : DiskPath} :
    ∀ n, (∀ k < n, ∀ bytes, t.get? (path.take k) ≠ some (.file bytes)) →
      enter.go t path n = .ok () ∨ enter.go t path n = .error .absent
  | 0, _ => .inl rfl
  | n + 1, h => by
    rw [enter.go]
    rcases enter_go_of_clear n fun k hk => h k (by omega) with hgo | hgo
    · simp only [hgo, bind, Except.bind]
      cases hn : t.get? (path.take n) with
      | none => exact .inr rfl
      | some e =>
        cases e with
        | directory => exact .inl rfl
        | file bytes => exact absurd hn (h n (by omega) bytes)
    · exact .inr (by rw [hgo]; rfl)

/-- Where no file stands in the way a name that is not there is absent, and nothing else is
wrong. -/
theorem read_of_clear (h : t.Clear dir) (hnone : t.get? (dir ++ [name]) = none) :
    t.read (dir ++ [name]) = .error .absent := by
  have henter : t.enter (dir ++ [name]) = .ok () ∨ t.enter (dir ++ [name]) = .error .absent := by
    refine enter_go_of_clear _ fun k hk => h _ ?_
    rw [List.take_append_of_le_length (by simp at hk; omega)]
    exact List.take_prefix k dir
  rcases henter with henter | henter
  · simp only [read, henter, hnone, bind, Except.bind]
  · simp only [read, henter, bind, Except.bind]

theorem read_eq_ok (h : t.Reaches dir) (hf : t.get? (dir ++ [name]) = some (.file bytes)) :
    t.read (dir ++ [name]) = .ok bytes := by
  simp only [read, enter_eq_ok h, hf, bind, Except.bind]

theorem write_eq_ok (h : t.Reaches dir) (hf : t.get? (dir ++ [name]) ≠ some .directory)
    (bytes : Bytes) :
    t.write (dir ++ [name]) bytes = .ok (t.put (dir ++ [name]) (.file bytes)) := by
  simp only [write, enter_eq_ok h, bind, Except.bind]

theorem rename_eq_ok {source target : String} (h : t.Reaches dir)
    (hs : t.get? (dir ++ [source]) = some (.file bytes))
    (ht : t.get? (dir ++ [target]) ≠ some .directory) :
    t.rename (dir ++ [source]) (dir ++ [target]) =
      .ok ((t.erase (dir ++ [source])).put (dir ++ [target]) (.file bytes)) := by
  simp only [rename, read_eq_ok h hs, enter_eq_ok h, bind, Except.bind]

theorem of_write_eq_ok (h : t.write p bytes = .ok t') : t' = t.put p (.file bytes) := by
  simp only [write, bind, Except.bind] at h
  split at h
  · cases h
  · split at h
    · cases h
    · exact (Except.ok.inj h).symm

theorem of_read_eq_ok (h : t.read p = .ok bytes) : t.get? p = some (.file bytes) := by
  simp only [read, bind, Except.bind] at h
  split at h
  · cases h
  · split at h
    · rename_i hp
      rw [hp, Except.ok.inj h]
    · cases h
    · cases h

theorem of_rename_eq_ok (h : t.rename p q = .ok t') :
    ∃ bytes, t.get? p = some (.file bytes) ∧ t' = (t.erase p).put q (.file bytes) := by
  simp only [rename, bind, Except.bind] at h
  split at h
  · cases h
  · rename_i bytes hread
    refine ⟨bytes, of_read_eq_ok hread, ?_⟩
    split at h
    · cases h
    · split at h
      · cases h
      · exact (Except.ok.inj h).symm

/-- What is written under one name and then given another is found under the
other name alone. -/
theorem write_rename_eq_ok {part target : String} (h : t.Reaches dir) (hne : part ≠ target)
    (hp : t.get? (dir ++ [part]) ≠ some .directory)
    (ht : t.get? (dir ++ [target]) ≠ some .directory) (bytes : Bytes) :
    ∃ t₁ t₂, t.write (dir ++ [part]) bytes = .ok t₁ ∧
      t₁.rename (dir ++ [part]) (dir ++ [target]) = .ok t₂ ∧
      t₂.Reaches dir ∧ t₂.get? (dir ++ [target]) = some (.file bytes) ∧
      t₂.get? (dir ++ [part]) = none ∧
      ∀ p, p ≠ dir ++ [part] → p ≠ dir ++ [target] → t₂.get? p = t.get? p := by
  have hpaths : dir ++ [part] ≠ dir ++ [target] := by simpa using hne
  have hwrite := write_eq_ok h hp bytes
  have hreach := h.put part (.file bytes)
  have hsource := get?_put_self t (p := dir ++ [part]) (by simp) (.file bytes)
  have hrename := rename_eq_ok hreach hsource <| by
    rwa [get?_put_other t hpaths.symm]
  refine ⟨_, _, hwrite, hrename, (hreach.erase part).put target _, ?_, ?_, fun p hp ht => ?_⟩
  · exact get?_put_self _ (by simp) _
  · rw [get?_put_other _ hpaths, get?_erase_self _ (by simp)]
  · rw [get?_put_other _ ht, get?_erase_other _ hp, get?_put_other _ hp]

/-- A directory is made after the one that it lies in. -/
theorem makeDirs_concat (t : FileTree) (dir : DiskPath) (name : String) :
    t.makeDirs (dir ++ [name]) = (t.makeDirs dir).bind fun t => t.makeDir (dir ++ [name]) := by
  have hpaths : (List.range (dir ++ [name]).length).map (fun n => (dir ++ [name]).take (n + 1)) =
      (List.range dir.length).map (fun n => dir.take (n + 1)) ++ [dir ++ [name]] := by
    rw [List.length_append, List.length_singleton, List.range_succ, List.map_append]
    congr 1
    · refine List.map_congr_left fun n hn => ?_
      rw [List.take_append_of_le_length (by simp at hn; omega)]
    · exact congrArg (· :: []) (List.take_of_length_le (by simp))
  have hmake : ∀ path : DiskPath, t.makeDirs path =
      ((List.range path.length).map fun n => path.take (n + 1)).foldlM makeDir t := fun path => by
    rw [List.foldlM_map, makeDirs]
  rw [hmake, hpaths, List.foldlM_append, ← hmake]
  refine congrArg (Except.bind (t.makeDirs dir)) (funext fun t' => ?_)
  simp

/-- What making one directory does, and that it was not prevented. -/
theorem of_makeDir_eq_ok (h : t.makeDir p = .ok t') :
    (∀ bytes, t.get? p ≠ some (.file bytes)) ∧ t'.get? p = some .directory ∧
      ∀ q, q ≠ p → t'.get? q = t.get? q := by
  unfold makeDir at h
  split at h
  · rename_i hp
    obtain rfl := Except.ok.inj h
    exact ⟨by simp [hp], hp, fun q _ => rfl⟩
  · cases h
  · rename_i hp
    obtain rfl := Except.ok.inj h
    have hne : p ≠ [] := by
      rintro rfl
      cases hp
    exact ⟨by simp [hp], get?_put_self t hne _, fun q hq => get?_put_other t hq _⟩

theorem makeDir_eq_ok (t : FileTree) (h : ∀ bytes, t.get? p ≠ some (.file bytes)) :
    ∃ t', t.makeDir p = .ok t' := by
  unfold makeDir
  split
  · exact ⟨_, rfl⟩
  · rename_i bytes hp
    exact absurd hp (h bytes)
  · exact ⟨_, rfl⟩

/-- A directory is made only where no file stands in the way, and nothing else is. -/
theorem of_makeDirs_eq_ok (h : t.makeDirs dir = .ok t') :
    t.Clear dir ∧ t'.Reaches dir ∧ ∀ p, ¬ p <+: dir → t'.get? p = t.get? p := by
  induction dir using List.reverseRecOn generalizing t' with
  | nil =>
    obtain rfl := Except.ok.inj h
    have hroot : t.Reaches [] := fun p hp => by rw [List.prefix_nil.1 hp, get?_nil]
    exact ⟨hroot.clear, hroot, fun p _ => rfl⟩
  | append_singleton dir name ih =>
    rw [makeDirs_concat] at h
    cases hdir : t.makeDirs dir with
    | error fault =>
      rw [hdir] at h
      cases h
    | ok t₁ =>
      rw [hdir] at h
      obtain ⟨hclear, hreach, hother⟩ := ih hdir
      obtain ⟨hnofile, hmade, hsame⟩ := of_makeDir_eq_ok h
      rw [hother _ (not_prefix_of_concat dir name)] at hnofile
      refine ⟨fun p hp => ?_, fun p hp => ?_, fun p hp => ?_⟩
      · rcases List.prefix_concat_iff.1 hp with rfl | hp
        · exact hnofile
        · exact hclear p hp
      · rcases List.prefix_concat_iff.1 hp with rfl | hp
        · exact hmade
        · rw [hsame p (isPrefix_ne_concat hp name), hreach p hp]
      · rw [List.prefix_concat_iff, not_or] at hp
        rw [hsame p hp.1, hother p hp.2]

/-- Where no file stands in the way a directory is made. -/
theorem makeDirs_eq_ok (h : t.Clear dir) : ∃ t', t.makeDirs dir = .ok t' := by
  induction dir using List.reverseRecOn with
  | nil => exact ⟨t, rfl⟩
  | append_singleton dir name ih =>
    obtain ⟨t₁, ht₁⟩ := ih fun p hp => h p (hp.trans (List.prefix_append dir [name]))
    obtain ⟨-, -, hother⟩ := of_makeDirs_eq_ok ht₁
    rw [makeDirs_concat, ht₁]
    refine makeDir_eq_ok t₁ ?_
    rw [hother _ (not_prefix_of_concat dir name)]
    exact h _ List.prefix_rfl

theorem get?_ne_directory_of_write {t' : FileTree} (h : t.write p bytes = .ok t') :
    t.get? p ≠ some .directory := by
  intro hp
  simp only [write, hp, bind, Except.bind] at h
  split at h <;> cases h

theorem get?_ne_directory_of_rename {t' : FileTree} (h : t.rename p q = .ok t') :
    t.get? q ≠ some .directory := by
  intro hq
  simp only [rename, hq, bind, Except.bind] at h
  split at h
  · cases h
  · split at h <;> cases h

/-! ## Calls -/

/-- The file system in memory, as the surroundings of a program. -/
def disk : Surroundings Disk FileTree := fun c t => t.step c

@[simp] theorem runIn_read (path : String) (t : FileTree) :
    (Disk.read path).runIn disk t = (t.read (parsePath path), t) := rfl

@[simp] theorem runIn_makeDirs (path : String) (t : FileTree) :
    (Disk.makeDirs path).runIn disk t = t.after (t.makeDirs (parsePath path)) := rfl

@[simp] theorem runIn_write (path : String) (bytes : Bytes) (t : FileTree) :
    (Disk.write path bytes).runIn disk t = t.after (t.write (parsePath path) bytes) := rfl

@[simp] theorem runIn_rename (source target : String) (t : FileTree) :
    (Disk.rename source target).runIn disk t =
      t.after (t.rename (parsePath source) (parsePath target)) := rfl

theorem after_ok (t t' : FileTree) : t.after (.ok t') = (.ok (), t') := rfl

theorem after_eq_ok {r : Except DiskFault FileTree} : t.after r = (.ok (), t') ↔ r = .ok t' := by
  cases r <;> simp [after]

theorem after_eq_error {r : Except DiskFault FileTree} {fault : DiskFault}
    (h : t.after r = (.error fault, t')) : t' = t := by
  cases r with
  | ok t₁ => cases h
  | error e =>
    cases h
    rfl

/-- The file under a path, if there is one. -/
def file? (t : FileTree) (path : String) : Option Bytes :=
  match t.get? (parsePath path) with
  | some (.file bytes) => some bytes
  | _ => none

theorem file?_of_clear {path : String} (h : t.Clear dir) (hp : parsePath path <+: dir) :
    t.file? path = none := by
  unfold file?
  split
  · rename_i bytes hf
    exact absurd hf (h _ hp bytes)
  · rfl

theorem file?_congr {path : String} (h : t'.get? (parsePath path) = t.get? (parsePath path)) :
    t'.file? path = t.file? path := by
  rw [file?, file?, h]

theorem file?_eq_some_iff {path : String} :
    t.file? path = some bytes ↔ t.get? (parsePath path) = some (.file bytes) := by
  unfold file?
  split <;> simp_all

/-! ## Paths -/

/-- The name stands for itself in a path. -/
def Plain (name : String) : Prop :=
  name ≠ "" ∧ name ≠ "." ∧ name ≠ ".." ∧ '/' ∉ name.toList

theorem parsePath_empty : parsePath "" = [] := by decide

theorem parsePath_of_plain (h : Plain name) : parsePath name = [name] := by
  obtain ⟨hempty, hdot, hdots, hslash⟩ := h
  simp [parsePath, Text.splitOn_of_not_mem hslash, hempty, hdot, hdots]

/-- A slash at the end of a path says nothing. -/
theorem parsePath_slash (cs : List Char) :
    parsePath (String.ofList (cs ++ ['/'])) = parsePath (String.ofList cs) := by
  simp [parsePath, Text.splitOn_append_sep, Text.splitOn]

theorem parsePath_slash_plain (cs : List Char) (h : Plain name) :
    parsePath (String.ofList (cs ++ '/' :: name.toList)) =
      parsePath (String.ofList cs) ++ [name] := by
  obtain ⟨hempty, hdot, hdots, hslash⟩ := h
  simp [parsePath, Text.splitOn_append_sep, Text.splitOn_of_not_mem hslash, hempty, hdot, hdots]

theorem toList_of_endsWith_slash {dir : String} (h : dir.endsWith "/") :
    ∃ cs, dir = String.ofList (cs ++ ['/']) := by
  rw [String.endsWith_eq_endsWith_toSlice, String.Slice.endsWith_string_iff,
    String.copy_toSlice] at h
  obtain ⟨cs, hcs⟩ := h
  exact ⟨cs, by rw [← String.ofList_toList (s := dir), ← hcs]; rfl⟩

/-- A name in a directory is found one name further than the directory. -/
theorem parsePath_join (dir : String) (h : Plain name) :
    parsePath (Disk.join dir name) = parsePath dir ++ [name] := by
  unfold Disk.join
  split
  · rename_i hdir
    rcases hdir with hdir | hdir
    · rw [String.isEmpty_iff.1 hdir, String.empty_append, parsePath_of_plain h, parsePath_empty]
      rfl
    · obtain ⟨cs, rfl⟩ := toList_of_endsWith_slash hdir
      have hjoin : String.ofList (cs ++ ['/']) ++ name = String.ofList (cs ++ '/' :: name.toList) :=
        String.toList_inj.1 (by simp)
      rw [hjoin, parsePath_slash_plain cs h, parsePath_slash]
  · have hjoin : dir ++ "/" ++ name = String.ofList (dir.toList ++ '/' :: name.toList) :=
      String.toList_inj.1 (by simp)
    rw [hjoin, parsePath_slash_plain _ h, String.ofList_toList]

theorem join_append (dir name tail : String) :
    Disk.join dir name ++ tail = Disk.join dir (name ++ tail) := by
  unfold Disk.join
  split <;> simp only [String.append_assoc]

end FileTree
end PoolKeeper.InMemory
