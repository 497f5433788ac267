/-
File systems that may fail.

An `Unreliable` file system holds a file tree and does what it is asked, or fails
to make a directory, to write or to rename, and leaves behind some of the
directories or a part of the file (`Remains`). The lemmas say for each call what
is there after it, when it was done and when it failed.
-/
import PoolKeeper.Proofs.FileTree

namespace PoolKeeper
open InMemory

/-- A failure, as the reply to a call. -/
def Disk.failing (fault : DiskFault) : (c : Disk.Call) → Disk.Reply c
  | .read _ | .makeDirs _ | .write _ _ | .rename _ _ => .error fault

namespace InMemory.FileTree
variable {t t' : FileTree}

/-- What a call may leave behind that fails though nothing stands in its way. A read does not fail
so, and nothing is left of a renaming. -/
inductive Remains (t : FileTree) : Disk.Call → FileTree → Prop
  /-- Some of the directories on the way, or none. -/
  | someDirs {path : String} {t' : FileTree} (n : Nat)
      (h : t.makeDirs ((parsePath path).take n) = .ok t') : Remains t (.makeDirs path) t'
  | unwritten {path : String} {bytes : Bytes} : Remains t (.write path bytes) t
  /-- A file with other bytes, such as a part of those that were to be written. -/
  | cutOff {path : String} {bytes : Bytes} {t' : FileTree} (written : Bytes)
      (h : t.write (parsePath path) written = .ok t') : Remains t (.write path bytes) t'
  | notRenamed {source target : String} : Remains t (.rename source target) t

theorem Remains.makeDirs {path : String} (h : Remains t (.makeDirs path) t') :
    ∃ n, t.makeDirs ((parsePath path).take n) = .ok t' := by
  cases h with
  | someDirs n h => exact ⟨n, h⟩

theorem Remains.write {path : String} {bytes : Bytes} (h : Remains t (.write path bytes) t') :
    t' = t ∨ ∃ written, t' = t.put (parsePath path) (.file written) := by
  cases h with
  | unwritten => exact .inl rfl
  | cutOff written h => exact .inr ⟨written, of_write_eq_ok h⟩

theorem Remains.rename {source target : String} (h : Remains t (.rename source target) t') :
    t' = t := by
  cases h
  rfl

/-- Where something stands in the way nothing is done. -/
theorem of_step_eq_failing {c : Disk.Call} {fault : DiskFault}
    (h : t.step c = (Disk.failing fault c, t')) : t' = t := by
  cases c with
  | read path => exact (congrArg Prod.snd h).symm
  | makeDirs path => exact after_eq_error h
  | write path bytes => exact after_eq_error h
  | rename source target => exact after_eq_error h

/-- There is nothing in the directory. It may have to be made, and no file stands in the way. -/
structure IsEmptyAt (t : FileTree) (dir : DiskPath) : Prop where
  clear : t.Clear dir
  get?_eq_none : ∀ name, t.get? (dir ++ [name]) = none

theorem isEmptyAt_empty (dir : DiskPath) : FileTree.empty.IsEmptyAt dir where
  clear := clear_empty dir
  get?_eq_none name := by simp [FileTree.empty, get?]

end InMemory.FileTree

open FileTree in
/-- Surroundings that hold a file tree and do what they are asked, or fail and say so. -/
def Unreliable {τ : Type} (v : Surroundings Disk τ) (tree : τ → FileTree) : Prop :=
  ∀ c d, ((v c d).1, tree (v c d).2) = (tree d).step c ∨
    ∃ fault, (v c d).1 = Disk.failing fault c ∧ Remains (tree d) c (tree (v c d).2)

namespace Unreliable
open FileTree
variable {τ : Type} {v : Surroundings Disk τ} {tree : τ → FileTree} {d d' : τ}

theorem step_of_ne_failing (hv : Unreliable v tree) (c : Disk.Call) {r : Disk.Reply c}
    (h : v c d = (r, d')) (hr : ∀ fault, r ≠ Disk.failing fault c) :
    (tree d).step c = (r, tree d') := by
  rcases hv c d with hstep | ⟨fault, hfail, -⟩
  · rw [h] at hstep
    exact hstep.symm
  · rw [h] at hfail
    exact absurd hfail (hr fault)

theorem remains_of_failing (hv : Unreliable v tree) (c : Disk.Call) {fault : DiskFault}
    (h : v c d = (Disk.failing fault c, d')) :
    tree d' = tree d ∨ Remains (tree d) c (tree d') := by
  rcases hv c d with hstep | ⟨fault', -, hremains⟩
  · rw [h] at hstep
    exact .inl (of_step_eq_failing hstep.symm)
  · rw [h] at hremains
    exact .inr hremains

theorem read (hv : Unreliable v tree) (path : String) (d : τ) :
    (v (.read path) d).1 = (tree d).read (parsePath path) := by
  rcases hv (.read path) d with h | ⟨fault, -, h⟩
  · exact congrArg Prod.fst h
  · cases h

theorem makeDirs_ok (hv : Unreliable v tree) {path : String}
    (h : (Disk.makeDirs path).runIn v d = (.ok (), d')) :
    (tree d).makeDirs (parsePath path) = .ok (tree d') :=
  after_eq_ok.1 (hv.step_of_ne_failing (.makeDirs path) h nofun)

theorem makeDirs_error (hv : Unreliable v tree) {path : String} {fault : DiskFault}
    (h : (Disk.makeDirs path).runIn v d = (.error fault, d')) :
    ∃ n, (tree d).makeDirs ((parsePath path).take n) = .ok (tree d') := by
  rcases hv.remains_of_failing (.makeDirs path) h with hsame | hremains
  · exact ⟨0, congrArg Except.ok hsame.symm⟩
  · exact hremains.makeDirs

theorem write_ok (hv : Unreliable v tree) {path : String} {bytes : Bytes}
    (h : (Disk.write path bytes).runIn v d = (.ok (), d')) :
    tree d' = (tree d).put (parsePath path) (.file bytes) :=
  of_write_eq_ok (after_eq_ok.1 (hv.step_of_ne_failing (.write path bytes) h nofun))

theorem write_error (hv : Unreliable v tree) {path : String} {bytes : Bytes} {fault : DiskFault}
    (h : (Disk.write path bytes).runIn v d = (.error fault, d')) :
    tree d' = tree d ∨ ∃ written, tree d' = (tree d).put (parsePath path) (.file written) := by
  rcases hv.remains_of_failing (.write path bytes) h with hsame | hremains
  · exact .inl hsame
  · exact hremains.write

theorem rename_ok (hv : Unreliable v tree) {source target : String}
    (h : (Disk.rename source target).runIn v d = (.ok (), d')) :
    ∃ bytes, (tree d).get? (parsePath source) = some (.file bytes) ∧
      tree d' = ((tree d).erase (parsePath source)).put (parsePath target) (.file bytes) :=
  of_rename_eq_ok (after_eq_ok.1 (hv.step_of_ne_failing (.rename source target) h nofun))

theorem rename_error (hv : Unreliable v tree) {source target : String} {fault : DiskFault}
    (h : (Disk.rename source target).runIn v d = (.error fault, d')) : tree d' = tree d := by
  rcases hv.remains_of_failing (.rename source target) h with hsame | hremains
  · exact hsame
  · exact hremains.rename

end Unreliable
end PoolKeeper
