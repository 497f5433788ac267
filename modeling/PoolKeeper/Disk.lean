/-
The file system, as far as a store of files needs it.
-/
import PoolKeeper.Bytes
import PoolKeeper.Program

namespace PoolKeeper

/-- Why the file system does not do what it is asked to. -/
inductive DiskFault where
  /-- There is no such file. -/
  | absent
  | refused
  deriving DecidableEq

inductive Disk.Call where
  | read (path : String)
  /-- Makes a directory and those that it lies in, as far as they are missing. -/
  | makeDirs (path : String)
  | write (path : String) (bytes : Bytes)
  /-- Gives a file another name, in the place of what had it before. -/
  | rename (source target : String)
  deriving DecidableEq

abbrev Disk.Reply : Disk.Call → Type
  | .read _ => Except DiskFault Bytes
  | .makeDirs _ => Except DiskFault Unit
  | .write _ _ => Except DiskFault Unit
  | .rename _ _ => Except DiskFault Unit

/-- The file system. -/
abbrev Disk : Interface := ⟨Disk.Call, Disk.Reply⟩

namespace Disk

def read (path : String) : Attempt Disk DiskFault Bytes :=
  .ofOutcome (Program.call (I := Disk) (.read path))

def makeDirs (path : String) : Attempt Disk DiskFault Unit :=
  .ofOutcome (Program.call (I := Disk) (.makeDirs path))

def write (path : String) (bytes : Bytes) : Attempt Disk DiskFault Unit :=
  .ofOutcome (Program.call (I := Disk) (.write path bytes))

def rename (source target : String) : Attempt Disk DiskFault Unit :=
  .ofOutcome (Program.call (I := Disk) (.rename source target))

/-- A name inside a directory. An empty directory name stands for no directory. -/
def join (dir name : String) : String :=
  if dir.isEmpty ∨ dir.endsWith "/" then dir ++ name else dir ++ "/" ++ name

end Disk
end PoolKeeper
