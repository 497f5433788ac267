/-
A file system held in memory: files and directories by their paths.
-/
import PoolKeeper.Disk
import PoolKeeper.Text

namespace PoolKeeper.InMemory

/-- The names on the way to a file. -/
abbrev DiskPath := List String

/-- What is found under a path. -/
inductive DiskEntry where
  | directory
  | file (bytes : Bytes)
  deriving DecidableEq

/-- Entries by their paths; the empty path is the root directory. -/
structure FileTree where
  entries : List (DiskPath × DiskEntry)

namespace FileTree
variable (t : FileTree)

def empty : FileTree := ⟨[]⟩

/-- The names of a path between slashes. A name of one point says nothing, and
one of two points undoes the name before. -/
def parsePath (path : String) : DiskPath :=
  ((Text.splitOn '/' path.toList).map String.ofList).foldl
    (fun names name =>
      if name = "" ∨ name = "." then names
      else if name = ".." then names.dropLast
      else names ++ [name]) []

def get? (path : DiskPath) : Option DiskEntry :=
  if path = [] then some .directory else t.entries.lookup path

def erase (path : DiskPath) : FileTree := ⟨t.entries.filter (·.1 ≠ path)⟩

def put (path : DiskPath) (e : DiskEntry) : FileTree := ⟨(path, e) :: (t.erase path).entries⟩

/-- All that a path leads through is a directory. -/
def enter (path : DiskPath) : Except DiskFault Unit :=
  go path.length
where
  go : Nat → Except DiskFault Unit
    | 0 => .ok ()
    | n + 1 => do
      go n
      match t.get? (path.take n) with
      | some .directory => .ok ()
      | some (.file _) => .error .refused
      | none => .error .absent

def read (path : DiskPath) : Except DiskFault Bytes := do
  t.enter path
  match t.get? path with
  | some (.file bytes) => .ok bytes
  | some .directory => .error .refused
  | none => .error .absent

def write (path : DiskPath) (bytes : Bytes) : Except DiskFault FileTree := do
  t.enter path
  match t.get? path with
  | some .directory => .error .refused
  | _ => .ok (t.put path (.file bytes))

/-- Makes a directory unless it is there. -/
def makeDir (path : DiskPath) : Except DiskFault FileTree :=
  match t.get? path with
  | some .directory => .ok t
  | some (.file _) => .error .refused
  | none => .ok (t.put path .directory)

/-- Makes a directory, after those that it lies in. -/
def makeDirs (path : DiskPath) : Except DiskFault FileTree :=
  (List.range path.length).foldlM (fun t n => t.makeDir (path.take (n + 1))) t

def rename (source target : DiskPath) : Except DiskFault FileTree := do
  let bytes ← t.read source
  t.enter target
  match t.get? target with
  | some .directory => .error .refused
  | _ => .ok ((t.erase source).put target (.file bytes))

/-- The file system after an operation that may not have been done. -/
def after (r : Except DiskFault FileTree) : Except DiskFault Unit × FileTree :=
  match r with
  | .ok t => (.ok (), t)
  | .error f => (.error f, t)

/-- The reply to a call, and the file system after it. -/
def step : (call : Disk.Call) → Disk.Reply call × FileTree
  | .read path => (t.read (parsePath path), t)
  | .makeDirs path => t.after (t.makeDirs (parsePath path))
  | .write path bytes => t.after (t.write (parsePath path) bytes)
  | .rename source target => t.after (t.rename (parsePath source) (parsePath target))

end FileTree
end PoolKeeper.InMemory
