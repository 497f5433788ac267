/-
The local directory of rewards files, one compressed file for every interval.

A file is written under another name first and then renamed, so that what
stands under its final name is always complete.
-/
import PoolKeeper.Disk
import PoolKeeper.Rewards.Compressed
import PoolKeeper.Rewards.Mirror
import PoolKeeper.Rewards.Resolve

namespace PoolKeeper

/-- Why something cannot be done with a rewards file. -/
inductive ArtifactFault where
  | file (f : FileFault)
  /-- The file system failed at a path. -/
  | disk (path : String)
  | event (f : EventFault)
  deriving DecidableEq

def ArtifactFault.failure : ArtifactFault → Failure
  | .file f => .text f.message
  | .disk path => .because ("error accessing " ++ path) (.first .file)
  | .event f => f.failure

structure Store where
  dir : String
  network : Network
  deriving DecidableEq

namespace Store
variable [Compression] (s : Store)

/-- The name of an interval's file before it is compressed. -/
def fileName (interval : UInt64) : String := publishedName s.network interval

/-- Where the compressed file of an interval is kept. -/
def path (interval : UInt64) : String :=
  Disk.join s.dir (s.fileName interval ++ compressedExtension)

/-- Where the file of an interval is kept until it is complete. -/
def partialPath (interval : UInt64) : String := s.path interval ++ ".partial"

/-- The stored file of an interval, if there is one. -/
def load (interval : UInt64) : Attempt Disk ArtifactFault (Option RewardsFile) :=
  .ofOutcome do
    match ← (Disk.read (s.path interval)).outcome with
    | .error .absent => return .ok none
    | .error .refused => return .error (.disk (s.path interval))
    | .ok bytes =>
      match RewardsFile.decode bytes with
      | .ok f => return .ok (some f)
      | .error e => return .error (.file e)

/-- Stores compressed bytes as the file of an interval, and says where. -/
def saveBytes (interval : UInt64) (bytes : Bytes) : Attempt Disk ArtifactFault String := do
  (Disk.makeDirs s.dir).mapError fun _ => .disk s.dir
  (Disk.write (s.partialPath interval) bytes).mapError fun _ => .disk (s.partialPath interval)
  (Disk.rename (s.partialPath interval) (s.path interval)).mapError fun _ => .disk (s.path interval)
  return s.path interval

/-- Stores a file as that of an interval. -/
def save (interval : UInt64) (f : RewardsFile) : Attempt Disk ArtifactFault String :=
  s.saveBytes interval f.encode

end Store
end PoolKeeper
