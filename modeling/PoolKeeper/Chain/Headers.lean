/-
The headers of the execution chain.
-/
import PoolKeeper.Failure
import PoolKeeper.Program
import PoolKeeper.Rewards.Json

namespace PoolKeeper

structure BlockHeader where
  number : UInt64
  timestamp : UInt64
  hash : Hash
  deriving DecidableEq

def BlockHeader.json (h : BlockHeader) : Json :=
  .object [
    ("number", .ofUInt64 h.number),
    ("timestamp", .ofUInt64 h.timestamp),
    ("hash", h.hash.json)]

inductive Headers.Call where
  | byNumber (number : UInt64)
  | latest
  deriving DecidableEq

abbrev Headers.Reply (_ : Headers.Call) : Type := Except Failure BlockHeader

/-- The headers of the execution chain. -/
abbrev Headers : Interface := ⟨Headers.Call, Headers.Reply⟩

namespace Headers

def byNumber (number : UInt64) : Attempt Headers Failure BlockHeader :=
  .ofOutcome (Program.call (I := Headers) (.byNumber number))

def latest : Attempt Headers Failure BlockHeader :=
  .ofOutcome (Program.call (I := Headers) .latest)

end Headers
end PoolKeeper
