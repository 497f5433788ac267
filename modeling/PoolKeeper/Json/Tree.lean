/-
What a reader sees of a JSON text: its first value, up to the first fault.

The text is not required to be JSON to the end. A fault closes nothing: the
values around it are kept, marked as not closed, so that a reader who meets a
value of the wrong shape before the fault can report that first. Whatever
follows the first value is not looked at.

Two things are put off until somebody wants the value. A string whose escapes
or bytes are no text stays a string (`none`), and a number too large for a
double stays a number; a value that is skipped may hold both.
-/
import PoolKeeper.Bytes

namespace PoolKeeper.Json

/-- A number: a whole number of 64 bits written in plain digits, or any other,
of which only matters whether a double can hold it. -/
inductive Numeric where
  | whole (n : UInt64)
  /-- The number `-n`, where `n` is from 1 to 2⁶³. -/
  | negative (n : UInt64)
  | other (inRange : Bool)
  deriving DecidableEq

/-- The first value of a text. -/
inductive Tree where
  | null
  | bool (b : Bool)
  | number (n : Numeric)
  | string (s : Option String)
  | array (items : List Tree) (closed : Bool)
  | object (members : List (Option String × Tree)) (closed : Bool)
  /-- An object that starts with this value in the place of a key. -/
  | keyless (first : Tree)
  | fault
  deriving Inhabited

namespace Tree

mutual
/-- There is a fault in the value, which nobody can skip. -/
def faulty : Tree → Bool
  | .fault | .keyless _ => true
  | .array items closed => !closed || anyFaulty items
  | .object members closed => !closed || anyMemberFaulty members
  | _ => false

def anyFaulty : List Tree → Bool
  | [] => false
  | t :: ts => faulty t || anyFaulty ts

def anyMemberFaulty : List (Option String × Tree) → Bool
  | [] => false
  | (_, t) :: ms => faulty t || anyMemberFaulty ms
end

mutual
/-- The value cannot be taken in as a whole: there is a fault, a string that is
no text, a number out of range, or more than `depth` containers in each other. -/
def unreadable (depth : Nat) : Tree → Bool
  | .fault | .keyless _ => true
  | .string s => s.isNone
  | .number (.other inRange) => !inRange
  | .array items closed =>
    match depth with
    | 0 => true
    | depth + 1 => !closed || anyUnreadable depth items
  | .object members closed =>
    match depth with
    | 0 => true
    | depth + 1 => !closed || anyMemberUnreadable depth members
  | _ => false

def anyUnreadable (depth : Nat) : List Tree → Bool
  | [] => false
  | t :: ts => unreadable depth t || anyUnreadable depth ts

def anyMemberUnreadable (depth : Nat) : List (Option String × Tree) → Bool
  | [] => false
  | (k, t) :: ms => k.isNone || unreadable depth t || anyMemberUnreadable depth ms
end

end Tree
end PoolKeeper.Json
