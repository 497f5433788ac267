/-
Reading records: objects with certain fields, in any order and among others.

A record may also be an array of its fields in their order. Of several faults
the one that comes first in the text counts, so every answer about a field
knows at which member of the record it was given, and of two failures the
earlier is kept. A field that is missing shows only at the end.
-/
import PoolKeeper.Json.Read

namespace PoolKeeper.Json

/-- A value read from a record, or a failure and the member it was met at. -/
inductive Answer (α : Type) where
  | ok (a : α)
  | error (place : Nat) (e : ReadError)

namespace Answer
variable {α β : Type}

def map (f : α → β) : Answer α → Answer β
  | .ok a => .ok (f a)
  | .error i e => .error i e

/-- Both answers; of two failures the earlier. -/
def both (f : Answer (α → β)) (a : Answer α) : Answer β :=
  match f, a with
  | .ok f, .ok a => .ok (f a)
  | .error i e, .ok _ => .error i e
  | .ok _, .error j e => .error j e
  | .error i e, .error j e' => if i ≤ j then .error i e else .error j e'

def toExcept : Answer α → Except ReadError α
  | .ok a => .ok a
  | .error _ e => .error e

end Answer

/-- A field that the text holds. -/
structure Entry where
  place : Nat
  segment : Segment
  value : Tree

/-- The fields that a text holds, and the place behind its last member. -/
structure Fields where
  path : Path
  found : List (String × Entry)
  size : Nat

/-- Reads some fields of a record, whose names are known beforehand. -/
structure FieldReader (α : Type) where
  names : List String
  read : Fields → Answer α

instance : Functor FieldReader where
  map f r := ⟨r.names, fun fs => (r.read fs).map f⟩

instance : Seq FieldReader where
  seq f r := ⟨f.names ++ (r ()).names, fun fs => (f.read fs).both ((r ()).read fs)⟩

/-- A field, or what stands for it when it is missing. -/
def FieldReader.lookUp {α : Type} (name : String) (r : Reader α) (missing : Fields → Answer α) :
    FieldReader α :=
  ⟨[name], fun fs =>
    match fs.found.lookup name with
    | none => missing fs
    | some e =>
      match r (e.segment :: fs.path) e.value with
      | .ok a => .ok a
      | .error err => .error e.place err⟩

/-- A field that must be there. -/
def field {α : Type} (name : String) (r : Reader α) : FieldReader α :=
  .lookUp name r fun fs => .error (fs.size + 1) (.misfit fs.path)

/-- A field that has a default. -/
def fieldOr {α : Type} (name : String) (default : α) (r : Reader α) : FieldReader α :=
  .lookUp name r fun _ => .ok default

/-- The known fields of an object from its `i`th member on, with the first
failure that is not about a field's own value: a field given twice, a key that
is no text, an unknown member that cannot be skipped. -/
def Fields.ofMembers (names : List String) (path : Path) :
    (i : Nat) → (seen : List String) → List (Option String × Tree) →
      List (String × Entry) × Answer Unit
  | _, _, [] => ([], .ok ())
  | i, _, (none, _) :: _ => ([], .error i .broken)
  | i, seen, (some k, t) :: ms =>
    if names.contains k then
      if seen.contains k then ([], .error i (.misfit path))
      else
        let (es, a) := ofMembers names path (i + 1) (k :: seen) ms
        ((k, ⟨i, .key k, t⟩) :: es, a)
    else if t.faulty then ([], .error i .broken)
    else ofMembers names path (i + 1) seen ms

/-- The fields of an array, by their order. -/
def Fields.ofItems : (i : Nat) → List String → List Tree → List (String × Entry)
  | i, name :: names, t :: ts => (name, ⟨i, .index i, t⟩) :: ofItems (i + 1) names ts
  | _, _, _ => []

/-- A record with the fields that `r` reads. -/
def record {α : Type} (r : FieldReader α) : Reader α := fun path t =>
  match t with
  | .object members closed =>
    let (found, sound) := Fields.ofMembers r.names path 0 [] members
    let size := members.length
    let ending : Answer Unit := if closed then .ok () else .error size .broken
    let whole := ((sound.map fun _ _ => ()).both ending).map fun _ a => a
    (whole.both (r.read ⟨path, found, size⟩)).toExcept
  | .array items closed =>
    let size := items.length
    let ending : Answer Unit :=
      if closed ∧ size ≤ r.names.length then .ok ()
      else .error (min size r.names.length) .broken
    ((ending.map fun _ a => a).both (r.read ⟨path, Fields.ofItems 0 r.names items, size⟩)).toExcept
  | .keyless _ => .error .broken
  | t => .error (Reader.mismatch path t)

end PoolKeeper.Json
