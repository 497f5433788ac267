/-
Messages of numbered fields are read back.

A field begins with its number and with what kind of payload it has, so a message
can be read by anyone, whatever its fields mean. Reading is the inverse of writing
for every list of fields whose numbers and lengths have 64 bits (`fields?_bytes`).
-/
import PoolKeeper.Content.Dag
import PoolKeeper.Proofs.Content.Varint

namespace PoolKeeper.Message

/-- What a field holds. -/
inductive Payload where
  | number (n : Nat)
  | bytes (bs : Bytes)
  deriving DecidableEq

/-- A field: its number and its payload. -/
abbrev Field := Nat × Payload

/-- The bytes of a field. -/
def Field.bytes : Field → Bytes
  | (field, .number n) => Dag.numberField field n
  | (field, .bytes bs) => Dag.bytesField field bs

/-- The bytes of a message. -/
def bytes (fields : List Field) : Bytes := fields.flatMap Field.bytes

/-- All numbers that are written for a field have 64 bits. -/
def Field.Fits : Field → Prop
  | (field, .number n) => field < 2 ^ 61 ∧ n < 2 ^ 64
  | (field, .bytes bs) => field < 2 ^ 61 ∧ bs.length < 2 ^ 64

/-! ## Reading -/

/-- The payload of a kind, and what follows it. Only two kinds are in use. -/
def payload? (kind : Nat) (bs : Bytes) : Option (Payload × Bytes) :=
  if kind = 0 then (Varint.decode? bs).map fun n => (.number n.1, n.2)
  else if kind = 2 then
    (Varint.decode? bs).bind fun length =>
      if length.1 ≤ length.2.length then
        some (.bytes (length.2.take length.1), length.2.drop length.1)
      else none
  else none

/-- The first field of a message, and what follows it. -/
def field? (bs : Bytes) : Option (Field × Bytes) :=
  (Varint.decode? bs).bind fun key =>
    (payload? (key.1 % 8) key.2).map fun p => ((key.1 / 8, p.1), p.2)

theorem length_le_of_payload? {kind : Nat} {bs rest : Bytes} {p : Payload}
    (h : payload? kind bs = some (p, rest)) : rest.length ≤ bs.length := by
  rw [payload?] at h
  split at h
  · obtain ⟨n, hn, hp⟩ := Option.map_eq_some_iff.1 h
    cases hp
    exact Nat.le_of_lt (Varint.length_lt_of_decodeFrom hn)
  · split at h
    · obtain ⟨length, hlength, hp⟩ := Option.bind_eq_some_iff.1 h
      have hlt := Varint.length_lt_of_decodeFrom hlength
      split at hp
      · cases hp
        rw [List.length_drop]
        omega
      · cases hp
    · cases h

/-- A field takes a byte at least. -/
theorem length_lt_of_field? {bs rest : Bytes} {f : Field} (h : field? bs = some (f, rest)) :
    rest.length < bs.length := by
  obtain ⟨key, hkey, h⟩ := Option.bind_eq_some_iff.1 h
  obtain ⟨p, hp, hf⟩ := Option.map_eq_some_iff.1 h
  cases hf
  exact Nat.lt_of_le_of_lt (length_le_of_payload? hp) (Varint.length_lt_of_decodeFrom hkey)

/-- The fields of a message, in the order of its bytes. -/
def fields? (bs : Bytes) : Option (List Field) :=
  match _h : field? bs with
  | none => if bs.isEmpty then some [] else none
  | some (f, rest) => (fields? rest).map (f :: ·)
termination_by bs.length
decreasing_by exact length_lt_of_field? _h

theorem fields?_nil : fields? [] = some [] := by
  rw [fields?]
  rfl

theorem fields?_of_field? {bs rest : Bytes} {f : Field} (h : field? bs = some (f, rest)) :
    fields? bs = (fields? rest).map (f :: ·) := by
  rw [fields?]
  split
  · rename_i hnone
    cases hnone.symm.trans h
  · rename_i hsome
    cases hsome.symm.trans h
    rfl

/-- A written field is read back, whatever follows it. -/
theorem field?_bytes {f : Field} (h : f.Fits) (rest : Bytes) :
    field? (f.bytes ++ rest) = some (f, rest) := by
  obtain ⟨field, n | bs⟩ := f
  · obtain ⟨hfield, hn⟩ := h
    have hkey : field * 8 < 2 ^ 64 := by omega
    simp [Field.bytes, Dag.numberField, field?, payload?, Varint.decode?_encode, hkey, hn]
  · obtain ⟨hfield, hlength⟩ := h
    have hkey : field * 8 + 2 < 2 ^ 64 := by omega
    have hkind : (field * 8 + 2) % 8 = 2 ∧ (field * 8 + 2) / 8 = field := by omega
    simp [Field.bytes, Dag.bytesField, field?, payload?, Varint.decode?_encode, hkey, hkind,
      hlength]

/-- **A message is read as its fields.** -/
theorem fields?_bytes {fields : List Field} (h : ∀ f ∈ fields, f.Fits) :
    fields? (bytes fields) = some fields := by
  induction fields with
  | nil => exact fields?_nil
  | cons f fields ih =>
    obtain ⟨hf, hfields⟩ := List.forall_mem_cons.1 h
    rw [bytes, List.flatMap_cons, fields?_of_field? (field?_bytes hf _)]
    rw [bytes] at ih
    rw [ih hfields]
    rfl

/-! ## Fields by their number -/

/-- The numbers in the fields of a number. -/
def numbers (field : Nat) (fields : List Field) : List Nat :=
  fields.filterMap fun
    | (k, .number n) => if k = field then some n else none
    | (_, .bytes _) => none

/-- The byte strings in the fields of a number. -/
def parts (field : Nat) (fields : List Field) : List Bytes :=
  fields.filterMap fun
    | (_, .number _) => none
    | (k, .bytes bs) => if k = field then some bs else none

section Fields
variable {α : Type} (field : Nat)

theorem numbers_append (fs gs : List Field) :
    numbers field (fs ++ gs) = numbers field fs ++ numbers field gs := List.filterMap_append

theorem parts_append (fs gs : List Field) :
    parts field (fs ++ gs) = parts field fs ++ parts field gs := List.filterMap_append

/-- Something is picked of every item, or of none. -/
theorem filterMap_map_ite {β γ : Type} {p : Prop} [Decidable p] {g : α → β} {pick : β → Option γ}
    {f : α → γ} (h : ∀ x, pick (g x) = if p then some (f x) else none) (xs : List α) :
    (xs.map g).filterMap pick = if p then xs.map f else [] := by
  by_cases hp : p
  · rw [if_pos hp]
    induction xs with
    | nil => rfl
    | cons x xs ih => rw [List.map_cons, List.filterMap_cons_some ((h x).trans (if_pos hp)), ih,
        List.map_cons]
  · rw [if_neg hp]
    induction xs with
    | nil => rfl
    | cons x xs ih => rw [List.map_cons, List.filterMap_cons_none ((h x).trans (if_neg hp)), ih]

/-- Fields of one number hold what they do under it, and nothing under another. -/
theorem numbers_map_number (k : Nat) (f : α → Nat) (xs : List α) :
    numbers field (xs.map fun x => (k, .number (f x))) = if k = field then xs.map f else [] := by
  refine filterMap_map_ite ?_ xs
  exact fun _ => rfl

theorem parts_map_bytes (k : Nat) (f : α → Bytes) (xs : List α) :
    parts field (xs.map fun x => (k, .bytes (f x))) = if k = field then xs.map f else [] := by
  refine filterMap_map_ite ?_ xs
  exact fun _ => rfl

end Fields

end PoolKeeper.Message
