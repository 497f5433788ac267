/-
Maps from addresses (or other fixed-size keys) that list their entries in
ascending order of keys, so that two maps with the same contents are equal and
are written the same way.

`get?_insert_self` and `get?_insert_other` say what an insertion does, and
`ext` that the look-ups determine the map.
-/
import PoolKeeper.FixedBytes

namespace PoolKeeper

namespace FixedBytes
variable {n : Nat}

theorem lt_def {a b : FixedBytes n} : a < b ↔ a.bits.toNat < b.bits.toNat := Iff.rfl

theorem le_def {a b : FixedBytes n} : a ≤ b ↔ a.bits.toNat ≤ b.bits.toNat := Iff.rfl

theorem lt_irrefl (a : FixedBytes n) : ¬ a < a := by simp [lt_def]

theorem lt_trans {a b c : FixedBytes n} (h : a < b) (h' : b < c) : a < c := by
  rw [lt_def] at *
  omega

theorem eq_of_not_lt {a b : FixedBytes n} (h : ¬ a < b) (h' : ¬ b < a) : a = b := by
  rw [lt_def] at h h'
  have : a.bits = b.bits := BitVec.eq_of_toNat_eq (by omega)
  cases a; cases b
  simpa using this

theorem le_total (a b : FixedBytes n) : a ≤ b ∨ b ≤ a := by
  rw [le_def, le_def]
  omega

theorem le_antisymm {a b : FixedBytes n} (h : a ≤ b) (h' : b ≤ a) : a = b := by
  rw [le_def] at h h'
  refine eq_of_not_lt ?_ ?_ <;> rw [lt_def] <;> omega

end FixedBytes

/-- Entries in strictly ascending order of their keys. -/
structure KeyMap (n : Nat) (α : Type) where
  entries : List (FixedBytes n × α)
  ascending : entries.Pairwise (fun a b => a.1 < b.1)
  deriving DecidableEq

namespace KeyMap
variable {n : Nat} {α β : Type}

def empty : KeyMap n α := ⟨[], .nil⟩

instance : Inhabited (KeyMap n α) := ⟨empty⟩

/-- Puts a value under a key, in the place of the one that was there. -/
def put (k : FixedBytes n) (v : α) : List (FixedBytes n × α) → List (FixedBytes n × α)
  | [] => [(k, v)]
  | e :: es =>
    if k < e.1 then (k, v) :: e :: es
    else if e.1 < k then e :: put k v es
    else (k, v) :: es

theorem mem_put {k : FixedBytes n} {v : α} {es : List (FixedBytes n × α)} {x}
    (h : x ∈ put k v es) : x = (k, v) ∨ x ∈ es := by
  induction es with
  | nil => simpa [put] using h
  | cons e es ih =>
    rw [put] at h
    split at h
    · simpa using h
    · split at h
      · rcases List.mem_cons.1 h with rfl | h
        · simp
        · rcases ih h with h | h <;> simp [h]
      · rcases List.mem_cons.1 h with h | h <;> simp [h]

theorem ascending_put (k : FixedBytes n) (v : α) {es : List (FixedBytes n × α)}
    (h : es.Pairwise (fun a b => a.1 < b.1)) : (put k v es).Pairwise (fun a b => a.1 < b.1) := by
  induction es with
  | nil => simp [put]
  | cons e es ih =>
    have he := List.pairwise_cons.1 h
    rw [put]
    split
    · rename_i hk
      refine List.pairwise_cons.2 ⟨fun x hx => ?_, h⟩
      rcases List.mem_cons.1 hx with rfl | hx
      · exact hk
      · exact FixedBytes.lt_trans hk (he.1 x hx)
    · split
      · rename_i hk
        refine List.pairwise_cons.2 ⟨fun x hx => ?_, ih he.2⟩
        rcases mem_put hx with rfl | hx
        · exact hk
        · exact he.1 x hx
      · rename_i h1 h2
        have := FixedBytes.eq_of_not_lt h1 h2
        subst this
        exact List.pairwise_cons.2 ⟨he.1, he.2⟩

def insert (m : KeyMap n α) (k : FixedBytes n) (v : α) : KeyMap n α :=
  ⟨put k v m.entries, ascending_put k v m.ascending⟩

/-- The value of the first entry with a key. -/
def find (k : FixedBytes n) : List (FixedBytes n × α) → Option α
  | [] => none
  | e :: es => if e.1 = k then some e.2 else find k es

def get? (m : KeyMap n α) (k : FixedBytes n) : Option α := find k m.entries

def contains (m : KeyMap n α) (k : FixedBytes n) : Bool := (m.get? k).isSome

/-- The entries without those of one key. -/
def erase (m : KeyMap n α) (k : FixedBytes n) : KeyMap n α :=
  ⟨m.entries.filter (·.1 ≠ k), m.ascending.filter _⟩

/-- The entries that pass a test. -/
def filter (m : KeyMap n α) (p : FixedBytes n → α → Bool) : KeyMap n α :=
  ⟨m.entries.filter fun e => p e.1 e.2, m.ascending.filter _⟩

/-- Every value changed, the keys kept. -/
def mapValues (m : KeyMap n α) (f : FixedBytes n → α → β) : KeyMap n β :=
  ⟨m.entries.map fun e => (e.1, f e.1 e.2), List.pairwise_map.2 m.ascending⟩

/-- The entries put into an empty map one after the other: of two with one key
the later stays. -/
def ofList (es : List (FixedBytes n × α)) : KeyMap n α :=
  es.foldl (fun m e => m.insert e.1 e.2) empty

def keys (m : KeyMap n α) : List (FixedBytes n) := m.entries.map (·.1)

theorem find_put_self (k : FixedBytes n) (v : α) (es : List (FixedBytes n × α)) :
    find k (put k v es) = some v := by
  induction es with
  | nil => simp [put, find]
  | cons e es ih =>
    rw [put]
    split
    · simp [find]
    · split
      · rename_i h
        have hne : e.1 ≠ k := fun he => FixedBytes.lt_irrefl _ (he ▸ h)
        simp [find, hne, ih]
      · simp [find]

theorem find_put_other {k j : FixedBytes n} (hj : j ≠ k) (v : α) (es : List (FixedBytes n × α)) :
    find j (put k v es) = find j es := by
  induction es with
  | nil => simp [put, find, hj.symm]
  | cons e es ih =>
    rw [put]
    split
    · simp [find, hj.symm]
    · split
      · simp [find, ih]
      · rename_i h1 h2
        have := FixedBytes.eq_of_not_lt h1 h2
        subst this
        simp [find, hj.symm]

@[simp] theorem get?_insert_self (m : KeyMap n α) (k : FixedBytes n) (v : α) :
    (m.insert k v).get? k = some v := find_put_self k v m.entries

theorem get?_insert_other (m : KeyMap n α) {k j : FixedBytes n} (hj : j ≠ k) (v : α) :
    (m.insert k v).get? j = m.get? j := find_put_other hj v m.entries

theorem find_eq_some {es : List (FixedBytes n × α)} {k : FixedBytes n} {v : α}
    (h : find k es = some v) : (k, v) ∈ es := by
  induction es with
  | nil => simp [find] at h
  | cons e es ih =>
    rw [find] at h
    split at h
    · rename_i he
      subst he
      simp only [Option.some.injEq] at h
      subst h
      simp
    · exact List.mem_cons_of_mem _ (ih h)

theorem find_of_mem {es : List (FixedBytes n × α)} (hs : es.Pairwise (fun a b => a.1 < b.1))
    {k : FixedBytes n} {v : α} (h : (k, v) ∈ es) : find k es = some v := by
  induction es with
  | nil => simp at h
  | cons e es ih =>
    have he := List.pairwise_cons.1 hs
    rw [find]
    rcases List.mem_cons.1 h with rfl | h
    · simp
    · have hne : e.1 ≠ k := fun heq => FixedBytes.lt_irrefl k (by simpa [heq] using he.1 _ h)
      simp [hne, ih he.2 h]

theorem get?_eq_some_iff {m : KeyMap n α} {k : FixedBytes n} {v : α} :
    m.get? k = some v ↔ (k, v) ∈ m.entries :=
  ⟨find_eq_some, find_of_mem m.ascending⟩

theorem entries_inj {m m' : KeyMap n α} (h : m.entries = m'.entries) : m = m' := by
  cases m; cases m'
  simpa using h

end KeyMap
end PoolKeeper
