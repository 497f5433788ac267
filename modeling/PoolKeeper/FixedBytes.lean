/-
Values of a fixed number of bytes: addresses, hashes and validator keys. They
are ordered as big-endian numbers, which is the order of their byte strings.
-/
import PoolKeeper.Bytes
import PoolKeeper.Word

namespace PoolKeeper

/-- `n` bytes, held as one number. -/
structure FixedBytes (n : Nat) where
  bits : BitVec (8 * n)
  deriving DecidableEq, Hashable

/-- An account or contract address. -/
abbrev Address := FixedBytes 20

/-- A 32-byte digest. -/
abbrev Hash := FixedBytes 32

/-- The public key of a validator. -/
abbrev Pubkey := FixedBytes 48

namespace FixedBytes
variable {n : Nat}

instance : LE (FixedBytes n) := ⟨fun a b => a.bits ≤ b.bits⟩
instance : LT (FixedBytes n) := ⟨fun a b => a.bits < b.bits⟩
instance (a b : FixedBytes n) : Decidable (a ≤ b) := inferInstanceAs (Decidable (a.bits ≤ b.bits))
instance (a b : FixedBytes n) : Decidable (a < b) := inferInstanceAs (Decidable (a.bits < b.bits))

/-- All bytes zero. -/
def zero : FixedBytes n := ⟨0⟩

instance : Inhabited (FixedBytes n) := ⟨zero⟩

def ofNat (x : Nat) : FixedBytes n := ⟨BitVec.ofNat (8 * n) x⟩

/-- The bytes, most significant first. -/
def toBytes (x : FixedBytes n) : Bytes := Bytes.bigEndian n x.bits.toNat

/-- A value from its bytes. -/
def ofBytes? (bs : Bytes) : Option (FixedBytes n) :=
  if bs.length = n then some (ofNat bs.toNat) else none

@[simp] theorem length_toBytes (x : FixedBytes n) : x.toBytes.length = n :=
  Bytes.length_bigEndian _ _

theorem toNat_toBytes (x : FixedBytes n) : Bytes.toNat x.toBytes = x.bits.toNat := by
  rw [toBytes, Bytes.toNat_bigEndian]
  apply Nat.mod_eq_of_lt
  have : (256 : Nat) ^ n = 2 ^ (8 * n) := by rw [Nat.pow_mul]
  rw [this]
  exact x.bits.isLt

theorem toBytes_inj {x y : FixedBytes n} (h : x.toBytes = y.toBytes) : x = y := by
  have := congrArg Bytes.toNat h
  rw [toNat_toBytes, toNat_toBytes] at this
  cases x; cases y
  simpa using BitVec.eq_of_toNat_eq this

theorem ofBytes?_toBytes (x : FixedBytes n) : ofBytes? x.toBytes = some x := by
  simp [ofBytes?, toNat_toBytes, ofNat]

theorem toBytes_of_ofBytes? {bs : Bytes} {x : FixedBytes n} (h : ofBytes? bs = some x) :
    x.toBytes = bs := by
  rw [ofBytes?] at h
  split at h
  · rename_i hlength
    cases h
    apply Bytes.toNat_inj (by rw [length_toBytes, hlength])
    have hlt := Bytes.toNat_lt bs
    rw [hlength, show 256 = 2 ^ 8 from rfl, ← Nat.pow_mul] at hlt
    rw [toNat_toBytes, ofNat, BitVec.toNat_ofNat, Nat.mod_eq_of_lt hlt]
  · cases h

/-- Lower-case hexadecimal text behind `0x`. -/
def text (x : FixedBytes n) : String := "0x" ++ Bytes.toHex x.toBytes

/-- Reads hexadecimal digits of either case, exactly two for each byte, with or
without `0x` or `0X` in front. -/
def ofText? (s : String) : Option (FixedBytes n) :=
  match s.toList with
  | '0' :: 'x' :: cs => (Bytes.ofHexChars? cs).bind ofBytes?
  | '0' :: 'X' :: cs => (Bytes.ofHexChars? cs).bind ofBytes?
  | cs => (Bytes.ofHexChars? cs).bind ofBytes?

theorem ofText?_text (x : FixedBytes n) : ofText? x.text = some x := by
  have h : x.text.toList = '0' :: 'x' :: Bytes.toHexChars x.toBytes := by
    simp [text, Bytes.toHex]
  simp only [ofText?, h, Bytes.ofHexChars?_toHexChars, Option.bind_some, ofBytes?_toBytes]

end FixedBytes

/-- The address held in the low bytes of a word. -/
def Address.ofWord (w : Word) : Address := ⟨w.setWidth 160⟩

/-- The word whose low bytes hold an address. -/
def Hash.ofWord (w : Word) : Hash := ⟨w⟩

end PoolKeeper
