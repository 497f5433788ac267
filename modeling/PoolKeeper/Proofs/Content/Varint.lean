/-
Variable-length numbers tell where they end.

A number of 64 bits is read back from its bytes, whatever follows them
(`decode?_encode`). Of these bytes only the last is below 128 (`encode_eq_concat`), so
a number that is cut off is not mistaken for another, and none is the beginning of
another (`read_back_and_told_apart`). The other way round there is more than one spelling: a number
may be written in more bytes than it needs, and is read all the same. Only one that
is read from a single byte is known to be spelled as it would be written
(`decode?_cases`).
-/
import PoolKeeper.Content.Varint

namespace PoolKeeper.Varint

theorem encode_of_lt {n : Nat} (h : n < 0x80) : encode n = [UInt8.ofNat n] := by
  rw [encode, dif_neg (Nat.not_le.2 h)]

theorem encode_of_le {n : Nat} (h : 0x80 ≤ n) :
    encode n = UInt8.ofNat (n % 0x80 + 0x80) :: encode (n / 0x80) := by
  rw [encode, dif_pos h]

theorem byte_inj {x y : Nat} (hx : x < 256) (hy : y < 256)
    (h : UInt8.ofNat x = UInt8.ofNat y) : x = y := by
  have hnat := congrArg UInt8.toNat h
  rwa [UInt8.toNat_ofNat', UInt8.toNat_ofNat', Nat.mod_eq_of_lt hx, Nat.mod_eq_of_lt hy] at hnat

/-- **A number tells where it ends**, whatever follows it: its last byte is the first below 128. -/
theorem encode_append_inj {n m : Nat} {r s : Bytes}
    (h : encode n ++ r = encode m ++ s) : n = m ∧ r = s := by
  induction n using Nat.strongRecOn generalizing m with
  | ind n ih =>
    rcases Nat.lt_or_ge n 0x80 with hn | hn <;> rcases Nat.lt_or_ge m 0x80 with hm | hm
    · rw [encode_of_lt hn, encode_of_lt hm] at h
      obtain ⟨hbyte, rfl⟩ := List.cons.inj h
      exact ⟨byte_inj (by omega) (by omega) hbyte, rfl⟩
    · rw [encode_of_lt hn, encode_of_le hm] at h
      have hbyte := byte_inj (by omega) (by omega) (List.cons.inj h).1
      omega
    · rw [encode_of_le hn, encode_of_lt hm] at h
      have hbyte := byte_inj (by omega) (by omega) (List.cons.inj h).1
      omega
    · rw [encode_of_le hn, encode_of_le hm] at h
      obtain ⟨hbyte, hrest⟩ := List.cons.inj h
      obtain ⟨hquotient, rfl⟩ := ih (n / 0x80) (by omega) hrest
      have hbyte := byte_inj (by omega) (by omega) hbyte
      exact ⟨by omega, rfl⟩

/-- Only the last byte is below 128. -/
theorem encode_eq_concat (n : Nat) :
    ∃ high last, encode n = high ++ [last] ∧ (∀ b ∈ high, 0x80 ≤ b.toNat) ∧ last.toNat < 0x80 := by
  induction n using Nat.strongRecOn with
  | ind n ih =>
    rcases Nat.lt_or_ge n 0x80 with hn | hn
    · have hb : (UInt8.ofNat n).toNat = n := by rw [UInt8.toNat_ofNat']; omega
      exact ⟨[], UInt8.ofNat n, encode_of_lt hn, nofun, by rwa [hb]⟩
    · obtain ⟨high, last, hrest, hhigh, hlast⟩ := ih (n / 0x80) (by omega)
      have hb : 0x80 ≤ (UInt8.ofNat (n % 0x80 + 0x80)).toNat := by rw [UInt8.toNat_ofNat']; omega
      refine ⟨UInt8.ofNat (n % 0x80 + 0x80) :: high, last, ?_, ?_, hlast⟩
      · rw [encode_of_le hn, hrest, List.cons_append]
      · exact List.forall_mem_cons.2 ⟨hb, hhigh⟩

/-- A byte is enough for every seven bits. -/
theorem length_encode_le {k n : Nat} (hpos : 0 < k) (h : n < 0x80 ^ k) : (encode n).length ≤ k := by
  induction k generalizing n with
  | zero => exact absurd hpos (Nat.lt_irrefl 0)
  | succ k ih =>
    rcases Nat.lt_or_ge n 0x80 with hn | hn
    · rw [encode_of_lt hn, List.length_singleton]
      omega
    · have hquotient : n / 0x80 < 0x80 ^ k := by
        rw [Nat.div_lt_iff_lt_mul (by decide), ← Nat.pow_succ]
        exact h
      have hk : 0 < k := by
        rcases Nat.eq_zero_or_pos k with rfl | hk
        · rw [Nat.pow_zero] at hquotient
          omega
        · exact hk
      rw [encode_of_le hn, List.length_cons]
      exact Nat.succ_le_succ (ih hk hquotient)

/-- A number of 64 bits takes ten bytes at most: nine times seven bits, and one. -/
theorem length_encode_le_ten {n : Nat} (h : n < 2 ^ 64) : (encode n).length ≤ 10 :=
  length_encode_le (by decide) (Nat.lt_trans h (by decide))

/-! ## Reading -/

section Step
variable (left place value : Nat) {b : UInt8} (bs : Bytes)

/-- The last byte of a number. -/
theorem decodeFrom_of_lt (h : b.toNat < 0x80) :
    decodeFrom (left + 1) place value (b :: bs) = some (value + b.toNat * place % 2 ^ 64, bs) := by
  have hb : b < 0x80 := UInt8.lt_iff_toNat_lt.2 h
  rw [decodeFrom]
  simp only [if_pos hb, Nat.mod_eq_of_lt h]

theorem decodeFrom_of_le (h : 0x80 ≤ b.toNat) :
    decodeFrom (left + 1) place value (b :: bs) =
      decodeFrom left (place * 0x80) (value + b.toNat % 0x80 * place % 2 ^ 64) bs := by
  have hb : ¬ b < 0x80 := fun hlt => Nat.not_lt.2 h (UInt8.lt_iff_toNat_lt.1 hlt)
  rw [decodeFrom]
  exact if_neg hb

end Step

/-- The induction is on the number; `place` is the weight that is left for it. -/
theorem decodeFrom_encode {left place n : Nat} (hleft : n < 0x80 ^ left) (hpos : 0 < left)
    (hfits : n * place < 2 ^ 64) (value : Nat) (rest : Bytes) :
    decodeFrom left place value (encode n ++ rest) = some (value + n * place, rest) := by
  induction n using Nat.strongRecOn generalizing left place value with
  | ind n ih =>
    obtain ⟨left, rfl⟩ := Nat.exists_eq_add_one.2 hpos
    rcases Nat.lt_or_ge n 0x80 with hn | hn
    · have hb : (UInt8.ofNat n).toNat = n := by rw [UInt8.toNat_ofNat']; omega
      rw [encode_of_lt hn, List.singleton_append, decodeFrom_of_lt _ _ _ _ (by omega), hb,
        Nat.mod_eq_of_lt hfits]
    · have hb : (UInt8.ofNat (n % 0x80 + 0x80)).toNat = n % 0x80 + 0x80 := by
        rw [UInt8.toNat_ofNat']
        omega
      have hsum : n % 0x80 * place + n / 0x80 * (place * 0x80) = n * place := by
        rw [Nat.mul_comm place, ← Nat.mul_assoc, ← Nat.add_mul, Nat.mul_comm (n / 0x80),
          Nat.mod_add_div]
      have hquotient : n / 0x80 < 0x80 ^ left := by
        rw [Nat.div_lt_iff_lt_mul (by decide), ← Nat.pow_succ]
        exact hleft
      have hleft' : 0 < left := by
        rcases Nat.eq_zero_or_pos left with rfl | hleft'
        · rw [Nat.pow_zero] at hquotient
          omega
        · exact hleft'
      rw [encode_of_le hn, List.cons_append, decodeFrom_of_le _ _ _ _ (by omega), hb,
        show (n % 0x80 + 0x80) % 0x80 = n % 0x80 by omega, Nat.mod_eq_of_lt (by omega),
        ih (n / 0x80) (by omega) hquotient hleft' (by omega), Nat.add_assoc, hsum]

/-- **A number of 64 bits is read back**, whatever follows it. -/
theorem decode?_encode {n : Nat} (h : n < 2 ^ 64) (rest : Bytes) :
    decode? (encode n ++ rest) = some (n, rest) := by
  have hbytes : n < 0x80 ^ 10 := Nat.lt_trans h (by decide)
  have hread : decodeFrom 10 1 0 (encode n ++ rest) = some (0 + n * 1, rest) :=
    decodeFrom_encode hbytes (by decide) (by omega) 0 rest
  rwa [Nat.zero_add, Nat.mul_one] at hread

/-- A number whose last byte is missing is not read. -/
theorem decodeFrom_eq_none {left place value : Nat} {bs : Bytes} (h : ∀ b ∈ bs, 0x80 ≤ b.toNat) :
    decodeFrom left place value bs = none := by
  induction left generalizing place value bs with
  | zero => rfl
  | succ left ih =>
    cases bs with
    | nil => rfl
    | cons b bs =>
      obtain ⟨hb, hbs⟩ := List.forall_mem_cons.1 h
      rw [decodeFrom_of_le _ _ _ _ hb, ih hbs]

/-- Reading takes a byte at least. -/
theorem length_lt_of_decodeFrom {left place value n : Nat} {bs rest : Bytes}
    (h : decodeFrom left place value bs = some (n, rest)) : rest.length < bs.length := by
  induction left generalizing place value bs with
  | zero => cases h
  | succ left ih =>
    cases bs with
    | nil => cases h
    | cons b bs =>
      rw [List.length_cons]
      rcases Nat.lt_or_ge b.toNat 0x80 with hb | hb
      · rw [decodeFrom_of_lt _ _ _ _ hb] at h
        cases h
        omega
      · rw [decodeFrom_of_le _ _ _ _ hb] at h
        have := ih h
        omega

/-- **A number is read from one byte, which spells it, or from more.** -/
theorem decode?_cases {bs rest : Bytes} {n : Nat} (h : decode? bs = some (n, rest)) :
    bs = encode n ++ rest ∧ bs.length = rest.length + 1 ∨ rest.length + 1 < bs.length := by
  cases bs with
  | nil => cases h
  | cons b bs =>
    rw [decode?] at h
    rcases Nat.lt_or_ge b.toNat 0x80 with hb | hb
    · rw [decodeFrom_of_lt _ _ _ _ hb] at h
      obtain ⟨hn, rfl⟩ := Prod.mk.inj (Option.some.inj h)
      have hn : n = b.toNat := by omega
      refine .inl ⟨?_, rfl⟩
      rw [encode_of_lt (by omega), hn, UInt8.ofNat_toNat, List.singleton_append]
    · rw [decodeFrom_of_le _ _ _ _ hb] at h
      have := length_lt_of_decodeFrom h
      refine .inr ?_
      rw [List.length_cons]
      omega

/-! ## Numbers of 64 bits -/

/-- **Numbers of 64 bits are read back and told apart.** A number is read from its bytes and what
follows is left; it takes one to ten bytes, of which only the last is below 128; no number's bytes
are the beginning of another's; and of bytes that are cut off no number is read. -/
theorem read_back_and_told_apart (v : UInt64) :
    (∀ rest, decode? (encode v.toNat ++ rest) = some (v.toNat, rest)) ∧
    1 ≤ (encode v.toNat).length ∧ (encode v.toNat).length ≤ 10 ∧
    (∃ high last, encode v.toNat = high ++ [last] ∧ (∀ b ∈ high, 0x80 ≤ b) ∧ last < 0x80) ∧
    (∀ w : UInt64, encode v.toNat <+: encode w.toNat → v = w) ∧
    (∀ w : UInt64, encode v.toNat = encode w.toNat → v = w) ∧
    (∀ bs, bs <+: encode v.toNat → bs ≠ encode v.toNat → decode? bs = none) := by
  obtain ⟨high, last, hbytes, hhigh, hlast⟩ := encode_eq_concat v.toNat
  have hbegins : ∀ w : UInt64, encode v.toNat <+: encode w.toNat → v = w := by
    rintro w ⟨rest, hw⟩
    rw [← List.append_nil (encode w.toNat)] at hw
    exact UInt64.toNat_inj.1 (encode_append_inj hw).1
  refine ⟨decode?_encode v.toNat_lt, ?_, length_encode_le_ten v.toNat_lt, ?_, hbegins, ?_, ?_⟩
  · rw [hbytes, List.length_append, List.length_singleton]
    omega
  · exact ⟨high, last, hbytes, fun b hb => UInt8.le_iff_toNat_le.2 (hhigh b hb),
      UInt8.lt_iff_toNat_lt.2 hlast⟩
  · intro w hw
    exact hbegins w (hw ▸ List.prefix_rfl)
  · intro bs hprefix hne
    rw [hbytes] at hprefix hne
    rcases List.prefix_concat_iff.1 hprefix with hall | hcut
    · exact absurd hall hne
    · exact decodeFrom_eq_none fun b hb => hhigh b (hcut.subset hb)

/-- The largest number takes ten bytes, the tenth of which carries one bit, and is not read from the
first nine. -/
theorem largest_in_ten_bytes :
    encode (0xffffffffffffffff : UInt64).toNat =
      [0xff, 0xff, 0xff, 0xff, 0xff, 0xff, 0xff, 0xff, 0xff, 0x01] ∧
    decode? [0xff, 0xff, 0xff, 0xff, 0xff, 0xff, 0xff, 0xff, 0xff, 0x01, 0xac, 0x02] =
      some (0xffffffffffffffff, [0xac, 0x02]) ∧
    decode? [0xff, 0xff, 0xff, 0xff, 0xff, 0xff, 0xff, 0xff, 0xff] = none := by
  have hbytes : encode (0xffffffffffffffff : UInt64).toNat =
      [0xff, 0xff, 0xff, 0xff, 0xff, 0xff, 0xff, 0xff, 0xff, 0x01] := by cbv
  obtain ⟨hread, -, -, -, -, -, hcut⟩ := read_back_and_told_apart 0xffffffffffffffff
  rw [hbytes] at hread hcut
  exact ⟨hbytes, hread [0xac, 0x02], hcut _ ⟨[0x01], rfl⟩ (by decide)⟩

end PoolKeeper.Varint
