/-
Base 32 as a spelling of bits.

A character stands for five bits and a byte for eight, the highest first. What is
written for bytes has their bits and then fewer than five zeros (`charBits?_encode`),
and a text is read just if it has the bits of some bytes and then fewer than five
zeros (`decodeFrom?_eq_some_iff`). The bytes tell how many zeros there are, and
of five bits only the case of their character is free, so the texts that are read
as some bytes are the written one with letters of either case
(`decode?_eq_some_iff`).
-/
import PoolKeeper.Content.Base32

namespace PoolKeeper.Base32

/-! ## Bits -/

/-- The `width` low bits of a number, the highest of them first. -/
def bits : (width : Nat) → Nat → List Bool
  | 0, _ => []
  | w + 1, n => n.testBit w :: bits w n

@[simp] theorem length_bits (w n : Nat) : (bits w n).length = w := by
  induction w with
  | zero => rfl
  | succ w ih => simp [bits, ih]

@[simp] theorem bits_zero (w : Nat) : bits w 0 = List.replicate w false := by
  induction w with
  | zero => rfl
  | succ w ih => simp [bits, ih, List.replicate_succ]

theorem bits_add (v w n : Nat) : bits (v + w) n = bits v (n / 2 ^ w) ++ bits w n := by
  induction v with
  | zero => simp [bits]
  | succ v ih =>
    rw [Nat.add_right_comm, bits, bits, ih, Nat.testBit_div_two_pow, List.cons_append]

theorem bits_mod {v w : Nat} (h : v ≤ w) (n : Nat) : bits v (n % 2 ^ w) = bits v n := by
  induction v with
  | zero => rfl
  | succ v ih =>
    rw [bits, bits, ih (by omega), Nat.testBit_mod_two_pow]
    simp [show v < w by omega]

/-- Low bits that are put behind a number. -/
theorem bits_append {w d : Nat} (h : d < 2 ^ w) (v n : Nat) :
    bits (v + w) (n * 2 ^ w + d) = bits v n ++ bits w d := by
  have hhigh : (n * 2 ^ w + d) / 2 ^ w = n := by
    rw [Nat.mul_comm, Nat.mul_add_div (Nat.two_pow_pos w), Nat.div_eq_of_lt h, Nat.add_zero]
  have hlow : (n * 2 ^ w + d) % 2 ^ w = d := by
    rw [Nat.mul_comm, Nat.mul_add_mod, Nat.mod_eq_of_lt h]
  rw [bits_add, hhigh, ← bits_mod (Nat.le_refl w) (n * 2 ^ w + d), hlow]

theorem testBit_of_bits_eq {w m n : Nat} (h : bits w m = bits w n) {i : Nat} (hi : i < w) :
    m.testBit i = n.testBit i := by
  induction w with
  | zero => omega
  | succ w ih =>
    obtain ⟨hfirst, hrest⟩ := List.cons.inj h
    by_cases hw : i = w
    · rw [hw, hfirst]
    · exact ih hrest (by omega)

theorem bits_inj {w m n : Nat} (hm : m < 2 ^ w) (hn : n < 2 ^ w) (h : bits w m = bits w n) :
    m = n := by
  apply Nat.eq_of_testBit_eq
  intro i
  by_cases hi : i < w
  · exact testBit_of_bits_eq h hi
  · have hle : 2 ^ w ≤ 2 ^ i := Nat.pow_le_pow_right (by omega) (by omega)
    rw [Nat.testBit_lt_two_pow (by omega), Nat.testBit_lt_two_pow (by omega)]

/-- The bits of bytes. -/
def byteBits (bs : Bytes) : List Bool := bs.flatMap fun b => bits 8 b.toNat

theorem byteBits_cons (b : UInt8) (bs : Bytes) :
    byteBits (b :: bs) = bits 8 b.toNat ++ byteBits bs :=
  List.flatMap_cons

@[simp] theorem length_byteBits (bs : Bytes) : (byteBits bs).length = 8 * bs.length := by
  induction bs with
  | nil => rfl
  | cons b bs ih =>
    rw [byteBits_cons, List.length_append, ih, length_bits, List.length_cons]
    omega

/-! ## Characters -/

theorem digitValue?_digitChar {d : Nat} (h : d < 32) : digitValue? (digitChar d) = some d := by
  have : ∀ e : Fin 32, digitValue? (digitChar e.1) = some e.1 := by decide
  exact this ⟨d, h⟩

theorem toLower_digitChar {d : Nat} (h : d < 32) : (digitChar d).toLower = digitChar d := by
  have : ∀ e : Fin 32, (digitChar e.1).toLower = digitChar e.1 := by decide
  exact this ⟨d, h⟩

/-- Digits are ASCII, so there are few characters to look at. -/
theorem toNat_lt_of_digitValue? {c : Char} {d : Nat} (h : digitValue? c = some d) :
    c.toNat < 128 := by
  have bound : ∀ x : Char, x.toNat < 128 → c ≤ x → c.toNat < 128 := by
    intro x hx hle
    have hle : c.toNat ≤ x.toNat := hle
    omega
  rw [digitValue?] at h
  split at h
  · rename_i hc
    exact bound 'z' (by decide) hc.2
  split at h
  · rename_i hc
    exact bound 'Z' (by decide) hc.2
  split at h
  · rename_i hc
    exact bound '7' (by decide) hc.2
  · cases h

/-- Of the character of a digit only the case is free. -/
theorem digit_of_digitValue? {c : Char} {d : Nat} (h : digitValue? c = some d) :
    d < 32 ∧ c.toLower = digitChar d := by
  have : ∀ n : Fin 128, ∀ e ∈ digitValue? (Char.ofNat n),
      e < 32 ∧ (Char.ofNat n).toLower = digitChar e := by decide
  have hc := this ⟨c.toNat, toNat_lt_of_digitValue? h⟩ d
  rw [Char.ofNat_toNat] at hc
  exact hc h

theorem digitValue?_toLower (c : Char) : digitValue? c.toLower = digitValue? c := by
  by_cases hc : c.toNat < 128
  · have : ∀ n : Fin 128, digitValue? (Char.ofNat n).toLower = digitValue? (Char.ofNat n) := by
      decide
    have hlower := this ⟨c.toNat, hc⟩
    rwa [Char.ofNat_toNat] at hlower
  · have hsame : c.toLower = c := by
      refine dif_neg ?_
      rintro ⟨-, hle⟩
      have hle : c.toNat ≤ 90 := hle
      omega
    rw [hsame]

/-- The bits of a text, if it consists of digits. -/
def charBits? : List Char → Option (List Bool)
  | [] => some []
  | c :: cs => do return bits 5 (← digitValue? c) ++ (← charBits? cs)

theorem charBits?_cons {c : Char} {cs : List Char} {d : Nat} (h : digitValue? c = some d) :
    charBits? (c :: cs) = (charBits? cs).map (bits 5 d ++ ·) := by
  rw [charBits?, h]
  cases charBits? cs <;> rfl

theorem charBits?_cons_of_none {c : Char} (h : digitValue? c = none) (cs : List Char) :
    charBits? (c :: cs) = none := by
  rw [charBits?, h]
  rfl

theorem length_of_charBits? {cs : List Char} {bs : List Bool} (h : charBits? cs = some bs) :
    bs.length = 5 * cs.length := by
  induction cs generalizing bs with
  | nil =>
    cases h
    rfl
  | cons c cs ih =>
    cases hd : digitValue? c with
    | none =>
      rw [charBits?_cons_of_none hd] at h
      cases h
    | some d =>
      rw [charBits?_cons hd] at h
      obtain ⟨rest, hrest, rfl⟩ := Option.map_eq_some_iff.1 h
      rw [List.length_append, length_bits, ih hrest, List.length_cons]
      omega

/-- Texts of the same bits differ in the case of letters. -/
theorem toLower_eq_of_charBits? {cs cs' : List Char} {bs : List Bool} (h : charBits? cs = some bs)
    (h' : charBits? cs' = some bs) : cs.map Char.toLower = cs'.map Char.toLower := by
  induction cs generalizing cs' bs with
  | nil =>
    have hlength := length_of_charBits? h'
    rw [length_of_charBits? h, List.length_nil] at hlength
    have hnil : cs' = [] := List.eq_nil_of_length_eq_zero (by omega)
    rw [hnil]
  | cons c cs ih =>
    cases cs' with
    | nil =>
      have hlength := length_of_charBits? h
      rw [length_of_charBits? h'] at hlength
      simp at hlength
    | cons c' cs' =>
      cases hd : digitValue? c with
      | none =>
        rw [charBits?_cons_of_none hd] at h
        cases h
      | some d =>
        cases hd' : digitValue? c' with
        | none =>
          rw [charBits?_cons_of_none hd'] at h'
          cases h'
        | some d' =>
          rw [charBits?_cons hd] at h
          rw [charBits?_cons hd'] at h'
          obtain ⟨rest, hrest, rfl⟩ := Option.map_eq_some_iff.1 h
          obtain ⟨rest', hrest', heq⟩ := Option.map_eq_some_iff.1 h'
          obtain ⟨hdigit, rfl⟩ := List.append_inj heq (by simp)
          obtain ⟨hlt, hlower⟩ := digit_of_digitValue? hd
          obtain ⟨hlt', hlower'⟩ := digit_of_digitValue? hd'
          rw [List.map_cons, List.map_cons, ih hrest hrest', hlower, hlower',
            bits_inj hlt' hlt hdigit]

theorem charBits?_toLower (cs : List Char) : charBits? (cs.map Char.toLower) = charBits? cs := by
  induction cs with
  | nil => rfl
  | cons c cs ih => rw [List.map_cons, charBits?, charBits?, digitValue?_toLower, ih]

/-! ## Writing -/

/-- The character of the next five bits. -/
theorem charBits?_digitChar (n : Nat) (cs : List Char) :
    charBits? (digitChar (n % 32) :: cs) = (charBits? cs).map (bits 5 n ++ ·) := by
  rw [charBits?_cons (digitValue?_digitChar (Nat.mod_lt n (by decide)))]
  exact congrArg (fun digit => (charBits? cs).map (digit ++ ·)) (bits_mod (Nat.le_refl 5) n)

/-- **What is written** for pending bits and bytes has their bits and then fewer than five zeros. -/
theorem charBits?_encodeFrom {count : Nat} (hcount : count < 5) (pending : Nat) (bs : Bytes) :
    ∃ k < 5, charBits? (encodeFrom count pending bs) =
      some (bits count pending ++ byteBits bs ++ List.replicate k false) := by
  induction bs generalizing count pending with
  | nil =>
    rw [encodeFrom]
    by_cases hzero : count = 0
    · subst hzero
      exact ⟨0, by omega, rfl⟩
    · have hbits := bits_append (Nat.two_pow_pos (5 - count)) count pending
      rw [Nat.add_zero, show count + (5 - count) = 5 by omega, bits_zero] at hbits
      refine ⟨5 - count, by omega, ?_⟩
      rw [if_neg hzero, charBits?_digitChar, hbits]
      simp [charBits?, byteBits]
  | cons b bs ih =>
    have hall := bits_append b.toNat_lt count pending
    rw [encodeFrom, byteBits_cons, ← List.append_assoc, ← hall]
    simp only [show (2 : Nat) ^ 8 = 256 from rfl]
    generalize pending * 256 + b.toNat = all
    by_cases hshort : count + 8 < 10
    · have hleft : count + 8 - 5 < 5 := by omega
      obtain ⟨k, hk, hrest⟩ := ih hleft (all % 2 ^ (count + 8 - 5))
      have hsplit := bits_add 5 (count + 8 - 5) all
      rw [show 5 + (count + 8 - 5) = count + 8 by omega] at hsplit
      refine ⟨k, hk, ?_⟩
      rw [if_pos hshort, charBits?_digitChar, hrest, hsplit, bits_mod (Nat.le_refl _)]
      simp
    · have hleft : count + 8 - 10 < 5 := by omega
      obtain ⟨k, hk, hrest⟩ := ih hleft (all % 2 ^ (count + 8 - 10))
      have hsplit := bits_add 5 (count + 8 - 5) all
      have hsplit' := bits_add 5 (count + 8 - 10) all
      rw [show 5 + (count + 8 - 5) = count + 8 by omega] at hsplit
      rw [show 5 + (count + 8 - 10) = count + 8 - 5 by omega] at hsplit'
      refine ⟨k, hk, ?_⟩
      rw [if_neg hshort, charBits?_digitChar, charBits?_digitChar, hrest, hsplit, hsplit',
        bits_mod (Nat.le_refl _)]
      simp

theorem charBits?_encode (bs : Bytes) :
    ∃ k < 5, charBits? (encode bs) = some (byteBits bs ++ List.replicate k false) :=
  charBits?_encodeFrom (by decide) 0 bs

theorem toLower_encodeFrom (count pending : Nat) (bs : Bytes) :
    (encodeFrom count pending bs).map Char.toLower = encodeFrom count pending bs := by
  have digit : ∀ n, (digitChar (n % 32)).toLower = digitChar (n % 32) :=
    fun n => toLower_digitChar (Nat.mod_lt n (by decide))
  induction bs generalizing count pending with
  | nil =>
    rw [encodeFrom]
    split
    · rfl
    · rw [List.map_singleton, digit]
  | cons b bs ih =>
    rw [encodeFrom]
    split
    · rw [List.map_cons, digit, ih]
    · rw [List.map_cons, List.map_cons, digit, digit, ih]

/-- Five bits a character, rounded up. -/
theorem length_encode (bs : Bytes) : (encode bs).length = (8 * bs.length + 4) / 5 := by
  obtain ⟨k, hk, hbits⟩ := charBits?_encode bs
  have hlength := length_of_charBits? hbits
  rw [List.length_append, length_byteBits, List.length_replicate] at hlength
  omega

/-! ## Reading -/

/-- Behind some bits, the bits of a text make up those of bytes and then fewer than five zeros. -/
def Completes (front : List Bool) (cs : List Char) (bs : Bytes) : Prop :=
  ∃ rest, charBits? cs = some rest ∧
    ∃ k < 5, front ++ rest = byteBits bs ++ List.replicate k false

/-- Fewer bits than a byte has complete no byte: they are the zeros at the end. -/
theorem completes_nil {count pending : Nat} (hcount : count < 8) (hpending : pending < 2 ^ count)
    {bs : Bytes} :
    Completes (bits count pending) [] bs ↔ bs = [] ∧ count < 5 ∧ pending = 0 := by
  constructor
  · rintro ⟨rest, hrest, k, hk, heq⟩
    cases hrest
    rw [List.append_nil] at heq
    have hlength := congrArg List.length heq
    simp only [List.length_append, length_bits, length_byteBits, List.length_replicate] at hlength
    obtain rfl : bs = [] := List.eq_nil_of_length_eq_zero (by omega)
    obtain rfl : count = k := by simpa using hlength
    refine ⟨rfl, hk, bits_inj hpending (Nat.two_pow_pos count) ?_⟩
    rw [bits_zero]
    exact heq
  · rintro ⟨rfl, hcount, rfl⟩
    exact ⟨[], rfl, count, hcount, by simp [byteBits]⟩

theorem completes_cons {c : Char} {d : Nat} (hd : digitValue? c = some d) {front : List Bool}
    {cs : List Char} {bs : Bytes} :
    Completes front (c :: cs) bs ↔ Completes (front ++ bits 5 d) cs bs := by
  rw [Completes, Completes, charBits?_cons hd]
  constructor
  · rintro ⟨rest, hrest, hfront⟩
    obtain ⟨later, hlater, rfl⟩ := Option.map_eq_some_iff.1 hrest
    exact ⟨later, hlater, by rwa [List.append_assoc]⟩
  · rintro ⟨later, hlater, hfront⟩
    rw [List.append_assoc] at hfront
    exact ⟨_, Option.map_eq_some_iff.2 ⟨later, hlater, rfl⟩, hfront⟩

/-- The first eight bits are those of the first byte. -/
theorem completes_byte {n : Nat} (hn : n < 256) {front : List Bool} {cs : List Char} {bs : Bytes} :
    Completes (bits 8 n ++ front) cs bs ↔ ∃ later, bs = UInt8.ofNat n :: later ∧
      Completes front cs later := by
  have hbyte : (UInt8.ofNat n).toNat = n := by rw [UInt8.toNat_ofNat', Nat.mod_eq_of_lt hn]
  constructor
  · rintro ⟨rest, hrest, k, hk, heq⟩
    cases bs with
    | nil =>
      have hlength := congrArg List.length heq
      simp [byteBits] at hlength
      omega
    | cons b bs =>
      rw [byteBits_cons, List.append_assoc, List.append_assoc] at heq
      obtain ⟨hfirst, heq⟩ := List.append_inj heq (by simp)
      have hb : n = b.toNat := bits_inj hn b.toNat_lt hfirst
      refine ⟨bs, ?_, rest, hrest, k, hk, heq⟩
      rw [hb, UInt8.ofNat_toNat]
  · rintro ⟨later, rfl, rest, hrest, k, hk, heq⟩
    refine ⟨rest, hrest, k, hk, ?_⟩
    rw [byteBits_cons, hbyte, List.append_assoc, List.append_assoc, heq]

theorem decodeFrom?_of_lt {c : Char} {d : Nat} (hd : digitValue? c = some d) {count : Nat}
    (h : count + 5 < 8) (pending : Nat) (cs : List Char) :
    decodeFrom? count pending (c :: cs) = decodeFrom? (count + 5) (pending * 32 + d) cs := by
  rw [decodeFrom?, hd]
  exact if_pos h

theorem decodeFrom?_of_le {c : Char} {d : Nat} (hd : digitValue? c = some d) {count : Nat}
    (h : ¬ count + 5 < 8) (pending : Nat) (cs : List Char) :
    decodeFrom? count pending (c :: cs) =
      (decodeFrom? (count + 5 - 8) ((pending * 32 + d) % 2 ^ (count + 5 - 8)) cs).map
        (UInt8.ofNat ((pending * 32 + d) / 2 ^ (count + 5 - 8)) :: ·) := by
  rw [decodeFrom?, hd]
  refine (if_neg h).trans ?_
  cases decodeFrom? (count + 5 - 8) ((pending * 32 + d) % 2 ^ (count + 5 - 8)) cs <;> rfl

/-- **What is read** behind pending bits is what the text completes. -/
theorem decodeFrom?_eq_some_iff {count pending : Nat} (hcount : count < 8)
    (hpending : pending < 2 ^ count) {cs : List Char} {bs : Bytes} :
    decodeFrom? count pending cs = some bs ↔ Completes (bits count pending) cs bs := by
  induction cs generalizing count pending bs with
  | nil =>
    rw [decodeFrom?, completes_nil hcount hpending]
    split
    · rename_i hend
      simp [hend, eq_comm]
    · rename_i hend
      simp [hend]
  | cons c cs ih =>
    cases hd : digitValue? c with
    | none =>
      rw [decodeFrom?, hd, Completes, charBits?_cons_of_none hd]
      constructor
      · intro h
        cases h
      · rintro ⟨_, hrest, _⟩
        cases hrest
    | some d =>
      have hd32 : d < 2 ^ 5 := (digit_of_digitValue? hd).1
      have hall : pending * 32 + d < 2 ^ (count + 5) := by
        rw [Nat.pow_add]
        omega
      have hbits : bits (count + 5) (pending * 32 + d) = bits count pending ++ bits 5 d :=
        bits_append hd32 count pending
      rw [completes_cons hd, ← hbits]
      by_cases hshort : count + 5 < 8
      · rw [decodeFrom?_of_lt hd hshort]
        exact ih hshort hall
      · have hsplit := bits_add 8 (count + 5 - 8) (pending * 32 + d)
        rw [show 8 + (count + 5 - 8) = count + 5 by omega] at hsplit
        have hbyte : (pending * 32 + d) / 2 ^ (count + 5 - 8) < 256 := by
          rw [Nat.div_lt_iff_lt_mul (Nat.two_pow_pos _), show 256 = 2 ^ 8 from rfl, ← Nat.pow_add,
            show 8 + (count + 5 - 8) = count + 5 by omega]
          exact hall
        rw [decodeFrom?_of_le hd hshort, Option.map_eq_some_iff, hsplit, completes_byte hbyte]
        constructor
        · rintro ⟨later, hlater, rfl⟩
          refine ⟨later, rfl, ?_⟩
          rw [← bits_mod (Nat.le_refl _)]
          exact (ih (by omega) (Nat.mod_lt _ (Nat.two_pow_pos _))).1 hlater
        · rintro ⟨later, rfl, hlater⟩
          rw [← bits_mod (Nat.le_refl _)] at hlater
          exact ⟨later, (ih (by omega) (Nat.mod_lt _ (Nat.two_pow_pos _))).2 hlater, rfl⟩

/-- **Bytes have one spelling, but for the case of letters.** -/
theorem decode?_eq_some_iff {cs : List Char} {bs : Bytes} :
    decode? cs = some bs ↔ cs.map Char.toLower = encode bs := by
  obtain ⟨k, hk, hwritten⟩ := charBits?_encode bs
  rw [decode?, decodeFrom?_eq_some_iff (by decide) (by decide)]
  constructor
  · rintro ⟨rest, hrest, k', hk', heq⟩
    obtain rfl : rest = byteBits bs ++ List.replicate k' false := heq
    -- both texts have five bits a character, so they end with as many zeros
    have hlength := length_of_charBits? hrest
    have hlength' := length_of_charBits? hwritten
    simp only [List.length_append, length_byteBits, List.length_replicate] at hlength hlength'
    obtain rfl : k' = k := by omega
    rw [toLower_eq_of_charBits? hrest hwritten]
    exact toLower_encodeFrom 0 0 bs
  · intro h
    rw [← h, charBits?_toLower] at hwritten
    exact ⟨_, hwritten, k, hk, rfl⟩

theorem decode?_encode (bs : Bytes) : decode? (encode bs) = some bs :=
  decode?_eq_some_iff.2 (toLower_encodeFrom 0 0 bs)

end PoolKeeper.Base32
