/-
Positional numerals: the digits of a number in a base, their characters, and
reading them back. `value_digits` says that the digits of a number have that
number as their value; `readDigits_text` says that its written form is read
as the number again.

`b ^ n` is core's power throughout the library, also in a module that imports
another instance.
-/
namespace PoolKeeper

attribute [instance (2000)] instPowNat
attribute [default_instance 20000] instPowNat

end PoolKeeper

namespace PoolKeeper.Numeral

/-- The digits of `n` in base `b`, most significant first, in front of `tail`. -/
def digitsOnto (b n : Nat) (tail : List Nat) : List Nat :=
  if _h : 1 < b ∧ b ≤ n then digitsOnto b (n / b) (n % b :: tail) else n :: tail
termination_by n
decreasing_by exact Nat.div_lt_self (by omega) _h.1

/-- The digits of `n` in base `b`, most significant first. Zero has one digit. -/
def digits (b n : Nat) : List Nat := digitsOnto b n []

/-- The number that a list of digits stands for. -/
def value (b : Nat) (ds : List Nat) : Nat := ds.foldl (fun v d => v * b + d) 0

theorem foldl_digitsOnto (b n : Nat) (tail : List Nat) :
    (digitsOnto b n tail).foldl (fun v d => v * b + d) 0
      = tail.foldl (fun v d => v * b + d) n := by
  fun_induction digitsOnto b n tail with
  | case1 n tail h ih => rw [ih, List.foldl_cons, Nat.mul_comm, Nat.div_add_mod]
  | case2 n tail h => simp

theorem value_digits (b n : Nat) : value b (digits b n) = n := by
  simp [value, digits, foldl_digitsOnto]

theorem digitsOnto_lt {b : Nat} (hb : 1 < b) (n : Nat) (tail : List Nat)
    (ht : ∀ d ∈ tail, d < b) : ∀ d ∈ digitsOnto b n tail, d < b := by
  fun_induction digitsOnto b n tail with
  | case1 n tail h ih =>
    refine ih fun d hd => ?_
    rcases List.mem_cons.1 hd with rfl | hd
    · exact Nat.mod_lt _ (by omega)
    · exact ht d hd
  | case2 n tail h =>
    intro d hd
    rcases List.mem_cons.1 hd with rfl | hd
    · omega
    · exact ht d hd

theorem digits_lt {b : Nat} (hb : 1 < b) (n : Nat) : ∀ d ∈ digits b n, d < b :=
  digitsOnto_lt hb n [] (by simp)

theorem digitsOnto_ne_nil (b n : Nat) (tail : List Nat) : digitsOnto b n tail ≠ [] := by
  fun_induction digitsOnto b n tail <;> simp_all

theorem digits_ne_nil (b n : Nat) : digits b n ≠ [] := digitsOnto_ne_nil b n []

/-- The character of a digit: `0` to `9`, then lower-case letters. -/
def digitChar (d : Nat) : Char :=
  if d < 10 then Char.ofNat (48 + d) else Char.ofNat (87 + d)

/-- The digit a character stands for, letters of either case counting from ten. -/
def digitValue? (c : Char) : Option Nat :=
  if '0' ≤ c ∧ c ≤ '9' then some (c.toNat - 48)
  else if 'a' ≤ c ∧ c ≤ 'z' then some (c.toNat - 87)
  else if 'A' ≤ c ∧ c ≤ 'Z' then some (c.toNat - 55)
  else none

theorem digitValue?_digitChar {d : Nat} (h : d < 36) : digitValue? (digitChar d) = some d := by
  have : ∀ e : Fin 36, digitValue? (digitChar e.1) = some e.1 := by decide
  exact this ⟨d, h⟩

/-- The written form of `n` in base `b`. -/
def chars (b n : Nat) : List Char := (digits b n).map digitChar

def text (b n : Nat) : String := String.ofList (chars b n)

/-- Decimal text. -/
def decimal (n : Nat) : String := text 10 n

/-- The number that base `b` digits stand for, or `none` at the first character
that is no digit of the base. No digits at all are zero. -/
def readDigits (b : Nat) (cs : List Char) : Option Nat :=
  cs.foldlM (fun v c => (digitValue? c).bind fun d => if d < b then some (v * b + d) else none) 0

theorem foldlM_digitChar {b : Nat} (hb : b ≤ 36) (ds : List Nat) (hd : ∀ d ∈ ds, d < b) (v : Nat) :
    (ds.map digitChar).foldlM
        (fun v c => (digitValue? c).bind fun d => if d < b then some (v * b + d) else none) v
      = some (ds.foldl (fun v d => v * b + d) v) := by
  induction ds generalizing v with
  | nil => rfl
  | cons d ds ih =>
    have h := hd d (by simp)
    simp only [List.map_cons, List.foldlM_cons, List.foldl_cons,
      digitValue?_digitChar (Nat.lt_of_lt_of_le h hb), Option.bind_some, h, if_true]
    exact ih (fun e he => hd e (by simp [he])) _

theorem readDigits_chars {b : Nat} (hb : 1 < b) (hb' : b ≤ 36) (n : Nat) :
    readDigits b (chars b n) = some n := by
  rw [readDigits, chars, foldlM_digitChar hb' _ (digits_lt hb n)]
  exact congrArg some (value_digits b n)

theorem exists_digit_of_mem_decimal {n : Nat} {c : Char} (h : c ∈ (decimal n).toList) :
    ∃ d < 10, c = digitChar d := by
  rw [decimal, text, String.toList_ofList, chars] at h
  obtain ⟨d, hd, rfl⟩ := List.mem_map.1 h
  exact ⟨d, digits_lt (by decide) n d hd, rfl⟩

theorem decimal_inj {m n : Nat} (h : decimal m = decimal n) : m = n := by
  have hchars : chars 10 m = chars 10 n := String.ofList_injective h
  have hm := readDigits_chars (b := 10) (by decide) (by decide) m
  rw [hchars, readDigits_chars (by decide) (by decide)] at hm
  exact (Option.some.inj hm).symm

/-- An unsigned decimal number: at least one digit and nothing else, apart
from one leading plus sign. -/
def readUnsigned (s : String) : Option Nat :=
  match s.toList with
  | [] => none
  | ['+'] => none
  | '+' :: cs => readDigits 10 cs
  | cs => readDigits 10 cs

/-- A number in base `b` whose digits may be set apart by underscores. An
empty text is zero. -/
def readSpaced (b : Nat) (cs : List Char) : Option Nat :=
  readDigits b (cs.filter (· ≠ '_'))

end PoolKeeper.Numeral
