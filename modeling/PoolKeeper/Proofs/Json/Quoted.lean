/-
Numbers and words between quotes.

A number is read plain and from between quotes (`quotedUInt64_reads`), and a word
from its decimal digits and, behind `0x`, from its hexadecimal ones, of either case
and with zeros in front (`quotedWord_reads`).
-/
import PoolKeeper.Proofs.Json.Read
import PoolKeeper.State.Node

namespace PoolKeeper

namespace Numeral

/-- A digit has the same value in either case. -/
theorem digitValue?_toLower (c : Char) : digitValue? c.toLower = digitValue? c := by
  by_cases h : c.toNat < 128
  · exact Text.forall_ascii (P := fun c => digitValue? c.toLower = digitValue? c) (by decide) h
  · have hlower : c.toLower = c := by
      exact dif_neg fun hc => h (Text.ascii_of_le hc.2 (by decide))
    rw [hlower]

/-- Digits are neither blanks nor underscores. -/
theorem not_blank_of_digitValue? {c : Char} {d : Nat} (h : digitValue? c = some d) :
    Text.isBlank c = false ∧ c ≠ '_' := by
  have hbound : c.toNat < 128 := by
    by_contra hlarge
    have hnot (e : Char) (he : e.toNat < 128) : ¬ c ≤ e := fun hce =>
      hlarge (Text.ascii_of_le hce he)
    rw [digitValue?, if_neg fun hc => hnot '9' (by decide) hc.2,
      if_neg fun hc => hnot 'z' (by decide) hc.2, if_neg fun hc => hnot 'Z' (by decide) hc.2] at h
    cases h
  have hdigit : digitValue? c ≠ none → Text.isBlank c = false ∧ c ≠ '_' :=
    Text.forall_ascii (P := fun c => digitValue? c ≠ none → Text.isBlank c = false ∧ c ≠ '_')
      (by decide) hbound
  exact hdigit (by simp [h])

/-- Only the values of digits count. -/
theorem readDigits_congr {b : Nat} {cs cs' : List Char}
    (h : cs.map digitValue? = cs'.map digitValue?) : readDigits b cs = readDigits b cs' := by
  have hread (cs : List Char) : readDigits b cs = (cs.map digitValue?).foldlM
      (fun v d? => d?.bind fun d => if d < b then some (v * b + d) else none) 0 := by
    rw [readDigits, List.foldlM_map]
  rw [hread, hread, h]

/-- Zeros in front do not count. -/
theorem readDigits_zeros {b : Nat} (hb : 0 < b) (zeros : Nat) (cs : List Char) :
    readDigits b (List.replicate zeros '0' ++ cs) = readDigits b cs := by
  have hzero : digitValue? '0' = some 0 := by decide
  induction zeros with
  | zero => rfl
  | succ zeros ih =>
    rw [List.replicate_succ, List.cons_append, ← ih]
    simp [readDigits, hzero, hb]

section Spelled
variable {b n zeros : Nat} {cs : List Char}
  (h : cs.map Char.toLower = List.replicate zeros '0' ++ chars b n)
include h

theorem exists_digitValue? (hb : 1 < b) (hb' : b ≤ 36) {c : Char} (hc : c ∈ cs) :
    ∃ d, digitValue? c = some d := by
  have hmem : c.toLower ∈ List.replicate zeros '0' ++ chars b n := h ▸ List.mem_map_of_mem hc
  rw [← digitValue?_toLower]
  rcases List.mem_append.1 hmem with hzero | hdigit
  · exact ⟨0, by rw [List.eq_of_mem_replicate hzero]; decide⟩
  · obtain ⟨d, hd, hchar⟩ := List.mem_map.1 hdigit
    rw [← hchar]
    exact ⟨d, digitValue?_digitChar (Nat.lt_of_lt_of_le (digits_lt hb n d hd) hb')⟩

/-- A number is read from its digits in either case, with zeros in front. -/
theorem readSpaced_of_toLower (hb : 1 < b) (hb' : b ≤ 36) : readSpaced b cs = some n := by
  have hfilter : cs.filter (· ≠ '_') = cs := by
    refine List.filter_eq_self.2 fun c hc => ?_
    obtain ⟨d, hd⟩ := exists_digitValue? h hb hb' hc
    simpa using (not_blank_of_digitValue? hd).2
  have hvalues : cs.map digitValue? =
      (List.replicate zeros '0' ++ chars b n).map digitValue? := by
    rw [← h, List.map_map]
    exact List.map_congr_left fun c _ => (digitValue?_toLower c).symm
  rw [readSpaced, hfilter, readDigits_congr hvalues, readDigits_zeros (by omega)]
  exact readDigits_chars hb hb' n

end Spelled

/-- A number is read from its decimal digits. -/
theorem readUnsigned_decimal (n : Nat) : readUnsigned (decimal n) = some n := by
  have hplus : '+' ∉ chars 10 n := by
    intro hmem
    obtain ⟨d, hd, hchar⟩ := List.mem_map.1 hmem
    exact absurd hchar ((by decide : ∀ d < 10, digitChar d ≠ '+') d (digits_lt (by decide) n d hd))
  have hne : chars 10 n ≠ [] := by simp [chars, digits_ne_nil]
  rw [readUnsigned, decimal, text, String.toList_ofList]
  split
  · rename_i hnil
    exact absurd hnil hne
  · rename_i hcs
    exact absurd (by simp [hcs]) hplus
  · rename_i hcs
    exact absurd (by simp [hcs]) hplus
  · exact readDigits_chars (by decide) (by decide) n

end Numeral

/-- How a word may be written: in decimal digits, or behind `0x` in hexadecimal ones of either
case, with zeros in front. -/
inductive Word.SpelledBy (w : Word) : String → Prop
  | decimal : SpelledBy w w.decimal
  | hex {zeros : Nat} {cs : List Char}
      (h : cs.map Char.toLower = List.replicate zeros '0' ++ Numeral.chars 16 w.toNat) :
      SpelledBy w (String.ofList ('0' :: 'x' :: cs))

namespace Json

namespace Reader

theorem bool_reads (b : Bool) : bool.Reads (Json.bool b).tree b := fun _ => rfl

theorem named_reads {α : Type} {parse : String → Option α} {s : String} {a : α}
    (h : parse s = some a) : (named parse).Reads (.string (some s)) a := by
  intro path
  simp [named, h]

theorem numberOr_reads {α : Type} {ofNumber : UInt64 → α} {parse : String → Option α} {s : String}
    {a : α} (h : parse s = some a) : (numberOr ofNumber parse).Reads (.string (some s)) a := by
  intro path
  simp [numberOr, h]

/-- A number is read plain and from between quotes. -/
theorem quotedUInt64_reads (n : UInt64) :
    quotedUInt64.Reads (Json.ofUInt64 n).tree n ∧ quotedUInt64.Reads (quotedJson n).tree n := by
  constructor
  · intro path
    simp [ofUInt64, tree, quotedUInt64, numberOr]
  · have hblank : ∀ c ∈ (Numeral.decimal n.toNat).toList, Text.isBlank c = false :=
      fun _ hc => Numeral.isBlank_of_mem_decimal hc
    refine numberOr_reads ?_
    rw [Text.trimmed_of_no_blank hblank, String.ofList_toList, Numeral.readUnsigned_decimal,
      Option.bind_some, if_pos n.toNat_lt, UInt64.ofNat_toNat]

/-- A word is read however it is written. -/
theorem quotedWord_reads {w : Word} {s : String} (h : w.SpelledBy s) :
    quotedWord.Reads (.string (some s)) w := by
  refine numberOr_reads ?_
  cases h with
  | decimal =>
    have hblank : ∀ c ∈ w.decimal.toList, Text.isBlank c = false :=
      fun _ hc => Numeral.isBlank_of_mem_decimal hc
    rw [Text.trimmed_of_no_blank hblank]
    split
    · rename_i cs hcs
      -- there is no `x` among decimal digits
      obtain ⟨d, hd, hx⟩ := Numeral.exists_digit_of_mem_decimal (n := w.toNat) (c := 'x')
        (show 'x' ∈ w.decimal.toList by simp [hcs])
      exact absurd hx ((by decide : ∀ d < 10, 'x' ≠ Numeral.digitChar d) d hd)
    · exact w.ofDigits?_decimal
  | @hex zeros cs h =>
    have hblank : ∀ c ∈ '0' :: 'x' :: cs, Text.isBlank c = false := by
      intro c hc
      simp only [List.mem_cons] at hc
      obtain rfl | rfl | hc := hc
      · decide
      · decide
      · obtain ⟨d, hd⟩ := Numeral.exists_digitValue? h (by decide) (by decide) hc
        exact (Numeral.not_blank_of_digitValue? hd).1
    rw [String.toList_ofList, Text.trimmed_of_no_blank hblank]
    show Word.ofDigits? 16 cs = some w
    rw [Word.ofDigits?, Numeral.readSpaced_of_toLower h (by decide) (by decide), Option.bind_some,
      Word.ofNat?_toNat]

end Reader
end Json
end PoolKeeper
