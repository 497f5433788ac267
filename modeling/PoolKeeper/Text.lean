/-
Blank characters of running text, trimming them, and cutting text at a
separator.
-/
namespace PoolKeeper.Text

/-- A character with the Unicode property White_Space. -/
def isBlank (c : Char) : Bool :=
  let n := c.toNat
  (9 ≤ n && n ≤ 13) || n = 0x20 || n = 0x85 || n = 0xa0 || n = 0x1680 ||
    (0x2000 ≤ n && n ≤ 0x200a) || n = 0x2028 || n = 0x2029 || n = 0x202f || n = 0x205f || n = 0x3000

/-- What holds of all ASCII characters is checked one by one. -/
theorem forall_ascii {P : Char → Prop} (h : ∀ n < 128, P (Char.ofNat n)) {c : Char}
    (hc : c.toNat < 128) : P c := by
  rw [← Char.ofNat_toNat c]
  exact h c.toNat hc

/-- What is not above an ASCII character is one. -/
theorem ascii_of_le {c d : Char} (h : c ≤ d) (hd : d.toNat < 128) : c.toNat < 128 :=
  Nat.lt_of_le_of_lt (UInt32.le_iff_toNat_le.1 h) hd

/-- The text without blanks at either end. -/
def trimmed (s : List Char) : List Char :=
  ((s.dropWhile isBlank).reverse.dropWhile isBlank).reverse

theorem trimmed_of_no_blank {s : List Char} (h : ∀ c ∈ s, isBlank c = false) : trimmed s = s := by
  have drop : ∀ t : List Char, (∀ c ∈ t, isBlank c = false) → t.dropWhile isBlank = t := by
    intro t ht
    cases t with
    | nil => rfl
    | cons c t => simp [ht c (by simp)]
  rw [trimmed, drop s h, drop s.reverse (fun c hc => h c (by simpa using hc)), List.reverse_reverse]

/-- The texts between separators, at least one. -/
def splitOn (sep : Char) : List Char → List (List Char)
  | [] => [[]]
  | c :: cs =>
    if c = sep then [] :: splitOn sep cs
    else match splitOn sep cs with
      | [] => [[c]]
      | w :: ws => (c :: w) :: ws

theorem splitOn_ne_nil (sep : Char) (s : List Char) : splitOn sep s ≠ [] := by
  cases s with
  | nil => simp [splitOn]
  | cons c s =>
    rw [splitOn]
    split
    · simp
    · split <;> simp

@[simp] theorem splitOn_sep (sep : Char) (s : List Char) :
    splitOn sep (sep :: s) = [] :: splitOn sep s := by
  simp [splitOn]

theorem splitOn_cons_of_ne {sep c : Char} (h : c ≠ sep) {s w : List Char} {ws : List (List Char)}
    (hs : splitOn sep s = w :: ws) : splitOn sep (c :: s) = (c :: w) :: ws := by
  simp [splitOn, h, hs]

/-- Splitting goes on behind every separator as if the text began there. -/
theorem splitOn_append_sep (sep : Char) (s t : List Char) :
    splitOn sep (s ++ sep :: t) = splitOn sep s ++ splitOn sep t := by
  induction s with
  | nil => simp [splitOn]
  | cons c s ih =>
    by_cases h : c = sep
    · subst h
      rw [List.cons_append, splitOn_sep, splitOn_sep, ih, List.cons_append]
    · obtain ⟨w, ws, hs⟩ := List.exists_cons_of_ne_nil (splitOn_ne_nil sep s)
      rw [hs, List.cons_append] at ih
      rw [List.cons_append, splitOn_cons_of_ne h ih, splitOn_cons_of_ne h hs, List.cons_append]

theorem splitOn_of_not_mem {sep : Char} {s : List Char} (h : sep ∉ s) : splitOn sep s = [s] := by
  induction s with
  | nil => rfl
  | cons c s ih =>
    have hc : c ≠ sep := fun hc => h (by simp [hc])
    exact splitOn_cons_of_ne hc (ih fun hs => h (by simp [hs]))

/-- A character of words with separators is a separator, or in a word. -/
theorem mem_intercalate {sep c : Char} {words : List (List Char)}
    (h : c ∈ [sep].intercalate words) : c = sep ∨ ∃ w ∈ words, c ∈ w := by
  induction words with
  | nil => simp at h
  | cons w words ih =>
    cases words with
    | nil =>
      rw [List.intercalate_singleton] at h
      exact .inr ⟨w, List.mem_cons_self, h⟩
    | cons w' words =>
      simp only [List.intercalate_cons_cons, List.mem_append, List.mem_singleton] at h
      rcases h with (h | h) | h
      · exact .inr ⟨w, List.mem_cons_self, h⟩
      · exact .inl h
      · exact (ih h).imp_right fun ⟨v, hv, hc⟩ => ⟨v, List.mem_cons_of_mem w hv, hc⟩

/-- Words that are put together with separators are had back. -/
theorem splitOn_intercalate {sep : Char} {words : List (List Char)} (hne : words ≠ [])
    (h : ∀ w ∈ words, sep ∉ w) : splitOn sep ([sep].intercalate words) = words := by
  induction words with
  | nil => exact absurd rfl hne
  | cons w words ih =>
    have hw := splitOn_of_not_mem (h w List.mem_cons_self)
    cases words with
    | nil => rwa [List.intercalate_singleton]
    | cons w' words =>
      rw [List.intercalate_cons_cons, List.append_assoc, List.singleton_append,
        splitOn_append_sep, hw, ih nofun fun v hv => h v (List.mem_cons_of_mem w hv)]
      rfl

/-- Every occurrence of `pattern` replaced, from left to right. -/
def replaceAll (pattern replacement : List Char) (s : List Char) : List Char :=
  match s with
  | [] => []
  | c :: cs =>
    if _h : pattern ≠ [] ∧ pattern.isPrefixOf (c :: cs) then
      replacement ++ replaceAll pattern replacement ((c :: cs).drop pattern.length)
    else c :: replaceAll pattern replacement cs
termination_by s.length
decreasing_by
  · have : 0 < pattern.length := List.length_pos_iff.2 _h.1
    simp only [List.length_drop, List.length_cons]
    omega
  · simp

end PoolKeeper.Text
