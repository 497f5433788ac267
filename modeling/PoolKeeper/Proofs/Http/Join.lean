/-
Going down from a URL by plain words, with a plain query.

A plain character stands for itself wherever it is in a URL and divides nothing
(`isReserved_of_plain`, `ne_of_plain`). So a path of plain words is split into
just these (`splitSlashes_intercalate`), each of them is a segment as it is
(`descend_plain`), and a plain query is kept (`join_plain`).
-/
import Mathlib.Data.List.TakeDrop
import Mathlib.Data.List.TakeWhile
import PoolKeeper.Http.Url
import PoolKeeper.Text

namespace PoolKeeper.Url

/-- The segments of the URL but the last, below which others are found. -/
def above (u : Url) : List String :=
  match u.path with
  | .segments ss => ss.dropLast
  | .plain _ => []

/-- A letter or a digit, or a mark that a query is put together with. -/
def isPlain (c : Char) : Bool := c.isAlphanum || c = '=' || c = ','

theorem toNat_lt_of_plain {c : Char} (h : isPlain c = true) : c.toNat < 128 := by
  have hkind : (c.isUpper || c.isLower || c.isDigit || decide (c = '=') || decide (c = ',')) =
      true := h
  simp only [Bool.or_eq_true, decide_eq_true_eq] at hkind
  rcases hkind with (((hupper | hlower) | hdigit) | rfl) | rfl
  · have hle : c ≤ 'Z' := (of_decide_eq_true hupper).2
    exact Text.ascii_of_le hle (by decide)
  · have hle : c ≤ 'z' := of_decide_eq_true (Bool.and_eq_true_iff.1 hlower).2
    exact Text.ascii_of_le hle (by decide)
  · have hle : c ≤ '9' := of_decide_eq_true (Bool.and_eq_true_iff.1 hdigit).2
    exact Text.ascii_of_le hle (by decide)
  · decide
  · decide

/-- A plain character stands for itself. -/
theorem isReserved_of_plain {c : Char} (h : isPlain c = true) {r : Percent.Reserved}
    (hr : r ∈ [Percent.path, Percent.query, Percent.specialQuery]) :
    Percent.isReserved r c = false := by
  have hall : isPlain c = true →
      ∀ r ∈ [Percent.path, Percent.query, Percent.specialQuery], Percent.isReserved r c = false :=
    Text.forall_ascii (P := fun c => isPlain c = true →
      ∀ r ∈ [Percent.path, Percent.query, Percent.specialQuery], Percent.isReserved r c = false)
      (by decide) (toNat_lt_of_plain h)
  exact hall h r hr

/-- A plain character is none of those that divide a URL or are more than they seem. -/
theorem ne_of_plain {c : Char} (h : isPlain c = true) (d : Char)
    (hd : d ∈ ['/', '\\', '?', '#', '%', '.']) : c ≠ d := by
  have hall : isPlain c = true → c ∉ ['/', '\\', '?', '#', '%', '.'] :=
    Text.forall_ascii (P := fun c => isPlain c = true → c ∉ ['/', '\\', '?', '#', '%', '.'])
      (by decide) (toNat_lt_of_plain h)
  rintro rfl
  exact hall h hd

theorem isSlash_plain {c : Char} (h : isPlain c = true) (special : Bool) :
    isSlash special c = false := by
  simp [isSlash, ne_of_plain h '/' (by simp), ne_of_plain h '\\' (by simp)]

variable {w : List Char} (h : ∀ c ∈ w, isPlain c = true)

section
include h

theorem encode_plain {r : Percent.Reserved}
    (hr : r ∈ [Percent.path, Percent.query, Percent.specialQuery]) : Percent.encode r w = w := by
  induction w with
  | nil => rfl
  | cons c w ih =>
    have hc : Percent.encodeChar r c = [c] := by
      rw [Percent.encodeChar, isReserved_of_plain (h c List.mem_cons_self) hr]
      rfl
    rw [Percent.encode, List.flatMap_cons, hc]
    exact congrArg (c :: ·) (ih fun d hd => h d (List.mem_cons_of_mem c hd))

theorem unescapePoints_plain : unescapePoints w = w := by
  have hpercent : '%' ∉ w := fun hw => ne_of_plain (h '%' hw) '%' (by simp) rfl
  clear h
  fun_induction unescapePoints w with
  | case1 => exact absurd List.mem_cons_self hpercent
  | case2 => exact absurd List.mem_cons_self hpercent
  | case3 c cs hc ih => rw [ih fun hcs => hpercent (List.mem_cons_of_mem c hcs)]
  | case4 => rfl

/-- A plain word is a segment of its own. -/
theorem isAbove_plain : isAbove w = false ∧ isHere w = false := by
  have hpoint : '.' ∉ w := fun hw => ne_of_plain (h '.' hw) '.' (by simp) rfl
  rw [isAbove, isHere, unescapePoints_plain h]
  constructor
  · rw [beq_eq_false_iff_ne]
    rintro rfl
    exact hpoint List.mem_cons_self
  · rw [beq_eq_false_iff_ne]
    rintro rfl
    exact hpoint List.mem_cons_self

theorem splitSlashes_plain (special : Bool) : splitSlashes special w = [w] := by
  induction w with
  | nil => rfl
  | cons c w ih =>
    rw [splitSlashes, isSlash_plain (h c List.mem_cons_self),
      ih fun d hd => h d (List.mem_cons_of_mem c hd)]
    rfl

theorem splitSlashes_append (special : Bool) (cs : List Char) :
    splitSlashes special (w ++ '/' :: cs) = w :: splitSlashes special cs := by
  induction w with
  | nil => rfl
  | cons c w ih =>
    rw [List.cons_append, splitSlashes, isSlash_plain (h c List.mem_cons_self),
      ih fun d hd => h d (List.mem_cons_of_mem c hd)]
    rfl

end

variable {words : List (List Char)}

section
variable (hne : words ≠ []) (hwords : ∀ w ∈ words, ∀ c ∈ w, isPlain c = true)
include hne hwords

/-- A path of plain words is split into them. -/
theorem splitSlashes_intercalate (special : Bool) :
    splitSlashes special (['/'].intercalate words) = words := by
  induction words with
  | nil => exact absurd rfl hne
  | cons w words ih =>
    have hw := hwords w List.mem_cons_self
    cases words with
    | nil =>
      rw [List.intercalate_singleton]
      exact splitSlashes_plain hw special
    | cons w' words =>
      rw [List.intercalate_cons_cons, List.append_assoc, List.singleton_append,
        splitSlashes_append hw, ih nofun fun v hv => hwords v (List.mem_cons_of_mem w hv)]

/-- Plain words lead down to themselves. -/
theorem descend_plain (above : List String) :
    descend above words = above ++ words.map String.ofList := by
  have hpath : Percent.path ∈ [Percent.path, Percent.query, Percent.specialQuery] :=
    List.mem_cons_self
  induction words generalizing above with
  | nil => exact absurd rfl hne
  | cons w words ih =>
    have hw := hwords w List.mem_cons_self
    obtain ⟨habove, hhere⟩ := isAbove_plain hw
    cases words with
    | nil =>
      rw [descend, habove, hhere, encode_plain hw hpath]
      rfl
    | cons w' words =>
      rw [descend, habove, hhere, encode_plain hw hpath]
      · refine (ih nofun (fun v hv => hwords v (List.mem_cons_of_mem w hv)) _).trans ?_
        rw [List.append_assoc]
        rfl
      · nofun

end

/-- A text is cut in front of the first character that ends it. -/
theorem upTo_append {ends : Char → Bool} {front : List Char} (hfront : ∀ c ∈ front, ends c = false)
    {c : Char} (hc : ends c = true) (rest : List Char) :
    upTo ends (front ++ c :: rest) = (front, c :: rest) := by
  have hgo : ∀ d ∈ front, (!ends d) = true := fun d hd => by rw [hfront d hd]; rfl
  rw [upTo, List.span_eq_takeWhile_dropWhile, List.takeWhile_append_of_pos hgo,
    List.dropWhile_append_of_pos hgo]
  simp [hc]

theorem upTo_of_no_end {ends : Char → Bool} {front : List Char}
    (hfront : ∀ c ∈ front, ends c = false) : upTo ends front = (front, []) := by
  have hgo : ∀ d ∈ front, (!ends d) = true := fun d hd => by rw [hfront d hd]; rfl
  rw [upTo, List.span_eq_takeWhile_dropWhile, List.takeWhile_eq_self_iff.2 hgo,
    List.dropWhile_eq_nil_iff.2 hgo]

/-- **Below a URL, plain words and a plain query are found as they are.** -/
theorem join_plain {base : Url} {ss : List String} (hbase : base.path = .segments ss)
    {words : List String} (hne : words ≠ [])
    (hwords : ∀ w ∈ words, ∀ c ∈ w.toList, isPlain c = true) {query : String}
    (hquery : ∀ c ∈ query.toList, isPlain c = true) :
    base.join ("/".intercalate words ++ "?" ++ query) =
      .ok { base with
        path := .segments (base.above ++ words)
        query := some query
        fragment := none } := by
  have hwords' : ∀ w ∈ words.map String.toList, ∀ c ∈ w, isPlain c = true := by
    intro w hw
    obtain ⟨word, hword, rfl⟩ := List.mem_map.1 hw
    exact hwords word hword
  have hne' : words.map String.toList ≠ [] := by simpa using hne
  have hchars : ("/".intercalate words ++ "?" ++ query).toList =
      ['/'].intercalate (words.map String.toList) ++ '?' :: query.toList := by
    simp [String.toList_intercalate]
  have hpath : ∀ c ∈ ['/'].intercalate (words.map String.toList), (c = '?' || c = '#') = false := by
    intro c hc
    obtain rfl | ⟨w, hw, hc⟩ := Text.mem_intercalate hc
    · decide
    · have hplain := hwords' w hw c hc
      simp [ne_of_plain hplain '?' (by simp), ne_of_plain hplain '#' (by simp)]
  have hnoFragment : ∀ c ∈ '?' :: query.toList, (decide (c = '#')) = false := by
    intro c hc
    rcases List.mem_cons.1 hc with rfl | hc
    · decide
    · simp [ne_of_plain (hquery c hc) '#' (by simp)]
  have hafter : queryAndFragment (isSpecial base.scheme) ('?' :: query.toList) =
      (some query, none) := by
    rw [queryAndFragment, upTo_of_no_end hnoFragment]
    cases isSpecial base.scheme with
    | true => simp [encode_plain hquery]
    | false => simp [encode_plain hquery]
  have hsegments : (words.map String.toList).map String.ofList = words := by
    simp [Function.comp_def]
  rw [join, hbase, hchars]
  simp only [upTo_append hpath (by decide : ('?' = '?' || '?' = '#') = true)]
  rw [hafter, splitSlashes_intercalate hne' hwords', descend_plain hne' hwords', hsegments, above,
    hbase]

end PoolKeeper.Url
