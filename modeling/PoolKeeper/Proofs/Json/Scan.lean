/-
What the scanner makes of the tokens of a text.

What the scanner does between the first and the last byte of a value is said
once, as `Spells`: whatever containers are open, the bytes leave the scanner as
if the value had been put in its place. Values that are put together of others
spell what their parts do, with blanks between them or not, so a text is scanned
by the parts it has. A number alone does not end by itself, so what it leaves is
compared only at the bytes that may follow a value, and at the end of the text.
-/
import Mathlib.Tactic.IntervalCases
import PoolKeeper.Json.Scan
import PoolKeeper.Json.Value

namespace PoolKeeper

/-! ## Digits -/

namespace Numeral

theorem digitsOnto_head {b n : Nat} (hb : 1 < b) (hn : 0 < n) (tail : List Nat) :
    ∃ d ds, digitsOnto b n tail = d :: ds ∧ 0 < d := by
  fun_induction digitsOnto b n tail with
  | case1 n tail h ih => exact ih (Nat.div_pos h.2 (by omega))
  | case2 n tail h => exact ⟨n, tail, rfl, hn⟩

/-- Only zero starts with the digit zero. -/
theorem digits_head {b n : Nat} (hb : 1 < b) (hn : 0 < n) :
    ∃ d ds, digits b n = d :: ds ∧ 0 < d :=
  digitsOnto_head hb hn []

theorem le_foldl_digits {b : Nat} (hb : 0 < b) (ds : List Nat) (v : Nat) :
    v ≤ ds.foldl (fun v d => v * b + d) v := by
  induction ds generalizing v with
  | nil => exact Nat.le_refl v
  | cons d ds ih =>
    have hstep : v ≤ v * b + d := Nat.le_add_right_of_le (Nat.le_mul_of_pos_right v hb)
    exact Nat.le_trans hstep (ih (v * b + d))

end Numeral

namespace Json

/-- The byte of a decimal digit. -/
def digitByte (d : Nat) : UInt8 := UInt8.ofNat (Numeral.digitChar d).toNat

theorem digits_eq_map (n : Nat) : digits n = (Numeral.digits 10 n).map digitByte := by
  simp [digits, Numeral.chars, digitByte]

theorem digits_zero : digits 0 = [0x30] := by
  rw [digits_eq_map, Numeral.digits, Numeral.digitsOnto, dif_neg (by decide)]
  rfl

namespace Literal

/-- The literal after the digits of `v`, where `v` is not zero. -/
def whole (v : Nat) : Literal := ⟨.whole, false, v, false, 0, false, 0⟩

theorem start?_digitByte {d : Nat} (hpos : 0 < d) (hd : d < 10) :
    start? (digitByte d) = some (whole d) := by
  interval_cases d <;> rfl

theorem step_digitByte {v d : Nat} (hd : d < 10) (hv : v * 10 + d < 2 ^ 64) :
    (whole v).step (digitByte d) = .more (whole (v * 10 + d)) := by
  have hbyte : (0x30 ≤ digitByte d ∧ digitByte d ≤ 0x39) ∧ (digitByte d).toNat - 48 = d := by
    interval_cases d <;> decide
  simp only [step, whole, hbyte.1, hbyte.2, and_self, if_true, wholeDigit]
  rw [if_neg (by simp; omega)]

/-- A number may end where a literal is in this phase. -/
def CanEnd (p : Phase) : Prop := p = .zero ∨ p = .whole ∨ p = .fraction ∨ p = .exponent

/-- A number in plain digits ends at its value. -/
theorem finish?_whole (v : Nat) : (whole v).finish? = some (.whole (UInt64.ofNat v)) := rfl

/-- The literal that a character goes on with. -/
def next? (l : Literal) (c : UInt8) : Option Literal :=
  match l.step c with
  | .more l => some l
  | _ => none

theorem next?_eq_some_iff {l l' : Literal} {c : UInt8} :
    l.next? c = some l' ↔ l.step c = .more l' := by
  rw [next?]
  cases l.step c <;> simp

theorem foldlM_digits {ds : List Nat} (hd : ∀ d ∈ ds, d < 10) {v : Nat}
    (hv : ds.foldl (fun v d => v * 10 + d) v < 2 ^ 64) :
    (ds.map digitByte).foldlM next? (whole v) =
      some (whole (ds.foldl (fun v d => v * 10 + d) v)) := by
  induction ds generalizing v with
  | nil => rfl
  | cons d ds ih =>
    rw [List.foldl_cons] at hv ⊢
    have hfirst : v * 10 + d < 2 ^ 64 :=
      Nat.lt_of_le_of_lt (Numeral.le_foldl_digits (by decide) ds (v * 10 + d)) hv
    have hnext := next?_eq_some_iff.2 (step_digitByte (hd d (by simp)) hfirst)
    rw [List.map_cons, List.foldlM_cons, hnext]
    exact ih (fun e he => hd e (by simp [he])) hv

/-- The first digit of a number starts a literal, and the others lead from there to the number. -/
theorem exists_digits {n : Nat} (hpos : 0 < n) (hn : n < 2 ^ 64) :
    ∃ d cs, digits n = digitByte d :: cs ∧ 0 < d ∧ d < 10 ∧
      cs.foldlM next? (whole d) = some (whole n) := by
  obtain ⟨d, ds, hds, hd⟩ := Numeral.digits_head (b := 10) (by decide) hpos
  have hlt : ∀ e ∈ d :: ds, e < 10 := hds ▸ Numeral.digits_lt (by decide) n
  have hvalue : ds.foldl (fun v e => v * 10 + e) d = n := by
    have := Numeral.value_digits 10 n
    rwa [hds, Numeral.value, List.foldl_cons, Nat.zero_mul, Nat.zero_add] at this
  refine ⟨d, ds.map digitByte, by rw [digits_eq_map, hds, List.map_cons], hd, hlt d (by simp), ?_⟩
  rw [foldlM_digits (fun e he => hlt e (by simp [he])) (by rwa [hvalue]), hvalue]

end Literal

/-! ## Strings between quotes -/

namespace Quoted

/-- A string that stands for `bs` so far, newest first, and may go on with anything. -/
def opened (bs : Bytes) : Quoted := ⟨.plain, bs, none, true⟩

/-- The string that a byte goes on with. -/
def next? (q : Quoted) (c : UInt8) : Option Quoted :=
  match q.step c with
  | .more q => some q
  | _ => none

theorem next?_eq_some_iff {q q' : Quoted} {c : UInt8} :
    q.next? c = some q' ↔ q.step c = .more q' := by
  rw [next?]
  cases q.step c <;> simp

/-- The closing quote gives the text back whose bytes have been read. -/
theorem step_quote (s : String) :
    (opened (Bytes.ofText s).reverse).step 0x22 = .closed (some s) := by
  simp [step, opened, Bytes.text?_ofText]

end Quoted

/-! ## Tokens in the scanner -/

namespace Scanner

/-- The bytes that may come after a value. -/
def Follows (c : UInt8) : Prop := isBlank c = true ∨ c = 0x2c ∨ c = 0x5d ∨ c = 0x7d

/-- While a token goes on, the scanner goes on in the token's mode. -/
theorem run_within {σ : Type} {mode : σ → Mode} {next? : σ → UInt8 → Option σ} {stack : List Frame}
    (hstep : ∀ x c x', next? x c = some x' →
      (running stack (mode x)).step c = running stack (mode x'))
    {x x' : σ} {xs : Bytes} (h : xs.foldlM next? x = some x') :
    (running stack (mode x)).run xs = running stack (mode x') := by
  induction xs generalizing x with
  | nil =>
    cases h
    rfl
  | cons c xs ih =>
    rw [List.foldlM_cons] at h
    obtain ⟨y, hy, hrest⟩ := Option.bind_eq_some_iff.1 h
    rw [run_cons, hstep x c y hy, ih hrest]

theorem run_literal (stack : List Frame) {l l' : Literal} {xs : Bytes}
    (h : xs.foldlM Literal.next? l = some l') :
    (running stack (.literal l)).run xs = running stack (.literal l') :=
  run_within (fun l c l' hl => by rw [step, Literal.next?_eq_some_iff.1 hl]) h

theorem run_quoted (stack : List Frame) {q q' : Quoted} {xs : Bytes}
    (h : xs.foldlM Quoted.next? q = some q') :
    (running stack (.quoted q)).run xs = running stack (.quoted q') :=
  run_within (fun q c q' hq => by rw [step, Quoted.next?_eq_some_iff.1 hq]) h

theorem run_quotedKey (stack : List Frame) {q q' : Quoted} {xs : Bytes}
    (h : xs.foldlM Quoted.next? q = some q') :
    (running stack (.quotedKey q)).run xs = running stack (.quotedKey q') :=
  run_within (fun q c q' hq => by rw [step, Quoted.next?_eq_some_iff.1 hq]) h

/-- Between the quotes stand bytes that are read as the text. -/
def Quotes (q : Bytes) (s : String) : Prop :=
  ∃ body, q = 0x22 :: (body ++ [0x22]) ∧
    body.foldlM Quoted.next? (.opened []) = some (.opened (Bytes.ofText s).reverse)

/-- A text between quotes is put in its place as a string. -/
theorem run_quotes (stack : List Frame) {q : Bytes} {s : String} (h : Quotes q s) :
    (running stack .value).run q = place (.string (some s)) stack := by
  obtain ⟨body, rfl, hbody⟩ := h
  have hopen : (running stack .value).step 0x22 = running stack (.quoted (.opened [])) := rfl
  rw [run_cons, hopen, run_append, run_quoted stack hbody, run_cons, step, Quoted.step_quote,
    run_nil]

/-- A text between quotes is taken as a key where one is expected. -/
theorem run_quotes_key {mode : Mode} (hmode : mode = .key ∨ mode = .firstKey)
    (members : List (Option String × Tree)) (stack : List Frame) {q : Bytes} {k : String}
    (h : Quotes q k) :
    (running (.object members :: stack) mode).run q
      = running (.member members (some k) :: stack) .colon := by
  obtain ⟨body, rfl, hbody⟩ := h
  have hopen : (running (.object members :: stack) mode).step 0x22
      = running (.object members :: stack) (.quotedKey (.opened [])) := by
    rcases hmode with rfl | rfl <;> rfl
  rw [run_cons, hopen, run_append, run_quotedKey _ hbody, run_cons, step, Quoted.step_quote,
    run_nil]
  rfl

/-! ## Blanks in the scanner -/

/-- Blanks, and nothing else. -/
def Blanks (w : Bytes) : Prop := ∀ c ∈ w, isBlank c = true

theorem Blanks.nil : Blanks [] := by simp [Blanks]

/-- In these modes the scanner waits for the next token. -/
def Waits (mode : Mode) : Prop :=
  mode = .value ∨ mode = .firstItem ∨ mode = .key ∨ mode = .firstKey ∨ mode = .colon ∨ mode = .next

/-- Between tokens the scanner stays as it is over blanks. -/
theorem run_blanks {mode : Mode} (hmode : Waits mode) {w : Bytes} (hw : Blanks w)
    (stack : List Frame) : (running stack mode).run w = running stack mode := by
  induction w with
  | nil => rfl
  | cons c w ih =>
    have hc : isBlank c = true := hw c (by simp)
    have hstep : (running stack mode).step c = running stack mode := by
      rcases hmode with rfl | rfl | rfl | rfl | rfl | rfl <;>
        simp [step, between, beforeKey, hc]
    rw [run_cons, hstep, ih fun d hd => hw d (by simp [hd])]

/-- With a value in its place the text is done, or the container goes on. -/
theorem place_cases (t : Tree) (stack : List Frame) :
    (∃ t', place t stack = .done t') ∨ ∃ stack', place t stack = running stack' .next := by
  rcases stack with _ | ⟨_ | _ | _ | _, rest⟩
  · exact .inl ⟨_, rfl⟩
  · exact .inr ⟨_, rfl⟩
  · exact .inl ⟨_, rfl⟩
  · exact .inr ⟨_, rfl⟩
  · exact .inl ⟨_, rfl⟩

theorem run_done (t : Tree) (xs : Bytes) : (done t).run xs = done t := by
  induction xs with
  | nil => rfl
  | cons c xs ih => exact ih

theorem run_place_blanks {w : Bytes} (hw : Blanks w) (t : Tree) (stack : List Frame) :
    (place t stack).run w = place t stack := by
  obtain ⟨t', ht⟩ | ⟨stack', ht⟩ := place_cases t stack
  · rw [ht, run_done]
  · rw [ht, run_blanks (by simp [Waits]) hw]

theorem ne_of_start? {c d : UInt8} {l : Literal} (h : Literal.start? c = some l)
    (hd : Literal.start? d = none) : c ≠ d := by
  rintro rfl
  rw [hd] at h
  cases h

theorem isBlank_of_start? {c : UInt8} {l : Literal} (h : Literal.start? c = some l) :
    isBlank c = false := by
  have hne (d : UInt8) (hd : Literal.start? d = none) : c ≠ d := ne_of_start? h hd
  simp [isBlank, hne 0x20 rfl, hne 0x0a rfl, hne 0x0d rfl, hne 0x09 rfl]

theorem opening_of_start? (stack : List Frame) {c : UInt8} {l : Literal}
    (h : Literal.start? c = some l) : opening stack c = running stack (.literal l) := by
  rw [opening, if_neg (ne_of_start? h rfl), if_neg (ne_of_start? h rfl),
    if_neg (ne_of_start? h rfl), if_neg (ne_of_start? h rfl), if_neg (ne_of_start? h rfl),
    if_neg (ne_of_start? h rfl), h]

end Scanner

open Scanner

/-! ## Texts of values -/

/-- The bytes start with neither a blank nor the end of an array. -/
abbrev StartsValue (xs : Bytes) : Prop := ∃ c cs, xs = c :: cs ∧ isBlank c = false ∧ c ≠ 0x5d

/-- The bytes start as they may after a value. -/
abbrev FollowsValue (xs : Bytes) : Prop := ∃ c cs, xs = c :: cs ∧ Follows c

/-- The bytes are scanned as the value, in whatever containers they stand. -/
structure Spells (xs : Bytes) (t : Tree) : Prop where
  head : StartsValue xs
  step : ∀ stack c, Follows c →
    ((running stack .value).run xs).step c = (place t stack).step c
  finish : ∀ stack, ((running stack .value).run xs).finish = (place t stack).finish

/-- The bytes are scanned as the value, with blanks in front. -/
def SpellsPadded (xs : Bytes) (t : Tree) : Prop :=
  ∃ w ys, xs = w ++ ys ∧ Blanks w ∧ Spells ys t

/-- The bytes are scanned as a key and its value, with blanks between. -/
def SpellsMember (xs : Bytes) (k : String) (t : Tree) : Prop :=
  ∃ w q w' ys, xs = w ++ (q ++ (w' ++ 0x3a :: ys)) ∧ Blanks w ∧ Quotes q k ∧ Blanks w' ∧
    SpellsPadded ys t

/-- The bytes after an item, with which the array ends. -/
structure SpellsItems (xs : Bytes) (ts : List Tree) : Prop where
  head : FollowsValue xs
  run : ∀ items stack, (running (.array items :: stack) .next).run xs
    = place (.array (items.reverse ++ ts) true) stack

/-- The bytes after a member, with which the object ends. -/
structure SpellsMembers (xs : Bytes) (ms : List (Option String × Tree)) : Prop where
  head : FollowsValue xs
  run : ∀ members stack, (running (.object members :: stack) .next).run xs
    = place (.object (members.reverse ++ ms) true) stack

namespace Spells
variable {xs ys : Bytes} {t : Tree} {ts : List Tree} {ms : List (Option String × Tree)}

theorem of_run (head : StartsValue xs)
    (h : ∀ stack, (running stack .value).run xs = place t stack) : Spells xs t :=
  ⟨head, fun stack c _ => by rw [h], fun stack => by rw [h]⟩

theorem run_append (h : Spells xs t) (hys : FollowsValue ys) (stack : List Frame) :
    (running stack .value).run (xs ++ ys) = (place t stack).run ys := by
  obtain ⟨c, cs, rfl, hc⟩ := hys
  rw [Scanner.run_append, run_cons, run_cons, h.step stack c hc]

/-- The first item of an array is scanned as any other. -/
theorem run_firstItem (h : Spells xs t) (stack : List Frame) (ys : Bytes) :
    (running stack .firstItem).run (xs ++ ys) = (running stack .value).run (xs ++ ys) := by
  obtain ⟨c, cs, rfl, hblank, hclose⟩ := h.head
  have hstep : (running stack .firstItem).step c = (running stack .value).step c := by
    simp [Scanner.step, hblank, hclose]
  rw [List.cons_append, run_cons, run_cons, hstep]

/-- Blanks behind a value are no part of it. -/
theorem blanks (h : Spells xs t) {w : Bytes} (hw : Blanks w) : Spells (xs ++ w) t := by
  cases w with
  | nil => rwa [List.append_nil]
  | cons c w =>
    have hrun (stack : List Frame) :
        (running stack .value).run (xs ++ c :: w) = place t stack := by
      rw [h.run_append ⟨c, w, rfl, .inl (hw c (by simp))⟩, run_place_blanks hw]
    obtain ⟨d, ds, rfl, hd⟩ := h.head
    exact ⟨⟨d, ds ++ c :: w, rfl, hd⟩, fun stack _ _ => by rw [hrun], fun stack => by rw [hrun]⟩

theorem padded (h : Spells xs t) : SpellsPadded xs t := ⟨[], xs, rfl, .nil, h⟩

theorem null : Spells [0x6e, 0x75, 0x6c, 0x6c] .null :=
  of_run ⟨_, _, rfl, rfl, by decide⟩ fun _ => rfl

theorem bool (b : Bool) : Spells (write (.bool b)) (.bool b) := by
  cases b with
  | true => exact of_run ⟨0x74, _, rfl, rfl, by decide⟩ fun _ => rfl
  | false => exact of_run ⟨0x66, _, rfl, rfl, by decide⟩ fun _ => rfl

theorem string {q : Bytes} {s : String} (h : Quotes q s) : Spells q (.string (some s)) := by
  have hrun (stack : List Frame) := run_quotes stack h
  obtain ⟨body, rfl, -⟩ := h
  exact of_run ⟨0x22, _, rfl, rfl, by decide⟩ hrun

theorem step_of_follows {l : Literal} (hl : Literal.CanEnd l.phase) {c : UInt8}
    (hc : Follows c) : l.step c = .stop := by
  obtain ⟨phase, _⟩ := l
  have hcases : c = 0x20 ∨ c = 0x0a ∨ c = 0x0d ∨ c = 0x09 ∨ c = 0x2c ∨ c = 0x5d ∨ c = 0x7d := by
    simpa [Follows, isBlank, or_assoc] using hc
  rcases hl with rfl | rfl | rfl | rfl <;>
    rcases hcases with rfl | rfl | rfl | rfl | rfl | rfl | rfl <;> rfl

/-- A literal that can end is a number wherever it ends. -/
theorem of_literal {c : UInt8} {cs : Bytes} {l l' : Literal} {n : Numeric}
    (hstart : Literal.start? c = some l) (hrun : cs.foldlM Literal.next? l = some l')
    (hend : Literal.CanEnd l'.phase) (hn : l'.finish? = some n) :
    Spells (c :: cs) (.number n) := by
  have h (stack : List Frame) :
      (running stack .value).run (c :: cs) = running stack (.literal l') := by
    have hopen : (running stack .value).step c = running stack (.literal l) := by
      simp [Scanner.step, isBlank_of_start? hstart, opening_of_start? stack hstart]
    rw [run_cons, hopen, run_literal stack hrun]
  refine ⟨⟨c, cs, rfl, isBlank_of_start? hstart, ne_of_start? hstart rfl⟩,
    fun stack d hd => ?_, fun stack => ?_⟩
  · rw [h]
    obtain ⟨t, ht⟩ | ⟨stack', ht⟩ := place_cases (.number n) stack
    · simp [Scanner.step, step_of_follows hend hd, hn, ht]
    · simp [Scanner.step, step_of_follows hend hd, hn, ht]
  · rw [h]
    obtain ⟨t, ht⟩ | ⟨stack', ht⟩ := place_cases (.number n) stack
    · simp [Scanner.finish, hn, ht]
    · simp [Scanner.finish, hn, ht]

/-- **The digits of a number of 64 bits are scanned as the number.** -/
theorem number {n : Nat} (hn : n < 2 ^ 64) :
    Spells (digits n) (.number (.whole (UInt64.ofNat n))) := by
  rcases Nat.eq_zero_or_pos n with rfl | hpos
  · rw [digits_zero]
    have hzero : Literal.start? 0x30 = some ⟨.zero, false, 0, false, 0, false, 0⟩ := rfl
    exact of_literal hzero rfl (.inl rfl) rfl
  · obtain ⟨d, cs, hdigits, hd, hd10, hrun⟩ := Literal.exists_digits hpos hn
    rw [hdigits]
    exact of_literal (Literal.start?_digitByte hd hd10) hrun (.inr (.inl rfl))
      (Literal.finish?_whole n)

end Spells

namespace SpellsPadded
variable {xs ys : Bytes} {t : Tree}

theorem run_append (h : SpellsPadded xs t) (hys : FollowsValue ys) (stack : List Frame) :
    (running stack .value).run (xs ++ ys) = (place t stack).run ys := by
  obtain ⟨w, xs, rfl, hw, hx⟩ := h
  rw [List.append_assoc, Scanner.run_append, run_blanks (by simp [Waits]) hw, hx.run_append hys]

/-- The first item of an array is scanned as any other. -/
theorem run_firstItem (h : SpellsPadded xs t) (hys : FollowsValue ys) (stack : List Frame) :
    (running stack .firstItem).run (xs ++ ys) = (place t stack).run ys := by
  obtain ⟨w, xs, rfl, hw, hx⟩ := h
  rw [List.append_assoc, Scanner.run_append, run_blanks (by simp [Waits]) hw, hx.run_firstItem,
    hx.run_append hys]

/-- Blanks around a value are no part of it. -/
theorem blanks (h : Spells xs t) {w w' : Bytes} (hw : Blanks w) (hw' : Blanks w') :
    SpellsPadded (w ++ (xs ++ w')) t :=
  ⟨w, _, rfl, hw, h.blanks hw'⟩

/-- A text that holds one value and nothing else is scanned as the value. -/
theorem scan (h : SpellsPadded xs t) : Tree.scan xs = t := by
  obtain ⟨w, xs, rfl, hw, hx⟩ := h
  rw [Tree.scan, start, Scanner.run_append, run_blanks (by simp [Waits]) hw, hx.finish]
  rfl

end SpellsPadded

/-- A key, its colon and its value become a member of the object. -/
theorem SpellsMember.run_append {xs ys : Bytes} {k : String} {t : Tree} (h : SpellsMember xs k t)
    {mode : Mode} (hmode : mode = .key ∨ mode = .firstKey) (hys : FollowsValue ys)
    (members : List (Option String × Tree)) (stack : List Frame) :
    (running (.object members :: stack) mode).run (xs ++ ys)
      = (running (.object ((some k, t) :: members) :: stack) .next).run ys := by
  obtain ⟨w, q, w', xs, rfl, hw, hq, hw', hx⟩ := h
  have hcolon : (running (.member members (some k) :: stack) .colon).step 0x3a
      = running (.member members (some k) :: stack) .value := rfl
  have hwaits : Waits mode := by
    rcases hmode with rfl | rfl <;> simp [Waits]
  simp only [List.append_assoc, List.cons_append]
  rw [Scanner.run_append, run_blanks hwaits hw, Scanner.run_append, run_quotes_key hmode _ _ hq,
    Scanner.run_append, run_blanks (by simp [Waits]) hw', run_cons, hcolon, hx.run_append hys]
  rfl

namespace Spells
variable {xs ys w : Bytes} {k : String} {t : Tree} {ts : List Tree}
  {ms : List (Option String × Tree)}

/-! ### Arrays -/

theorem items_nil : SpellsItems [0x5d] [] :=
  ⟨⟨0x5d, _, rfl, by simp [Follows]⟩, fun items stack => by
    rw [List.append_nil]
    rfl⟩

theorem items_cons (hx : SpellsPadded xs t) (hxs : SpellsItems ys ts) :
    SpellsItems (0x2c :: (xs ++ ys)) (t :: ts) := by
  refine ⟨⟨0x2c, _, rfl, by simp [Follows]⟩, fun items stack => ?_⟩
  have hcomma : (running (.array items :: stack) .next).step 0x2c
      = running (.array items :: stack) .value := rfl
  rw [run_cons, hcomma, hx.run_append hxs.head, place, hxs.run, List.reverse_cons,
    List.append_assoc, List.singleton_append]

theorem array_nil (hw : Blanks w) : Spells (0x5b :: (w ++ [0x5d])) (.array [] true) := by
  refine of_run ⟨0x5b, _, rfl, rfl, by decide⟩ fun stack => ?_
  have hopen : (running stack .value).step 0x5b = running (.array [] :: stack) .firstItem := rfl
  rw [run_cons, hopen, Scanner.run_append, run_blanks (by simp [Waits]) hw]
  rfl

theorem array_cons (hx : SpellsPadded xs t) (hxs : SpellsItems ys ts) :
    Spells (0x5b :: (xs ++ ys)) (.array (t :: ts) true) := by
  refine of_run ⟨0x5b, _, rfl, rfl, by decide⟩ fun stack => ?_
  have hopen : (running stack .value).step 0x5b = running (.array [] :: stack) .firstItem := rfl
  rw [run_cons, hopen, hx.run_firstItem hxs.head, place, hxs.run]
  rfl

/-! ### Objects -/

theorem members_nil : SpellsMembers [0x7d] [] :=
  ⟨⟨0x7d, _, rfl, by simp [Follows]⟩, fun members stack => by
    rw [List.append_nil]
    rfl⟩

theorem members_cons (hx : SpellsMember xs k t) (hxs : SpellsMembers ys ms) :
    SpellsMembers (0x2c :: (xs ++ ys)) ((some k, t) :: ms) := by
  refine ⟨⟨0x2c, _, rfl, by simp [Follows]⟩, fun members stack => ?_⟩
  have hcomma : (running (.object members :: stack) .next).step 0x2c
      = running (.object members :: stack) .key := rfl
  rw [run_cons, hcomma, hx.run_append (.inl rfl) hxs.head, hxs.run, List.reverse_cons,
    List.append_assoc, List.singleton_append]

theorem object_nil (hw : Blanks w) : Spells (0x7b :: (w ++ [0x7d])) (.object [] true) := by
  refine of_run ⟨0x7b, _, rfl, rfl, by decide⟩ fun stack => ?_
  have hopen : (running stack .value).step 0x7b = running (.object [] :: stack) .firstKey := rfl
  rw [run_cons, hopen, Scanner.run_append, run_blanks (by simp [Waits]) hw]
  rfl

theorem object_cons (hx : SpellsMember xs k t) (hxs : SpellsMembers ys ms) :
    Spells (0x7b :: (xs ++ ys)) (.object ((some k, t) :: ms) true) := by
  refine of_run ⟨0x7b, _, rfl, rfl, by decide⟩ fun stack => ?_
  have hopen : (running stack .value).step 0x7b = running (.object [] :: stack) .firstKey := rfl
  rw [run_cons, hopen, hx.run_append (.inr rfl) hxs.head, hxs.run]
  rfl

end Spells

end Json
end PoolKeeper
