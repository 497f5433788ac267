/-
The ways in which a text and a number may be written.

A character between quotes stands as it is, or behind a backslash by a letter or
by the number of its code unit, of which some have two (`SpelledAs`). A number is
a sign, digits, a fraction and an exponent (`Number`), of any size: a number that
nobody wants is never asked whether it fits into a double.
-/
import Mathlib.Data.List.Forall2
import PoolKeeper.Proofs.Json.Scan

namespace PoolKeeper

/-! ## The bytes of a text, character by character -/

namespace Bytes

theorem ofText_eq_flatMap (s : String) : ofText s = s.toList.flatMap String.utf8EncodeChar := by
  rw [ofText, ← String.utf8Encode_toList, List.utf8Encode, List.data_toByteArray]

theorem toNat_lt_of_char (c : Char) : c.toNat < 0x110000 := by
  rcases c.valid with h | h
  · exact Nat.lt_trans h (by decide)
  · exact h.2

/-- The scanner and the text agree on the bytes of a character. -/
theorem utf8EncodeChar_eq (c : Char) : String.utf8EncodeChar c = Json.Quoted.utf8 c.toNat := by
  have hmax := toNat_lt_of_char c
  have hencode : String.utf8EncodeChar c =
      if c.toNat ≤ 0x7f then [UInt8.ofNat c.toNat]
      else if c.toNat ≤ 0x7ff then
        [UInt8.ofNat (c.toNat / 64 % 32 + 192), UInt8.ofNat (c.toNat % 64 + 128)]
      else if c.toNat ≤ 0xffff then
        [UInt8.ofNat (c.toNat / 4096 % 16 + 224), UInt8.ofNat (c.toNat / 64 % 64 + 128),
          UInt8.ofNat (c.toNat % 64 + 128)]
      else
        [UInt8.ofNat (c.toNat / 262144 % 8 + 240), UInt8.ofNat (c.toNat / 4096 % 64 + 128),
          UInt8.ofNat (c.toNat / 64 % 64 + 128), UInt8.ofNat (c.toNat % 64 + 128)] := rfl
  rw [hencode, Json.Quoted.utf8]
  generalize c.toNat = n at hmax
  split_ifs <;> try omega
  · rfl
  all_goals
    simp only [List.cons.injEq, and_true, Nat.pow_zero, Nat.pow_one, Nat.div_one]
    refine ⟨?_, ?_⟩
  · congr 1; omega
  · congr 1; omega
  · congr 1; omega
  · constructor <;> congr 1 <;> omega
  · congr 1; omega
  · refine ⟨?_, ?_, ?_⟩ <;> congr 1 <;> omega

end Bytes

namespace Json

namespace Quoted

theorem utf8_of_lt {n : Nat} (h : n < 0x80) : utf8 n = [UInt8.ofNat n] := if_pos h

/-- The bytes of a character that is no ASCII are none either. -/
theorem le_of_mem_utf8 {n : Nat} (h : 0x80 ≤ n) (hmax : n < 0x110000) {b : UInt8}
    (hb : b ∈ utf8 n) : 0x80 ≤ b := by
  have hle (k : Nat) (hk : 0x80 ≤ k) (hk' : k < 0x100) : 0x80 ≤ UInt8.ofNat k := by
    rw [UInt8.le_iff_toNat_le, UInt8.toNat_ofNat', Nat.mod_eq_of_lt hk']
    exact hk
  rw [utf8, if_neg (by omega)] at hb
  split_ifs at hb <;> simp only [List.mem_cons, List.not_mem_nil, or_false] at hb
  · obtain rfl | rfl := hb <;> exact hle _ (by omega) (by omega)
  · obtain rfl | rfl | rfl := hb <;> exact hle _ (by omega) (by omega)
  · obtain rfl | rfl | rfl | rfl := hb <;> exact hle _ (by omega) (by omega)

/-! ### Escapes -/

theorem step_digit {q : Quoted} {k v d : Nat} {c : UInt8} (hq : q.phase = .code k v)
    (hc : Bytes.hexValue? (Char.ofNat c.toNat) = some d) :
    q.step c = .more (if k = 3 then q.addUnit (v * 16 + d)
      else { q with phase := .code (k + 1) (v * 16 + d) }) := by
  simp only [step, hq, hc]
  split <;> rfl

/-- Four hexadecimal digits, of either case, and the number they stand for. -/
def IsCode (ds : Bytes) (n : Nat) : Prop :=
  ∃ a b c d,
    ds.map (fun x => Bytes.hexValue? (Char.ofNat x.toNat)) = [some a, some b, some c, some d] ∧
      n = ((a * 16 + b) * 16 + c) * 16 + d

theorem addUnit_phase (q : Quoted) (phase : Phase) (n : Nat) :
    ({ q with phase := phase } : Quoted).addUnit n = q.addUnit n := by
  simp only [addUnit, add]

/-- An escape in four digits adds the unit that it names. -/
theorem foldlM_unit {q : Quoted} (hq : q.phase = .plain) {ds : Bytes} {n : Nat} (h : IsCode ds n) :
    (0x5c :: 0x75 :: ds).foldlM next? q = some (q.addUnit n) := by
  obtain ⟨a, b, c, d, hds, rfl⟩ := h
  obtain _ | ⟨x, _ | ⟨y, _ | ⟨z, _ | ⟨w, _ | _⟩⟩⟩⟩ := ds <;>
    simp only [List.map_cons, List.map_nil, List.cons.injEq, reduceCtorEq, and_false,
      and_true] at hds
  obtain ⟨hx, hy, hz, hw⟩ := hds
  have hslash : next? q 0x5c = some { q with phase := .escape } := by simp [next?, step, hq]
  have hu : next? { q with phase := .escape } 0x75 = some { q with phase := .code 0 0 } := rfl
  have hdigit (k v d : Nat) (x : UInt8) (hx : Bytes.hexValue? (Char.ofNat x.toNat) = some d)
      (hk : k ≠ 3) : next? { q with phase := .code k v } x
        = some { q with phase := .code (k + 1) (v * 16 + d) } := by
    rw [next?_eq_some_iff, step_digit rfl hx, if_neg hk]
  have hlast (v d : Nat) (x : UInt8) (hx : Bytes.hexValue? (Char.ofNat x.toNat) = some d) :
      next? { q with phase := .code 3 v } x = some (q.addUnit (v * 16 + d)) := by
    rw [next?_eq_some_iff, step_digit rfl hx, if_pos rfl, addUnit_phase]
  simp only [List.foldlM_cons, List.foldlM_nil, hslash, hu, hdigit 0 0 a x hx (by decide),
    hdigit 1 _ b y hy (by decide), hdigit 2 _ c z hz (by decide), hlast _ d w hw,
    Option.bind_eq_bind, Option.bind_some, Nat.zero_mul, Nat.zero_add, Option.pure_def]

theorem addUnit_opened {n : Nat} (h : ¬ (0xd800 ≤ n ∧ n ≤ 0xdfff)) (bs : Bytes) :
    (opened bs).addUnit n = opened ((utf8 n).reverse ++ bs) := by
  simp only [addUnit, opened]
  rw [if_neg (by omega), if_neg (by omega)]
  rfl

/-- The code of a control character stands for the character. -/
theorem isCode_control {b : UInt8} (hb : b < 0x20) :
    IsCode [0x30, 0x30, digitByte (b.toNat / 16), digitByte (b.toNat % 16)] b.toNat := by
  have hlt : b.toNat < 0x20 := UInt8.lt_iff_toNat_lt.1 hb
  have hdigit : ∀ d : Fin 16, Bytes.hexValue? (Char.ofNat (digitByte d.1).toNat) = some d.1 := by
    decide
  have hzero : Bytes.hexValue? (Char.ofNat (0x30 : UInt8).toNat) = some 0 := by decide
  refine ⟨0, 0, b.toNat / 16, b.toNat % 16, ?_, by omega⟩
  simp only [List.map_cons, List.map_nil, hzero, hdigit ⟨b.toNat / 16, by omega⟩,
    hdigit ⟨b.toNat % 16, by omega⟩]

/-! ### Characters -/

/-- The letters behind a backslash, and the numbers of the characters they stand for. -/
def letters : List (UInt8 × Nat) :=
  [(0x22, 0x22), (0x5c, 0x5c), (0x2f, 0x2f), (0x62, 0x08), (0x66, 0x0c), (0x6e, 0x0a), (0x72, 0x0d),
    (0x74, 0x09)]

/-- The ways in which a character may be written between quotes. -/
inductive SpelledAs (c : Char) : Bytes → Prop
  | plain (hcontrol : 0x20 ≤ c.toNat) (hquote : c.toNat ≠ 0x22) (hslash : c.toNat ≠ 0x5c) :
      SpelledAs c (String.utf8EncodeChar c)
  | letter {b : UInt8} (h : (b, c.toNat) ∈ letters) : SpelledAs c [0x5c, b]
  | unit {ds : Bytes} (h : IsCode ds c.toNat) : SpelledAs c (0x5c :: 0x75 :: ds)
  /-- A character beyond the first plane, by its two surrogates. -/
  | pair {ds ds' : Bytes} {high low : Nat} (hhigh : 0xd800 ≤ high ∧ high ≤ 0xdbff)
      (hlow : 0xdc00 ≤ low ∧ low ≤ 0xdfff)
      (h : c.toNat = 0x10000 + (high - 0xd800) * 0x400 + (low - 0xdc00))
      (hds : IsCode ds high) (hds' : IsCode ds' low) :
      SpelledAs c ((0x5c :: 0x75 :: ds) ++ (0x5c :: 0x75 :: ds'))

/-- The text between quotes, every character written in one of its ways. -/
def Writes (s : String) (q : Bytes) : Prop :=
  ∃ parts, List.Forall₂ SpelledAs s.toList parts ∧ q = 0x22 :: (parts.flatten ++ [0x22])

theorem foldlM_plain {xs : Bytes} (h : ∀ b ∈ xs, 0x20 ≤ b ∧ b ≠ 0x22 ∧ b ≠ 0x5c) (bs : Bytes) :
    xs.foldlM next? (opened bs) = some (opened (xs.reverse ++ bs)) := by
  induction xs generalizing bs with
  | nil => rfl
  | cons b xs ih =>
    obtain ⟨hcontrol, hquote, hslash⟩ := h b (by simp)
    have hstep : next? (opened bs) b = some (opened (b :: bs)) := by
      simp [next?, step, opened, hquote, hslash, UInt8.not_lt.2 hcontrol, add]
    rw [List.foldlM_cons, hstep, List.reverse_cons, List.append_assoc, List.singleton_append]
    exact ih (fun d hd => h d (by simp [hd])) (b :: bs)

/-- **However a character is written, it is read as its bytes.** -/
theorem foldlM_of_spelledAs {c : Char} {xs : Bytes} (h : SpelledAs c xs) (bs : Bytes) :
    xs.foldlM next? (opened bs) = some (opened ((String.utf8EncodeChar c).reverse ++ bs)) := by
  rw [Bytes.utf8EncodeChar_eq]
  cases h with
  | plain hcontrol hquote hslash =>
    rw [Bytes.utf8EncodeChar_eq]
    refine foldlM_plain (fun b hb => ?_) bs
    by_cases hascii : c.toNat < 0x80
    · rw [utf8_of_lt hascii, List.mem_singleton] at hb
      have hnat : b.toNat = c.toNat := by
        rw [hb, UInt8.toNat_ofNat', Nat.mod_eq_of_lt (by omega)]
      refine ⟨by rwa [UInt8.le_iff_toNat_le, hnat], ?_, ?_⟩
      · rintro rfl
        exact hquote hnat.symm
      · rintro rfl
        exact hslash hnat.symm
    · have hb := le_of_mem_utf8 (by omega) (Bytes.toNat_lt_of_char c) hb
      refine ⟨UInt8.le_trans (by decide) hb, ?_, ?_⟩
      · rintro rfl
        exact absurd hb (by decide)
      · rintro rfl
        exact absurd hb (by decide)
  | letter h =>
    simp only [letters, List.mem_cons, Prod.mk.injEq, List.not_mem_nil, or_false] at h
    rcases h with ⟨rfl, hc⟩ | ⟨rfl, hc⟩ | ⟨rfl, hc⟩ | ⟨rfl, hc⟩ | ⟨rfl, hc⟩ | ⟨rfl, hc⟩ |
      ⟨rfl, hc⟩ | ⟨rfl, hc⟩ <;> rw [hc] <;> rfl
  | unit h =>
    have hvalid : ¬ (0xd800 ≤ c.toNat ∧ c.toNat ≤ 0xdfff) := by
      rcases c.valid with h | h
      · exact fun hc => absurd hc.1 (Nat.not_le.2 h)
      · exact fun hc => absurd hc.2 (Nat.not_le.2 h.1)
    rw [foldlM_unit rfl h, addUnit_opened hvalid]
  | @pair ds ds' high low hhigh hlow h hds hds' =>
    have hfirst : (opened bs).addUnit high = ⟨.plain, bs, some high, true⟩ := by
      simp [addUnit, opened, hhigh]
    rw [List.foldlM_append, foldlM_unit rfl hds, hfirst, Option.bind_eq_bind, Option.bind_some,
      foldlM_unit rfl hds', h]
    simp [addUnit, opened, hlow]

/-- **However a text is written between quotes, it is read as the text.** -/
theorem Writes.quotes {s : String} {q : Bytes} (h : Writes s q) : Scanner.Quotes q s := by
  obtain ⟨parts, hparts, rfl⟩ := h
  have hread (cs : List Char) (parts : List Bytes) (h : List.Forall₂ SpelledAs cs parts)
      (bs : Bytes) : parts.flatten.foldlM next? (opened bs)
        = some (opened ((cs.flatMap String.utf8EncodeChar).reverse ++ bs)) := by
    induction h generalizing bs with
    | nil => rfl
    | @cons c xs cs parts hc _ ih =>
      rw [List.flatten_cons, List.foldlM_append, foldlM_of_spelledAs hc, Option.bind_eq_bind,
        Option.bind_some, ih, List.flatMap_cons, List.reverse_append, List.append_assoc]
  exact ⟨_, rfl, by rw [hread _ _ hparts, List.append_nil, Bytes.ofText_eq_flatMap]⟩

/-- What is written of a character is one of its ways. -/
theorem spelledAs_escapeByte (c : Char) :
    SpelledAs c ((String.utf8EncodeChar c).flatMap escapeByte) := by
  by_cases hascii : c.toNat < 0x80
  · have hnat : (UInt8.ofNat c.toNat).toNat = c.toNat := by
      rw [UInt8.toNat_ofNat', Nat.mod_eq_of_lt (by omega)]
    have hbytes : String.utf8EncodeChar c = [UInt8.ofNat c.toNat] := by
      rw [Bytes.utf8EncodeChar_eq, utf8_of_lt hascii]
    have hletter {b x : UInt8} (hx : UInt8.ofNat c.toNat = x) (h : (b, x.toNat) ∈ letters) :
        SpelledAs c [0x5c, b] := .letter (by rwa [← hnat, hx])
    rw [hbytes, List.flatMap_cons, List.flatMap_nil, List.append_nil, escapeByte]
    split_ifs with hquote hslash hb hf hn hr ht hcontrol
    · exact hletter hquote (by decide)
    · exact hletter hslash (by decide)
    · exact hletter hb (by decide)
    · exact hletter hf (by decide)
    · exact hletter hn (by decide)
    · exact hletter hr (by decide)
    · exact hletter ht (by decide)
    · have hcode := isCode_control hcontrol
      rw [hnat] at hcode ⊢
      exact .unit hcode
    · rw [← hbytes]
      refine .plain ?_ ?_ ?_
      · rw [← hnat]
        exact UInt8.le_iff_toNat_le.1 (UInt8.not_lt.1 hcontrol)
      · exact fun h => hquote (by rw [h]; rfl)
      · exact fun h => hslash (by rw [h]; rfl)
  · have hplain (b : UInt8) (hb : b ∈ String.utf8EncodeChar c) : escapeByte b = [b] := by
      rw [Bytes.utf8EncodeChar_eq] at hb
      have hb := le_of_mem_utf8 (by omega) (Bytes.toNat_lt_of_char c) hb
      have hne (x : UInt8) (hx : x < 0x80) : b ≠ x := by
        rintro rfl
        exact absurd hb (UInt8.not_le.2 hx)
      have hcontrol : ¬ b < 0x20 := fun h =>
        absurd (UInt8.lt_of_lt_of_le h (by decide)) (UInt8.not_lt.2 hb)
      simp [escapeByte, hne, hcontrol]
    rw [List.flatMap_congr hplain, List.flatMap_singleton']
    exact .plain (by omega) (by omega) (by omega)

/-- A text is between the quotes that are written around it. -/
theorem writes_quote (s : String) : Writes s (quote s) := by
  refine ⟨s.toList.map fun c => (String.utf8EncodeChar c).flatMap escapeByte, ?_, ?_⟩
  · rw [List.forall₂_map_right_iff, List.forall₂_same]
    exact fun c _ => spelledAs_escapeByte c
  · rw [quote, Bytes.ofText_eq_flatMap, List.flatMap_assoc, List.flatMap_def]

end Quoted

/-! ## Numbers -/

namespace Literal

def IsDigit (c : UInt8) : Prop := 0x30 ≤ c ∧ c ≤ 0x39

/-- The digits before the point: no zero in front of others. -/
inductive IsWhole : Bytes → Prop
  | zero : IsWhole [0x30]
  | digits {c : UInt8} {cs : Bytes} (hc : 0x31 ≤ c ∧ c ≤ 0x39) (hcs : ∀ d ∈ cs, IsDigit d) :
      IsWhole (c :: cs)

/-- The point and what is behind it, or nothing. -/
inductive IsFraction : Bytes → Prop
  | none : IsFraction []
  | digits {ds : Bytes} (hne : ds ≠ []) (hds : ∀ d ∈ ds, IsDigit d) : IsFraction (0x2e :: ds)

/-- A letter, a sign if there is one, and digits, or nothing. -/
inductive IsExponent : Bytes → Prop
  | none : IsExponent []
  | digits {mark : UInt8} {sign ds : Bytes} (hmark : mark = 0x65 ∨ mark = 0x45)
      (hsign : sign = [] ∨ sign = [0x2b] ∨ sign = [0x2d]) (hne : ds ≠ [])
      (hds : ∀ d ∈ ds, IsDigit d) : IsExponent (mark :: (sign ++ ds))

/-- From any phase with `P` the bytes lead on to one with `Q`. -/
def Leads (P : Phase → Prop) (bs : Bytes) (Q : Phase → Prop) : Prop :=
  ∀ l : Literal, P l.phase → ∃ l', bs.foldlM next? l = some l' ∧ Q l'.phase

section Leads
variable {P Q R : Phase → Prop} {c : UInt8} {bs cs : Bytes}

theorem Leads.nil (h : ∀ p, P p → Q p) : Leads P [] Q := fun l hl => ⟨l, rfl, h _ hl⟩

theorem Leads.mono (h : Leads P bs Q) (hQ : ∀ p, Q p → R p) : Leads P bs R := fun l hl =>
  have ⟨l', hrun, hl'⟩ := h l hl
  ⟨l', hrun, hQ _ hl'⟩

theorem Leads.append (h : Leads P bs Q) (h' : Leads Q cs R) : Leads P (bs ++ cs) R := by
  intro l hl
  obtain ⟨l', hrun, hl'⟩ := h l hl
  obtain ⟨l'', hrun', hl''⟩ := h' l' hl'
  exact ⟨l'', by rw [List.foldlM_append, hrun]; exact hrun', hl''⟩

theorem Leads.cons (h : ∀ l : Literal, P l.phase → ∃ l', l.step c = .more l' ∧ Q l'.phase)
    (h' : Leads Q cs R) : Leads P (c :: cs) R := by
  intro l hl
  obtain ⟨l', hstep, hl'⟩ := h l hl
  obtain ⟨l'', hrun', hl''⟩ := h' l' hl'
  exact ⟨l'', by rw [List.foldlM_cons, next?_eq_some_iff.2 hstep]; exact hrun', hl''⟩

/-- The phase after one more digit, where any digit may stand. -/
def Phase.afterDigit : Phase → Option Phase
  | .minus | .zero => none
  | .whole => some .whole
  | .point | .fraction => some .fraction
  | .mark | .sign | .exponent => some .exponent

theorem step_digit {l : Literal} {p : Phase} (hp : l.phase.afterDigit = some p) (hc : IsDigit c) :
    ∃ l', l.step c = .more l' ∧ l'.phase = p := by
  have hwhole (d : Nat) : (l.wholeDigit d).phase = l.phase := by
    unfold wholeDigit
    split <;> rfl
  have hfraction (d : Nat) : (l.fractionDigit d).phase = .fraction := by
    unfold fractionDigit
    dsimp only
    split <;> rfl
  have hdigit : 0x30 ≤ c ∧ c ≤ 0x39 := hc
  cases hl : l.phase <;> rw [hl] at hp <;> cases hp <;>
    simp [step, hl, hdigit, hwhole, hfraction]

/-- Digits lead to the phase after one of them, which is one of digits itself. -/
theorem leads_digits {p : Phase} (hself : p.afterDigit = some p)
    (hp : ∀ q, P q → q.afterDigit = some p) {ds : Bytes} (hne : ds ≠ [])
    (hds : ∀ d ∈ ds, IsDigit d) : Leads P ds (· = p) := by
  induction ds generalizing P with
  | nil => exact absurd rfl hne
  | cons d ds ih =>
    refine .cons (Q := (· = p)) (fun l hl => step_digit (hp _ hl) (hds d (by simp))) ?_
    cases ds with
    | nil => exact .nil fun _ => id
    | cons e ds =>
      exact ih (fun q hq => hq ▸ hself) (by simp) fun x hx => hds x (List.mem_cons_of_mem d hx)

end Leads

/-- Behind the digits before the point. -/
def AfterWhole (p : Phase) : Prop := p = .zero ∨ p = .whole

/-- Where an exponent may begin. -/
def AfterFraction (p : Phase) : Prop := p = .zero ∨ p = .whole ∨ p = .fraction

theorem leads_fraction {bs : Bytes} (h : IsFraction bs) : Leads AfterWhole bs AfterFraction := by
  cases h with
  | none =>
    refine .nil fun p hp => ?_
    rcases hp with rfl | rfl <;> simp [AfterFraction]
  | digits hne hds =>
    have hpoint : ∀ l : Literal, AfterWhole l.phase →
        ∃ l', l.step 0x2e = .more l' ∧ l'.phase = .point := by
      intro l hl
      rcases hl with hl | hl <;> simp [step, hl]
    have hdigits : Leads (· = .point) _ (· = .fraction) :=
      leads_digits rfl (by rintro _ rfl; rfl) hne hds
    exact .cons hpoint (hdigits.mono fun _ hp => .inr (.inr hp))

theorem leads_exponent {bs : Bytes} (h : IsExponent bs) : Leads AfterFraction bs CanEnd := by
  cases h with
  | none =>
    refine .nil fun p hp => ?_
    rcases hp with rfl | rfl | rfl <;> simp [CanEnd]
  | @digits mark sign ds hmark hsign hne hds =>
    have hfirst : ∀ l : Literal, AfterFraction l.phase →
        ∃ l', l.step mark = .more l' ∧ l'.phase = .mark := by
      intro l hl
      rcases hl with hl | hl | hl <;> rcases hmark with rfl | rfl <;> simp [step, hl]
    have hsigned : Leads (· = .mark) sign fun p => p = .mark ∨ p = .sign := by
      rcases hsign with rfl | rfl | rfl
      · exact .nil fun _ => .inl
      · exact .cons (Q := (· = .sign)) (fun l hl => by simp [step, hl]) (.nil fun _ => .inr)
      · exact .cons (Q := (· = .sign)) (fun l hl => by simp [step, hl]) (.nil fun _ => .inr)
    have hdigits : Leads (fun p => p = .mark ∨ p = .sign) ds (· = .exponent) :=
      leads_digits rfl (by rintro _ (rfl | rfl) <;> rfl) hne hds
    exact .cons hfirst (hsigned.append (hdigits.mono fun _ hp => .inr (.inr (.inr hp))))

theorem leads_more {ds : Bytes} (hds : ∀ d ∈ ds, IsDigit d) : Leads (· = .whole) ds AfterWhole := by
  by_cases hne : ds = []
  · subst hne
    exact .nil fun _ => .inr
  · exact (leads_digits rfl (by rintro _ rfl; rfl) hne hds).mono fun _ => .inr

/-- Behind a sign the digits before the point go on with the number. -/
theorem leads_whole {bs : Bytes} (h : IsWhole bs) : Leads (· = .minus) bs AfterWhole := by
  cases h with
  | zero => exact .cons (Q := (· = .zero)) (fun l hl => by simp [step, hl]) (.nil fun _ => .inl)
  | @digits c cs hc hcs =>
    have hne : c ≠ 0x30 := by
      rintro rfl
      exact absurd hc.1 (by decide)
    have hdigit : 0x30 ≤ c ∧ c ≤ 0x39 := ⟨UInt8.le_trans (by decide) hc.1, hc.2⟩
    exact .cons (Q := (· = .whole)) (fun l hl => by simp [step, hl, hne, hdigit]) (leads_more hcs)

/-- Without a sign they begin it. -/
theorem start_whole {bs : Bytes} (h : IsWhole bs) :
    ∃ c cs l, bs = c :: cs ∧ start? c = some l ∧ Leads (· = l.phase) cs AfterWhole := by
  cases h with
  | zero => exact ⟨0x30, [], _, rfl, rfl, .nil fun _ => .inl⟩
  | @digits c cs hc hcs =>
    have hne (d : UInt8) (hd : d < 0x31) : c ≠ d := by
      rintro rfl
      exact absurd hc.1 (UInt8.not_le.2 hd)
    refine ⟨c, cs, whole (c.toNat - 48), rfl, ?_, leads_more hcs⟩
    rw [start?, if_neg (hne _ (by decide)), if_neg (hne _ (by decide)), if_pos hc]
    rfl

theorem finish?_of_canEnd {l : Literal} (h : CanEnd l.phase) : ∃ n, l.finish? = some n := by
  obtain ⟨phase, _⟩ := l
  rcases h with rfl | rfl | rfl | rfl
  · exact ⟨_, rfl⟩
  · exact ⟨_, rfl⟩
  · exact ⟨_, rfl⟩
  · exact ⟨_, rfl⟩

end Literal

open Literal in
/-- A number, as it is written. -/
structure Number where
  negative : Bool
  whole : Bytes
  fraction : Bytes
  exponent : Bytes
  isWhole : IsWhole whole
  isFraction : IsFraction fraction
  isExponent : IsExponent exponent

namespace Number

def bytes (n : Number) : Bytes :=
  (if n.negative then [0x2d] else []) ++ (n.whole ++ (n.fraction ++ n.exponent))

/-- **Every number is scanned as one.** -/
theorem spells (n : Number) : ∃ value, Spells n.bytes (.number value) := by
  have hrest := (Literal.leads_fraction n.isFraction).append (Literal.leads_exponent n.isExponent)
  have key : ∃ c cs l, n.bytes = c :: cs ∧ Literal.start? c = some l ∧
      Literal.Leads (· = l.phase) cs Literal.CanEnd := by
    rw [bytes]
    cases n.negative with
    | true =>
      exact ⟨0x2d, _, _, rfl, rfl, (Literal.leads_whole n.isWhole).append hrest⟩
    | false =>
      obtain ⟨c, cs, l, hbytes, hstart, hlead⟩ := Literal.start_whole n.isWhole
      exact ⟨c, cs ++ (n.fraction ++ n.exponent), l, by rw [hbytes]; rfl, hstart,
        hlead.append hrest⟩
  obtain ⟨c, cs, l, hbytes, hstart, hlead⟩ := key
  obtain ⟨l', hrun, hend⟩ := hlead l rfl
  obtain ⟨value, hvalue⟩ := Literal.finish?_of_canEnd hend
  exact ⟨value, hbytes ▸ .of_literal hstart hrun hend hvalue⟩

theorem isWhole_digits (n : Nat) : Literal.IsWhole (digits n) := by
  rcases Nat.eq_zero_or_pos n with rfl | hpos
  · exact digits_zero ▸ .zero
  · obtain ⟨d, ds, hds, hd⟩ := Numeral.digits_head (b := 10) (by decide) hpos
    have hlt : ∀ e ∈ d :: ds, e < 10 := hds ▸ Numeral.digits_lt (by decide) n
    have hdigit : ∀ e < 10, 0x30 ≤ digitByte e ∧ digitByte e ≤ 0x39 := by decide
    have hfirst : ∀ e < 10, 0 < e → 0x31 ≤ digitByte e ∧ digitByte e ≤ 0x39 := by decide
    rw [digits_eq_map, hds, List.map_cons]
    refine .digits (hfirst d (hlt d (by simp)) hd) fun x hx => ?_
    obtain ⟨e, he, rfl⟩ := List.mem_map.1 hx
    exact hdigit e (hlt e (by simp [he]))

/-- A natural number in its decimal digits. -/
def ofNat (n : Nat) : Number where
  negative := false
  whole := digits n
  fraction := []
  exponent := []
  isWhole := isWhole_digits n
  isFraction := .none
  isExponent := .none

@[simp] theorem bytes_ofNat (n : Nat) : (ofNat n).bytes = digits n := by
  simp [bytes, ofNat]

end Number

end Json
end PoolKeeper
