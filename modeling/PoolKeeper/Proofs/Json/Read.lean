/-
What readers make of values that are of their shape, wherever these stand.

A record looks its fields up by name, so what it gives depends on the values of
its fields only: `record_reads` is for every order of the members, and for any
further members that can be skipped.
-/
import Mathlib.Data.List.Forall2
import PoolKeeper.Json.Record
import PoolKeeper.Proofs.Json.Grammar

namespace PoolKeeper

namespace Numeral

/-- A decimal number has no blanks in it. -/
theorem isBlank_of_mem_decimal {n : Nat} {c : Char} (h : c ∈ (decimal n).toList) :
    Text.isBlank c = false := by
  have hdigit : ∀ d < 10, Text.isBlank (digitChar d) = false := by decide
  obtain ⟨d, hd, rfl⟩ := exists_digit_of_mem_decimal h
  exact hdigit d hd

/-- A number has no underscores in it. -/
theorem readSpaced_chars {b : Nat} (hb : 1 < b) (hb' : b ≤ 36) (n : Nat) :
    readSpaced b (chars b n) = some n := by
  have hfilter : (chars b n).filter (· ≠ '_') = chars b n := by
    refine List.filter_eq_self.2 fun c hc => ?_
    have hdigit : ∀ d < 36, digitChar d ≠ '_' := by decide
    obtain ⟨d, hd, rfl⟩ := List.mem_map.1 hc
    simpa using hdigit d (Nat.lt_of_lt_of_le (digits_lt hb n d hd) hb')
  rw [readSpaced, hfilter]
  exact readDigits_chars hb hb' n

end Numeral

/-- A word is read from its decimal digits. -/
theorem Word.ofDigits?_decimal (w : Word) : Word.ofDigits? 10 w.decimal.toList = some w := by
  rw [ofDigits?, decimal, Numeral.decimal, Numeral.text, String.toList_ofList,
    Numeral.readSpaced_chars (by decide) (by decide), Option.bind_some, ofNat?_toNat]

namespace Json
variable {α β κ : Type}

/-! ## Values -/

/-- The reader takes the value for `a`, wherever it stands. -/
def Reader.Reads (r : Reader α) (t : Tree) (a : α) : Prop := ∀ path, r path t = .ok a

namespace Reader

theorem uint64_reads (n : UInt64) : uint64.Reads (Json.ofUInt64 n).tree n := by
  intro path
  simp [ofUInt64, tree, uint64]

theorem string_reads (s : String) : string.Reads (.string (some s)) s := fun _ => rfl

theorem parsed_reads {parse : String → Option α} {s : String} {a : α} (h : parse s = some a) :
    (parsed parse).Reads (.string (some s)) a := by
  intro path
  simp [parsed, h]

theorem quotedDecimal_reads (w : Word) : quotedDecimal.Reads (.string (some w.decimal)) w := by
  have hblank : ∀ c ∈ w.decimal.toList, Text.isBlank c = false :=
    fun _ hc => Numeral.isBlank_of_mem_decimal hc
  refine parsed_reads ?_
  rw [Text.trimmed_of_no_blank hblank, w.ofDigits?_decimal]

/-- A word is read from its hexadecimal digits. -/
theorem word_reads (w : Word) : word.Reads (.string (some w.hexText)) w := by
  have hchars : w.hexText.toList = '0' :: 'x' :: Numeral.chars 16 w.toNat := by
    simp [Word.hexText, Numeral.text]
  intro path
  show parsed (fun s => wordDigits? s.toList) path (.string (some w.hexText)) = .ok w
  refine parsed_reads ?_ path
  rw [hchars, wordDigits?, Word.ofDigits?, Numeral.readSpaced_chars (by decide) (by decide),
    Option.bind_some, Word.ofNat?_toNat]

theorem fixedBytes_reads {n : Nat} (x : FixedBytes n) :
    fixedBytes.Reads (.string (some x.text)) x := by
  intro path
  simp [fixedBytes, FixedBytes.ofText?_text]

theorem items_reads {r : Reader α} {ts : List Tree} {as : List α}
    (h : List.Forall₂ r.Reads ts as) (path : Path) (i : Nat) : items r path i ts = .ok as := by
  induction h generalizing i with
  | nil => rfl
  | cons ht _ ih =>
    rw [items, ht, ih]
    rfl

theorem list_reads {r : Reader α} {ts : List Tree} {as : List α} (h : List.Forall₂ r.Reads ts as) :
    (list r).Reads (.array ts true) as := by
  intro path
  simp only [list, items_reads h]
  rfl

theorem entries_reads {parse : String → Option κ} {r : Reader α} {ms : List (String × Tree)}
    {es : List (κ × α)}
    (h : List.Forall₂ (fun m e => parse m.1 = some e.1 ∧ r.Reads m.2 e.2) ms es) (path : Path) :
    entries parse r path (ms.map fun m => (some m.1, m.2)) = .ok es := by
  induction h with
  | nil => rfl
  | cons hm _ ih =>
    rw [List.map_cons, entries, hm.1]
    simp only [hm.2 _, ih]
    rfl

theorem mapOf_reads {parse : String → Option κ} {r : Reader α} {ms : List (String × Tree)}
    {es : List (κ × α)}
    (h : List.Forall₂ (fun m e => parse m.1 = some e.1 ∧ r.Reads m.2 e.2) ms es) :
    (mapOf parse r).Reads (.object (ms.map fun m => (some m.1, m.2)) true) es := by
  intro path
  simp only [mapOf, entries_reads h]
  rfl

end Reader

/-! ## Records -/

/-- From fields with these values the reader makes `a`, whatever else there is. -/
def FieldReader.Reads (r : FieldReader α) (value? : String → Option Tree) (a : α) : Prop :=
  ∀ fs : Fields, (∀ name ∈ r.names, (fs.found.lookup name).map Entry.value = value? name) →
    r.read fs = .ok a

namespace FieldReader
variable {value? : String → Option Tree}

theorem lookUp_reads {name : String} {r : Reader α} {missing : Fields → Answer α} {t : Tree} {a : α}
    (hvalue : value? name = some t) (hr : r.Reads t a) :
    (lookUp name r missing).Reads value? a := by
  intro fs hfs
  obtain ⟨e, he, rfl⟩ := Option.map_eq_some_iff.1 ((hfs name (by simp [lookUp])).trans hvalue)
  simp only [lookUp, he, hr _]

theorem field_reads {name : String} {r : Reader α} {t : Tree} {a : α}
    (hvalue : value? name = some t) (hr : r.Reads t a) : (field name r).Reads value? a :=
  lookUp_reads hvalue hr

theorem fieldOr_reads {name : String} {default : α} {r : Reader α} {t : Tree} {a : α}
    (hvalue : value? name = some t) (hr : r.Reads t a) :
    (fieldOr name default r).Reads value? a :=
  lookUp_reads hvalue hr

theorem map_reads {f : α → β} {r : FieldReader α} {a : α} (h : r.Reads value? a) :
    (f <$> r).Reads value? (f a) := by
  intro fs hfs
  show (r.read fs).map f = .ok (f a)
  rw [h fs hfs]
  rfl

theorem seq_reads {f : FieldReader (α → β)} {r : FieldReader α} {g : α → β} {a : α}
    (hf : f.Reads value? g) (h : r.Reads value? a) : (f <*> r).Reads value? (g a) := by
  intro fs hfs
  have hnames : (f <*> r).names = f.names ++ r.names := rfl
  rw [hnames] at hfs
  show (f.read fs).both (r.read fs) = .ok (g a)
  rw [hf fs fun name hname => hfs name (List.mem_append_left _ hname),
    h fs fun name hname => hfs name (List.mem_append_right _ hname)]
  rfl

end FieldReader

/-- **The known fields of an object are the values under their names**, if none is given twice and
the other members can be skipped. -/
theorem Fields.ofMembers_eq_ok {names : List String} (path : Path) {ms : List (String × Tree)}
    (hskip : ∀ m ∈ ms, m.1 ∉ names → m.2.faulty = false) (i : Nat) (seen : List String)
    (hkeys : (seen ++ (ms.map Prod.fst).filter (names.contains ·)).Nodup) :
    ∃ found, ofMembers names path i seen (ms.map fun m => (some m.1, m.2)) = (found, .ok ()) ∧
      ∀ name ∈ names, (found.lookup name).map Entry.value = ms.lookup name := by
  induction ms generalizing i seen with
  | nil => exact ⟨[], rfl, fun _ _ => rfl⟩
  | cons m ms ih =>
    obtain ⟨k, t⟩ := m
    have hskip' : ∀ m ∈ ms, m.1 ∉ names → m.2.faulty = false := fun m hm => hskip m (by simp [hm])
    rw [List.map_cons] at hkeys ⊢
    rw [ofMembers]
    by_cases hk : k ∈ names
    · rw [List.filter_cons_of_pos (by simpa using hk)] at hkeys
      have hseen : k ∉ seen := fun hmem =>
        (List.nodup_append.1 hkeys).2.2 k hmem k (by simp) rfl
      obtain ⟨found, hfound, hlookup⟩ :=
        ih hskip' (i + 1) (k :: seen) (List.perm_middle.nodup_iff.1 hkeys)
      refine ⟨(k, ⟨i, .key k, t⟩) :: found, by simp [hk, hseen, hfound], fun name hname => ?_⟩
      rw [List.lookup_cons, List.lookup_cons]
      cases name == k with
      | true => rfl
      | false => exact hlookup name hname
    · rw [List.filter_cons_of_neg (by simpa using hk)] at hkeys
      obtain ⟨found, hfound, hlookup⟩ := ih hskip' (i + 1) seen hkeys
      refine ⟨found, by simp [hk, hskip (k, t) (by simp) hk, hfound], fun name hname => ?_⟩
      have hne : (name == k) = false := by
        rw [beq_eq_false_iff_ne]
        rintro rfl
        exact hk hname
      rw [List.lookup_cons, hne]
      exact hlookup name hname

/-- **A record is read from an object that has its fields**, in any order and among others. -/
theorem record_reads {r : FieldReader α} {ms : List (String × Tree)} {a : α}
    (hkeys : ((ms.map Prod.fst).filter (r.names.contains ·)).Nodup)
    (hskip : ∀ m ∈ ms, m.1 ∉ r.names → m.2.faulty = false) (h : r.Reads (ms.lookup ·) a) :
    (record r).Reads (.object (ms.map fun m => (some m.1, m.2)) true) a := by
  intro path
  obtain ⟨found, hfound, hlookup⟩ := Fields.ofMembers_eq_ok path hskip 0 [] hkeys
  have hread := h ⟨path, found, (ms.map fun m => ((some m.1 : Option String), m.2)).length⟩ hlookup
  simp only [record, hfound, hread]
  rfl

/-- A record is read from an object that has its fields and no other members. -/
theorem record_reads_of_keys {r : FieldReader α} {ms : List (String × Tree)} {a : α}
    (hkeys : ms.map Prod.fst = r.names) (hnodup : r.names.Nodup) (h : r.Reads (ms.lookup ·) a) :
    (record r).Reads (.object (ms.map fun m => (some m.1, m.2)) true) a := by
  refine record_reads ?_ (fun m hm hunknown => absurd ?_ hunknown) h
  · rw [hkeys]
    exact hnodup.filter _
  · rw [← hkeys]
    exact List.mem_map_of_mem hm

/-! ## Members among others -/

mutual
/-- What is written of a value has no faults. -/
theorem faulty_tree : (v : Json) → v.tree.faulty = false
  | .null => rfl
  | .bool _ => rfl
  | .number _ => rfl
  | .string _ => rfl
  | .array xs => anyFaulty_trees xs
  | .object ms => anyMemberFaulty_memberTrees ms

theorem anyFaulty_trees : (xs : List Json) → Tree.anyFaulty (trees xs) = false
  | [] => rfl
  | x :: xs => by rw [trees, Tree.anyFaulty, faulty_tree x, anyFaulty_trees xs]; rfl

theorem anyMemberFaulty_memberTrees :
    (ms : List (String × Json)) → Tree.anyMemberFaulty (memberTrees ms) = false
  | [] => rfl
  | (_, v) :: ms => by
    rw [memberTrees, Tree.anyMemberFaulty, faulty_tree v, anyMemberFaulty_memberTrees ms]; rfl
end

/-- A member is found under its name. -/
theorem lookup_of_mem {α : Type} {ms : List (String × α)} (hkeys : (ms.map Prod.fst).Nodup)
    {name : String} {a : α} (h : (name, a) ∈ ms) : ms.lookup name = some a := by
  induction ms with
  | nil => cases h
  | cons m ms ih =>
    rw [List.lookup_cons]
    obtain ⟨hm, hms⟩ := List.nodup_cons.1 hkeys
    rcases List.mem_cons.1 h with rfl | h
    · rw [beq_self_eq_true]
    · have hne : name ≠ m.1 := fun hsame => hm (hsame ▸ List.mem_map_of_mem h)
      rw [beq_eq_false_iff_ne.2 hne]
      exact ih hms h

/-- **A record is read from an object as from its members**, in any order and among others. -/
theorem record_reads_of_mem {α : Type} {r : FieldReader α} {ms : List (String × Json)} {a : α}
    (hkeys : (ms.map Prod.fst).Nodup)
    (h : ∀ value? : String → Option Tree, (∀ m ∈ ms, value? m.1 = some m.2.tree) →
      r.Reads value? a) : (record r).Reads (Json.object ms).tree a := by
  have hkeys' : ((ms.map fun m => (m.1, m.2.tree)).map Prod.fst).Nodup := by
    rwa [List.map_map]
  rw [tree_object]
  refine record_reads (hkeys'.filter _) (fun m hm _ => ?_) (h _ fun m hm => ?_)
  · obtain ⟨m', -, rfl⟩ := List.mem_map.1 hm
    exact faulty_tree m'.2
  · exact lookup_of_mem hkeys' (List.mem_map_of_mem hm)

end Json
end PoolKeeper
