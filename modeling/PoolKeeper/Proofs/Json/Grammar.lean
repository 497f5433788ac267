/-
The texts of a JSON value: every one is scanned as the value (`scan_of_padded`),
and what is written of a value is one of them (`text_write`), so it is scanned as
what it is (`scan_write`).

A value has many texts, since blanks may stand between any two tokens and a string
or a number can be written in several ways. A value that is read from a text may
hold numbers that no writer here writes (`Number`); nothing bounds how deep it is.
-/
import PoolKeeper.Proofs.Json.Tokens

namespace PoolKeeper.Json

open Scanner

/-- A JSON value, with its numbers as they are written. -/
inductive Value where
  | null
  | bool (b : Bool)
  | number (n : Number)
  | string (s : String)
  | array (items : List Value)
  | object (members : List (String × Value))

/-! ## Texts -/

namespace Value

mutual
/-- The bytes are a text of the value, from its first token to its last. -/
inductive Text : Value → Bytes → Prop
  | null : Text .null [0x6e, 0x75, 0x6c, 0x6c]
  | true : Text (.bool true) [0x74, 0x72, 0x75, 0x65]
  | false : Text (.bool false) [0x66, 0x61, 0x6c, 0x73, 0x65]
  | number (n : Number) : Text (.number n) n.bytes
  | string {s : String} {q : Bytes} (hq : Quoted.Writes s q) : Text (.string s) q
  | array_nil {w : Bytes} (hw : Blanks w) : Text (.array []) (0x5b :: (w ++ [0x5d]))
  | array_cons {v : Value} {vs : List Value} {bs cs : Bytes} (hv : Padded v bs)
      (hvs : ItemsText vs cs) : Text (.array (v :: vs)) (0x5b :: (bs ++ cs))
  | object_nil {w : Bytes} (hw : Blanks w) : Text (.object []) (0x7b :: (w ++ [0x7d]))
  | object_cons {m : String × Value} {ms : List (String × Value)} {bs cs : Bytes}
      (hm : MemberText m bs) (hms : MembersText ms cs) :
      Text (.object (m :: ms)) (0x7b :: (bs ++ cs))

/-- A text of the value with blanks around it. -/
inductive Padded : Value → Bytes → Prop
  | mk {v : Value} {w bs w' : Bytes} (hw : Blanks w) (hv : Text v bs) (hw' : Blanks w') :
      Padded v (w ++ (bs ++ w'))

/-- A key, a colon and a text of the value, with blanks around each. -/
inductive MemberText : String × Value → Bytes → Prop
  | mk {k : String} {v : Value} {w q w' bs : Bytes} (hw : Blanks w) (hq : Quoted.Writes k q)
      (hw' : Blanks w') (hv : Padded v bs) : MemberText (k, v) (w ++ (q ++ (w' ++ 0x3a :: bs)))

/-- What stands behind an item: the items after it, and the end of the array. -/
inductive ItemsText : List Value → Bytes → Prop
  | nil : ItemsText [] [0x5d]
  | cons {v : Value} {vs : List Value} {bs cs : Bytes} (hv : Padded v bs) (hvs : ItemsText vs cs) :
      ItemsText (v :: vs) (0x2c :: (bs ++ cs))

/-- What stands behind a member: the members after it, and the end of the object. -/
inductive MembersText : List (String × Value) → Bytes → Prop
  | nil : MembersText [] [0x7d]
  | cons {m : String × Value} {ms : List (String × Value)} {bs cs : Bytes}
      (hm : MemberText m bs) (hms : MembersText ms cs) : MembersText (m :: ms) (0x2c :: (bs ++ cs))
end

theorem Text.padded {v : Value} {bs : Bytes} (h : Text v bs) : Padded v bs := by
  simpa using Padded.mk .nil h .nil

theorem Text.member {v : Value} {bs : Bytes} (k : String) (h : Text v bs) :
    MemberText (k, v) (quote k ++ 0x3a :: bs) :=
  .mk .nil (Quoted.writes_quote k) .nil h.padded

/-! ## What a reader sees of them -/

mutual
/-- What a reader sees of a value. -/
def tree : Value → Tree
  | .null => .null
  | .bool b => .bool b
  | .number n => Tree.scan n.bytes
  | .string s => .string (some s)
  | .array vs => .array (trees vs) true
  | .object ms => .object (memberTrees ms) true

def trees : List Value → List Tree
  | [] => []
  | v :: vs => tree v :: trees vs

def memberTrees : List (String × Value) → List (Option String × Tree)
  | [] => []
  | (k, v) :: ms => (some k, tree v) :: memberTrees ms
end

theorem memberTrees_eq_map (ms : List (String × Value)) :
    memberTrees ms = (ms.map fun m => (m.1, m.2.tree)).map fun m => (some m.1, m.2) := by
  induction ms with
  | nil => rfl
  | cons m ms ih => rw [memberTrees, ih, List.map_cons, List.map_cons]

theorem tree_object (ms : List (String × Value)) :
    (Value.object ms).tree
      = .object ((ms.map fun m => (m.1, m.2.tree)).map fun m => (some m.1, m.2)) true := by
  rw [tree, memberTrees_eq_map]

/-- A number is a number to a reader. -/
theorem tree_number (n : Number) : ∃ value, (Value.number n).tree = .number value := by
  obtain ⟨value, h⟩ := n.spells
  exact ⟨value, h.padded.scan⟩

mutual
/-- **Every value can be skipped**, whatever is in it. -/
theorem faulty_tree : (v : Value) → v.tree.faulty = false
  | .null => rfl
  | .bool _ => rfl
  | .number n => by
    obtain ⟨value, h⟩ := tree_number n
    rw [h]
    rfl
  | .string _ => rfl
  | .array vs => anyFaulty_trees vs
  | .object ms => anyMemberFaulty_memberTrees ms

theorem anyFaulty_trees : (vs : List Value) → Tree.anyFaulty (trees vs) = false
  | [] => rfl
  | v :: vs => by rw [trees, Tree.anyFaulty, faulty_tree v, anyFaulty_trees vs]; rfl

theorem anyMemberFaulty_memberTrees :
    (ms : List (String × Value)) → Tree.anyMemberFaulty (memberTrees ms) = false
  | [] => rfl
  | (_, v) :: ms => by
    rw [memberTrees, Tree.anyMemberFaulty, faulty_tree v, anyMemberFaulty_memberTrees ms]; rfl
end

/-- A text is scanned as its value if it is so from its first token on. -/
theorem spellsPadded_of_padded {v : Value} {bs : Bytes}
    (htext : ∀ bs, Text v bs → Spells bs v.tree) (h : Padded v bs) : SpellsPadded bs v.tree := by
  obtain ⟨hw, hv, hw'⟩ := h
  exact .blanks (htext _ hv) hw hw'

theorem spellsMember_of_member {k : String} {v : Value} {bs : Bytes}
    (htext : ∀ bs, Text v bs → Spells bs v.tree) (h : MemberText (k, v) bs) :
    SpellsMember bs k v.tree := by
  obtain ⟨hw, hq, hw', hv⟩ := h
  exact ⟨_, _, _, _, rfl, hw, hq.quotes, hw', spellsPadded_of_padded htext hv⟩

mutual
/-- Texts spell what they are texts of: by induction on the value, each form of text by the lemma
about texts of that form. -/
theorem spells_of_text : (v : Value) → ∀ bs, Text v bs → Spells bs v.tree
  | .null, _, .null => .null
  | .bool true, _, .true => .bool true
  | .bool false, _, .false => .bool false
  | .number n, _, .number _ => by
    obtain ⟨value, h⟩ := n.spells
    rw [tree, h.padded.scan]
    exact h
  | .string _, _, .string hq => .string hq.quotes
  | .array [], _, .array_nil hw => .array_nil hw
  | .array (v :: vs), _, .array_cons hv hvs =>
    .array_cons (spellsPadded_of_padded (spells_of_text v) hv) (spells_of_items vs _ hvs)
  | .object [], _, .object_nil hw => .object_nil hw
  | .object ((_, v) :: ms), _, .object_cons hm hms =>
    .object_cons (spellsMember_of_member (spells_of_text v) hm) (spells_of_members ms _ hms)

theorem spells_of_items : (vs : List Value) → ∀ bs, ItemsText vs bs → SpellsItems bs (trees vs)
  | [], _, .nil => Spells.items_nil
  | v :: vs, _, .cons hv hvs =>
    Spells.items_cons (spellsPadded_of_padded (spells_of_text v) hv) (spells_of_items vs _ hvs)

theorem spells_of_members :
    (ms : List (String × Value)) → ∀ bs, MembersText ms bs → SpellsMembers bs (memberTrees ms)
  | [], _, .nil => Spells.members_nil
  | (_, v) :: ms, _, .cons hm hms =>
    Spells.members_cons (spellsMember_of_member (spells_of_text v) hm) (spells_of_members ms _ hms)
end

/-- **A text is scanned as the value that it is a text of**, blanks around it or not. -/
theorem scan_of_padded {v : Value} {bs : Bytes} (h : Padded v bs) : Tree.scan bs = v.tree :=
  (spellsPadded_of_padded (spells_of_text v) h).scan

end Value

/-! ## Written values -/

mutual
/-- What a reader sees of a written value. -/
def tree : Json → Tree
  | .null => .null
  | .bool b => .bool b
  | .number n => .number (.whole (UInt64.ofNat n))
  | .string s => .string (some s)
  | .array xs => .array (trees xs) true
  | .object ms => .object (memberTrees ms) true

def trees : List Json → List Tree
  | [] => []
  | x :: xs => tree x :: trees xs

def memberTrees : List (String × Json) → List (Option String × Tree)
  | [] => []
  | (k, v) :: ms => (some k, tree v) :: memberTrees ms
end

mutual
/-- Every number in the value has 64 bits. -/
def Fits : Json → Prop
  | .number n => n < 2 ^ 64
  | .array xs => FitAll xs
  | .object ms => MembersFit ms
  | _ => True

def FitAll : List Json → Prop
  | [] => True
  | x :: xs => Fits x ∧ FitAll xs

def MembersFit : List (String × Json) → Prop
  | [] => True
  | (_, v) :: ms => Fits v ∧ MembersFit ms
end

theorem memberTrees_eq_map (ms : List (String × Json)) :
    memberTrees ms = ms.map fun m => (some m.1, m.2.tree) := by
  induction ms with
  | nil => rfl
  | cons m ms ih => rw [memberTrees, ih, List.map_cons]

theorem tree_object (ms : List (String × Json)) :
    (Json.object ms).tree
      = .object ((ms.map fun m => (m.1, m.2.tree)).map fun m => (some m.1, m.2)) true := by
  rw [tree, memberTrees_eq_map, List.map_map]
  rfl

theorem trees_eq_map (xs : List Json) : trees xs = xs.map tree := by
  induction xs with
  | nil => rfl
  | cons x xs ih => rw [trees, ih, List.map_cons]

theorem fitAll_iff {xs : List Json} : FitAll xs ↔ ∀ x ∈ xs, x.Fits := by
  induction xs with
  | nil => simp [FitAll]
  | cons x xs ih => simp [FitAll, ih]

theorem membersFit_iff {ms : List (String × Json)} : MembersFit ms ↔ ∀ m ∈ ms, m.2.Fits := by
  induction ms with
  | nil => simp [MembersFit]
  | cons m ms ih => simp [MembersFit, ih]

mutual
/-- A written value as one that can be read. -/
def value : Json → Value
  | .null => .null
  | .bool b => .bool b
  | .number n => .number (.ofNat n)
  | .string s => .string s
  | .array xs => .array (values xs)
  | .object ms => .object (memberValues ms)

def values : List Json → List Value
  | [] => []
  | x :: xs => value x :: values xs

def memberValues : List (String × Json) → List (String × Value)
  | [] => []
  | (k, v) :: ms => (k, value v) :: memberValues ms
end

theorem memberValues_eq_map (ms : List (String × Json)) :
    memberValues ms = ms.map fun m => (m.1, m.2.value) := by
  induction ms with
  | nil => rfl
  | cons m ms ih => rw [memberValues, ih, List.map_cons]

mutual
/-- Both see the same of a written value. -/
theorem tree_value : (v : Json) → v.Fits → v.value.tree = v.tree
  | .null, _ => rfl
  | .bool _, _ => rfl
  | .number n, h => by
    rw [value, Value.tree, Number.bytes_ofNat, (Spells.number h).padded.scan, tree]
  | .string _, _ => rfl
  | .array xs, h => by rw [value, Value.tree, trees_values xs h, tree]
  | .object ms, h => by rw [value, Value.tree, memberTrees_memberValues ms h, tree]

theorem trees_values : (xs : List Json) → FitAll xs → Value.trees (values xs) = trees xs
  | [], _ => rfl
  | x :: xs, h => by rw [values, Value.trees, tree_value x h.1, trees_values xs h.2, trees]

theorem memberTrees_memberValues :
    (ms : List (String × Json)) → MembersFit ms →
      Value.memberTrees (memberValues ms) = memberTrees ms
  | [], _ => rfl
  | (_, v) :: ms, h => by
    rw [memberValues, Value.memberTrees, tree_value v h.1, memberTrees_memberValues ms h.2,
      memberTrees]
end

mutual
/-- What is written of a value is a text of it. -/
theorem text_write : (v : Json) → v.value.Text v.write
  | .null => .null
  | .bool true => .true
  | .bool false => .false
  | .number n => by
    rw [write, ← Number.bytes_ofNat]
    exact .number _
  | .string s => .string (Quoted.writes_quote s)
  | .array [] => .array_nil .nil
  | .array (x :: xs) => .array_cons (text_write x).padded (itemsText_write xs)
  | .object [] => .object_nil .nil
  | .object ((k, v) :: ms) => by
    rw [write, ← @List.cons_append _ 0x3a v.write, ← List.append_assoc]
    exact .object_cons ((text_write v).member k) (membersText_write ms)

theorem itemsText_write : (xs : List Json) → Value.ItemsText (values xs) (writeItems xs)
  | [] => .nil
  | x :: xs => .cons (text_write x).padded (itemsText_write xs)

theorem membersText_write :
    (ms : List (String × Json)) → Value.MembersText (memberValues ms) (writeMembers ms)
  | [] => .nil
  | (k, v) :: ms => by
    rw [writeMembers, ← @List.cons_append _ 0x3a v.write, ← List.append_assoc]
    exact .cons ((text_write v).member k) (membersText_write ms)
end

theorem blanks_newLine (level : Nat) : Blanks (newLine level) := by
  intro c hc
  rcases List.mem_cons.1 hc with rfl | hc
  · rfl
  · rw [List.eq_of_mem_replicate hc]
    rfl

/-- A member on a line of its own. -/
theorem memberText_newLine {v : Value} {bs w : Bytes} (level : Nat) (k : String) (hv : v.Text bs)
    (hw : Blanks w) :
    Value.MemberText (k, v) (newLine level ++ (quote k ++ ([] ++ 0x3a :: ([0x20] ++ (bs ++ w))))) :=
  .mk (blanks_newLine level) (Quoted.writes_quote k) .nil
    (.mk (by simp [Blanks, isBlank]) hv hw)

mutual
/-- **So is the indented form.** The blanks in front of a closing bracket belong to the item before
it, so what is said of items and members leaves them out. -/
theorem text_writePretty : (v : Json) → ∀ level, v.value.Text (v.writePretty level)
  | .null, _ => .null
  | .bool true, _ => .true
  | .bool false, _ => .false
  | .number n, _ => text_write (.number n)
  | .string s, _ => .string (Quoted.writes_quote s)
  | .array [], _ => .array_nil .nil
  | .array (x :: xs), level => by
    obtain ⟨w, cs, hcs, hw, hxs⟩ := itemsText_writePretty xs level
    rw [writePretty, hcs, ← List.append_assoc, List.append_assoc (newLine _)]
    exact .array_cons (.mk (blanks_newLine _) (text_writePretty x _) hw) hxs
  | .object [], _ => .object_nil .nil
  | .object ((k, v) :: ms), level => by
    obtain ⟨w, cs, hcs, hw, hms⟩ := membersText_writePretty ms level
    have hm := memberText_newLine (level + 1) k (text_writePretty v (level + 1)) hw
    rw [writePretty, hcs, value, memberValues]
    simpa using Value.Text.object_cons hm hms

theorem itemsText_writePretty : (xs : List Json) → ∀ level, ∃ w cs,
    writePrettyItems level xs = w ++ cs ∧ Blanks w ∧ Value.ItemsText (values xs) cs
  | [], level => ⟨newLine level, [0x5d], rfl, blanks_newLine level, .nil⟩
  | x :: xs, level => by
    obtain ⟨w, cs, hcs, hw, hxs⟩ := itemsText_writePretty xs level
    have hx := Value.Padded.mk (blanks_newLine (level + 1)) (text_writePretty x (level + 1)) hw
    refine ⟨[], _, ?_, .nil, .cons hx hxs⟩
    rw [writePrettyItems, hcs]
    simp

theorem membersText_writePretty : (ms : List (String × Json)) → ∀ level, ∃ w cs,
    writePrettyMembers level ms = w ++ cs ∧ Blanks w ∧ Value.MembersText (memberValues ms) cs
  | [], level => ⟨newLine level, [0x7d], rfl, blanks_newLine level, .nil⟩
  | (k, v) :: ms, level => by
    obtain ⟨w, cs, hcs, hw, hms⟩ := membersText_writePretty ms level
    have hm := memberText_newLine (level + 1) k (text_writePretty v (level + 1)) hw
    refine ⟨[], _, ?_, .nil, .cons hm hms⟩
    rw [writePrettyMembers, hcs]
    simp
end

/-- **A written value is scanned as what it is.** -/
theorem scan_write {v : Json} (h : v.Fits) : Tree.scan v.write = v.tree :=
  (Value.scan_of_padded (text_write v).padded).trans (tree_value v h)

end PoolKeeper.Json
