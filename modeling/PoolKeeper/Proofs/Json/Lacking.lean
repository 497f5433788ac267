/-
What readers make of values that lack something.

Of a record everything that is there is read, so one field that is missing, or that
holds a misfit, makes the record a misfit (`record_misfit`), wherever in the text it
stands. `FieldReader.Takes` says of a chain of fields which of them must be there.
-/
import PoolKeeper.Proofs.Json.Read

namespace PoolKeeper.Json

variable {α β κ : Type}

/-- Wherever the value stands, the reader finds it a misfit at this place in it. -/
def Reader.MisfitAt (r : Reader α) (t : Tree) (place : Path) : Prop :=
  ∀ path, r path t = .error (.misfit (place ++ path))

/-- The fields of an object stand under their names. -/
def Fields.Keyed (fs : Fields) : Prop :=
  ∀ name e, fs.found.lookup name = some e → e.segment = .key name

/-- With these values the fields are a misfit at this place, whatever else there is. -/
def FieldReader.MisfitAt (r : FieldReader α) (value? : String → Option Tree) (place : Path) :
    Prop :=
  ∀ fs : Fields, fs.Keyed →
    (∀ name ∈ r.names, (fs.found.lookup name).map Entry.value = value? name) →
      ∃ i, r.read fs = .error i (.misfit (place ++ fs.path))

namespace FieldReader
variable {value? value?' : String → Option Tree} {place : Path}

theorem Reads.congr {r : FieldReader α} {a : α} (h : r.Reads value? a)
    (hsame : ∀ name ∈ r.names, value?' name = value? name) : r.Reads value?' a := fun fs hfs =>
  h fs fun name hname => (hfs name hname).trans (hsame name hname)

theorem field_lacks {name : String} {r : Reader α} (hvalue : value? name = none) :
    (field name r).MisfitAt value? [] := by
  intro fs _ hfs
  have hnone : fs.found.lookup name = none :=
    Option.map_eq_none_iff.1 ((hfs name (by simp [field, lookUp])).trans hvalue)
  exact ⟨fs.size + 1, by simp only [field, lookUp, hnone, List.nil_append]⟩

theorem field_misfit {name : String} {r : Reader α} {t : Tree} (hvalue : value? name = some t)
    (ht : r.MisfitAt t place) : (field name r).MisfitAt value? (place ++ [.key name]) := by
  intro fs hkeyed hfs
  obtain ⟨e, he, rfl⟩ :=
    Option.map_eq_some_iff.1 ((hfs name (by simp [field, lookUp])).trans hvalue)
  refine ⟨e.place, ?_⟩
  simp only [field, lookUp, he, hkeyed name e he, ht _, List.append_assoc, List.singleton_append]

theorem map_misfit {f : α → β} {r : FieldReader α} (h : r.MisfitAt value? place) :
    (f <$> r).MisfitAt value? place := by
  intro fs hkeyed hfs
  obtain ⟨i, hi⟩ := h fs hkeyed hfs
  refine ⟨i, ?_⟩
  show (r.read fs).map f = _
  rw [hi]
  rfl

theorem seq_misfit_left {f : FieldReader (α → β)} {r : FieldReader α} {a : α}
    (hf : f.MisfitAt value? place) (h : r.Reads value? a) : (f <*> r).MisfitAt value? place := by
  intro fs hkeyed hfs
  have hnames : (f <*> r).names = f.names ++ r.names := rfl
  rw [hnames] at hfs
  obtain ⟨i, hi⟩ := hf fs hkeyed fun name hname => hfs name (List.mem_append_left _ hname)
  refine ⟨i, ?_⟩
  show (f.read fs).both (r.read fs) = _
  rw [hi, h fs fun name hname => hfs name (List.mem_append_right _ hname)]
  rfl

theorem seq_misfit_right {f : FieldReader (α → β)} {r : FieldReader α} {g : α → β}
    (hf : f.Reads value? g) (h : r.MisfitAt value? place) : (f <*> r).MisfitAt value? place := by
  intro fs hkeyed hfs
  have hnames : (f <*> r).names = f.names ++ r.names := rfl
  rw [hnames] at hfs
  obtain ⟨i, hi⟩ := h fs hkeyed fun name hname => hfs name (List.mem_append_right _ hname)
  refine ⟨i, ?_⟩
  show (f.read fs).both (r.read fs) = _
  rw [hi, hf fs fun name hname => hfs name (List.mem_append_left _ hname)]
  rfl

/-! ## Fields that must be there -/

/-- From fields with these values the reader makes `a`, but without one that is required nothing. -/
structure Takes (r : FieldReader α) (value? : String → Option Tree) (a : α)
    (required : List String) : Prop where
  reads : r.Reads value? a
  known : required ⊆ r.names
  lacking : r.names.Nodup → ∀ name ∈ required, ∀ value?' : String → Option Tree,
    value?' name = none → (∀ other, other ≠ name → value?' other = value? other) →
      r.MisfitAt value?' []

variable {required required' : List String}

theorem field_takes {name : String} {r : Reader α} {t : Tree} {a : α}
    (hvalue : value? name = some t) (hr : r.Reads t a) : (field name r).Takes value? a [name] where
  reads := field_reads hvalue hr
  known := List.Subset.refl _
  lacking _ _ hname _ hnone _ := field_lacks (List.mem_singleton.1 hname ▸ hnone)

theorem fieldOr_takes {name : String} {default : α} {r : Reader α} {t : Tree} {a : α}
    (hvalue : value? name = some t) (hr : r.Reads t a) :
    (fieldOr name default r).Takes value? a [] where
  reads := fieldOr_reads hvalue hr
  known := List.nil_subset _
  lacking _ _ h := absurd h List.not_mem_nil

theorem map_takes {f : α → β} {r : FieldReader α} {a : α} (h : r.Takes value? a required) :
    (f <$> r).Takes value? (f a) required where
  reads := map_reads h.reads
  known := h.known
  lacking hnodup name hname value?' hnone hother :=
    map_misfit (h.lacking hnodup name hname value?' hnone hother)

theorem seq_takes {f : FieldReader (α → β)} {r : FieldReader α} {g : α → β} {a : α}
    (hf : f.Takes value? g required) (h : r.Takes value? a required') :
    (f <*> r).Takes value? (g a) (required ++ required') where
  reads := seq_reads hf.reads h.reads
  known := List.append_subset.2 ⟨List.subset_append_of_subset_left _ hf.known,
    List.subset_append_of_subset_right _ h.known⟩
  lacking hnodup name hname value?' hnone hother := by
    obtain ⟨hleft, hright, hdisjoint⟩ := List.nodup_append.1 hnodup
    rcases List.mem_append.1 hname with hname | hname
    · exact seq_misfit_left (hf.lacking hleft name hname value?' hnone hother)
        (h.reads.congr fun other ho => hother other fun heq =>
          hdisjoint name (hf.known hname) other ho heq.symm)
    · exact seq_misfit_right
        (hf.reads.congr fun other ho => hother other fun heq =>
          hdisjoint other ho name (h.known hname) heq)
        (h.lacking hright name hname value?' hnone hother)

end FieldReader

/-! ## Records -/

theorem Fields.segment_of_lookup {names : List String} {path : Path}
    {ms : List (Option String × Tree)} {i : Nat} {seen : List String} {name : String} {e : Entry}
    (h : (ofMembers names path i seen ms).1.lookup name = some e) : e.segment = .key name := by
  induction ms generalizing i seen with
  | nil => cases h
  | cons m ms ih =>
    obtain ⟨_ | k, t⟩ := m
    · cases h
    · rw [ofMembers] at h
      split_ifs at h with hk hseen hfaulty
      · cases h
      · dsimp only at h
        rw [List.lookup_cons] at h
        cases hname : name == k with
        | true =>
          rw [hname] at h
          cases h
          rw [beq_iff_eq.1 hname]
        | false =>
          rw [hname] at h
          exact ih h
      · cases h
      · exact ih h

/-- **A record is a misfit where its fields are one**, if no field is given twice and the other
members can be skipped. -/
theorem record_misfit {r : FieldReader α} {ms : List (String × Tree)} {place : Path}
    (hkeys : ((ms.map Prod.fst).filter (r.names.contains ·)).Nodup)
    (hskip : ∀ m ∈ ms, m.1 ∉ r.names → m.2.faulty = false) (h : r.MisfitAt (ms.lookup ·) place) :
    (record r).MisfitAt (.object (ms.map fun m => (some m.1, m.2)) true) place := by
  intro path
  obtain ⟨found, hfound, hlookup⟩ := Fields.ofMembers_eq_ok path hskip 0 [] hkeys
  have hkeyed (size : Nat) : (⟨path, found, size⟩ : Fields).Keyed := fun name e he => by
    have he' : (Fields.ofMembers r.names path 0 []
        (ms.map fun m => (some m.1, m.2))).1.lookup name = some e := by
      rw [hfound]
      exact he
    exact Fields.segment_of_lookup he'
  obtain ⟨i, hread⟩ :=
    h ⟨path, found, (ms.map fun m => ((some m.1 : Option String), m.2)).length⟩ (hkeyed _) hlookup
  simp only [record, hfound, hread]
  rfl

/-! ## Maps -/

/-- A map is a misfit where the value of an entry is one, if the entries before it are read. -/
theorem Reader.mapOf_misfit {parse : String → Option κ} {r : Reader α}
    {ms : List (String × Tree)} (ms' : List (String × Tree)) {k : String} {key : κ} {t : Tree}
    {place : Path} (hbefore : ∀ m ∈ ms, ∃ key a, parse m.1 = some key ∧ r.Reads m.2 a)
    (hkey : parse k = some key) (ht : r.MisfitAt t place) :
    (mapOf parse r).MisfitAt
      (.object ((ms ++ (k, t) :: ms').map fun m => (some m.1, m.2)) true) (place ++ [.key k]) := by
  intro path
  have hentries : entries parse r path ((ms ++ (k, t) :: ms').map fun m => (some m.1, m.2))
      = .error (.misfit (place ++ .key k :: path)) := by
    induction ms with
    | nil =>
      rw [List.nil_append, List.map_cons, entries, hkey]
      simp only [ht _]
      rfl
    | cons m ms ih =>
      obtain ⟨key, a, hm, hread⟩ := hbefore m List.mem_cons_self
      rw [List.cons_append, List.map_cons, entries, hm]
      simp only [hread _, ih fun m hmem => hbefore m (List.mem_cons_of_mem _ hmem)]
      rfl
  simp only [mapOf, hentries, List.append_assoc, List.singleton_append]
  rfl

end PoolKeeper.Json
