/-
Stores in one directory, over a file system that may fail.

`Holds dir kept t` is the invariant: under the path of every interval of every
network there is what was kept for it. A saving that succeeds keeps its bytes
(`Holds.of_saved`), one that fails keeps nothing and loses nothing
(`Holds.of_failed`); so by induction on a history what is held is what was stored
last (`holds_of_saveAll`). `loads_of_history` says it of what is loaded.
-/
import PoolKeeper.Proofs.Rewards.Store
import PoolKeeper.Proofs.Unreliable

namespace PoolKeeper
open InMemory

/-! ## What stores hold -/

namespace Store
open FileTree
variable {dir : String} {kept : Network → UInt64 → Option Bytes} {t t' : FileTree}
  {n : Network} {i : UInt64}

/-- Under the path of every file of the stores in a directory there is what was kept for it, and
nothing where nothing was. -/
structure Holds (dir : String) (kept : Network → UInt64 → Option Bytes) (t : FileTree) : Prop where
  clear : t.Clear (parsePath dir)
  reaches : ∀ n i, kept n i ≠ none → t.Reaches (parsePath dir)
  stored : ∀ n i, t.get? (parsePath ((⟨dir, n⟩ : Store).path i)) = (kept n i).map .file

theorem holds_nothing (h : t.IsEmptyAt (parsePath dir)) : Holds dir (fun _ _ => none) t where
  clear := h.clear
  reaches _ _ hkept := absurd rfl hkept
  stored n i := by
    rw [parsePath_path]
    exact h.get?_eq_none _

/-- What is loaded where some bytes are stored, or none. -/
def loaded [Compression] : Option Bytes → Except ArtifactFault (Option RewardsFile)
  | none => .ok none
  | some bytes => ((RewardsFile.decode bytes).map some).mapError .file

/-- What is kept once the file of an interval has been stored. -/
def storing (kept : Network → UInt64 → Option Bytes) (n : Network) (i : UInt64) (bytes : Bytes) :
    Network → UInt64 → Option Bytes :=
  fun n' i' => if n' = n ∧ i' = i then some bytes else kept n' i'

theorem storing_self (kept : Network → UInt64 → Option Bytes) (n : Network) (i : UInt64)
    (bytes : Bytes) : storing kept n i bytes n i = some bytes := if_pos ⟨rfl, rfl⟩

theorem storing_other (kept : Network → UInt64 → Option Bytes) {n n' : Network} {i i' : UInt64}
    (bytes : Bytes) (h : ¬ (n' = n ∧ i' = i)) : storing kept n i bytes n' i' = kept n' i' :=
  if_neg h

namespace Holds
variable {τ : Type} {v : Surroundings Disk τ} {tree : τ → FileTree} {d d' : τ} {bytes : Bytes}

/-- Making some of the directories on the way does no harm. -/
theorem makeDirs (h : Holds dir kept t) {k : Nat}
    (hmake : t.makeDirs ((parsePath dir).take k) = .ok t') : Holds dir kept t' := by
  obtain ⟨-, hreach, hother⟩ := of_makeDirs_eq_ok hmake
  refine ⟨fun p hp bytes => ?_, fun n i hkept p hp => ?_, fun n i => ?_⟩
  · by_cases hmade : p <+: (parsePath dir).take k
    · simp [hreach p hmade]
    · rw [hother p hmade]
      exact h.clear p hp bytes
  · by_cases hmade : p <+: (parsePath dir).take k
    · exact hreach p hmade
    · rw [hother p hmade]
      exact h.reaches n i hkept p hp
  · rw [← h.stored, parsePath_path]
    exact hother _ fun hp => not_prefix_of_concat _ _ (hp.trans (List.take_prefix k _))

theorem makeAllDirs (h : Holds dir kept t) (hmake : t.makeDirs (parsePath dir) = .ok t') :
    Holds dir kept t' :=
  h.makeDirs (k := (parsePath dir).length) (by rwa [List.take_length])

/-- A file that is not complete is under a name of its own. -/
theorem put_partial (h : Holds dir kept t) (n : Network) (i : UInt64) (bytes : Bytes) :
    Holds dir kept (t.put (parsePath ((⟨dir, n⟩ : Store).partialPath i)) (.file bytes)) := by
  refine ⟨fun p hp b => ?_, fun n' i' hkept => ?_, fun n' i' => ?_⟩
  · rw [parsePath_partialPath, get?_put_other _ (isPrefix_ne_concat hp _)]
    exact h.clear p hp b
  · rw [parsePath_partialPath]
    exact (h.reaches n' i' hkept).put _ _
  · have hpartial : parsePath ((⟨dir, n'⟩ : Store).path i') ≠
        parsePath ((⟨dir, n⟩ : Store).partialPath i) := path_ne_partialPath _ (Eq.refl dir) i i'
    rw [get?_put_other _ hpartial, h.stored]

/-- A complete file gets its name, and all others keep theirs. -/
theorem rename (h : Holds dir kept t) (hreach : t.Reaches (parsePath dir)) (n : Network)
    (i : UInt64) (bytes : Bytes) :
    Holds dir (storing kept n i bytes)
      ((t.erase (parsePath ((⟨dir, n⟩ : Store).partialPath i))).put
        (parsePath ((⟨dir, n⟩ : Store).path i)) (.file bytes)) := by
  have hreach' : ((t.erase (parsePath ((⟨dir, n⟩ : Store).partialPath i))).put
      (parsePath ((⟨dir, n⟩ : Store).path i)) (.file bytes)).Reaches (parsePath dir) := by
    rw [parsePath_partialPath, parsePath_path]
    exact (hreach.erase _).put _ _
  refine ⟨hreach'.clear, fun _ _ _ => hreach', fun n' i' => ?_⟩
  by_cases hsame : n' = n ∧ i' = i
  · obtain ⟨rfl, rfl⟩ := hsame
    rw [storing_self]
    refine get?_put_self _ ?_ _
    rw [parsePath_path]
    simp
  · have hpath : parsePath ((⟨dir, n'⟩ : Store).path i') ≠ parsePath ((⟨dir, n⟩ : Store).path i) :=
      fun heq => hsame (path_inj (⟨dir, n⟩ : Store) (Eq.refl dir) heq)
    have hpartial : parsePath ((⟨dir, n'⟩ : Store).path i') ≠
        parsePath ((⟨dir, n⟩ : Store).partialPath i) := path_ne_partialPath _ (Eq.refl dir) i i'
    rw [storing_other _ _ hsame, get?_put_other _ hpath, get?_erase_other _ hpartial, h.stored]

/-- A saving that succeeds keeps its bytes. -/
theorem of_saved (h : Holds dir kept (tree d)) (hv : Unreliable v tree) {path : String}
    (hsave : ((⟨dir, n⟩ : Store).saveBytes i bytes).runIn v d = (.ok path, d')) :
    Holds dir (storing kept n i bytes) (tree d') := by
  simp only [saveBytes, Attempt.runIn_bind_eq_ok, Attempt.runIn_mapError_eq_ok] at hsave
  obtain ⟨⟨⟩, d₁, hmake, ⟨⟩, d₂, hwrite, ⟨⟩, d₃, hrename, hend⟩ := hsave
  obtain rfl : d₃ = d' := congrArg Prod.snd hend
  have hmade := hv.makeDirs_ok hmake
  obtain ⟨-, hreach, -⟩ := of_makeDirs_eq_ok hmade
  have hwritten := hv.write_ok hwrite
  obtain ⟨renamed, hsource, hrenamed⟩ := hv.rename_ok hrename
  have hreach₂ : (tree d₂).Reaches (parsePath dir) := by
    rw [hwritten, parsePath_partialPath]
    exact hreach.put _ _
  -- what is renamed is what was written
  obtain rfl : bytes = renamed := by
    rw [hwritten, parsePath_partialPath, get?_put_self _ (by simp)] at hsource
    cases hsource
    rfl
  have h₂ : Holds dir kept (tree d₂) := by
    rw [hwritten]
    exact (h.makeAllDirs hmade).put_partial n i bytes
  rw [hrenamed]
  exact h₂.rename hreach₂ n i bytes

/-- A saving that fails keeps nothing and loses nothing. -/
theorem of_failed (h : Holds dir kept (tree d)) (hv : Unreliable v tree) {fault : ArtifactFault}
    (hsave : ((⟨dir, n⟩ : Store).saveBytes i bytes).runIn v d = (.error fault, d')) :
    Holds dir kept (tree d') := by
  simp only [saveBytes, Attempt.runIn_bind_eq_error, Attempt.runIn_mapError_eq_error,
    Attempt.runIn_mapError_eq_ok] at hsave
  obtain ⟨_, hmake, -⟩ | ⟨⟨⟩, d₁, hmake, hsave⟩ := hsave
  · obtain ⟨k, hmade⟩ := hv.makeDirs_error hmake
    exact h.makeDirs hmade
  have h₁ : Holds dir kept (tree d₁) := h.makeAllDirs (hv.makeDirs_ok hmake)
  obtain ⟨_, hwrite, -⟩ | ⟨⟨⟩, d₂, hwrite, hsave⟩ := hsave
  · obtain hsame | ⟨written, hwritten⟩ := hv.write_error hwrite
    · rwa [hsame]
    · rw [hwritten]
      exact h₁.put_partial n i written
  have h₂ : Holds dir kept (tree d₂) := by
    rw [hv.write_ok hwrite]
    exact h₁.put_partial n i bytes
  obtain ⟨_, hrename, -⟩ | ⟨⟨⟩, d₃, -, hend⟩ := hsave
  · rwa [hv.rename_error hrename]
  · cases hend

/-- What is loaded is what is held. -/
theorem runIn_load [Compression] (h : Holds dir kept (tree d)) (hv : Unreliable v tree)
    (n : Network) (i : UInt64) : (((⟨dir, n⟩ : Store).load i).runIn v d).1 = loaded (kept n i) := by
  have hread := hv.read ((⟨dir, n⟩ : Store).path i) d
  have hstored := h.stored n i
  rw [parsePath_path] at hread hstored
  cases hkept : kept n i with
  | none =>
    rw [hkept] at hstored
    rw [read_of_clear h.clear hstored] at hread
    exact congrArg Prod.fst (runIn_load_of_absent _ (Prod.ext hread rfl))
  | some bytes =>
    rw [hkept] at hstored
    have hreach := h.reaches n i (by simp [hkept])
    rw [read_eq_ok hreach hstored] at hread
    exact congrArg Prod.fst (Store.runIn_load _ (Prod.ext hread rfl))

end Holds

/-! ## Histories -/

section Histories
variable [Compression]

/-- What is to be stored: a file, or bytes that are compressed already. -/
inductive Content where
  | file (f : RewardsFile)
  | compressed (bytes : Bytes)

def Content.bytes : Content → Bytes
  | .file f => f.encode
  | .compressed bytes => bytes

/-- Something is to be stored as the file of an interval of a network. -/
structure Saving where
  network : Network
  interval : UInt64
  content : Content

namespace Saving
variable (x : Saving)

/-- Saves through the store of the network in a directory. -/
def run (dir : String) : Attempt Disk ArtifactFault String :=
  match x.content with
  | .file f => (⟨dir, x.network⟩ : Store).save x.interval f
  | .compressed bytes => (⟨dir, x.network⟩ : Store).saveBytes x.interval bytes

theorem run_eq (dir : String) :
    x.run dir = (⟨dir, x.network⟩ : Store).saveBytes x.interval x.content.bytes := by
  rw [run]
  cases x.content <;> rfl

end Saving

/-- Saves one thing after the other, and lists what came of each. -/
def saveAll (dir : String) :
    List Saving → Program Disk (List (Saving × Except ArtifactFault String))
  | [] => return []
  | x :: xs => do
    let r ← (x.run dir).outcome
    return (x, r) :: (← saveAll dir xs)

/-- The bytes of the last saving of an interval's file that succeeded. -/
def lastStored (done : List (Saving × Except ArtifactFault String)) (n : Network) (i : UInt64) :
    Option Bytes :=
  (done.filter fun x => x.2.isOk ∧ n = x.1.network ∧ i = x.1.interval).getLast?.map
    (·.1.content.bytes)

theorem lastStored_concat_ok (done : List (Saving × Except ArtifactFault String)) (x : Saving)
    (path : String) : lastStored (done ++ [(x, .ok path)]) =
      storing (lastStored done) x.network x.interval x.content.bytes := by
  funext n i
  rw [lastStored, List.filter_append, storing, lastStored]
  by_cases h : n = x.network ∧ i = x.interval
  · simp [h, Except.isOk, Except.toBool]
  · simp [h, Except.isOk, Except.toBool]

theorem lastStored_concat_error (done : List (Saving × Except ArtifactFault String)) (x : Saving)
    (fault : ArtifactFault) : lastStored (done ++ [(x, .error fault)]) = lastStored done := by
  funext n i
  rw [lastStored, lastStored, List.filter_append]
  simp [Except.isOk, Except.toBool]

theorem lastStored_concat_other (done : List (Saving × Except ArtifactFault String)) {x : Saving}
    (r : Except ArtifactFault String) {n : Network} {i : UInt64}
    (h : ¬ (n = x.network ∧ i = x.interval)) :
    lastStored (done ++ [(x, r)]) n i = lastStored done n i := by
  cases r with
  | ok path => rw [lastStored_concat_ok, storing_other _ _ h]
  | error fault => rw [lastStored_concat_error]

section Run
variable {τ : Type} {v : Surroundings Disk τ} {tree : τ → FileTree} {d d' : τ}
  {done : List (Saving × Except ArtifactFault String)}

/-- Whatever comes of a saving, what is held then is what was stored last. -/
theorem Holds.of_run (h : Holds dir (lastStored done) (tree d)) (hv : Unreliable v tree)
    {x : Saving} {r : Except ArtifactFault String} (hrun : (x.run dir).runIn v d = (r, d')) :
    Holds dir (lastStored (done ++ [(x, r)])) (tree d') := by
  rw [x.run_eq] at hrun
  cases r with
  | ok path =>
    rw [lastStored_concat_ok]
    exact h.of_saved hv hrun
  | error fault =>
    rw [lastStored_concat_error]
    exact h.of_failed hv hrun

/-- After a history what is held is what was stored last, by induction on what is still to be
saved. -/
theorem holds_of_saveAll (done : List (Saving × Except ArtifactFault String))
    (hv : Unreliable v tree) {xs : List Saving} (h : Holds dir (lastStored done) (tree d)) :
    Holds dir (lastStored (done ++ ((saveAll dir xs).runIn v d).1))
      (tree ((saveAll dir xs).runIn v d).2) := by
  induction xs generalizing done d with
  | nil =>
    change Holds dir (lastStored (done ++ [])) (tree d)
    rwa [List.append_nil]
  | cons x xs ih =>
    have hlater := ih _ (h.of_run hv (x := x) rfl)
    rw [saveAll, Program.runIn_bind, Program.runIn_bind]
    rw [List.append_assoc] at hlater
    exact hlater

variable (v) in
/-- What is loaded as the file of an interval of a network. -/
def loads (dir : String) (d : τ) (n : Network) (i : UInt64) :
    Except ArtifactFault (Option RewardsFile) :=
  (((⟨dir, n⟩ : Store).load i).runIn v d).1

theorem Holds.loads_eq (h : Holds dir kept (tree d)) (hv : Unreliable v tree) (n : Network)
    (i : UInt64) : loads v dir d n i = loaded (kept n i) := h.runIn_load hv n i

theorem loaded_encode (f : RewardsFile) : loaded (some f.encode) = .ok (some f) := by
  rw [loaded, f.decode_of_encode]
  rfl

/-- **A directory of stores is a map, and no failure shows in it.** Whatever is saved, through
stores of any networks in one directory that was empty, and whatever fails of it: what is loaded as
the file of an interval of a network is what the last saving of it that succeeded has stored. A
saving that fails changes nothing that is loaded, none changes what is loaded of another interval or
network, and a file that has been saved is loaded as it was. -/
theorem loads_of_history (hv : Unreliable v tree) (hempty : (tree d).IsEmptyAt (parsePath dir))
    (xs : List Saving) :
    let done := ((saveAll dir xs).runIn v d).1
    let after := ((saveAll dir xs).runIn v d).2
    (∀ n i, loads v dir after n i = loaded (lastStored done n i)) ∧
    ∀ (x : Saving) (r : Except ArtifactFault String) (later : τ),
      (x.run dir).runIn v after = (r, later) →
      (∀ fault, r = .error fault → loads v dir later = loads v dir after) ∧
      (∀ n i, ¬ (n = x.network ∧ i = x.interval) →
        loads v dir later n i = loads v dir after n i) ∧
      ∀ path f, r = .ok path → x.content = .file f →
        loads v dir later x.network x.interval = .ok (some f) := by
  intro done after
  have hafter : Holds dir (lastStored done) (tree after) :=
    holds_of_saveAll [] hv (holds_nothing hempty)
  refine ⟨hafter.loads_eq hv, fun x r later hrun => ?_⟩
  have hlater := hafter.of_run hv hrun
  refine ⟨?_, fun n i hother => ?_, ?_⟩
  · rintro fault rfl
    funext n i
    rw [hlater.loads_eq hv, hafter.loads_eq hv, lastStored_concat_error]
  · rw [hlater.loads_eq hv, hafter.loads_eq hv, lastStored_concat_other _ _ hother]
  · rintro path f rfl hfile
    rw [hlater.loads_eq hv, lastStored_concat_ok, storing_self, hfile]
    exact loaded_encode f

end Run
end Histories

/-! ## A file that is cut off -/

namespace CutOff

/-- The file system in memory, on which the second file that is written is cut off after a byte.
The files written are counted. -/
def disk : Surroundings Disk (FileTree × Nat)
  | .write path bytes, (t, n) =>
    if n = 1 then (.error .refused, (t.step (.write path (bytes.take 1))).2, n + 1)
    else ((t.step (.write path bytes)).1, (t.step (.write path bytes)).2, n + 1)
  | c, (t, n) => ((t.step c).1, (t.step c).2, n)

theorem unreliable : Unreliable disk Prod.fst := by
  rintro c ⟨t, n⟩
  have hdone : ((t.step c).1, (t.step c).2) = t.step c := Prod.eta _
  cases c with
  | read path => exact .inl hdone
  | makeDirs path => exact .inl hdone
  | rename source target => exact .inl hdone
  | write path bytes =>
    by_cases hn : n = 1
    · have hdisk : disk (.write path bytes) (t, n) =
          (.error .refused, (t.step (.write path (bytes.take 1))).2, n + 1) := if_pos hn
      rw [hdisk]
      refine .inr ⟨.refused, rfl, ?_⟩
      simp only [step]
      cases hwrite : t.write (parsePath path) (bytes.take 1) with
      | ok t' => exact .cutOff _ hwrite
      | error fault => exact .unwritten
    · have hdisk : disk (.write path bytes) (t, n) = ((t.step (.write path bytes)).1,
          (t.step (.write path bytes)).2, n + 1) := if_neg hn
      rw [hdisk]
      exact .inl hdone

/-- The second is the one that is cut off. -/
def savings : List Saving :=
  [⟨.holesky, 6, .compressed [1]⟩, ⟨.holesky, 6, .compressed [9, 9]⟩,
    ⟨.mainnet, 6, .compressed [2]⟩]

def file : RewardsFile where
  version := 1
  header := ⟨6, "holesky", 0, 0, 0, 0, 1⟩
  merkleRoot := .zero
  totals := ⟨0, 0, 0⟩
  nodes := .empty

end CutOff

open CutOff in
/-- The bytes that were stored before are still there, and can be replaced. -/
theorem loads_after_cut_off :
    let after := ((saveAll "rewards" savings).runIn CutOff.disk (.empty, 0)).2
    Unreliable CutOff.disk Prod.fst ∧ FileTree.empty.IsEmptyAt (parsePath "rewards") ∧
      loads CutOff.disk "rewards" after .holesky 6 = loaded (some [1]) ∧
      loads CutOff.disk "rewards" after .mainnet 6 = loaded (some [2]) ∧
      loads CutOff.disk "rewards" after .holesky 7 = .ok none ∧
      ∃ later, (Saving.run ⟨.holesky, 6, .file file⟩ "rewards").runIn CutOff.disk after =
          (.ok "rewards/rp-rewards-holesky-6.json.zst", later) ∧
        loads CutOff.disk "rewards" later .holesky 6 = .ok (some file) ∧
        loads CutOff.disk "rewards" later .mainnet 6 = loaded (some [2]) := by
  intro after
  have hempty := isEmptyAt_empty (parsePath "rewards")
  obtain ⟨hloads, hnext⟩ := loads_of_history unreliable (d := (.empty, 0)) hempty savings
  obtain ⟨hfirst, hthird, hnone, hsaved⟩ :
      let done := ((saveAll "rewards" savings).runIn CutOff.disk (.empty, 0)).1
      lastStored done .holesky 6 = some [1] ∧ lastStored done .mainnet 6 = some [2] ∧
        lastStored done .holesky 7 = none ∧
        ((Saving.run ⟨.holesky, 6, .file file⟩ "rewards").runIn CutOff.disk
          ((saveAll "rewards" savings).runIn CutOff.disk (.empty, 0)).2).1 =
          .ok "rewards/rp-rewards-holesky-6.json.zst" := by decide +kernel
  obtain ⟨-, hothers, hsame⟩ := hnext ⟨.holesky, 6, .file file⟩ _ _ (Prod.ext hsaved rfl)
  have hmainnet := hloads .mainnet 6
  rw [hthird] at hmainnet
  refine ⟨unreliable, hempty, ?_, hmainnet, ?_, _, Prod.ext hsaved rfl, hsame _ _ rfl rfl, ?_⟩
  · rw [hloads, hfirst]
  · rw [hloads, hnone]
    rfl
  · rw [hothers .mainnet 6 (by decide), hmainnet]

end Store
end PoolKeeper
