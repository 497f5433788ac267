/-
From the one who publishes a rewards file to the nodes that claim by it.

A file is packed under one name; the URLs of mirrors and the local directories
name it by themselves. `fileName_package` says that all of them use one name, and
`urlOf_eq_urlIn` that a mirror is asked for the package. So a mirror that has
the package serves the file of the event (`serves_package`), and
`published_file_is_claimable` follows it through a download into the store and
from there into what every node is told.
-/
import PoolKeeper.Proofs.Rewards.Download
import PoolKeeper.Proofs.Rewards.Interval
import PoolKeeper.Rewards.Package

namespace PoolKeeper
open InMemory FileTree Download

/-- Where a mirror with this template has a package. -/
def Package.urlIn (p : Package) (network : Network) (template : String) : String :=
  String.ofList <| Mirror.fill "filename" p.fileName <| Mirror.fill "network" network.name <|
    Mirror.fill "cid" p.cid.text template.toList

section
variable [Compression] {f : RewardsFile} {s : Store} {event : RewardsEvent} {m : Mirror}

/-- An event announces a file as it is published for a network. -/
structure RewardsEvent.Announces (event : RewardsEvent) (f : RewardsFile) (network : Network) :
    Prop where
  index : event.index = f.header.index
  merkleRoot : event.merkleRoot = f.merkleRoot
  merkleTreeCid : event.merkleTreeCid = (f.package network).cid.text

/-- The name of a package is that of the file on mirrors that serve compressed files, and that of
the file in the store. -/
theorem fileName_package (f : RewardsFile) (s : Store) (hm : m.compressed = true) :
    (f.package s.network).fileName = m.servedName (s.fileName f.header.index) ∧
      s.path f.header.index = Disk.join s.dir (f.package s.network).fileName := by
  refine ⟨?_, rfl⟩
  rw [Mirror.servedName, if_pos hm]
  rfl

/-- A mirror is asked for the package that was announced. -/
theorem urlOf_eq_urlIn (h : event.Announces f s.network) (hm : m.compressed = true) :
    urlOf s event m = (f.package s.network).urlIn s.network m.template := by
  rw [urlOf, Mirror.url, Package.urlIn, h.index, h.merkleTreeCid, (fileName_package f s hm).1]

/-- A mirror that has the package serves the file of the event. -/
theorem serves_package (hf : f.trust f.merkleRoot = .ok ()) (h : event.Announces f s.network)
    (hm : m.compressed = true) : Serves m event (f.package s.network).compressed f := by
  refine (serves_iff_of_compressed hm).2 ⟨f.decode_of_encode, h.index.symm, ?_⟩
  rw [h.merkleRoot]
  exact hf

/-- A file can be claimed by: it is in the store as it was published, is loaded from there, and
every node is told its entry, on any chain that has the event. -/
structure Claimable (s : Store) (event : RewardsEvent) (f : RewardsFile) (t : FileTree) :
    Prop where
  stored : t.file? (s.path f.header.index) = some (f.package s.network).compressed
  loaded : (s.load f.header.index).runIn disk t = (.ok (some f), t)
  valid : ∀ {σ : Type} {w : Surroundings Chain σ} {pools : List Address} {c c' : σ},
    (RewardsEvent.resolve s.network pools f.header.index none).runIn w c = (.ok event, c') →
      ∀ node, (IntervalInfo.read s pools node f.header.index).runIn (w.sum disk) (c, t) =
        (.ok ⟨f.header.index, event.merkleTreeCid, event.startTime, event.endTime,
          s.path f.header.index, .valid (f.nodes.get? node)⟩, c', t)

theorem claimable_of_kept {t t' : FileTree} (hf : f.trust f.merkleRoot = .ok ())
    (h : event.Announces f s.network) (hm : m.compressed = true)
    (hkept : Kept s event m (f.package s.network).compressed f t t') : Claimable s event f t' := by
  obtain ⟨⟨bytes, hfile, hbytes⟩, hload, -⟩ := hkept
  rw [if_pos hm] at hbytes
  rw [h.index] at hfile hload
  refine ⟨hbytes ▸ hfile, hload, fun hevent node => ?_⟩
  refine IntervalInfo.runIn_read_of_trust hevent hload ?_
  rw [h.merkleRoot]
  exact hf

/-- **What is published can be claimed by.** A file that commits to its own root is published, and
an event announces it. A compressed mirror has the package where its name and its identifier lead,
and no mirror before it has the file. Then a download ends with the file in the store, under the
name that it was published under, and every node is told its entry. Only where the store cannot be
written to is there a failure, that of the file system. -/
theorem published_file_is_claimable (f : RewardsFile) (hf : f.trust f.merkleRoot = .ok ())
    (s : Store) (event : RewardsEvent) (h : event.Announces f s.network)
    (answer : List Web.Call → (c : Web.Call) → Web.Reply c) (before after : List Mirror)
    (hbefore : ∀ reply ∈ replies answer s event [] before, ¬ Good event reply)
    (m : Mirror) (hm : m.compressed = true)
    (hserved : answer (requests s event before)
      (.fetch ((f.package s.network).urlIn s.network m.template)) =
        .ok (f.package s.network).compressed)
    (t : FileTree) :
    (s.Writable f.header.index t →
      ∃ t', (run s (before ++ m :: after) event).runIn (surroundings answer) ([], t) =
          (.ok (.saved (s.path f.header.index)
            ((f.package s.network).urlIn s.network m.template)),
              requests s event (before ++ [m]), t') ∧
        Claimable s event f t') ∧
    (¬ s.Writable f.header.index t →
      ∃ path t', (run s (before ++ m :: after) event).runIn (surroundings answer) ([], t) =
        (.error (.disk path), requests s event (before ++ [m]), t')) ∧
    (f.package s.network).fileName = m.servedName (s.fileName f.header.index) ∧
    s.path f.header.index = Disk.join s.dir (f.package s.network).fileName := by
  have hurl := urlOf_eq_urlIn h hm
  rw [← hurl] at hserved
  have hserves := serves_package hf h hm
  refine ⟨fun hwritable => ?_, fun hwritable => ?_, fileName_package f s hm⟩
  · rw [← h.index] at hwritable
    obtain ⟨t', hsave, hkept⟩ := kept_of_serves hserves hwritable
    refine ⟨t', ?_, claimable_of_kept hf h hm hkept⟩
    rw [run_of_serves after hbefore hserved hserves hsave, hurl, h.index]
    rfl
  · rw [← h.index] at hwritable
    obtain ⟨path, t', hsave⟩ := s.saveBytes_of_not_writable hwritable
      (storedForm m (f.package s.network).compressed)
    exact ⟨path, t', run_of_serves after hbefore hserved hserves hsave⟩

end

/-- A file for one node. The first mirror fails, the second has the package. -/
theorem claimable_from_second_mirror :
    let r : NodeRewards := ⟨0, 3, 4, 9, []⟩
    let f := RewardsFile.ofEntry (.ofNat 10) r
    let s : Store := ⟨"rewards", .holesky⟩
    let p := f.package .holesky
    let event : RewardsEvent := ⟨5, 1000, 2000, 0, 0, f.merkleRoot, p.cid.text, 1⟩
    let mirrors : List Mirror := [⟨"a/{filename}", true⟩, ⟨"b/{cid}/{filename}", true⟩]
    let answer : List Web.Call → (c : Web.Call) → Web.Reply c
      | [], .fetch _ => .error (.text "not found")
      | _ :: _, .fetch _ => .ok p.compressed
    s.Writable 5 .empty ∧
      ∃ t', (run s mirrors event).runIn (surroundings answer) ([], .empty) =
          (.ok (.saved (s.path 5) (p.urlIn .holesky "b/{cid}/{filename}")),
            requests s event mirrors, t') ∧
        (IntervalInfo.read s [] (.ofNat 10) 5).runIn
            ((Surroundings.fixed (IntervalInfo.recording event).answer).sum disk) ((), t') =
          (.ok ⟨5, p.cid.text, 1000, 2000, s.path 5, .valid (some r)⟩, (), t') := by
  intro r f s p event mirrors answer
  have hw : s.Writable 5 .empty := s.writable_iff.2 (s.unobstructed_empty 5)
  have hfirst : ∀ reply ∈ replies answer s event [] [⟨"a/{filename}", true⟩],
      ¬ Good event reply := by
    intro reply hreply
    obtain rfl := List.mem_singleton.1 hreply
    rintro ⟨bytes, g, hbytes, -⟩
    cases hbytes
  obtain ⟨t', hrun, hclaimable⟩ := (published_file_is_claimable f (RewardsFile.trust_ofEntry _ r) s
    event ⟨rfl, rfl, rfl⟩ answer [⟨"a/{filename}", true⟩] [] hfirst ⟨"b/{cid}/{filename}", true⟩ rfl
    rfl .empty).1 hw
  have hentry : f.nodes.get? (.ofNat 10) = some r := by decide
  refine ⟨hw, t', hrun, ?_⟩
  rw [← hentry]
  exact hclaimable.valid (IntervalInfo.resolve_recording _ event) _

end PoolKeeper
