/-
What is said of an interval's local file, over any chain and any file system.

`runIn_read_eq_ok` opens a successful look at an interval: the event that was
resolved, and the status of what the store holds. `statusOf_eq_valid_iff` says
when that status is `valid`. A valid file commits to the event's root with all
its entries, so every node in it can claim (`claimable_of_valid`), though with
the proof that its entries make: the proofs written in the file are not looked
at, and `valid_with_wrong_proof` is a valid file in which one leads nowhere.
-/
import PoolKeeper.InMemory.Chain
import PoolKeeper.Proofs.Rewards.Binding
import PoolKeeper.Proofs.Rewards.Store
import PoolKeeper.Rewards.Interval

namespace PoolKeeper

namespace IntervalInfo
open InMemory FileTree

theorem statusOf_eq_valid_iff {node : Address} {root : Hash} {found : Option RewardsFile}
    {entry : Option NodeRewards} :
    statusOf node root found = .valid entry ↔
      ∃ f, found = some f ∧ f.trust root = .ok () ∧ f.nodes.get? node = entry := by
  cases found with
  | none => simp [statusOf]
  | some f =>
    cases htrust : f.trust root with
    | ok u => simp [statusOf, RewardsFile.checkRoot, htrust, Except.mapError]
    | error d => simp [statusOf, RewardsFile.checkRoot, htrust, Except.mapError]

section Run
variable [Compression] {σ τ : Type} {w : Surroundings Chain σ} {v : Surroundings Disk τ}
variable {s : Store} {node : Address} {interval : UInt64} {root : Hash} {bytes : Bytes}

/-- A status is that of the file that was found, or tells what is wrong with the stored bytes. -/
theorem runIn_readStatus_eq_ok {status : FileStatus} {t t' : τ} :
    (readStatus s node interval root).runIn v t = (.ok status, t') ↔
      (∃ found, (s.load interval).runIn v t = (.ok found, t') ∧
        status = statusOf node root found) ∨
      ∃ fault, (s.load interval).runIn v t = (.error (.file fault), t') ∧
        status = .invalid fault.message := by
  cases hload : (s.load interval).runIn v t with
  | mk r t₁ =>
    have hrun : (s.load interval).outcome.runIn v t = (r, t₁) := hload
    rw [readStatus, Attempt.runIn_ofOutcome, Program.runIn_bind, hrun]
    cases r with
    | ok found => simp [and_comm, eq_comm]
    | error fault =>
      cases fault with
      | file f => simp [and_comm, eq_comm]
      | disk path => simp
      | event f => simp

/-- The status of a file with these bytes. -/
def storedStatus (node : Address) (root : Hash) (bytes : Bytes) : FileStatus :=
  match RewardsFile.decode bytes with
  | .ok f => statusOf node root (some f)
  | .error fault => .invalid fault.message

theorem storedStatus_eq_valid_iff {entry : Option NodeRewards} :
    storedStatus node root bytes = .valid entry ↔
      ∃ f, RewardsFile.decode bytes = .ok f ∧ f.trust root = .ok () ∧
        f.nodes.get? node = entry := by
  rw [storedStatus]
  cases RewardsFile.decode bytes with
  | error fault => simp
  | ok f => simp [statusOf_eq_valid_iff]

theorem runIn_readStatus_of_bytes {t t' : τ}
    (hread : (Disk.read (s.path interval)).runIn v t = (.ok bytes, t')) :
    (readStatus s node interval root).runIn v t = (.ok (storedStatus node root bytes), t') := by
  rw [runIn_readStatus_eq_ok, s.runIn_load hread, storedStatus]
  cases RewardsFile.decode bytes with
  | ok f => exact .inl ⟨some f, rfl, rfl⟩
  | error fault => exact .inr ⟨fault, rfl, rfl⟩

/-- An interval is known by the event that was resolved for it, and by what its store holds. -/
theorem runIn_read_eq_ok {pools : List Address} {info : IntervalInfo} {c c' : σ} {t t' : τ} :
    (read s pools node interval).runIn (w.sum v) (c, t) = (.ok info, c', t') ↔
      ∃ event status,
        (RewardsEvent.resolve s.network pools interval none).runIn w c = (.ok event, c') ∧
        (readStatus s node interval event.merkleRoot).runIn v t = (.ok status, t') ∧
        info = ⟨interval, event.merkleTreeCid, event.startTime, event.endTime, s.path interval,
          status⟩ := by
  constructor
  · intro h
    obtain ⟨event, ⟨c₁, t₁⟩, hevent, hrest⟩ := Attempt.runIn_bind_eq_ok.1 h
    obtain ⟨status, ⟨c₂, t₂⟩, hstatus, hend⟩ := Attempt.runIn_bind_eq_ok.1 hrest
    rw [Attempt.runIn_onLeft_eq_iff, Attempt.runIn_mapError_eq_ok] at hevent
    rw [Attempt.runIn_onRight_eq_iff] at hstatus
    obtain ⟨hevent, rfl⟩ := hevent
    obtain ⟨hstatus, rfl⟩ := hstatus
    cases hend
    exact ⟨event, status, hevent, hstatus, rfl⟩
  · rintro ⟨event, status, hevent, hstatus, rfl⟩
    refine Attempt.runIn_bind_eq_ok.2 ⟨event, (c', t), ?_, ?_⟩
    · exact Attempt.runIn_onLeft_eq_iff.2 ⟨Attempt.runIn_mapError_ok hevent _, rfl⟩
    · refine Attempt.runIn_bind_eq_ok.2 ⟨status, (c', t'), ?_, rfl⟩
      exact Attempt.runIn_onRight_eq_iff.2 ⟨hstatus, rfl⟩

/-- What a look at an interval finds, once the event and the bytes in the store are known. -/
theorem runIn_read_of_bytes {pools : List Address} {event : RewardsEvent} {c c' : σ} {t t' : τ}
    (hevent : (RewardsEvent.resolve s.network pools interval none).runIn w c = (.ok event, c'))
    (hread : (Disk.read (s.path interval)).runIn v t = (.ok bytes, t')) :
    (read s pools node interval).runIn (w.sum v) (c, t) =
      (.ok ⟨interval, event.merkleTreeCid, event.startTime, event.endTime, s.path interval,
        storedStatus node event.merkleRoot bytes⟩, c', t') :=
  runIn_read_eq_ok.2 ⟨event, _, hevent, runIn_readStatus_of_bytes hread, rfl⟩

/-- A file in the store that commits to the event's root is valid. -/
theorem runIn_read_of_trust {pools : List Address} {event : RewardsEvent} {f : RewardsFile}
    {c c' : σ} {t t' : τ}
    (hevent : (RewardsEvent.resolve s.network pools interval none).runIn w c = (.ok event, c'))
    (hload : (s.load interval).runIn v t = (.ok (some f), t'))
    (htrust : f.trust event.merkleRoot = .ok ()) :
    (read s pools node interval).runIn (w.sum v) (c, t) =
      (.ok ⟨interval, event.merkleTreeCid, event.startTime, event.endTime, s.path interval,
        .valid (f.nodes.get? node)⟩, c', t') := by
  have hstatus : statusOf node event.merkleRoot (some f) = .valid (f.nodes.get? node) :=
    statusOf_eq_valid_iff.2 ⟨f, rfl, htrust, rfl⟩
  refine runIn_read_eq_ok.2 ⟨event, .valid (f.nodes.get? node), hevent, ?_, rfl⟩
  exact runIn_readStatus_eq_ok.2 (.inl ⟨some f, hload, hstatus.symm⟩)

/-- **A node in a valid file can claim.** The file commits with all its entries to the root of
the event that was resolved, so the tree over the entries has a proof of the node's leaf which is
accepted against that root. The proof written in the file is not looked at: it is accepted against
that root just when the file's own check of it says so. -/
theorem claimable_of_valid {pools : List Address} {info : IntervalInfo} {r : NodeRewards}
    {c c' : σ} {t t' : τ}
    (h : (read s pools node interval).runIn (w.sum v) (c, t) = (.ok info, c', t'))
    (hvalid : info.status = .valid (some r)) :
    ∃ event f,
      (RewardsEvent.resolve s.network pools interval none).runIn w c = (.ok event, c') ∧
      (s.load interval).runIn v t = (.ok (some f), t') ∧ f.nodes.get? node = some r ∧
      (∃ proof, (RewardsTree.ofLeaves keccak256 f.leaves).proof? (r.leaf node) = some proof ∧
        RewardsTree.verify keccak256 (r.leaf node) proof event.merkleRoot = true) ∧
      (RewardsTree.verify keccak256 (r.leaf node) r.merkleProof event.merkleRoot = true ↔
        f.verifyNode node = .ok true) := by
  obtain ⟨event, status, hevent, hstatus, rfl⟩ := runIn_read_eq_ok.1 h
  obtain rfl : status = .valid (some r) := hvalid
  rcases runIn_readStatus_eq_ok.1 hstatus with ⟨found, hload, hfound⟩ | ⟨fault, -, hfault⟩
  · obtain ⟨f, rfl, htrust, hentry⟩ := statusOf_eq_valid_iff.1 hfound.symm
    obtain ⟨htree, hroot⟩ := RewardsFile.trust_eq_ok_iff.1 htrust
    refine ⟨event, f, hevent, hload, hentry, ?_, ?_⟩
    · rw [← htree]
      exact RewardsFile.proof_of_entry hentry
    · rw [← hroot]
      exact (RewardsFile.verifyNode_eq_ok_iff hentry).symm
  · cases hfault

end Run

/-- A file that has been stored, and commits to the event's root, is valid. -/
theorem runIn_read_of_save [Compression] {σ : Type} {w : Surroundings Chain σ} {s : Store}
    {node : Address} {interval : UInt64} {pools : List Address} {event : RewardsEvent}
    {f : RewardsFile} {c c' : σ} {t : FileTree}
    (hevent : (RewardsEvent.resolve s.network pools interval none).runIn w c = (.ok event, c'))
    (h : s.Unobstructed interval t) (htrust : f.trust event.merkleRoot = .ok ()) :
    (read s pools node interval).runIn (w.sum disk) (c, ((s.save interval f).runIn disk t).2) =
      (.ok ⟨interval, event.merkleTreeCid, event.startTime, event.endTime, s.path interval,
        .valid (f.nodes.get? node)⟩, c', ((s.save interval f).runIn disk t).2) := by
  obtain ⟨t', hsave, hload⟩ := s.load_save h f
  rw [hsave]
  exact runIn_read_of_trust hevent hload htrust

/-- Contracts whose rewards pool has recorded one event. -/
def recording (event : RewardsEvent) : Contracts :=
  { Contracts.initial with
    addresses := [("rocketRewardsPool", 0xc0)], events := [((.ofNat 0xc0, event.index), event)] }

theorem resolve_recording (network : Network) (event : RewardsEvent) :
    (RewardsEvent.resolve network [] event.index none).runIn (.fixed (recording event).answer) () =
      (.ok event, ()) := by
  have hcurrent : (RewardsEvent.currentPool event.index none).runIn
      (.fixed (recording event).answer) () = (.ok (.ofNat 0xc0), ()) := rfl
  have hanswer : (recording event).answer (.rewardsEvent (.ofNat 0xc0) event.index) =
      .ok (some event) := by
    simp [Contracts.answer, Contracts.guarded, recording, Contracts.initial]
  have hrecorded : (Chain.rewardsEvent (.ofNat 0xc0) event.index).runIn
      (.fixed (recording event).answer) () = (.ok (some event), ()) := Prod.ext hanswer rfl
  refine (Attempt.runIn_bind_ok hcurrent _).trans ?_
  exact Attempt.runIn_bind_ok (Attempt.runIn_mapError_ok hrecorded _) _

/-! ## A valid file in which a proof is wrong -/

namespace WrongProof

/-- A file for two nodes. The proof of the first is not that of its leaf. -/
def file : RewardsFile where
  version := 1
  header := ⟨5, "holesky", 0, 0, 0, 0, 1⟩
  merkleRoot := .ofNat 0x575136b56b1bfe6bea89ad1f268c152f9c9317378f5fa1fc690c18aafa2a5d57
  totals := ⟨30, 0, 7⟩
  nodes := ⟨[(.ofNat 1, ⟨0, 10, 0, 7, [.zero]⟩), (.ofNat 2, ⟨0, 20, 0, 0, [.ofNat
    0x8900edac5e67c5b060cbbb29b8f0cc4518390b2fb87fdba979fe68171650aade]⟩)], by decide⟩

def event : RewardsEvent := ⟨5, 1000, 2000, 0, 0, file.merkleRoot, "bafyinterval", 1⟩

def contracts : Contracts :=
  { Contracts.initial with
    addresses := [("rocketRewardsPool", 0xc0)], events := [((.ofNat 0xc0, 5), event)] }

def store : Store := ⟨"", .holesky⟩

/-- The file system once the file has been stored. -/
def tree : FileTree := ((store.save 5 file).runIn disk .empty).2

theorem resolve_event :
    (RewardsEvent.resolve store.network [] 5 none).runIn (.fixed contracts.answer) () =
      (.ok event, ()) := rfl

theorem trust_file : file.trust event.merkleRoot = .ok () := by
  refine RewardsFile.trust_eq_ok_iff.2 ⟨?_, rfl⟩
  refine (RewardsTree.root_ofLeaves_pair keccak256 _ _).trans ?_
  decide +kernel

/-- The file is valid, and the entry of the first node is shown as it is. -/
theorem read_file :
    (read store [] (.ofNat 1) 5).runIn ((Surroundings.fixed contracts.answer).sum disk) ((), tree) =
      (.ok ⟨5, "bafyinterval", 1000, 2000, store.path 5, .valid (some ⟨0, 10, 0, 7, [.zero]⟩)⟩,
        (), tree) :=
  runIn_read_of_save resolve_event (store.unobstructed_empty 5) trust_file

end WrongProof

open WrongProof in
/-- The first node can claim, though not with the proof that is written for it. -/
theorem claimable_with_wrong_proof :
    let r : NodeRewards := ⟨0, 10, 0, 7, [.zero]⟩
    let info : IntervalInfo := ⟨5, "bafyinterval", 1000, 2000, store.path 5, .valid (some r)⟩
    (read store [] (.ofNat 1) 5).runIn ((Surroundings.fixed contracts.answer).sum disk)
        ((), tree) = (.ok info, (), tree) ∧
      info.status = .valid (some r) ∧
      ∃ f proof, (store.load 5).runIn disk tree = (.ok (some f), tree) ∧
        (RewardsTree.ofLeaves keccak256 f.leaves).proof? (r.leaf (.ofNat 1)) = some proof ∧
        RewardsTree.verify keccak256 (r.leaf (.ofNat 1)) proof event.merkleRoot = true := by
  intro r info
  refine ⟨read_file, rfl, ?_⟩
  obtain ⟨e, f, hevent, hload, -, ⟨proof, hproof, hverify⟩, -⟩ := claimable_of_valid read_file rfl
  -- one event is resolved, so the root is that of the event above
  obtain rfl : e = event := by
    rw [resolve_event] at hevent
    exact (Except.ok.inj (Prod.ext_iff.1 hevent).1).symm
  exact ⟨f, proof, hload, hproof, hverify⟩

open WrongProof in
/-- **A proof in a valid file may lead nowhere.** -/
theorem valid_with_wrong_proof :
    ∃ info r,
      (RewardsEvent.resolve store.network [] 5 none).runIn (.fixed contracts.answer) () =
        (.ok event, ()) ∧
      (read store [] (.ofNat 1) 5).runIn ((Surroundings.fixed contracts.answer).sum disk)
        ((), tree) = (.ok info, (), tree) ∧
      info.status = .valid (some r) ∧
      RewardsTree.verify keccak256 (r.leaf (.ofNat 1)) r.merkleProof event.merkleRoot = false := by
  refine ⟨_, ⟨0, 10, 0, 7, [.zero]⟩, resolve_event, read_file, rfl, ?_⟩
  decide +kernel

end IntervalInfo
end PoolKeeper
