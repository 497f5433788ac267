/-
Everything that can come of a look at an interval.

`read_classifies` is for any chain and any file system. The event is looked for
in the pools (`RewardsEvent.LookUp`), and the file system is asked once, for the
interval's file. What it replies decides the status (`Verdict`): no file, a file
that commits to the root of the event, or any other bytes. Where the event
cannot be had, or the file system fails, there is no status.
-/
import PoolKeeper.Proofs.Rewards.Interval
import PoolKeeper.Proofs.Rewards.Resolve

namespace PoolKeeper.IntervalInfo
variable [Compression]

/-- What the file system's reply says of the file of an interval. -/
structure Verdict (node : Address) (root : Hash) (stored : Except DiskFault Bytes)
    (status : FileStatus) : Prop where
  missing : status = .missing ↔ stored = .error .absent
  valid : ∀ entry, status = .valid entry ↔
    ∃ bytes f, stored = .ok bytes ∧ RewardsFile.decode bytes = .ok f ∧ f.trust root = .ok () ∧
      f.nodes.get? node = entry
  invalid : (∃ reason, status = .invalid reason) ↔
    ∃ bytes, stored = .ok bytes ∧ ∀ f, RewardsFile.decode bytes = .ok f → f.trust root ≠ .ok ()

theorem verdict_missing (node : Address) (root : Hash) :
    Verdict node root (.error .absent) .missing where
  missing := by simp
  valid := by simp
  invalid := by simp

theorem storedStatus_ne_missing (node : Address) (root : Hash) (bytes : Bytes) :
    storedStatus node root bytes ≠ .missing := by
  rw [storedStatus]
  cases RewardsFile.decode bytes with
  | error fault => simp
  | ok f => cases hroot : f.checkRoot root <;> simp [statusOf, hroot]

/-- Bytes are valid, or invalid and nothing else. -/
theorem exists_storedStatus_eq_invalid_iff {node : Address} {root : Hash} {bytes : Bytes} :
    (∃ reason, storedStatus node root bytes = .invalid reason) ↔
      ¬ ∃ entry, storedStatus node root bytes = .valid entry := by
  have hmissing := storedStatus_ne_missing node root bytes
  cases h : storedStatus node root bytes with
  | missing => exact absurd h hmissing
  | invalid reason => simp
  | valid entry => simp

theorem verdict_storedStatus (node : Address) (root : Hash) (bytes : Bytes) :
    Verdict node root (.ok bytes) (storedStatus node root bytes) where
  missing := by simp [storedStatus_ne_missing]
  valid entry := by
    simp [storedStatus_eq_valid_iff]
  invalid := by
    rw [exists_storedStatus_eq_invalid_iff]
    simp [storedStatus_eq_valid_iff]

section Run
variable {σ τ : Type} {w : Surroundings Chain σ} {v : Surroundings Disk τ}
  {s : Store} {pools : List Address} {node : Address} {interval : UInt64} {root : Hash}
  {event : RewardsEvent} {stored : Except DiskFault Bytes} {c c' : σ} {t t' : τ}

/-- Unless the file system refuses, there is a status. -/
theorem exists_verdict (h : (Disk.read (s.path interval)).runIn v t = (stored, t'))
    (hstored : stored ≠ .error .refused) :
    ∃ status, (readStatus s node interval root).runIn v t = (.ok status, t') ∧
      Verdict node root stored status := by
  cases stored with
  | ok bytes => exact ⟨_, runIn_readStatus_of_bytes h, verdict_storedStatus node root bytes⟩
  | error fault =>
    cases fault with
    | refused => exact absurd rfl hstored
    | absent =>
      refine ⟨.missing, ?_, verdict_missing node root⟩
      exact runIn_readStatus_eq_ok.2 (.inl ⟨none, s.runIn_load_of_absent h, rfl⟩)

theorem runIn_readStatus_of_refused
    (h : (Disk.read (s.path interval)).runIn v t = (.error .refused, t')) :
    (readStatus s node interval root).runIn v t = (.error (.disk (s.path interval)), t') := by
  have hload : (s.load interval).outcome.runIn v t = (.error (.disk (s.path interval)), t') :=
    s.runIn_load_of_refused h
  rw [readStatus, Attempt.runIn_ofOutcome, Program.runIn_bind, hload]
  rfl

/-- Without an event the file system is not asked. -/
theorem runIn_read_of_fault {fault : EventFault}
    (h : (RewardsEvent.resolve s.network pools interval none).runIn w c = (.error fault, c')) :
    (read s pools node interval).runIn (w.sum v) (c, t) = (.error (.event fault), c', t) := by
  refine Attempt.runIn_bind_eq_error.2 (.inl (Attempt.runIn_onLeft_eq_iff.2 ⟨?_, rfl⟩))
  exact Attempt.runIn_mapError_eq_error.2 ⟨fault, h, rfl⟩

theorem runIn_read_of_refused
    (hevent : (RewardsEvent.resolve s.network pools interval none).runIn w c = (.ok event, c'))
    (h : (Disk.read (s.path interval)).runIn v t = (.error .refused, t')) :
    (read s pools node interval).runIn (w.sum v) (c, t) =
      (.error (.disk (s.path interval)), c', t') := by
  refine Attempt.runIn_bind_eq_error.2 (.inr ⟨event, (c', t), ?_, ?_⟩)
  · exact Attempt.runIn_onLeft_eq_iff.2 ⟨Attempt.runIn_mapError_ok hevent _, rfl⟩
  · refine Attempt.runIn_bind_eq_error.2 (.inl (Attempt.runIn_onRight_eq_iff.2 ⟨?_, rfl⟩))
    exact runIn_readStatus_of_refused h

end Run

/-- **Everything that can come of a look at an interval.** The event is looked for in the pools, in
one of the ways that there are, with the replies that the chain gives. If it cannot be had, that is
what comes of the look, and the file system is not asked. If it is had, the file system is asked for
the interval's file: a refusal is reported as one, and any other reply decides the status. -/
theorem read_classifies {τ : Type}
    (answer : List (Exchange Chain) → (c : Chain.Call) → Chain.Reply c) (v : Surroundings Disk τ)
    (s : Store) (previousPools : List Address) (node : Address) (interval : UInt64) (t : τ) :
    let run := (read s previousPools node interval).runIn
      ((Surroundings.recording answer).sum v) ([], t)
    let stored := (v (.read (s.path interval)) t).1
    let t' := (v (.read (s.path interval)) t).2
    ∃ log found, RewardsEvent.LookUp previousPools interval none log found ∧
      RepliedBy answer log ∧
      (∀ fault, found = .error fault → run = (.error (.event fault), log, t)) ∧
      ∀ event, found = .ok event →
        (stored = .error .refused → run = (.error (.disk (s.path interval)), log, t')) ∧
        (stored ≠ .error .refused → ∃ status,
          run = (.ok ⟨interval, event.merkleTreeCid, event.startTime, event.endTime,
            s.path interval, status⟩, log, t') ∧ Verdict node event.merkleRoot stored status) := by
  intro run stored t'
  have hread : (Disk.read (s.path interval)).runIn v t = (stored, t') := rfl
  obtain ⟨log, hlog, hruns, hreplied⟩ := Program.runs_runIn answer
    (RewardsEvent.resolve s.network previousPools interval none).outcome []
  refine ⟨log, _, RewardsEvent.lookUp_of_runs rfl hruns, hreplied, fun fault hfault => ?_,
    fun event hevent => ⟨fun hrefused => ?_, fun hstored => ?_⟩⟩
  · exact runIn_read_of_fault (Prod.ext hfault hlog)
  · exact runIn_read_of_refused (Prod.ext hevent hlog) (hrefused ▸ hread)
  · obtain ⟨status, hstatus, hverdict⟩ := exists_verdict hread hstored
    refine ⟨status, runIn_read_eq_ok.2 ⟨event, status, Prod.ext hevent hlog, hstatus, rfl⟩, ?_⟩
    exact hverdict

end PoolKeeper.IntervalInfo
