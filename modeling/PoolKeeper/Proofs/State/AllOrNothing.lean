/-
A snapshot is all or nothing: when a build succeeds, everything that it asked
for was had, and had in full (`Course.complete`). A read of a fan-out that fails
makes the build fail, as one of the reads of that fan-out did, after all of them
and with nothing asked afterwards (`Course.of_partFault`, `Course.of_shareFault`).

`PartFault` and `ShareFault` are the reads that fail and the failure that each
makes; they are written here apart from the program.
-/
import PoolKeeper.InMemory.Beacon
import PoolKeeper.InMemory.Chain
import PoolKeeper.Proofs.State.Coherence
import PoolKeeper.Proofs.State.Course

namespace PoolKeeper

namespace Chain

/-- The reply to a call is not a failure. -/
def succeeded : (c : Chain.Call) → Chain.Reply c → Bool
  | .readWords _ _, r | .isAtlasDeployed _, r | .nodeDetails _ _ _, r | .minipoolDetails _ _ _, r
  | .minipoolShares _ _, r | .rewardsEvent _ _, r | .estimateReduceBond _, r
  | .sendReduction _ _, r | .suggestedFeeCap, r => r.isOk

end Chain

namespace Beacon

/-- The reply to a call is not a failure. -/
def succeeded : (c : Beacon.Call) → Beacon.Reply c → Bool
  | .block _, r | .validators _ _, r | .head, r | .config, r => r.isOk

end Beacon

namespace Snapshot.Build

/-- A call that had its reply. -/
def Succeeded : Exchange World → Prop
  | ⟨.inl c, r⟩ => Chain.succeeded c r
  | ⟨.inr c, r⟩ => Beacon.succeeded c r

/-- A read of the first fan-out that failed, and the failure of the build that it makes. -/
inductive PartFault (block : UInt64) : Exchange World → BuildFault → Prop where
  | setting (s : Setting) (f : Failure) :
    PartFault block ⟨.inl (.readWords [.setting s] (some block)), .error f⟩
      (.read ("network setting " ++ s.title) block f)
  | noWord (s : Setting) :
    PartFault block ⟨.inl (.readWords [.setting s] (some block)), .ok []⟩
      (.read ("network setting " ++ s.title) block (.text "empty read result"))
  | nodes (offset limit : UInt64) (f : Failure) :
    PartFault block ⟨.inl (.nodeDetails offset limit block), .error f⟩
      (.read (Part.nodes offset limit).title block f)
  | minipools (offset limit : UInt64) (f : Failure) :
    PartFault block ⟨.inl (.minipoolDetails offset limit block), .error f⟩
      (.read (Part.minipools offset limit).title block f)

/-- A read of shares that failed or returned too few or too many, and the failure of the build. -/
inductive ShareFault (block : UInt64) : Exchange World → BuildFault → Prop where
  | failed (balances : List (Address × Word)) (f : Failure) :
    ShareFault block ⟨.inl (.minipoolShares balances block), .error f⟩
      (.read ("balance shares of " ++ Numeral.decimal balances.length ++ " minipools") block f)
  | miscounted (balances : List (Address × Word)) (shares : List MinipoolShares)
    (h : shares.length ≠ balances.length) :
    ShareFault block ⟨.inl (.minipoolShares balances block), .ok shares⟩
      (.inconsistent block ("expected " ++ Numeral.decimal balances.length ++
        " minipool share records, got " ++ Numeral.decimal shares.length))

/-- What a snapshot owes to all that was said for it. -/
structure Complete (s : Snapshot) (log : List (Exchange World)) : Prop where
  succeeded : ∀ x ∈ log, Succeeded x
  /-- The counts that were read are those of the lists. -/
  counted : ∃ nodes minipools : Word,
    ⟨.inl (.readWords [.nodeCount, .minipoolCount] (some s.parts.elBlock)),
      .ok [nodes, minipools]⟩ ∈ log ∧
    s.parts.nodes.length = nodes.toNat ∧ s.parts.minipools.length = minipools.toNat
  /-- Every minipool that was asked about has its shares. -/
  shared : ∀ balances block shares,
    ⟨.inl (.minipoolShares balances block), .ok shares⟩ ∈ log → shares.length = balances.length

/-- A part makes a failure of the build exactly when nothing else comes of its reply. -/
theorem partFault_iff {block b : UInt64} {a : PartRead b} {e : BuildFault} :
    PartFault block a.said e ↔ block = b ∧ a.content = .error e := by
  obtain ⟨p, reply⟩ := a
  constructor
  · intro h
    generalize hx : Answered.said (⟨p, reply⟩ : PartRead b) = x at h
    cases h with
    | setting s f =>
      cases p <;> cases hx
      exact ⟨rfl, rfl⟩
    | noWord s =>
      cases p <;> cases hx
      exact ⟨rfl, rfl⟩
    | nodes offset limit f =>
      cases p <;> cases hx
      exact ⟨rfl, rfl⟩
    | minipools offset limit f =>
      cases p <;> cases hx
      exact ⟨rfl, rfl⟩
  · rintro ⟨rfl, h⟩
    cases p with
    | setting s =>
      rcases reply with f | _ | ⟨w, ws⟩
      · cases h
        exact .setting s f
      · cases h
        exact .noWord s
      · cases h
    | nodes offset limit =>
      cases reply with
      | error f =>
        cases h
        exact .nodes offset limit f
      | ok page => cases h
    | minipools offset limit =>
      cases reply with
      | error f =>
        cases h
        exact .minipools offset limit f
      | ok page => cases h

theorem PartRead.succeeded {block : UInt64} {a : PartRead block} {output : PartContent}
    (h : a.content = .ok output) : Succeeded a.said := by
  obtain ⟨p, reply⟩ := a
  cases p with
  | setting s =>
    cases reply with
    | error f => cases h
    | ok words => rfl
  | nodes offset limit =>
    cases reply with
    | error f => cases h
    | ok page => rfl
  | minipools offset limit =>
    cases reply with
    | error f => cases h
    | ok page => rfl

theorem ShareRead.succeeded {block : UInt64} {a : ShareRead block} {shares : List MinipoolShares}
    (h : a.content = .ok shares) : Succeeded a.said := by
  obtain ⟨balances, reply⟩ := a
  cases reply with
  | error f => cases h
  | ok got => rfl

theorem shareFault_iff {block b : UInt64} {a : ShareRead b} (hsize : a.task.length < 2 ^ 64)
    {e : BuildFault} : ShareFault block a.said e ↔ block = b ∧ a.content = .error e := by
  obtain ⟨balances, reply⟩ := a
  constructor
  · intro h
    generalize hx : Answered.said (⟨balances, reply⟩ : ShareRead b) = x at h
    cases h with
    | failed balances f =>
      cases hx
      exact ⟨rfl, rfl⟩
    | miscounted balances shares h =>
      cases hx
      rw [ShareRead.content_ok hsize, if_neg h]
      exact ⟨rfl, rfl⟩
  · rintro ⟨rfl, h⟩
    cases reply with
    | error f =>
      cases h
      exact .failed balances f
    | ok shares =>
      rw [ShareRead.content_ok hsize] at h
      split at h
      · cases h
      · rename_i hlength
        cases h
        exact .miscounted balances shares hlength

theorem length_flatten_shares {block : UInt64} {reads : List (ShareRead block)}
    (hsize : ∀ a ∈ reads, a.task.length < 2 ^ 64) {shares : List (List MinipoolShares)}
    (contents : reads.map ShareRead.content = shares.map .ok) :
    shares.flatten.length = (reads.map Answered.task).flatten.length := by
  induction reads generalizing shares with
  | nil =>
    cases shares with
    | nil => rfl
    | cons page pages => cases contents
  | cons a reads ih =>
    cases shares with
    | nil => cases contents
    | cons page pages =>
      obtain ⟨hpage, hpages⟩ := List.cons.inj contents
      have hlength := ((ShareRead.content_eq_ok_iff (hsize a List.mem_cons_self)).1 hpage).2
      have hrest := ih (fun b hb => hsize b (List.mem_cons_of_mem a hb)) hpages
      rw [List.flatten_cons, List.map_cons, List.flatten_cons, List.length_append,
        List.length_append, hlength, hrest]

theorem length_withShares {ms : List MinipoolDetails} {shares : List MinipoolShares}
    (h : shares.length = ms.length) : (withShares ms shares).length = ms.length := by
  rw [withShares, List.length_zipWith, h, Nat.min_self]

/-- Shares are read for all minipools when there are some for each page. -/
theorem Gathered.length_shares {plan : Plan} {g : Gathered plan} {validators : Validators}
    {reads : List (ShareRead g.opening.block)}
    (asked : reads.map Answered.task = pieces plan.pageSize.toNat (g.balances validators))
    {shares : List (List MinipoolShares)}
    (contents : reads.map ShareRead.content = shares.map .ok) :
    shares.flatten.length = g.details.minipools.length := by
  rw [length_flatten_shares (length_task_lt asked) contents, asked,
    flatten_pieces plan.pageSize_pos, Gathered.balances, List.length_map]

variable {plan : Plan} {slot : UInt64} {log : List (Exchange World)}

theorem Opening.succeeded_log (o : Opening) : ∀ x ∈ o.log slot, Succeeded x :=
  Opening.forall_mem_log.2 ⟨rfl, rfl, rfl, rfl⟩

theorem Gathered.succeeded_log (g : Gathered plan) : ∀ x ∈ g.log slot, Succeeded x := by
  intro x hx
  rcases List.mem_append.1 hx with hx | hx
  · exact g.opening.succeeded_log x hx
  · obtain ⟨a, ha, rfl⟩ := List.mem_map.1 hx
    obtain ⟨output, hok⟩ := exists_ok_of_mem g.contents ha
    exact PartRead.succeeded hok

/-! ## Which reads belong to which fan-out -/

/-- The four parts of a build, in their order. -/
inductive Phase where
  | opening
  | parts
  | validators
  | shares
  deriving DecidableEq

/-- The part of a build that makes a call. -/
def phase : World.Call → Phase
  | .inl (.readWords [.setting _] _) => .parts
  | .inl (.nodeDetails _ _ _) => .parts
  | .inl (.minipoolDetails _ _ _) => .parts
  | .inl (.minipoolShares _ _) => .shares
  | .inr (.validators _ _) => .validators
  | _ => .opening

variable {x : Exchange World} {block : UInt64} {e : BuildFault}

theorem PartFault.phase (h : PartFault block x e) : phase x.1 = .parts := by
  cases h <;> rfl

theorem ShareFault.phase (h : ShareFault block x e) : phase x.1 = .shares := by
  cases h <;> rfl

theorem phase_part (a : PartRead block) : phase a.said.1 = .parts := by
  obtain ⟨p, reply⟩ := a
  cases p <;> rfl

theorem phase_share (a : ShareRead block) : phase a.said.1 = .shares := rfl

theorem Opening.phase_log (o : Opening) : ∀ x ∈ o.log slot, phase x.1 = .opening :=
  Opening.forall_mem_log.2 ⟨rfl, rfl, rfl, rfl⟩

theorem Unopened.phase_log (h : Unopened slot log e) (hx : x ∈ log) : phase x.1 = .opening := by
  cases h with
  | block f =>
    obtain rfl := List.mem_singleton.1 hx
    rfl
  | noBlock =>
    obtain rfl := List.mem_singleton.1 hx
    rfl
  | config b f =>
    simp only [List.mem_cons, List.not_mem_nil, or_false] at hx
    rcases hx with rfl | rfl <;> rfl
  | version b c f =>
    simp only [begun, List.cons_append, List.nil_append, List.mem_cons, List.not_mem_nil,
      or_false] at hx
    rcases hx with rfl | rfl | rfl <;> rfl
  | counts b c isAtlasDeployed reply e h =>
    simp only [begun, List.cons_append, List.nil_append, List.mem_cons, List.not_mem_nil,
      or_false] at hx
    rcases hx with rfl | rfl | rfl | rfl <;> rfl

/-- What follows the opening of a first fan-out are its parts. -/
theorem mem_parts {o : Opening} {reads : List (PartRead o.block)}
    (hx : x ∈ o.log slot ++ reads.map Answered.said) (h : phase x.1 ≠ .opening) :
    ∃ a ∈ reads, x = a.said := by
  rcases List.mem_append.1 hx with hx | hx
  · exact absurd (o.phase_log x hx) h
  · obtain ⟨a, ha, hsaid⟩ := List.mem_map.1 hx
    exact ⟨a, ha, hsaid.symm⟩

theorem phase_parts {o : Opening} {reads : List (PartRead o.block)}
    (hx : x ∈ o.log slot ++ reads.map Answered.said) :
    phase x.1 = .opening ∨ phase x.1 = .parts := by
  rcases List.mem_append.1 hx with hx | hx
  · exact .inl (o.phase_log x hx)
  · obtain ⟨a, ha, rfl⟩ := List.mem_map.1 hx
    exact .inr (phase_part a)

theorem phase_shares {keys : List Pubkey} {reply : Except Failure Validators}
    {reads : List (ShareRead block)}
    (hx : x ∈ (⟨.inr (.validators keys slot), reply⟩ :: reads.map Answered.said :
      List (Exchange World))) : phase x.1 ≠ .parts := by
  rcases List.mem_cons.1 hx with rfl | hx
  · exact nofun
  · obtain ⟨a, ha, rfl⟩ := List.mem_map.1 hx
    rw [phase_share a]
    decide

/-- The shares that were asked for stand at the end of the log. -/
theorem mem_shares {g : Gathered plan} {validators : Validators}
    {reads : List (ShareRead g.opening.block)}
    (hx : x ∈ g.log slot ++ ⟨.inr (.validators g.keys slot), .ok validators⟩ ::
      reads.map Answered.said) (h : phase x.1 = .shares) :
    ∃ a ∈ reads, x = a.said := by
  rcases List.mem_append.1 hx with hx | hx
  · rcases phase_parts hx with hp | hp <;> rw [hp] at h <;> cases h
  rcases List.mem_cons.1 hx with rfl | hx
  · cases h
  · obtain ⟨a, ha, hsaid⟩ := List.mem_map.1 hx
    exact ⟨a, ha, hsaid.symm⟩

/-- **A snapshot owes nothing.** -/
theorem Course.complete {s : Snapshot} (h : Course plan slot log (.ok s)) : Complete s log := by
  generalize hr : (Except.ok s : Except BuildFault Snapshot) = r at h
  cases h with
  | unopened | partFailed | incomplete | validatorsFailed | shareFailed => cases hr
  | finished g validators reads asked shares contents =>
    have hparts := assemble_eq_ok hr.symm
    obtain ⟨network, -, hnodes, hminipools, hd⟩ := Opening.gather_eq_ok_iff.1 g.gathered
    have hsize := length_task_lt asked
    refine ⟨?_, ?_, ?_⟩
    · intro x hx
      rcases List.mem_append.1 hx with hx | hx
      · exact g.succeeded_log x hx
      rcases List.mem_cons.1 hx with rfl | hx
      · rfl
      · obtain ⟨a, ha, rfl⟩ := List.mem_map.1 hx
        obtain ⟨page, hok⟩ := exists_ok_of_mem contents ha
        exact ShareRead.succeeded hok
    · refine ⟨.ofUInt64 g.opening.nodeCount, .ofUInt64 g.opening.minipoolCount, ?_, ?_, ?_⟩
      · rw [hparts]
        simp [Gathered.log, Opening.log, begun, Gathered.snapshotParts]
      · rw [hparts, Word.toNat_ofUInt64, ← hnodes]
        exact congrArg (fun d : Details => d.nodes.length) hd
      · rw [hparts, Word.toNat_ofUInt64, ← hminipools]
        have hlength : (withShares g.details.minipools shares.flatten).length =
            g.details.minipools.length := length_withShares (g.length_shares asked contents)
        exact hlength.trans (congrArg (fun d : Details => d.minipools.length) hd)
    · intro balances block got hx
      obtain ⟨a, ha, hsaid⟩ := mem_shares hx rfl
      obtain ⟨page, hok⟩ := exists_ok_of_mem contents ha
      obtain ⟨hreply, hlength⟩ := (ShareRead.content_eq_ok_iff (hsize a ha)).1 hok
      obtain ⟨task, reply⟩ := a
      cases hsaid
      cases hreply
      exact hlength

/-- In a good first fan-out no read fails. -/
theorem Gathered.no_partFault {g : Gathered plan} (hx : x ∈ g.log slot) :
    ¬ PartFault block x e := by
  intro h
  have hphase : phase x.1 ≠ .opening := by
    rw [h.phase]
    decide
  obtain ⟨a, ha, rfl⟩ := mem_parts hx hphase
  obtain ⟨output, hok⟩ := exists_ok_of_mem g.contents ha
  obtain ⟨rfl, herror⟩ := partFault_iff.1 h
  rw [hok] at herror
  cases herror

variable {r : Except BuildFault Snapshot}

/-- A read of the first fan-out that fails is the end of the build, after all reads beside it. -/
theorem Course.of_partFault (h : Course plan slot log r) (hx : x ∈ log)
    (hfault : PartFault block x e) :
    ∃ (o : Opening) (reads : List (PartRead o.block)),
      o.block = block ∧ reads.map Answered.task = o.parts plan ∧
      log = o.log slot ++ reads.map Answered.said ∧
      ∃ y ∈ log, ∃ e', PartFault block y e' ∧ r = .error e' := by
  have hphase : phase x.1 = .parts := hfault.phase
  have hnot : phase x.1 ≠ .opening := by
    rw [hphase]
    decide
  cases h with
  | unopened h => exact absurd (h.phase_log hx) hnot
  | partFailed o reads asked a ha e' he' =>
    obtain ⟨a', ha', rfl⟩ := mem_parts hx hnot
    obtain ⟨rfl, -⟩ := partFault_iff.1 hfault
    refine ⟨o, reads, rfl, asked, rfl, a.said, ?_, e', partFault_iff.2 ⟨rfl, he'⟩, rfl⟩
    exact List.mem_append_right _ (List.mem_map_of_mem ha)
  | incomplete o reads asked outputs contents e' he' =>
    obtain ⟨a', ha', rfl⟩ := mem_parts hx hnot
    obtain ⟨rfl, herror⟩ := partFault_iff.1 hfault
    obtain ⟨output, hok⟩ := exists_ok_of_mem contents ha'
    rw [hok] at herror
    cases herror
  | validatorsFailed g f =>
    rcases List.mem_append.1 hx with hx | hx
    · exact absurd hfault (g.no_partFault hx)
    · obtain rfl := List.mem_singleton.1 hx
      cases hphase
  | shareFailed g validators reads asked a ha e' he' =>
    rcases List.mem_append.1 hx with hx | hx
    · exact absurd hfault (g.no_partFault hx)
    · exact absurd hphase (phase_shares hx)
  | finished g validators reads asked shares contents =>
    rcases List.mem_append.1 hx with hx | hx
    · exact absurd hfault (g.no_partFault hx)
    · exact absurd hphase (phase_shares hx)

/-- A read of shares that fails or miscounts is the end of the build, after all reads beside it. -/
theorem Course.of_shareFault (h : Course plan slot log r) (hx : x ∈ log)
    (hfault : ShareFault block x e) :
    ∃ (g : Gathered plan) (validators : Validators) (reads : List (ShareRead g.opening.block)),
      g.opening.block = block ∧
      reads.map Answered.task = pieces plan.pageSize.toNat (g.balances validators) ∧
      log = g.log slot ++ ⟨.inr (.validators g.keys slot), .ok validators⟩ ::
        reads.map Answered.said ∧
      ∃ y ∈ log, ∃ e', ShareFault block y e' ∧ r = .error e' := by
  have hphase : phase x.1 = .shares := hfault.phase
  cases h with
  | unopened h => cases (h.phase_log hx).symm.trans hphase
  | partFailed o reads asked a ha e' he' =>
    rcases phase_parts hx with hp | hp <;> cases hp.symm.trans hphase
  | incomplete o reads asked outputs contents e' he' =>
    rcases phase_parts hx with hp | hp <;> cases hp.symm.trans hphase
  | validatorsFailed g f =>
    rcases List.mem_append.1 hx with hx | hx
    · rcases phase_parts hx with hp | hp <;> cases hp.symm.trans hphase
    · obtain rfl := List.mem_singleton.1 hx
      cases hphase
  | shareFailed g validators reads asked a ha e' he' =>
    obtain ⟨a', ha', rfl⟩ := mem_shares hx hphase
    obtain ⟨rfl, -⟩ := (shareFault_iff (length_task_lt asked a' ha')).1 hfault
    refine ⟨g, validators, reads, rfl, asked, rfl, a.said, ?_, e',
      (shareFault_iff (length_task_lt asked a ha)).2 ⟨rfl, he'⟩, rfl⟩
    exact List.mem_append_right _ (List.mem_cons_of_mem _ (List.mem_map_of_mem ha))
  | finished g validators reads asked shares contents =>
    obtain ⟨a', ha', rfl⟩ := mem_shares hx hphase
    obtain ⟨rfl, herror⟩ := (shareFault_iff (length_task_lt asked a' ha')).1 hfault
    obtain ⟨page, hok⟩ := exists_ok_of_mem contents ha'
    rw [hok] at herror
    cases herror

/-- **A snapshot is all or nothing**, whatever fails and in whatever order reads complete: a
snapshot is complete, and a read of a fan-out that fails makes the build fail as one of the reads
of that fan-out did, after all of them and with nothing asked afterwards. -/
theorem build_all_or_nothing (plan : Plan) (slot : UInt64)
    (answer : List (Exchange World) → (c : World.Call) → World.Reply c) :
    let run := (Snapshot.build plan slot).runIn (.recording answer) []
    (∀ s, run.1 = .ok s → Complete s run.2) ∧
    (∀ block, ∀ x ∈ run.2, ∀ e, PartFault block x e →
      ∃ (o : Opening) (reads : List (PartRead o.block)),
        o.block = block ∧ reads.map Answered.task = o.parts plan ∧
        run.2 = o.log slot ++ reads.map Answered.said ∧
        ∃ y ∈ run.2, ∃ e', PartFault block y e' ∧ run.1 = .error e') ∧
    (∀ block, ∀ x ∈ run.2, ∀ e, ShareFault block x e →
      ∃ (g : Gathered plan) (validators : Validators) (reads : List (ShareRead g.opening.block)),
        g.opening.block = block ∧
        reads.map Answered.task = pieces plan.pageSize.toNat (g.balances validators) ∧
        run.2 = g.log slot ++ ⟨.inr (.validators g.keys slot), .ok validators⟩ ::
          reads.map Answered.said ∧
        ∃ y ∈ run.2, ∃ e', ShareFault block y e' ∧ run.1 = .error e') := by
  intro run
  have hcourse : Course plan slot run.2 run.1 := (course_of_runIn plan slot answer).1
  refine ⟨fun s hs => ?_, fun block x hx e he => hcourse.of_partFault hx he,
    fun block x hx e he => hcourse.of_shareFault hx he⟩
  rw [hs] at hcourse
  exact hcourse.complete

/-- The price cannot be read: there is no snapshot, and all settings were asked for. -/
theorem build_without_price :
    let chain : InMemory.Contracts :=
      { InMemory.Contracts.initial with failures := [("setting:rplPrice", "timeout")] }
    let run := (Snapshot.build (.inOrder 4 200) 100).runIn (.recording (answers
      (fun _ c => chain.answer c) fun _ c => (InMemory.Consensus.withBlock 100 5000).answer c)) []
    ∃ (o : Opening) (reads : List (PartRead o.block)),
      o.block = 5000 ∧ reads.map Answered.task = o.parts (.inOrder 4 200) ∧
      run.2 = o.log 100 ++ reads.map Answered.said ∧
      ∃ y ∈ run.2, ∃ e, PartFault 5000 y e ∧ run.1 = .error e := by
  intro chain run
  have hopening : Opening.ServedBy ⟨⟨100, 5000⟩, ⟨0, 12, 32⟩, true, 0, 0⟩ 100 (answers
      (fun _ c => chain.answer c) fun _ c => (InMemory.Consensus.withBlock 100 5000).answer c) :=
    ⟨fun _ => rfl, fun _ => rfl, fun _ => rfl, fun _ => rfl⟩
  have hprice : Part.setting .rplPrice ∈
      Opening.parts ⟨⟨100, 5000⟩, ⟨0, 12, 32⟩, true, 0, 0⟩ (.inOrder 4 200) :=
    List.mem_append_left _ (List.mem_map_of_mem (by decide))
  have hgiven := given_runIn (.inOrder 4 200) 100 (answers
      (fun _ c => chain.answer c) fun _ c => (InMemory.Consensus.withBlock 100 5000).answer c)
  obtain ⟨reply, hmem⟩ := hopening.part_mem_log hgiven
    (course_of_runIn (.inOrder 4 200) 100 _).1 hprice
  obtain ⟨before, hreply⟩ := hgiven _ hmem
  obtain rfl : reply = .error (.text "timeout") := hreply
  exact (build_all_or_nothing (.inOrder 4 200) 100 _).2.1 5000 _ hmem _
    (.setting .rplPrice (.text "timeout"))

end Snapshot.Build
end PoolKeeper
