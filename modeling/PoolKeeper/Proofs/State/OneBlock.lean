/-
A snapshot sees one block only: a build asks the chain about the execution
block that its slot carries and about nothing else (`Course.pinned`), so what
the chain is at other blocks has no effect on it (`build_sees_one_block`).

This is said of every run, whether a snapshot comes of it or a failure. The
chain may reply as it likes, and its replies may change while a build goes on.
-/
import PoolKeeper.Proofs.State.Course
import PoolKeeper.Proofs.State.Faithful

namespace PoolKeeper

/-- The block that a call is made at, if it is made at one. -/
def Chain.Call.block? : Chain.Call → Option UInt64
  | .readWords _ block => block
  | .isAtlasDeployed block => some block
  | .nodeDetails _ _ block => some block
  | .minipoolDetails _ _ block => some block
  | .minipoolShares _ block => some block
  | .rewardsEvent _ _ => none
  | .estimateReduceBond _ => none
  | .sendReduction _ _ => none
  | .suggestedFeeCap => none

namespace Snapshot.Build

/-- A call that is about a slot and its block: every call of the chain carries the block, and every
look-up of validators the slot. -/
def Pinned (slot block : UInt64) : World.Call → Prop
  | .inl c => c.block? = some block
  | .inr (.block s) => s = slot
  | .inr (.validators _ s) => s = slot
  | .inr .config => True
  | .inr .head => False

theorem Part.block?_call (block : UInt64) (p : Part) : (p.call block).block? = some block := by
  cases p <;> rfl

theorem pinned_said {slot block : UInt64} {τ : Type} {call : τ → Chain.Call}
    (hcall : ∀ t, (call t).block? = some block) {reads : List (Answered call)} :
    ∀ x ∈ reads.map Answered.said, Pinned slot block x.1 := by
  intro x hx
  obtain ⟨a, -, rfl⟩ := List.mem_map.1 hx
  exact hcall a.task

theorem pinned_append {slot block : UInt64} {l l' : List (Exchange World)}
    (h : ∀ x ∈ l, Pinned slot block x.1) (h' : ∀ x ∈ l', Pinned slot block x.1) :
    ∀ x ∈ l ++ l', Pinned slot block x.1 := by
  intro x hx
  rcases List.mem_append.1 hx with hx | hx
  · exact h x hx
  · exact h' x hx

theorem Opening.pinned_log (o : Opening) (slot : UInt64) :
    ∀ x ∈ o.log slot, Pinned slot o.block x.1 :=
  Opening.forall_mem_log.2 ⟨rfl, trivial, rfl, rfl⟩

theorem Gathered.pinned_log {plan : Plan} (g : Gathered plan) (slot : UInt64) :
    ∀ x ∈ g.log slot, Pinned slot g.opening.block x.1 :=
  pinned_append (g.opening.pinned_log slot) (pinned_said (Part.block?_call _))

variable {plan : Plan} {slot : UInt64} {b : BeaconBlock} {rest : List (Exchange World)}
  {r : Except BuildFault Snapshot}

theorem Unopened.pinned {e : BuildFault}
    (h : Unopened slot (⟨.inr (.block slot), .ok (some b)⟩ :: rest) e) :
    ∀ x ∈ (⟨.inr (.block slot), .ok (some b)⟩ :: rest : List (Exchange World)),
      Pinned slot b.executionBlock x.1 := by
  generalize hlog : (⟨.inr (.block slot), .ok (some b)⟩ :: rest : List (Exchange World)) = log at h
  cases h with
  | block f => cases hlog
  | noBlock => cases hlog
  | config b' f =>
    cases hlog
    simp [Pinned]
  | version b' c f =>
    cases hlog
    simp [begun, Pinned, Chain.Call.block?]
  | counts b' c isAtlasDeployed reply e h =>
    cases hlog
    simp [begun, Pinned, Chain.Call.block?]

/-- **Every call of a build is about the block of its slot.** -/
theorem Course.pinned (h : Course plan slot (⟨.inr (.block slot), .ok (some b)⟩ :: rest) r) :
    ∀ x ∈ (⟨.inr (.block slot), .ok (some b)⟩ :: rest : List (Exchange World)),
      Pinned slot b.executionBlock x.1 := by
  generalize hlog : (⟨.inr (.block slot), .ok (some b)⟩ :: rest : List (Exchange World)) = log at h
  cases h with
  | unopened h =>
    subst hlog
    exact h.pinned
  | partFailed o reads asked a ha e he =>
    cases hlog
    exact pinned_append (o.pinned_log slot) (pinned_said (Part.block?_call _))
  | incomplete o reads asked outputs contents e he =>
    cases hlog
    exact pinned_append (o.pinned_log slot) (pinned_said (Part.block?_call _))
  | validatorsFailed g f =>
    cases hlog
    refine pinned_append (g.pinned_log slot) ?_
    simp [Pinned]
  | shareFailed g validators reads asked a ha e he =>
    cases hlog
    refine pinned_append (g.pinned_log slot) (List.forall_mem_cons.2 ⟨rfl, ?_⟩)
    exact pinned_said fun _ => rfl
  | finished g validators reads asked shares contents =>
    cases hlog
    refine pinned_append (g.pinned_log slot) (List.forall_mem_cons.2 ⟨rfl, ?_⟩)
    exact pinned_said fun _ => rfl

/-- A build begins with the block of its slot. -/
theorem Course.begins {log : List (Exchange World)} (h : Course plan slot log r) :
    ∃ reply rest, log = ⟨.inr (.block slot), reply⟩ :: rest := by
  cases h with
  | unopened h => cases h <;> exact ⟨_, _, rfl⟩
  | partFailed | incomplete | validatorsFailed | shareFailed | finished => exact ⟨_, _, rfl⟩

/-- What is said in a build, if the slot has a block. -/
theorem pinned_of_block (plan : Plan)
    {answer : List (Exchange World) → (c : World.Call) → World.Reply c}
    (hblock : answer [] (.inr (.block slot)) = .ok (some b)) :
    ∀ x ∈ ((Snapshot.build plan slot).runIn (.recording answer) []).2,
      Pinned slot b.executionBlock x.1 := by
  obtain ⟨hcourse, hgiven⟩ := course_of_runIn plan slot answer
  obtain ⟨reply, rest, hlog⟩ := hcourse.begins
  obtain rfl : reply = .ok (some b) := (hgiven [] _ rest hlog).trans hblock
  rw [hlog] at hcourse ⊢
  exact hcourse.pinned

/-- **A snapshot sees one block only.** Two chains that reply alike to what is asked of them about
the block of a slot make the same of a build: the same calls with the same replies, and in the end
the same snapshot or the same failure. -/
theorem build_sees_one_block (plan : Plan) (slot : UInt64)
    {f g : List (Exchange World) → (c : Chain.Call) → Chain.Reply c}
    {beacon : List (Exchange World) → (c : Beacon.Call) → Beacon.Reply c}
    (hblock : beacon [] (.block slot) = .ok (some b))
    (hfg : ∀ log c, c.block? = some b.executionBlock → f log c = g log c) :
    let run := (Snapshot.build plan slot).runIn (.recording (answers f beacon)) []
    (Snapshot.build plan slot).runIn (.recording (answers g beacon)) [] = run ∧
      ∀ x ∈ run.2, Pinned slot b.executionBlock x.1 := by
  have hpinned : ∀ x ∈ ((Snapshot.build plan slot).runIn (.recording (answers f beacon)) []).2,
      Pinned slot b.executionBlock x.1 := pinned_of_block plan hblock
  refine ⟨?_, hpinned⟩
  refine Program.runIn_recording_congr ?_ (Snapshot.build plan slot).outcome [] hpinned
  rintro log (c | c) hc
  · exact hfg log c hc
  · rfl

/-- The chain has moved on: at other blocks, and where no block is asked for, Atlas is not deployed,
the second node is gone and the fees are others. A build at block 5000, which asks for one record
at a time, does not see it: it finds both nodes, and the shares of the minipools. -/
theorem build_while_chain_moves :
    let later : InMemory.Contracts :=
      { twoNodes with
        isAtlasDeployed := false
        nodes := [twoNodes.node 1]
        minipools := []
        suggestedFeeCap := 7 }
    let still := fun (_ : List (Exchange World)) c => twoNodes.answer c
    let moving := fun (_ : List (Exchange World)) (c : Chain.Call) =>
      (if c.block? = some 5000 then twoNodes else later).answer c
    let run := fun chain => (Snapshot.build (.inOrder 4 1) 100).runIn
      (.recording (answers chain fun _ c => oneValidator.answer c)) []
    still [] (.isAtlasDeployed 5001) ≠ moving [] (.isAtlasDeployed 5001) ∧
      still [] (.nodeDetails 1 1 5001) ≠ moving [] (.nodeDetails 1 1 5001) ∧
      still [] .suggestedFeeCap ≠ moving [] .suggestedFeeCap ∧
      run moving = run still ∧
      ∃ s : Snapshot, (run moving).1 = .ok s ∧ s.parts.nodes = twoNodes.nodes ∧
        s.parts.minipools.map (fun m => (m.nodeShareOfBalance, m.userShareOfBalance)) =
          [(0, 0), (etherToWei 8, etherToWei 24), (0, 0)] := by
  intro later still moving run
  have hsame : run moving = run still := by
    refine (build_sees_one_block (.inOrder 4 1) 100 (b := ⟨100, 5000⟩) rfl ?_).1
    intro log c hc
    have hblock : c.block? = some 5000 := hc
    simp only [still, moving, if_pos hblock]
  have hbuild := build_of_served coherent_twoNodes fits_twoNodes servedBy_twoNodes
    servedBy_oneValidator (.inOrder 4 1)
  refine ⟨?_, ?_, ?_, hsame, _, (congrArg Prod.fst hsame).trans hbuild, rfl, by decide +kernel⟩
  · change (Except.ok true : Except Failure Bool) ≠ .ok false
    exact nofun
  · change (Except.ok [twoNodes.node 2] : Except Failure (List NodeDetails)) ≠ .ok []
    exact nofun
  · change (Except.ok 0 : Except Failure Word) ≠ .ok 7
    intro h
    cases Except.ok.inj h

end Snapshot.Build
end PoolKeeper
