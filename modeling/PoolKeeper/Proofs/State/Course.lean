/-
The course of a build of a snapshot: what is said in it and what comes of it,
whatever the replies and whatever the order in which reads complete.

`course_of_runs` is the one place where the program is taken apart. It says at
which of six points a build ends, and for each of them all that was said till
then, call by call; statements on builds are by cases on it.
-/
import PoolKeeper.Proofs.State.Reads

namespace PoolKeeper.Snapshot.Build

/-! ## What is read before the fan-outs -/

/-- What comes of reading the counts, from the reply. -/
def counts (block : UInt64) : Except Failure (List Word) → Except BuildFault (UInt64 × UInt64)
  | .ok [nodes, minipools] => do return (← readCount block nodes, ← readCount block minipools)
  | .ok words =>
    .error (.inconsistent block ("expected 2 counts, got " ++ Numeral.decimal words.length))
  | .error f => .error (.read "node and minipool counts" block f)

theorem runs_readCounts {block : UInt64} {log : List (Exchange Chain)}
    {r : Except BuildFault (UInt64 × UInt64)} (h : (readCounts block).Runs log r) :
    ∃ reply, log = [⟨.readWords [.nodeCount, .minipoolCount] (some block), reply⟩] ∧
      r = counts block reply := by
  obtain ⟨e, hread, rfl⟩ | ⟨words, l₁, l₂, hread, hrest, rfl⟩ := Attempt.runs_bind.1 h
  · obtain ⟨f, hf, rfl⟩ := Attempt.runs_mapError_error.1 hread
    cases Program.runs_call.1 hf
    exact ⟨.error f, rfl, rfl⟩
  cases Program.runs_call.1 (Attempt.runs_mapError_ok.1 hread)
  refine ⟨.ok words, ?_⟩
  -- two words are the counts, and with any other number of them nothing more is done
  rcases words with _ | ⟨n, _ | ⟨m, _ | ⟨k, rest⟩⟩⟩
  · obtain ⟨rfl, rfl⟩ := Attempt.runs_throw.1 hrest
    exact ⟨rfl, rfl⟩
  · obtain ⟨rfl, rfl⟩ := Attempt.runs_throw.1 hrest
    exact ⟨rfl, rfl⟩
  · change _ ∧ r = (do return (← readCount block n, ← readCount block m))
    obtain ⟨e, hn, rfl, rfl⟩ | ⟨nodes, hn, hrest⟩ := Attempt.runs_ofExcept_bind.1 hrest
    · rw [hn]
      exact ⟨rfl, rfl⟩
    obtain ⟨e, hm, rfl, rfl⟩ | ⟨minipools, hm, hpure⟩ := Attempt.runs_ofExcept_bind.1 hrest
    · rw [hn, hm]
      exact ⟨rfl, rfl⟩
    obtain ⟨rfl, rfl⟩ := Attempt.runs_pure.1 hpure
    rw [hn, hm]
    exact ⟨rfl, rfl⟩
  · obtain ⟨rfl, rfl⟩ := Attempt.runs_throw.1 hrest
    exact ⟨rfl, rfl⟩

theorem readCount_eq_ok_iff {block : UInt64} {w : Word} {n : UInt64} :
    readCount block w = .ok n ↔ w = .ofUInt64 n := by
  rw [readCount, ← Word.toUInt64?_eq_some_iff]
  cases w.toUInt64? with
  | none => exact iff_of_false nofun nofun
  | some k => exact ⟨fun h => by cases h; rfl, fun h => by cases h; rfl⟩

/-- The counts are read when there are two words of 64 bits. -/
theorem counts_eq_ok_iff {block : UInt64} {reply : Except Failure (List Word)} {n m : UInt64} :
    counts block reply = .ok (n, m) ↔ reply = .ok [.ofUInt64 n, .ofUInt64 m] := by
  constructor
  · intro h
    rcases reply with f | _ | ⟨w, _ | ⟨v, _ | ⟨u, rest⟩⟩⟩
    · cases h
    · cases h
    · cases h
    · obtain ⟨n', hn, h⟩ := bind_eq_ok.1 h
      obtain ⟨m', hm, h⟩ := bind_eq_ok.1 h
      cases h
      rw [readCount_eq_ok_iff.1 hn, readCount_eq_ok_iff.1 hm]
    · cases h
  · rintro rfl
    rw [counts, readCount_eq_ok_iff.2 rfl, readCount_eq_ok_iff.2 rfl]
    rfl

/-- What is said of a slot that has a block. -/
def begun (slot : UInt64) (b : BeaconBlock) (c : BeaconConfig) : List (Exchange World) :=
  [⟨.inr (.block slot), .ok (some b)⟩, ⟨.inr .config, .ok c⟩]

/-- What a build knows before its first fan-out. -/
structure Opening where
  beaconBlock : BeaconBlock
  config : BeaconConfig
  isAtlasDeployed : Bool
  nodeCount : UInt64
  minipoolCount : UInt64

namespace Opening
variable (o : Opening)

def block : UInt64 := o.beaconBlock.executionBlock

/-- What was said by then. -/
def log (slot : UInt64) : List (Exchange World) := begun slot o.beaconBlock o.config ++ [
  ⟨.inl (.isAtlasDeployed o.block), .ok o.isAtlasDeployed⟩,
  ⟨.inl (.readWords [.nodeCount, .minipoolCount] (some o.block)),
    .ok [.ofUInt64 o.nodeCount, .ofUInt64 o.minipoolCount]⟩]

theorem forall_mem_log {o : Opening} {slot : UInt64} {P : Exchange World → Prop} :
    (∀ x ∈ o.log slot, P x) ↔
      P ⟨.inr (.block slot), .ok (some o.beaconBlock)⟩ ∧ P ⟨.inr .config, .ok o.config⟩ ∧
      P ⟨.inl (.isAtlasDeployed o.block), .ok o.isAtlasDeployed⟩ ∧
      P ⟨.inl (.readWords [.nodeCount, .minipoolCount] (some o.block)),
        .ok [.ofUInt64 o.nodeCount, .ofUInt64 o.minipoolCount]⟩ := by
  rw [log, begun, List.cons_append, List.cons_append, List.nil_append, List.forall_mem_cons,
    List.forall_mem_cons, List.forall_mem_cons, List.forall_mem_singleton]

/-- The parts to be read. -/
def parts (plan : Plan) : List Part :=
  Part.all o.isAtlasDeployed o.nodeCount o.minipoolCount plan.pageSize

/-- What the parts read amount to. -/
def gather (outputs : List PartContent) : Except BuildFault Details := do
  let network ← details o.isAtlasDeployed o.block (PartContent.settings outputs)
  checkCount "node" (PartContent.allNodes outputs).length o.nodeCount o.block
  checkCount "minipool" (PartContent.allMinipools outputs).length o.minipoolCount o.block
  return ⟨o.isAtlasDeployed, network, PartContent.allNodes outputs,
    PartContent.allMinipools outputs⟩

end Opening

theorem checkCount_eq_ok_iff {what : String} {got : Nat} {expected block : UInt64} :
    checkCount what got expected block = .ok () ↔ got = expected.toNat := by
  rw [checkCount]
  split
  · rename_i h
    exact iff_of_true rfl h
  · rename_i h
    refine iff_of_false (fun he => ?_) h
    cases he

/-- The parts read make details when the settings do and there are as many records as were
counted. -/
theorem Opening.gather_eq_ok_iff {o : Opening} {outputs : List PartContent} {d : Details} :
    o.gather outputs = .ok d ↔
      ∃ network, details o.isAtlasDeployed o.block (PartContent.settings outputs) = .ok network ∧
        (PartContent.allNodes outputs).length = o.nodeCount.toNat ∧
        (PartContent.allMinipools outputs).length = o.minipoolCount.toNat ∧
        d = ⟨o.isAtlasDeployed, network, PartContent.allNodes outputs,
          PartContent.allMinipools outputs⟩ := by
  constructor
  · intro h
    obtain ⟨network, hnetwork, h⟩ := bind_eq_ok.1 h
    obtain ⟨⟨⟩, hnodes, h⟩ := bind_eq_ok.1 h
    obtain ⟨⟨⟩, hminipools, h⟩ := bind_eq_ok.1 h
    cases h
    exact ⟨network, hnetwork, checkCount_eq_ok_iff.1 hnodes, checkCount_eq_ok_iff.1 hminipools, rfl⟩
  · rintro ⟨network, hnetwork, hnodes, hminipools, rfl⟩
    rw [Opening.gather, hnetwork, checkCount_eq_ok_iff.2 hnodes, checkCount_eq_ok_iff.2 hminipools]
    rfl

/-- What is said in a build that ends before its first fan-out, and how it fails. -/
inductive Unopened (slot : UInt64) : List (Exchange World) → BuildFault → Prop where
  | block (f : Failure) : Unopened slot [⟨.inr (.block slot), .error f⟩] (.beacon slot f)
  | noBlock : Unopened slot [⟨.inr (.block slot), .ok none⟩] (.slotNotFound slot)
  | config (b : BeaconBlock) (f : Failure) :
    Unopened slot [⟨.inr (.block slot), .ok (some b)⟩, ⟨.inr .config, .error f⟩] (.beacon slot f)
  | version (b : BeaconBlock) (c : BeaconConfig) (f : Failure) :
    Unopened slot (begun slot b c ++ [⟨.inl (.isAtlasDeployed b.executionBlock), .error f⟩])
      (.read "protocol version" b.executionBlock f)
  | counts (b : BeaconBlock) (c : BeaconConfig) (isAtlasDeployed : Bool)
    (reply : Except Failure (List Word)) (e : BuildFault)
    (h : counts b.executionBlock reply = .error e) :
    Unopened slot (begun slot b c ++ [
      ⟨.inl (.isAtlasDeployed b.executionBlock), .ok isAtlasDeployed⟩,
      ⟨.inl (.readWords [.nodeCount, .minipoolCount] (some b.executionBlock)), reply⟩]) e

/-! ## The course of a build -/

/-- A build whose first fan-out was good. -/
structure Gathered (plan : Plan) where
  opening : Opening
  reads : List (PartRead opening.block)
  asked : reads.map Answered.task = opening.parts plan
  outputs : List PartContent
  contents : reads.map PartRead.content = outputs.map .ok
  details : Details
  gathered : opening.gather outputs = .ok details

namespace Gathered
variable {plan : Plan} (g : Gathered plan)

/-- What was said by then. -/
def log (slot : UInt64) : List (Exchange World) :=
  g.opening.log slot ++ g.reads.map Answered.said

/-- The keys of the validators to be looked up. -/
def keys : List Pubkey :=
  (g.details.minipools.filter MinipoolDetails.hasPubkey).map MinipoolDetails.pubkey

/-- The minipools whose shares are to be read, each with its balance. -/
def balances (validators : Validators) : List (Address × Word) :=
  g.details.minipools.map fun m => (m.address, balance validators m)

/-- What a snapshot is made of. -/
def snapshotParts (slot : UInt64) (validators : Validators) (shares : List MinipoolShares) :
    SnapshotParts where
  elBlock := g.opening.block
  slot
  beaconConfig := g.opening.config
  isAtlasDeployed := g.details.isAtlasDeployed
  network := g.details.network
  nodes := g.details.nodes
  minipools := withShares g.details.minipools shares
  validators

end Gathered

/-- **What is said in a build and what comes of it.** -/
inductive Course (plan : Plan) (slot : UInt64) :
    List (Exchange World) → Except BuildFault Snapshot → Prop where
  | unopened {log e} (h : Unopened slot log e) : Course plan slot log (.error e)
  | partFailed (o : Opening) (reads : List (PartRead o.block))
    (asked : reads.map Answered.task = o.parts plan) (a : PartRead o.block) (ha : a ∈ reads)
    (e : BuildFault) (he : a.content = .error e) :
    Course plan slot (o.log slot ++ reads.map Answered.said) (.error e)
  | incomplete (o : Opening) (reads : List (PartRead o.block))
    (asked : reads.map Answered.task = o.parts plan) (outputs : List PartContent)
    (contents : reads.map PartRead.content = outputs.map .ok)
    (e : BuildFault) (he : o.gather outputs = .error e) :
    Course plan slot (o.log slot ++ reads.map Answered.said) (.error e)
  | validatorsFailed (g : Gathered plan) (f : Failure) :
    Course plan slot (g.log slot ++ [⟨.inr (.validators g.keys slot), .error f⟩])
      (.error (.beacon slot f))
  | shareFailed (g : Gathered plan) (validators : Validators)
    (reads : List (ShareRead g.opening.block))
    (asked : reads.map Answered.task = pieces plan.pageSize.toNat (g.balances validators))
    (a : ShareRead g.opening.block) (ha : a ∈ reads) (e : BuildFault) (he : a.content = .error e) :
    Course plan slot
      (g.log slot ++ ⟨.inr (.validators g.keys slot), .ok validators⟩ :: reads.map Answered.said)
      (.error e)
  | finished (g : Gathered plan) (validators : Validators)
    (reads : List (ShareRead g.opening.block))
    (asked : reads.map Answered.task = pieces plan.pageSize.toNat (g.balances validators))
    (shares : List (List MinipoolShares))
    (contents : reads.map ShareRead.content = shares.map .ok) :
    Course plan slot
      (g.log slot ++ ⟨.inr (.validators g.keys slot), .ok validators⟩ :: reads.map Answered.said)
      (assemble (g.snapshotParts slot validators shares.flatten))

/-- A request, of the chain or of the consensus layer, fails the build, or the build goes on with
the reply. -/
theorem runs_request_bind {I : Interface} {α β : Type} {g : Failure → BuildFault}
    {p : Attempt I Failure α} {p' : Attempt World BuildFault α} {said : Exchange I → Exchange World}
    (hp' : ∀ {l r}, p'.Runs l r ↔ ∃ l', (p.mapError g).Runs l' r ∧ l = l'.map said)
    {f : α → Attempt World BuildFault β} {log : List (Exchange World)} {r : Except BuildFault β}
    (h : (p' >>= f).Runs log r) :
    (∃ l e, p.Runs l (.error e) ∧ log = l.map said ∧ r = .error (g e)) ∨
      ∃ l a rest, p.Runs l (.ok a) ∧ (f a).Runs rest r ∧ log = l.map said ++ rest := by
  obtain ⟨e, hp, rfl⟩ | ⟨a, l₁, l₂, hp, hf, rfl⟩ := Attempt.runs_bind.1 h
  · obtain ⟨l, hl, rfl⟩ := hp'.1 hp
    obtain ⟨e', he', rfl⟩ := Attempt.runs_mapError_error.1 hl
    exact .inl ⟨l, e', he', rfl, rfl⟩
  · obtain ⟨l, hl, rfl⟩ := hp'.1 hp
    exact .inr ⟨l, a, l₂, Attempt.runs_mapError_ok.1 hl, hf, rfl⟩

/-- What is made of the outputs of the first fan-out asks nothing. -/
theorem runs_gather {o : Opening} {outputs : List PartContent} {log : List (Exchange World)}
    {r : Except BuildFault Details}
    (h : (do
      let network ← details o.isAtlasDeployed o.block (PartContent.settings outputs)
      checkCount "node" (PartContent.allNodes outputs).length o.nodeCount o.block
      checkCount "minipool" (PartContent.allMinipools outputs).length o.minipoolCount o.block
      return ⟨o.isAtlasDeployed, network, PartContent.allNodes outputs,
        PartContent.allMinipools outputs⟩
      : Attempt World BuildFault Details).Runs log r) :
    log = [] ∧ r = o.gather outputs := by
  rw [Opening.gather]
  obtain ⟨e, hnetwork, rfl, rfl⟩ | ⟨network, hnetwork, h⟩ := Attempt.runs_ofExcept_bind.1 h
  · rw [hnetwork]
    exact ⟨rfl, rfl⟩
  obtain ⟨e, hnodes, rfl, rfl⟩ | ⟨u, hnodes, h⟩ := Attempt.runs_ofExcept_bind.1 h
  · rw [hnetwork, hnodes]
    exact ⟨rfl, rfl⟩
  obtain ⟨e, hminipools, rfl, rfl⟩ | ⟨u, hminipools, h⟩ := Attempt.runs_ofExcept_bind.1 h
  · rw [hnetwork, hnodes, hminipools]
    exact ⟨rfl, rfl⟩
  obtain ⟨rfl, rfl⟩ := Attempt.runs_pure.1 h
  rw [hnetwork, hnodes, hminipools]
  exact ⟨rfl, rfl⟩

theorem runs_readDetails {plan : Plan} (slot : UInt64) (b : BeaconBlock) (c : BeaconConfig)
    {log : List (Exchange World)} {r : Except BuildFault Details}
    (h : (readDetails plan b.executionBlock).Runs log r) :
    (∃ e, r = .error e ∧ Unopened slot (begun slot b c ++ log) e) ∨
    ∃ (o : Opening) (reads : List (PartRead o.block)),
      o.beaconBlock = b ∧ o.config = c ∧ reads.map Answered.task = o.parts plan ∧
      begun slot b c ++ log = o.log slot ++ reads.map Answered.said ∧
      ((∃ outputs, reads.map PartRead.content = outputs.map .ok ∧ r = o.gather outputs) ∨
        ∃ e, (∃ a ∈ reads, a.content = .error e) ∧ r = .error e) := by
  obtain ⟨l, f, hversion, rfl, rfl⟩ | ⟨l, isAtlasDeployed, rest, hversion, hrest, rfl⟩ :=
    runs_request_bind Attempt.runs_onLeft h
  · cases Program.runs_call.1 hversion
    exact .inl ⟨_, rfl, .version b c f⟩
  cases Program.runs_call.1 hversion
  obtain ⟨e, hcounts, rfl⟩ | ⟨⟨n, m⟩, l₃, l₄, hcounts, hreads, rfl⟩ := Attempt.runs_bind.1 hrest
  · obtain ⟨l, hl, rfl⟩ := Attempt.runs_onLeft.1 hcounts
    obtain ⟨reply, rfl, he⟩ := runs_readCounts hl
    exact .inl ⟨e, rfl, .counts b c isAtlasDeployed reply e he.symm⟩
  obtain ⟨l, hl, rfl⟩ := Attempt.runs_onLeft.1 hcounts
  obtain ⟨reply, rfl, he⟩ := runs_readCounts hl
  obtain rfl := counts_eq_ok_iff.1 he.symm
  refine .inr ⟨⟨b, c, isAtlasDeployed, n, m⟩, ?_⟩
  obtain ⟨e, hparts, rfl⟩ | ⟨outputs, l₅, l₆, hparts, hgather, rfl⟩ := Attempt.runs_bind.1 hreads
  · obtain ⟨reads, hasked, rfl, ⟨outputs, -, hok⟩ | ⟨e', hfailed, he'⟩⟩ :=
      runs_fanOut (runs_partContent b.executionBlock) hparts
    · cases hok
    · cases he'
      exact ⟨reads, rfl, rfl, hasked, rfl, .inr ⟨e, hfailed, rfl⟩⟩
  · obtain ⟨reads, hasked, rfl, ⟨outputs', hcontents, hok⟩ | ⟨e', -, he'⟩⟩ :=
      runs_fanOut (runs_partContent b.executionBlock) hparts
    · cases hok
      obtain ⟨rfl, rfl⟩ := runs_gather (o := ⟨b, c, isAtlasDeployed, n, m⟩) hgather
      refine ⟨reads, rfl, rfl, hasked, ?_, .inl ⟨outputs, hcontents, rfl⟩⟩
      rw [List.append_nil]
      rfl
    · cases he'

/-- What follows a good first fan-out. -/
theorem runs_finish {plan : Plan} {slot : UInt64} (g : Gathered plan)
    {log : List (Exchange World)} {r : Except BuildFault Snapshot}
    (h : (do
      let validators ← ((Beacon.validators g.keys slot).mapError (.beacon slot)).onRight
      let shares ← fanOut plan.shares (sharePage g.opening.block)
        (pieces plan.pageSize.toNat (g.balances validators))
      assemble (g.snapshotParts slot validators shares.flatten)
      : Attempt World BuildFault Snapshot).Runs log r) :
    Course plan slot (g.log slot ++ log) r := by
  obtain ⟨l, f, hvalidators, rfl, rfl⟩ | ⟨l, validators, rest, hvalidators, h₁, rfl⟩ :=
    runs_request_bind Attempt.runs_onRight h
  · cases Program.runs_call.1 hvalidators
    exact .validatorsFailed g f
  cases Program.runs_call.1 hvalidators
  obtain ⟨e, hshares, rfl⟩ | ⟨shares, l₁, l₂, hshares, hassemble, rfl⟩ := Attempt.runs_bind.1 h₁
  · obtain ⟨reads, hasked, rfl, ⟨shares, -, hok⟩ | ⟨e', ⟨a, ha, hae⟩, he⟩⟩ :=
      runs_fanOut (runs_sharePage g.opening.block) hshares
    · cases hok
    · cases he
      exact .shareFailed g validators reads hasked a ha e hae
  · obtain ⟨reads, hasked, rfl, ⟨shares', hcontents, hok⟩ | ⟨e', -, he⟩⟩ :=
      runs_fanOut (runs_sharePage g.opening.block) hshares
    · cases hok
      obtain ⟨rfl, rfl⟩ := Attempt.runs_ofExcept.1 hassemble
      rw [List.append_nil]
      exact .finished g validators reads hasked shares hcontents
    · cases he

/-- **Every run of a build is such a course.** -/
theorem course_of_runs {plan : Plan} {slot : UInt64} {log : List (Exchange World)}
    {r : Except BuildFault Snapshot} (h : (Snapshot.build plan slot).Runs log r) :
    Course plan slot log r := by
  obtain ⟨l, f, hblock, rfl, rfl⟩ | ⟨l, block?, rest, hblock, h₁, rfl⟩ :=
    runs_request_bind Attempt.runs_onRight h
  · cases Program.runs_call.1 hblock
    exact .unopened (.block f)
  cases Program.runs_call.1 hblock
  cases block? with
  | none =>
    obtain ⟨rfl, rfl⟩ := Attempt.runs_throw.1 h₁
    exact .unopened .noBlock
  | some b =>
  obtain ⟨l, f, hconfig, rfl, rfl⟩ | ⟨l, c, rest, hconfig, h₂, rfl⟩ :=
    runs_request_bind Attempt.runs_onRight h₁
  · cases Program.runs_call.1 hconfig
    exact .unopened (.config b f)
  cases Program.runs_call.1 hconfig
  change Course plan slot (begun slot b c ++ rest) r
  obtain ⟨e, hdetails, rfl⟩ | ⟨d, l₁, l₂, hdetails, h₃, rfl⟩ := Attempt.runs_bind.1 h₂
  · obtain ⟨e', he, hunopened⟩ | ⟨o, reads, rfl, rfl, hasked, hlog, hfailed⟩ :=
      runs_readDetails slot b c hdetails
    · cases he
      exact .unopened hunopened
    · rw [hlog]
      obtain ⟨outputs, hcontents, he⟩ | ⟨e', ⟨a, ha, hae⟩, he⟩ := hfailed
      · exact .incomplete o reads hasked outputs hcontents e he.symm
      · cases he
        exact .partFailed o reads hasked a ha e hae
  · obtain ⟨e', he, -⟩ | ⟨o, reads, rfl, rfl, hasked, hlog, hread⟩ :=
      runs_readDetails slot b c hdetails
    · cases he
    rw [← List.append_assoc, hlog]
    obtain ⟨outputs, hcontents, hd⟩ | ⟨e', -, he⟩ := hread
    · exact runs_finish ⟨o, reads, hasked, outputs, hcontents, d, hd.symm⟩ h₃
    · cases he

/-! ## Openings that are known beforehand -/

section Served
variable {plan : Plan} {slot : UInt64} {o : Opening} {log : List (Exchange World)} {e : BuildFault}
  {r : Except BuildFault Snapshot}
  {answer : List (Exchange World) → (c : World.Call) → World.Reply c}

/-- The chain and the consensus layer side by side. What either replies may depend on all that was
said before. -/
def answers (chain : List (Exchange World) → (c : Chain.Call) → Chain.Reply c)
    (beacon : List (Exchange World) → (c : Beacon.Call) → Beacon.Reply c) :
    List (Exchange World) → (c : World.Call) → World.Reply c
  | log, .inl c => chain log c
  | log, .inr c => beacon log c

/-- All of what is said was replied so at some time. -/
def Given (answer : List (Exchange World) → (c : World.Call) → World.Reply c)
    (log : List (Exchange World)) : Prop :=
  ∀ x ∈ log, ∃ before, x.2 = answer before x.1

/-- The opening is what is replied, whenever it is asked for. -/
structure Opening.ServedBy (o : Opening) (slot : UInt64)
    (answer : List (Exchange World) → (c : World.Call) → World.Reply c) : Prop where
  block : ∀ before, answer before (.inr (.block slot)) = .ok (some o.beaconBlock)
  config : ∀ before, answer before (.inr .config) = .ok o.config
  version : ∀ before, answer before (.inl (.isAtlasDeployed o.block)) = .ok o.isAtlasDeployed
  counts : ∀ before, answer before (.inl (.readWords [.nodeCount, .minipoolCount] (some o.block))) =
    .ok [.ofUInt64 o.nodeCount, .ofUInt64 o.minipoolCount]

/-- **A build follows a course**, and every reply in it is the one given after what was said
before. -/
theorem course_of_runIn (plan : Plan) (slot : UInt64)
    (answer : List (Exchange World) → (c : World.Call) → World.Reply c) :
    let run := (Snapshot.build plan slot).runIn (.recording answer) []
    Course plan slot run.2 run.1 ∧
      ∀ l₁ x l₂, run.2 = l₁ ++ x :: l₂ → x.2 = answer l₁ x.1 := by
  intro run
  obtain ⟨log, hlog, hruns, hgiven⟩ :=
    Program.runs_runIn answer (Snapshot.build plan slot).outcome []
  rw [show run.2 = log from hlog]
  exact ⟨course_of_runs hruns, hgiven⟩

theorem given_runIn (plan : Plan) (slot : UInt64)
    (answer : List (Exchange World) → (c : World.Call) → World.Reply c) :
    Given answer ((Snapshot.build plan slot).runIn (.recording answer) []).2 := by
  intro x hx
  obtain ⟨l₁, l₂, hlog⟩ := List.append_of_mem hx
  exact ⟨l₁, (course_of_runIn plan slot answer).2 l₁ x l₂ hlog⟩

theorem Given.append_left {l l' : List (Exchange World)} (h : Given answer (l ++ l')) :
    Given answer l :=
  fun x hx => h x (List.mem_append_left l' hx)

theorem Given.append_right {l l' : List (Exchange World)} (h : Given answer (l ++ l')) :
    Given answer l' :=
  fun x hx => h x (List.mem_append_right l hx)

theorem Opening.ServedBy.eq (ho : o.ServedBy slot answer) {o' : Opening}
    (h : Given answer (o'.log slot)) : o' = o := by
  obtain ⟨b, c, isAtlasDeployed, n, m⟩ := o'
  obtain ⟨⟨l₁, hblock⟩, ⟨l₂, hconfig⟩, ⟨l₃, hversion⟩, ⟨l₄, hcounts⟩⟩ := Opening.forall_mem_log.1 h
  rw [ho.block] at hblock
  cases hblock
  rw [ho.config] at hconfig
  cases hconfig
  have hv := hversion.trans (ho.version l₃)
  cases hv
  have hn := hcounts.trans (ho.counts l₄)
  injection hn with hn
  injection hn with hn hm
  injection hm with hm
  cases Word.ofUInt64_inj hn
  cases Word.ofUInt64_inj hm
  rfl

theorem Opening.ServedBy.not_unopened (ho : o.ServedBy slot answer) (h : Given answer log) :
    ¬ Unopened slot log e := by
  intro hunopened
  cases hunopened with
  | block f =>
    obtain ⟨before, hblock⟩ := h _ List.mem_cons_self
    cases hblock.trans (ho.block before)
  | noBlock =>
    obtain ⟨before, hblock⟩ := h _ List.mem_cons_self
    cases hblock.trans (ho.block before)
  | config b f =>
    obtain ⟨before, hconfig⟩ := h _ (List.mem_cons_of_mem _ List.mem_cons_self)
    cases hconfig.trans (ho.config before)
  | version b c f =>
    simp only [Given, begun, List.cons_append, List.nil_append, List.forall_mem_cons] at h
    obtain ⟨⟨l₁, hblock⟩, -, ⟨l₃, hversion⟩, -⟩ := h
    cases hblock.trans (ho.block l₁)
    cases hversion.trans (ho.version l₃)
  | counts b c isAtlasDeployed reply e he =>
    simp only [Given, begun, List.cons_append, List.nil_append, List.forall_mem_cons] at h
    obtain ⟨⟨l₁, hblock⟩, -, -, ⟨l₄, hcounts⟩, -⟩ := h
    cases hblock.trans (ho.block l₁)
    have hreply := hcounts.trans (ho.counts l₄)
    rw [counts_eq_ok_iff.2 hreply] at he
    cases he

/-- A build that had its opening reads all parts. -/
theorem Course.opened (h : Course plan slot log r) :
    (∃ e, Unopened slot log e) ∨
      ∃ (o : Opening) (reads : List (PartRead o.block)), reads.map Answered.task = o.parts plan ∧
        ∃ rest, log = (o.log slot ++ reads.map Answered.said) ++ rest := by
  cases h with
  | unopened h => exact .inl ⟨_, h⟩
  | partFailed o reads asked a ha e he =>
    exact .inr ⟨o, reads, asked, [], (List.append_nil _).symm⟩
  | incomplete o reads asked outputs contents e he =>
    exact .inr ⟨o, reads, asked, [], (List.append_nil _).symm⟩
  | validatorsFailed g f => exact .inr ⟨g.opening, g.reads, g.asked, _, rfl⟩
  | shareFailed g validators reads asked a ha e he =>
    exact .inr ⟨g.opening, g.reads, g.asked, _, rfl⟩
  | finished g validators reads asked shares contents =>
    exact .inr ⟨g.opening, g.reads, g.asked, _, rfl⟩

theorem Opening.ServedBy.part_mem_log (ho : o.ServedBy slot answer) (h : Given answer log)
    (hcourse : Course plan slot log r) {p : Part} (hp : p ∈ o.parts plan) :
    ∃ reply, ⟨.inl (p.call o.block), reply⟩ ∈ log := by
  obtain ⟨e, hunopened⟩ | ⟨o', reads, asked, rest, rfl⟩ := hcourse.opened
  · exact absurd hunopened (ho.not_unopened h)
  · cases ho.eq h.append_left.append_left
    rw [← asked] at hp
    obtain ⟨a, ha, rfl⟩ := List.mem_map.1 hp
    exact ⟨a.reply, List.mem_append_left _ (List.mem_append_right _ (List.mem_map_of_mem ha))⟩

end Served
end PoolKeeper.Snapshot.Build
