/-
Downloading from mirrors that may serve anything, and something else each time.

A reply is `Good` if it holds the file of the event, and `Refused` for a reason
otherwise. `tryMirrors_of_error` and `tryMirrors_of_ok` are one mirror's turn,
`tryMirrors_append` is the turn of all mirrors up to a good one.
`saved_from_first_good_or_unavailable` says how a download ends: with what the
first good mirror serves in the store, or with nothing written and a failure
for every mirror.
-/
import PoolKeeper.Proofs.Rewards.Binding
import PoolKeeper.Proofs.Rewards.Store
import PoolKeeper.Rewards.Download

namespace PoolKeeper.Download
open InMemory FileTree

variable [Compression]

/-! ## What a mirror serves -/

/-- The text in what a mirror serves. -/
def textOf (m : Mirror) (bytes : Bytes) : Except Zstd.Fault Bytes :=
  if m.compressed then Compression.decompress bytes else .ok bytes

/-- What is stored of what a mirror serves. -/
def storedForm (m : Mirror) (bytes : Bytes) : Bytes :=
  if m.compressed then bytes else Compression.compress bytes

/-- What a mirror serves is the file of an event. -/
structure Serves (m : Mirror) (event : RewardsEvent) (bytes : Bytes) (f : RewardsFile) : Prop where
  parsed : ∃ text, textOf m bytes = .ok text ∧ RewardsFile.parse text = .ok f
  index : f.header.index = event.index
  trusted : f.trust event.merkleRoot = .ok ()

/-- A mirror's reply holds the file of an event. -/
def Good (event : RewardsEvent) (reply : Mirror × Except Failure Bytes) : Prop :=
  ∃ bytes f, reply.2 = .ok bytes ∧ Serves reply.1 event bytes f

/-- What is wrong with a mirror's reply. -/
inductive Refused (event : RewardsEvent) :
    Mirror × Except Failure Bytes → MirrorFault → Prop where
  | transport {m : Mirror} {source : Failure} : Refused event (m, .error source) (.transport source)
  | codec {m : Mirror} {bytes : Bytes} {fault : Zstd.Fault} :
      textOf m bytes = .error fault → Refused event (m, .ok bytes) (.decode (.codec fault))
  | malformed {m : Mirror} {bytes text : Bytes} {fault : Json.ReadError} :
      textOf m bytes = .ok text → RewardsFile.ofText text = .error fault →
        Refused event (m, .ok bytes) (.decode (.malformed fault))
  | otherInterval {m : Mirror} {bytes text : Bytes} {f : RewardsFile} :
      textOf m bytes = .ok text → RewardsFile.parse text = .ok f → f.header.index ≠ event.index →
        Refused event (m, .ok bytes) (.otherInterval f.header.index)
  | rootMismatch {m : Mirror} {bytes text : Bytes} {f : RewardsFile} {d : Distrust} :
      textOf m bytes = .ok text → RewardsFile.parse text = .ok f → f.header.index = event.index →
        f.trust event.merkleRoot = .error d →
        Refused event (m, .ok bytes) (.rootMismatch (.distrusted d))

/-- What comes of a mirror's reply. -/
def judge (event : RewardsEvent) (reply : Mirror × Except Failure Bytes) :
    Except MirrorFault Bytes :=
  (reply.2.mapError .transport).bind (verify reply.1 event)

theorem unpack_eq (m : Mirror) (bytes : Bytes) :
    unpack m bytes =
      ((textOf m bytes).mapError .codec).map fun text => (text, storedForm m bytes) := by
  unfold unpack textOf storedForm decompressed
  split <;> rfl

theorem judge_of_codec {m : Mirror} {bytes : Bytes} {fault : Zstd.Fault} (event : RewardsEvent)
    (h : textOf m bytes = .error fault) :
    judge event (m, .ok bytes) = .error (.decode (.codec fault)) := by
  simp only [judge, verify, unpack_eq, h, Except.mapError, Except.map, Except.bind, bind]

theorem judge_of_malformed {m : Mirror} {bytes text : Bytes} {fault : Json.ReadError}
    (event : RewardsEvent) (htext : textOf m bytes = .ok text)
    (h : RewardsFile.ofText text = .error fault) :
    judge event (m, .ok bytes) = .error (.decode (.malformed fault)) := by
  simp only [judge, verify, unpack_eq, htext, RewardsFile.parse, h, Except.mapError, Except.map,
    Except.bind, bind]

/-- What comes of a reply in which there is some rewards file. -/
theorem judge_of_parsed {m : Mirror} {bytes text : Bytes} {f : RewardsFile} (event : RewardsEvent)
    (htext : textOf m bytes = .ok text) (h : RewardsFile.parse text = .ok f) :
    judge event (m, .ok bytes) =
      if f.header.index ≠ event.index then .error (.otherInterval f.header.index)
      else match f.trust event.merkleRoot with
        | .ok () => .ok (storedForm m bytes)
        | .error d => .error (.rootMismatch (.distrusted d)) := by
  simp only [judge, verify, unpack_eq, htext, h, RewardsFile.checkRoot, Except.mapError, Except.map,
    Except.bind, bind]
  split
  · rfl
  · cases f.trust event.merkleRoot <;> rfl

theorem judge_of_serves {m : Mirror} {event : RewardsEvent} {bytes : Bytes} {f : RewardsFile}
    (h : Serves m event bytes f) : judge event (m, .ok bytes) = .ok (storedForm m bytes) := by
  obtain ⟨⟨text, htext, hparse⟩, hindex, htrust⟩ := h
  rw [judge_of_parsed event htext hparse, if_neg (not_not_intro hindex), htrust]

/-- A reply without the file of the event is refused, and why is told. -/
theorem judge_of_not_good {event : RewardsEvent} {reply : Mirror × Except Failure Bytes}
    (h : ¬ Good event reply) :
    ∃ fault, judge event reply = .error fault ∧ Refused event reply fault := by
  obtain ⟨m, source | bytes⟩ := reply
  · exact ⟨_, rfl, .transport⟩
  cases htext : textOf m bytes with
  | error fault => exact ⟨_, judge_of_codec event htext, .codec htext⟩
  | ok text =>
    cases hparse : RewardsFile.ofText text with
    | error fault => exact ⟨_, judge_of_malformed event htext hparse, .malformed htext hparse⟩
    | ok f =>
      have hparse : RewardsFile.parse text = .ok f := by rw [RewardsFile.parse, hparse]; rfl
      rw [judge_of_parsed event htext hparse]
      by_cases hindex : f.header.index = event.index
      · rw [if_neg (not_not_intro hindex)]
        cases htrust : f.trust event.merkleRoot with
        | error d => exact ⟨_, rfl, .rootMismatch htext hparse hindex htrust⟩
        | ok u => exact absurd ⟨bytes, f, rfl, ⟨text, htext, hparse⟩, hindex, htrust⟩ h
      · rw [if_pos hindex]
        exact ⟨_, rfl, .otherInterval htext hparse hindex⟩

/-- What a mirror serves is kept just where it is the file of the event. -/
theorem judge_eq_ok_iff {m : Mirror} {event : RewardsEvent} {bytes kept : Bytes} :
    judge event (m, .ok bytes) = .ok kept ↔
      storedForm m bytes = kept ∧ ∃ f, Serves m event bytes f := by
  constructor
  · intro h
    by_cases hgood : Good event (m, .ok bytes)
    · obtain ⟨_, f, hbytes, hserves⟩ := hgood
      cases hbytes
      rw [judge_of_serves hserves] at h
      exact ⟨Except.ok.inj h, f, hserves⟩
    · obtain ⟨fault, hfault, -⟩ := judge_of_not_good hgood
      rw [hfault] at h
      cases h
  · rintro ⟨rfl, f, hserves⟩
    exact judge_of_serves hserves

/-- The text can be had back from what is stored. -/
theorem decompress_storedForm {m : Mirror} {bytes text : Bytes} (h : textOf m bytes = .ok text) :
    Compression.decompress (storedForm m bytes) = .ok text := by
  unfold textOf at h
  unfold storedForm
  by_cases hc : m.compressed
  · rwa [if_pos hc] at h ⊢
  · rw [if_neg hc] at h ⊢
    rw [Compression.decompress_compress, h]

theorem storedForm_spec (m : Mirror) (bytes : Bytes) :
    if m.compressed then storedForm m bytes = bytes
    else Compression.decompress (storedForm m bytes) = .ok bytes := by
  split
  · rename_i hc
    exact if_pos hc
  · rename_i hc
    exact decompress_storedForm (if_neg hc)

/-- What is stored of the file of an event is the file. -/
theorem decode_storedForm {m : Mirror} {event : RewardsEvent} {bytes : Bytes} {f : RewardsFile}
    (h : Serves m event bytes f) : RewardsFile.decode (storedForm m bytes) = .ok f := by
  obtain ⟨⟨text, htext, hparse⟩, -, -⟩ := h
  rw [RewardsFile.decode, decompressed, decompress_storedForm htext]
  exact hparse

/-- Of a mirror that serves compressed files, the bytes are read as those in a store. -/
theorem serves_iff_of_compressed {m : Mirror} {event : RewardsEvent} {bytes : Bytes}
    {f : RewardsFile} (hm : m.compressed = true) :
    Serves m event bytes f ↔ RewardsFile.decode bytes = .ok f ∧ f.header.index = event.index ∧
      f.trust event.merkleRoot = .ok () := by
  have hparsed : (∃ text, textOf m bytes = .ok text ∧ RewardsFile.parse text = .ok f) ↔
      RewardsFile.decode bytes = .ok f := by
    rw [textOf, if_pos hm, RewardsFile.decode, decompressed]
    cases Compression.decompress bytes <;> simp [Except.mapError, bind, Except.bind]
  rw [← hparsed]
  exact ⟨fun h => ⟨h.parsed, h.index, h.trusted⟩, fun h => ⟨h.1, h.2.1, h.2.2⟩⟩

/-! ## Asking one mirror after the other -/

section Run
variable (answer : List Web.Call → (c : Web.Call) → Web.Reply c) (s : Store) (event : RewardsEvent)

/-- Where the file of an event is fetched from. -/
def urlOf (m : Mirror) : String := m.url event.merkleTreeCid s.network (s.fileName event.index)

/-- The replies of mirrors asked one after the other, after some calls. -/
def replies : List Web.Call → List Mirror → List (Mirror × Except Failure Bytes)
  | _, [] => []
  | calls, m :: ms =>
    (m, answer calls (.fetch (urlOf s event m))) ::
      replies (calls ++ [.fetch (urlOf s event m)]) ms

/-- Surroundings in which mirrors give any replies, over a file system. -/
def surroundings : Surroundings (Web.sum Disk) (List Web.Call × FileTree) :=
  (Surroundings.noting answer).sum disk

theorem runIn_fromMirror (m : Mirror) (url : String) (calls : List Web.Call) :
    (fromMirror m event url).outcome.runIn (Surroundings.noting answer) calls =
      (judge event (m, answer calls (.fetch url)), calls ++ [.fetch url]) := by
  change (fromMirror m event url).runIn (Surroundings.noting answer) calls = _
  have hfetch : ((Web.fetch url).mapError MirrorFault.transport).runIn
      (Surroundings.noting answer) calls =
        ((answer calls (.fetch url)).mapError .transport, calls ++ [.fetch url]) :=
    Attempt.runIn_mapError _ _ _ _
  rw [fromMirror, Attempt.runIn_bind, hfetch, judge]
  cases answer calls (.fetch url) <;> rfl

theorem runIn_ask (m : Mirror) (calls : List Web.Call) (t : FileTree) :
    (ExceptT.lift (fromMirror m event (urlOf s event m)).outcome.onLeft :
        Attempt (Web.sum Disk) ArtifactFault _).runIn (surroundings answer) (calls, t) =
      (.ok (judge event (m, answer calls (.fetch (urlOf s event m)))),
        calls ++ [.fetch (urlOf s event m)], t) := by
  rw [Attempt.runIn_lift, surroundings, Program.runIn_onLeft, runIn_fromMirror]

variable {answer s event} {m : Mirror} {calls : List Web.Call} {t t' : FileTree}

/-- A mirror that is refused: what is wrong is noted, and the next one is asked. -/
theorem tryMirrors_of_error {fault : MirrorFault} (ms : List Mirror) (failures : List MirrorFailure)
    (h : judge event (m, answer calls (.fetch (urlOf s event m))) = .error fault) :
    (tryMirrors s event (m :: ms) failures).runIn (surroundings answer) (calls, t) =
      (tryMirrors s event ms (failures ++ [⟨urlOf s event m, fault⟩])).runIn
          (surroundings answer) (calls ++ [.fetch (urlOf s event m)], t) := by
  have hask := runIn_ask answer s event m calls t
  rw [h] at hask
  exact Attempt.runIn_bind_ok hask _

/-- A mirror that is not refused: what it serves is stored, and how that ends is how all ends. -/
theorem tryMirrors_of_ok {compressed : Bytes} {r : Except ArtifactFault String} (ms : List Mirror)
    (failures : List MirrorFailure)
    (h : judge event (m, answer calls (.fetch (urlOf s event m))) = .ok compressed)
    (hsave : (s.saveBytes event.index compressed).runIn disk t = (r, t')) :
    (tryMirrors s event (m :: ms) failures).runIn (surroundings answer) (calls, t) =
      (r.map (.saved · (urlOf s event m)), calls ++ [.fetch (urlOf s event m)], t') := by
  have hask := runIn_ask answer s event m calls t
  rw [h] at hask
  refine (Attempt.runIn_bind_ok hask _).trans ?_
  have hright : ((s.saveBytes event.index compressed).onRight :
      Attempt (Web.sum Disk) ArtifactFault String).runIn (surroundings answer)
        (calls ++ [.fetch (urlOf s event m)], t) =
          (r, calls ++ [.fetch (urlOf s event m)], t') := by
    rw [surroundings, Attempt.runIn_onRight, hsave]
  refine (Attempt.runIn_bind _ _ _ _).trans ?_
  rw [hright]
  cases r <;> rfl

/-- The calls that ask mirrors one after the other. -/
def requests (s : Store) (event : RewardsEvent) (ms : List Mirror) : List Web.Call :=
  ms.map fun m => .fetch (urlOf s event m)

/-- What is noted of a mirror that was refused. -/
def Noted (s : Store) (event : RewardsEvent) (reply : Mirror × Except Failure Bytes)
    (failure : MirrorFailure) : Prop :=
  failure.url = urlOf s event reply.1 ∧ Refused event reply failure.fault

/-- **Mirrors that serve no good file are passed over**, in order, and what is wrong
with each is noted. -/
theorem tryMirrors_append (before rest : List Mirror) (calls : List Web.Call)
    (failures : List MirrorFailure) (t : FileTree)
    (h : ∀ reply ∈ replies answer s event calls before, ¬ Good event reply) :
    ∃ noted, List.Forall₂ (Noted s event) (replies answer s event calls before) noted ∧
      (tryMirrors s event (before ++ rest) failures).runIn (surroundings answer) (calls, t) =
        (tryMirrors s event rest (failures ++ noted)).runIn (surroundings answer)
          (calls ++ requests s event before, t) := by
  induction before generalizing calls failures with
  | nil => exact ⟨[], .nil, by simp [requests]⟩
  | cons m before ih =>
    obtain ⟨fault, hjudge, hrefused⟩ := judge_of_not_good (h _ List.mem_cons_self)
    obtain ⟨noted, hnoted, hrun⟩ := ih (calls ++ [.fetch (urlOf s event m)])
      (failures ++ [⟨urlOf s event m, fault⟩]) fun reply hr => h reply (List.mem_cons_of_mem _ hr)
    refine ⟨⟨urlOf s event m, fault⟩ :: noted, .cons ⟨rfl, hrefused⟩ hnoted, ?_⟩
    rw [List.cons_append, tryMirrors_of_error _ _ hjudge, hrun]
    simp [requests]

/-- Of mirrors some of which are good, one is the first. -/
theorem exists_first_good (ms : List Mirror) (calls : List Web.Call)
    (h : ∃ reply ∈ replies answer s event calls ms, Good event reply) :
    ∃ before m after, ms = before ++ m :: after ∧
      (∀ reply ∈ replies answer s event calls before, ¬ Good event reply) ∧
      Good event (m, answer (calls ++ requests s event before) (.fetch (urlOf s event m))) := by
  induction ms generalizing calls with
  | nil => simp [replies] at h
  | cons m ms ih =>
    by_cases hm : Good event (m, answer calls (.fetch (urlOf s event m)))
    · exact ⟨[], m, ms, rfl, by simp [replies], by simpa [requests] using hm⟩
    · obtain ⟨reply, hr, hgood⟩ := h
      rw [replies, List.mem_cons] at hr
      rcases hr with rfl | hr
      · exact absurd hgood hm
      · obtain ⟨before, m', after, rfl, hbefore, hfirst⟩ := ih _ ⟨reply, hr, hgood⟩
        refine ⟨m :: before, m', after, rfl, ?_, by simpa [requests] using hfirst⟩
        intro reply hr
        rw [replies, List.mem_cons] at hr
        rcases hr with rfl | hr
        · exact hm
        · exact hbefore reply hr

/-- Once a mirror serves the file of the event no other is asked. -/
theorem run_of_serves {before : List Mirror} {bytes : Bytes} {f : RewardsFile}
    {r : Except ArtifactFault String} (after : List Mirror)
    (hbefore : ∀ reply ∈ replies answer s event [] before, ¬ Good event reply)
    (hreply : answer (requests s event before) (.fetch (urlOf s event m)) = .ok bytes)
    (hserves : Serves m event bytes f)
    (hsave : (s.saveBytes event.index (storedForm m bytes)).runIn disk t = (r, t')) :
    (run s (before ++ m :: after) event).runIn (surroundings answer) ([], t) =
      (r.map (.saved · (urlOf s event m)), requests s event (before ++ [m]), t') := by
  obtain ⟨noted, -, hrun⟩ := tryMirrors_append before (m :: after) [] [] t hbefore
  have hjudge : judge event (m, answer (requests s event before) (.fetch (urlOf s event m))) =
      .ok (storedForm m bytes) := by
    rw [hreply]
    exact judge_of_serves hserves
  rw [List.nil_append, List.nil_append] at hrun
  rw [run, hrun, tryMirrors_of_ok after _ hjudge hsave]
  simp [requests]

end Run

/-- The file of an event is in the store: as it was published, or compressed if it
was not published so. It can be loaded, and no other rewards file is touched. -/
structure Kept (s : Store) (event : RewardsEvent) (m : Mirror) (bytes : Bytes) (f : RewardsFile)
    (t t' : FileTree) : Prop where
  stored : ∃ stored, t'.file? (s.path event.index) = some stored ∧
    if m.compressed then stored = bytes else Compression.decompress stored = .ok bytes
  loaded : (s.load event.index).runIn disk t' = (.ok (some f), t')
  others : ∀ (other : Store) (i : UInt64), other.dir = s.dir →
    (other.network ≠ s.network ∨ i ≠ event.index) →
      t'.file? (other.path i) = t.file? (other.path i)

theorem kept_of_serves {s : Store} {event : RewardsEvent} {m : Mirror} {bytes : Bytes}
    {f : RewardsFile} {t : FileTree} (h : Serves m event bytes f)
    (hwritable : s.Writable event.index t) :
    ∃ t', (s.saveBytes event.index (storedForm m bytes)).runIn disk t =
        (.ok (s.path event.index), t') ∧ Kept s event m bytes f t t' := by
  obtain ⟨t', hsave, hreach, hstored, -, hsame⟩ :=
    s.saveBytes_eq_ok (s.writable_iff.1 hwritable) (storedForm m bytes)
  refine ⟨t', hsave, ?_, s.load_eq_ok hreach hstored (decode_storedForm h), ?_⟩
  · exact ⟨storedForm m bytes, file?_eq_some_iff.2 hstored, storedForm_spec m bytes⟩
  · intro other i hdir hne
    refine hsame _ (fun hp => ?_) (s.path_ne_partialPath hdir _ _)
    obtain ⟨hnetwork, hi⟩ := s.path_inj hdir hp
    exact hne.elim (· hnetwork) (· hi)

/-- **The first good mirror wins**: the mirrors up to it are asked, each once and in
order, and what it serves is kept. If there is none all are asked, what is wrong
with each is told, and nothing is written. -/
theorem saved_from_first_good_or_unavailable
    (answer : List Web.Call → (c : Web.Call) → Web.Reply c) (s : Store) (mirrors : List Mirror)
    (event : RewardsEvent) (t : FileTree) :
    (s.Writable event.index t →
      (∃ reply ∈ replies answer s event [] mirrors, Good event reply) →
      ∃ before m after bytes f t', mirrors = before ++ m :: after ∧
        (∀ reply ∈ replies answer s event [] before, ¬ Good event reply) ∧
        answer (requests s event before) (.fetch (urlOf s event m)) = .ok bytes ∧
        Serves m event bytes f ∧
        (run s mirrors event).runIn (surroundings answer) ([], t) =
          (.ok (.saved (s.path event.index) (urlOf s event m)),
            requests s event (before ++ [m]), t') ∧
        Kept s event m bytes f t t') ∧
    ((∀ reply ∈ replies answer s event [] mirrors, ¬ Good event reply) →
      ∃ failures, List.Forall₂ (Noted s event) (replies answer s event [] mirrors) failures ∧
        (run s mirrors event).runIn (surroundings answer) ([], t) =
          (.ok (.unavailable failures), requests s event mirrors, t)) := by
  refine ⟨fun hwritable hgood => ?_, fun h => ?_⟩
  · obtain ⟨before, m, after, rfl, hbefore, bytes, f, hreply, hserves⟩ :=
      exists_first_good mirrors [] hgood
    have hserves : Serves m event bytes f := hserves
    obtain ⟨t', hsave, hkept⟩ := kept_of_serves hserves hwritable
    exact ⟨before, m, after, bytes, f, t', rfl, hbefore, hreply, hserves,
      run_of_serves after hbefore hreply hserves hsave, hkept⟩
  · obtain ⟨failures, hnoted, hrun⟩ := tryMirrors_append mirrors [] [] [] t h
    refine ⟨failures, hnoted, ?_⟩
    rw [List.append_nil] at hrun
    rw [run, hrun]
    rfl

/-- A mirror that has nothing is passed over. -/
theorem saved_from_second_mirror :
    let f := RewardsFile.ofEntry (.ofNat 10) ⟨0, 3, 4, 9, []⟩
    let event : RewardsEvent := ⟨5, 0, 0, 0, 0, f.merkleRoot, "cid", 1⟩
    let s : Store := ⟨"rewards", .holesky⟩
    let mirrors : List Mirror := [⟨"a/{filename}", true⟩, ⟨"b/{cid}", false⟩]
    let answer : List Web.Call → (c : Web.Call) → Web.Reply c := fun _ c =>
      match c with
      | .fetch url => if url = "b/cid" then .ok f.text else .error (.text "not found")
    s.Writable event.index .empty ∧
      (∃ reply ∈ replies answer s event [] mirrors, Good event reply) ∧
      ∃ m bytes f t', m.template = "b/{cid}" ∧ Kept s event m bytes f .empty t' ∧
        (run s mirrors event).runIn (surroundings answer) ([], .empty) =
          (.ok (.saved (s.path event.index) "b/cid"),
            [.fetch "a/rp-rewards-holesky-5.json.zst", .fetch "b/cid"], t') := by
  intro f event s mirrors answer
  have hfirst : urlOf s event ⟨"a/{filename}", true⟩ = "a/rp-rewards-holesky-5.json.zst" := by
    decide +kernel
  have hsecond : urlOf s event ⟨"b/{cid}", false⟩ = "b/cid" := by decide +kernel
  have hparse : RewardsFile.parse f.text = .ok f := by decide +kernel
  have hw : s.Writable event.index .empty := s.writable_iff.2 (s.unobstructed_empty _)
  have hgood : ∃ reply ∈ replies answer s event [] mirrors, Good event reply :=
    ⟨_, List.mem_cons_of_mem _ List.mem_cons_self, f.text, f, if_pos hsecond,
      ⟨f.text, rfl, hparse⟩, rfl, RewardsFile.trust_ofEntry _ _⟩
  refine ⟨hw, hgood, ?_⟩
  obtain ⟨before, m, after, bytes, g, t', hmirrors, -, hreply, -, hrun, hkept⟩ :=
    (saved_from_first_good_or_unavailable answer s mirrors event .empty).1 hw hgood
  match before, hmirrors with
  | [], hmirrors =>
    -- the first mirror has nothing
    obtain ⟨rfl, -⟩ := List.cons.inj hmirrors
    rw [hfirst] at hreply
    cases hreply
  | [_], hmirrors =>
    obtain ⟨rfl, hrest⟩ := List.cons.inj hmirrors
    obtain ⟨rfl, rfl⟩ := List.cons.inj hrest
    refine ⟨_, bytes, g, t', rfl, hkept, ?_⟩
    rw [hrun, hsecond]
    simp only [requests, List.cons_append, List.nil_append, List.map_cons, List.map_nil, hfirst,
      hsecond]
  | _ :: _ :: _, hmirrors => simp [mirrors] at hmirrors

end PoolKeeper.Download
