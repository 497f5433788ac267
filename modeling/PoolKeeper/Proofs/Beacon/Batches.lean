/-
Validators asked for in batches, several at a time.

The request for a batch names its keys (`askedFor_validatorsUrl`), and the batches
are pieces of the list of keys; so requests go out for the first keys, and for all
of them if nothing fails (`requests_eq`). What comes of a run is what the
sequential program comes to (`runIn_validators`), whatever completes when, and a
batch that fails is a failure of the whole. From a node that lists just the
validators it knows among those it is asked for, the batches together make the map
that one request for everything would make (`gathered_of_knows`).
-/
import Mathlib.Data.List.Infix
import PoolKeeper.Pieces
import PoolKeeper.Proofs.Beacon.Response
import PoolKeeper.Proofs.FanOut.Ordered
import PoolKeeper.Proofs.Http.Join
import PoolKeeper.Proofs.KeyMap

namespace PoolKeeper

/-- The text of fixed bytes is letters and digits. -/
theorem FixedBytes.isAlphanum_of_mem_text {n : Nat} {x : FixedBytes n} {c : Char}
    (h : c ∈ x.text.toList) : c.isAlphanum = true := by
  have hdigit : ∀ d < 16, (Numeral.digitChar d).isAlphanum = true := by decide
  have hchars : x.text.toList = '0' :: 'x' :: Bytes.toHexChars x.toBytes := by
    simp [text, Bytes.toHex]
  rw [hchars, List.mem_cons, List.mem_cons, Bytes.toHexChars, List.mem_flatMap] at h
  rcases h with rfl | rfl | ⟨b, -, hb⟩
  · decide
  · decide
  · have hlt := b.toNat_lt
    simp only [List.mem_cons, List.not_mem_nil, or_false] at hb
    rcases hb with rfl | rfl
    · exact hdigit _ (by omega)
    · exact hdigit _ (by omega)

namespace Beacon.Rest

open Json FanOut

/-! ## The request for a batch -/

/-- The way to the validators of a slot. -/
def validatorsWords (slot : UInt64) : List String :=
  ["eth", "v1", "beacon", "states", Numeral.decimal slot.toNat, "validators"]

/-- The query that names some keys. -/
def idQuery (keys : List Pubkey) : String := "id=" ++ ",".intercalate (keys.map FixedBytes.text)

/-- Where the validators with some keys are asked for. -/
def validatorsUrl (base : Url) (slot : UInt64) (keys : List Pubkey) : Url :=
  { base with
    path := .segments (base.above ++ validatorsWords slot)
    query := some (idQuery keys)
    fragment := none }

/-- The keys that a request names. -/
def askedFor (url : Url) : List Pubkey :=
  (Text.splitOn ',' ((url.query.getD "").toList.drop 3)).filterMap fun id =>
    FixedBytes.ofText? (String.ofList id)

section
variable {base : Url} {ss : List String} {slot : UInt64} {keys : List Pubkey}

theorem validatorsPath_eq (slot : UInt64) (keys : List Pubkey) :
    validatorsPath slot keys = "/".intercalate (validatorsWords slot) ++ "?" ++ idQuery keys := by
  have htext (number ids : String) :
      "eth/v1/beacon/states/" ++ number ++ "/validators?id=" ++ ids =
        "/".intercalate ["eth", "v1", "beacon", "states", number, "validators"] ++ "?" ++
          ("id=" ++ ids) := by
    have hwords : "/".intercalate ["eth", "v1", "beacon", "states", number, "validators"] =
        "eth" ++ "/" ++ "v1" ++ "/" ++ "beacon" ++ "/" ++ "states" ++ "/" ++ number ++ "/" ++
          "validators" := rfl
    rw [hwords]
    exact String.toList_inj.1 (by simp)
  exact htext _ _

theorem plain_of_mem_validatorsWords {w : String} (hw : w ∈ validatorsWords slot) {c : Char}
    (hc : c ∈ w.toList) : Url.isPlain c = true := by
  simp only [validatorsWords, List.mem_cons, List.not_mem_nil, or_false] at hw
  rcases hw with rfl | rfl | rfl | rfl | rfl | rfl
  case inr.inr.inr.inr.inl =>
    have hdigit : ∀ d < 10, Url.isPlain (Numeral.digitChar d) = true := by decide
    obtain ⟨d, hd, rfl⟩ := Numeral.exists_digit_of_mem_decimal hc
    exact hdigit d hd
  all_goals
    exact List.all_eq_true.1 (by decide) c hc

theorem toList_idQuery : (idQuery keys).toList =
    'i' :: 'd' :: '=' :: [','].intercalate (keys.map fun k => k.text.toList) := by
  simp [idQuery, String.toList_intercalate, Function.comp_def]

theorem plain_of_mem_idQuery {c : Char} (hc : c ∈ (idQuery keys).toList) :
    Url.isPlain c = true := by
  simp only [toList_idQuery, List.mem_cons] at hc
  rcases hc with rfl | rfl | rfl | hc
  · decide
  · decide
  · decide
  · rcases Text.mem_intercalate hc with rfl | ⟨w, hw, hc⟩
    · decide
    · obtain ⟨k, -, rfl⟩ := List.mem_map.1 hw
      rw [Url.isPlain, FixedBytes.isAlphanum_of_mem_text hc]
      rfl

theorem join_validatorsPath (hbase : base.path = .segments ss) :
    base.join (validatorsPath slot keys) = .ok (validatorsUrl base slot keys) := by
  have hne : validatorsWords slot ≠ [] := List.cons_ne_nil _ _
  rw [validatorsPath_eq, Url.join_plain hbase hne (fun _ hw _ => plain_of_mem_validatorsWords hw)
    (fun _ => plain_of_mem_idQuery), validatorsUrl]

/-- **A request names the keys of its batch.** -/
theorem askedFor_validatorsUrl (base : Url) (slot : UInt64) (keys : List Pubkey) :
    askedFor (validatorsUrl base slot keys) = keys := by
  have hquery : ((validatorsUrl base slot keys).query.getD "").toList.drop 3 =
      [','].intercalate (keys.map fun k => k.text.toList) := by
    show (idQuery keys).toList.drop 3 = _
    rw [toList_idQuery]
    rfl
  rw [askedFor, hquery]
  cases keys with
  | nil => decide
  | cons k keys =>
    have hcomma : ∀ w ∈ (k :: keys).map fun k => k.text.toList, ',' ∉ w := by
      intro w hw hc
      obtain ⟨k', -, rfl⟩ := List.mem_map.1 hw
      exact absurd (FixedBytes.isAlphanum_of_mem_text hc) (by decide)
    have hne : ((k :: keys).map fun k => k.text.toList) ≠ [] := List.cons_ne_nil _ _
    rw [Text.splitOn_intercalate hne hcomma, List.filterMap_map]
    simp [FixedBytes.ofText?_text]

end

/-! ## What comes of the batches -/

section
variable {base : Url} {ss : List String} {slot : UInt64} {keys : List Pubkey}
  {answer : Http.Call → Option HttpResponse}

/-- What the request for some keys comes to, where a node answers in a certain way. -/
def batchResult (base : Url) (slot : UInt64) (answer : Http.Call → Option HttpResponse)
    (keys : List Pubkey) : Except Failure (List ValidatorStatus) :=
  ((get base (validatorsPath slot keys) (.list validatorReader)).runIn (.fixed answer) ()).1

/-- What the requests for all batches come to, batch by batch. -/
def batchResults (base : Url) (slot : UInt64) (answer : Http.Call → Option HttpResponse)
    (keys : List Pubkey) : List (Except Failure (List ValidatorStatus)) :=
  (pieces batchSize keys).map (batchResult base slot answer)

/-- The map of some records. -/
def recordMap (vs : List ValidatorStatus) : Validators := .ofList (vs.map fun v => (v.pubkey, v))

/-- What is made of the batches. -/
def gathered (slot : UInt64) (batches : Except Failure (List (List ValidatorStatus))) :
    Except Failure Validators :=
  (batches.map fun vs => recordMap vs.flatten).mapError
    (.because ("error getting validator statuses at slot " ++ Numeral.decimal slot.toNat))

/-- The request of a batch is all that is asked for it. -/
theorem runs_batch (hbase : base.path = .segments ss) {log : List (Exchange Http)}
    {r : Except Failure (List ValidatorStatus)}
    (h : (get base (validatorsPath slot keys) (.list validatorReader)).Runs log r) :
    log.map (·.1) = [.get (validatorsUrl base slot keys)] := by
  rw [Attempt.Runs, get_eq (join_validatorsPath hbase)] at h
  obtain ⟨reply, rest, hrest, rfl⟩ := Program.runs_ask.1 h
  obtain ⟨rfl, -⟩ := Program.runs_done.1 hrest
  rfl

theorem batchResult_eq (hbase : base.path = .segments ss) :
    batchResult base slot answer keys =
      received (validatorsUrl base slot keys) (validatorsPath slot keys) (.list validatorReader)
        (answer (.get (validatorsUrl base slot keys))) := by
  rw [batchResult, Attempt.runIn, get_eq (join_validatorsPath hbase)]
  rfl

/-- Without a whole response of success a batch fails. -/
theorem batchResult_of_refused (hbase : base.path = .segments ss)
    (h : ∀ response, answer (.get (validatorsUrl base slot keys)) = some response →
      response.isSuccess = true → response.body = none) :
    ∃ f, batchResult base slot answer keys = .error f := by
  cases hresult : batchResult base slot answer keys with
  | error f => exact ⟨f, rfl⟩
  | ok vs =>
    rw [batchResult_eq hbase] at hresult
    obtain ⟨response, bytes, hreply, hsuccess, hbody, -⟩ := received_eq_ok_iff.1 hresult
    rw [h response hreply hsuccess] at hbody
    cases hbody

theorem runIn_batches : ((pieces batchSize keys).mapM fun batch =>
      get base (validatorsPath slot batch) (.list validatorReader)).runIn (.fixed answer) () =
    ((batchResults base slot answer keys).mapM id, ()) :=
  Attempt.runIn_fixed_mapM _ _

/-- **The sequential program comes to what the batches come to in order.** -/
theorem runIn_validators : (validators base keys slot).runIn (.fixed answer) () =
    (gathered slot ((batchResults base slot answer keys).mapM id), ()) := by
  rw [validators, Attempt.runIn_mapError, Attempt.runIn_bind, runIn_batches]
  cases (batchResults base slot answer keys).mapM id with
  | error f => rfl
  | ok batches => rfl

theorem gathered_eq_error_iff {batches : Except Failure (List (List ValidatorStatus))} :
    (∃ f, gathered slot batches = .error f) ↔ ∃ f, batches = .error f := by
  cases batches with
  | error f => exact iff_of_true ⟨_, rfl⟩ ⟨f, rfl⟩
  | ok vs => exact iff_of_false nofun nofun

/-- **A batch that fails is a failure of the whole**, and nothing else is. -/
theorem gathered_batches_eq_error_iff :
    (∃ f, gathered slot ((batchResults base slot answer keys).mapM id) = .error f) ↔
      ∃ batch ∈ pieces batchSize keys, ∃ f, batchResult base slot answer batch = .error f := by
  rw [gathered_eq_error_iff, Ordered.exists_error_iff]
  simp only [batchResults, List.mem_map]
  exact ⟨fun ⟨f, batch, hbatch, hf⟩ => ⟨batch, hbatch, f, hf⟩,
    fun ⟨batch, hbatch, f, hf⟩ => ⟨f, batch, hbatch, hf⟩⟩

theorem ok_of_gathered {batches : Except Failure (List (List ValidatorStatus))} {m : Validators}
    (h : gathered slot batches = .ok m) : ∃ vss, batches = .ok vss := by
  cases batches with
  | error f => cases h
  | ok vss => exact ⟨vss, rfl⟩

end

/-! ## The requests of a run -/

section
variable {base : Url} {slot : UInt64} {keys : List Pubkey}

/-- The requests that batches have gone out with, in order. -/
def requests (base : Url) (slot : UInt64) (keys : List Pubkey) (events : List Ordered.Event) :
    List Url :=
  (events.filterMap Ordered.Event.started?).filterMap fun task =>
    (pieces batchSize keys)[task]?.map (validatorsUrl base slot)

/-- Requests go out for the first batches. -/
theorem requests_eq {events : List Ordered.Event} {n : Nat}
    (h : events.filterMap Ordered.Event.started? = List.range n) :
    requests base slot keys events =
      ((pieces batchSize keys).take n).map (validatorsUrl base slot) := by
  rw [requests, h]
  clear h
  induction n with
  | zero => rfl
  | succ n ih =>
    rw [List.range_succ, List.filterMap_append, ih, List.take_add_one, List.map_append]
    cases hbatch : (pieces batchSize keys)[n]? with
    | none => simp [hbatch]
    | some batch => simp [hbatch]

/-- The keys that some batches ask for are those in them. -/
theorem flatMap_askedFor (batches : List (List Pubkey)) :
    (batches.map (validatorsUrl base slot)).flatMap askedFor = batches.flatten := by
  rw [List.flatMap_map, List.flatMap_def]
  simp only [askedFor_validatorsUrl, List.map_id']

end

/-! ## A node that knows some validators -/

/-- The node lists just the validators it knows among those it is asked for, if these are no more
than it takes at once. -/
structure Knows (answer : Http.Call → Option HttpResponse) (base : Url) (slot : UInt64)
    (known : Pubkey → Option ValidatorStatus) (longest : Nat) : Prop where
  own : ∀ k v, known k = some v → v.pubkey = k
  lists : ∀ keys : List Pubkey, keys ≠ [] → keys.Nodup → keys.length ≤ longest →
    ∃ response vs, answer (.get (validatorsUrl base slot keys)) = some response ∧
      Lists vs response ∧ ∀ v, v ∈ vs ↔ ∃ k ∈ keys, known k = some v

/-- What a node says of a validator. -/
def recordJson (v : ValidatorStatus) : Json :=
  .object [("index", quotedJson v.index), ("balance", quotedJson v.balance),
    ("status", .string v.status),
    ("validator", .object [("pubkey", v.pubkey.json), ("slashed", .bool v.slashed),
      ("activation_epoch", quotedJson v.activationEpoch), ("exit_epoch", quotedJson v.exitEpoch)])]

/-- What a node answers that holds the records of some validators. -/
def listing (known : Pubkey → Option ValidatorStatus) : Http.Call → Option HttpResponse
  | .get url =>
    some ⟨200, some (Json.object
      [("data", .array (((askedFor url).filterMap known).map recordJson))]).write⟩
  | .post _ _ => none

theorem tells_recordJson (v : ValidatorStatus) : Tells v (recordJson v) := by
  refine ⟨_, _, rfl, ?_, ?_, List.Subset.refl _, List.Subset.refl _⟩
  · show ["index", "balance", "status", "validator"].Nodup
    decide
  · show ["pubkey", "slashed", "activation_epoch", "exit_epoch"].Nodup
    decide

theorem fits_recordJson (v : ValidatorStatus) : (recordJson v).Fits :=
  ⟨trivial, trivial, trivial, ⟨trivial, trivial, trivial, trivial, trivial⟩, trivial⟩

/-- Such a node knows the validators it holds, however many it is asked for. -/
theorem knows_listing {known : Pubkey → Option ValidatorStatus}
    (hown : ∀ k v, known k = some v → v.pubkey = k) (base : Url) (slot : UInt64) (longest : Nat) :
    Knows (listing known) base slot known longest where
  own := hown
  lists keys _ _ _ := by
    refine ⟨_, keys.filterMap known, rfl, ⟨rfl, _, _, rfl, ?_, List.nodup_singleton _,
      List.mem_singleton.2 rfl, ?_⟩, fun v => List.mem_filterMap⟩
    · refine ⟨fitAll_iff.2 fun j hj => ?_, trivial⟩
      obtain ⟨v, -, rfl⟩ := List.mem_map.1 hj
      exact fits_recordJson v
    · rw [askedFor_validatorsUrl, List.forall₂_map_right_iff, List.forall₂_same]
      exact fun v _ => tells_recordJson v

section
variable {α β ε : Type} {P : α → β → Prop}

/-- Results that are all there, each with what is known of it. -/
theorem exists_outputs_of_forall {f : α → Except ε β} {xs : List α}
    (h : ∀ x ∈ xs, ∃ y, f x = .ok y ∧ P x y) :
    ∃ ys, xs.map f = ys.map .ok ∧ List.Forall₂ P xs ys := by
  induction xs with
  | nil => exact ⟨[], rfl, .nil⟩
  | cons x xs ih =>
    obtain ⟨y, hy, hP⟩ := h x List.mem_cons_self
    obtain ⟨ys, hys, hall⟩ := ih fun x' hx' => h x' (List.mem_cons_of_mem x hx')
    exact ⟨y :: ys, by rw [List.map_cons, hy, hys, List.map_cons], .cons hP hall⟩

/-- What is in some list is what belongs to something in the list beside it. -/
theorem mem_flatten_iff_of_forall₂ {xss : List (List α)} {yss : List (List β)}
    (h : List.Forall₂ (fun xs ys => ∀ y, y ∈ ys ↔ ∃ x ∈ xs, P x y) xss yss) (y : β) :
    y ∈ yss.flatten ↔ ∃ x ∈ xss.flatten, P x y := by
  induction h with
  | nil => simp
  | cons hys _ ih =>
    rw [List.flatten_cons, List.flatten_cons, List.mem_append, ih, hys]
    simp only [List.mem_append, or_and_right, exists_or]

end

/-- Records of just the known validators among some make a map of these. -/
theorem get?_recordMap {known : Pubkey → Option ValidatorStatus} {keys : List Pubkey}
    {vs : List ValidatorStatus} (hown : ∀ k v, known k = some v → v.pubkey = k)
    (hvs : ∀ v, v ∈ vs ↔ ∃ k ∈ keys, known k = some v) {k : Pubkey} {v : ValidatorStatus} :
    (recordMap vs).get? k = some v ↔ k ∈ keys ∧ known k = some v := by
  have hagree : ∀ e ∈ vs.map fun v => (v.pubkey, v), known e.1 = some e.2 := by
    intro e he
    obtain ⟨v, hv, rfl⟩ := List.mem_map.1 he
    obtain ⟨k, -, hk⟩ := (hvs v).1 hv
    rw [hown k v hk, hk]
  rw [recordMap, KeyMap.get?_ofList_of_agree hagree, List.map_map, List.mem_map]
  constructor
  · rintro ⟨hknown, v', hv', hkey⟩
    obtain ⟨k', hk', hknown'⟩ := (hvs v').1 hv'
    have hsame : k' = k := (hown k' v' hknown').symm.trans hkey
    exact ⟨hsame ▸ hk', hknown⟩
  · rintro ⟨hk, hknown⟩
    exact ⟨hknown, v, (hvs v).2 ⟨k, hk, hknown⟩, hown k v hknown⟩

section
variable {base : Url} {ss : List String} {slot : UInt64} {keys : List Pubkey}
  {answer : Http.Call → Option HttpResponse} {known : Pubkey → Option ValidatorStatus}
  {longest : Nat}

theorem batchResult_of_knows (hbase : base.path = .segments ss)
    (h : Knows answer base slot known longest) (hne : keys ≠ []) (hkeys : keys.Nodup)
    (hlength : keys.length ≤ longest) :
    ∃ vs, batchResult base slot answer keys = .ok vs ∧
      ∀ v, v ∈ vs ↔ ∃ k ∈ keys, known k = some v := by
  obtain ⟨response, vs, hreply, hlists, hvs⟩ := h.lists keys hne hkeys hlength
  refine ⟨vs, ?_, hvs⟩
  rw [batchResult_eq hbase, hreply]
  exact received_of_lists hlists _ _

/-- **All batches together list the known validators among all keys.** -/
theorem exists_batches_of_knows (hbase : base.path = .segments ss)
    (h : Knows answer base slot known longest) (hkeys : keys.Nodup)
    (hlongest : batchSize ≤ longest) :
    ∃ batches : List (List ValidatorStatus),
      batchResults base slot answer keys = batches.map .ok ∧
        ∀ v, v ∈ batches.flatten ↔ ∃ k ∈ keys, known k = some v := by
  have hflatten := flatten_pieces (show 0 < batchSize by decide) keys
  have hbatch : ∀ batch ∈ pieces batchSize keys,
      ∃ vs, batchResult base slot answer batch = .ok vs ∧
        ∀ v, v ∈ vs ↔ ∃ k ∈ batch, known k = some v := by
    intro batch hmem
    refine batchResult_of_knows hbase h (ne_nil_of_mem_pieces hmem) ?_ ?_
    · rw [← hflatten] at hkeys
      exact (List.nodup_flatten.1 hkeys).1 batch hmem
    · exact Nat.le_trans (length_le_of_mem_pieces hmem) hlongest
  obtain ⟨batches, hresults, hall⟩ := exists_outputs_of_forall hbatch
  refine ⟨batches, hresults, fun v => ?_⟩
  rw [← hflatten]
  exact mem_flatten_iff_of_forall₂ hall v

/-- **From a node that knows validators come the known ones among the keys**, as they would by one
request. -/
theorem gathered_of_knows (hbase : base.path = .segments ss)
    (h : Knows answer base slot known longest) (hkeys : keys.Nodup)
    (hlongest : batchSize ≤ longest) :
    ∃ m, gathered slot ((batchResults base slot answer keys).mapM id) = .ok m ∧
      (∀ k v, m.get? k = some v ↔ k ∈ keys ∧ known k = some v) ∧
      (keys ≠ [] → keys.length ≤ longest →
        ∃ vs, batchResult base slot answer keys = .ok vs ∧ m = recordMap vs) := by
  obtain ⟨batches, hresults, hall⟩ := exists_batches_of_knows hbase h hkeys hlongest
  have hget (k : Pubkey) (v : ValidatorStatus) :
      (recordMap batches.flatten).get? k = some v ↔ k ∈ keys ∧ known k = some v :=
    get?_recordMap h.own hall
  refine ⟨recordMap batches.flatten, ?_, hget, fun hne hlength => ?_⟩
  · rw [Ordered.mapM_id_eq_ok_iff.2 hresults]
    rfl
  · obtain ⟨vs, hone, hvs⟩ := batchResult_of_knows hbase h hne hkeys hlength
    refine ⟨vs, hone, KeyMap.ext fun k => Option.ext fun v => ?_⟩
    rw [hget, get?_recordMap h.own hvs]

end

/-- **Batching does not show.** Validators are asked for by requests of a hundred keys at most,
several at a time. At any point of such a run no key was asked for twice, and no more requests are
out than may be; the run goes on until it is over. What comes of it then is what the sequential
program comes to, whatever completed when. It succeeds just if every batch does, and then every key
was asked for once; a state that is missing for one batch is a failure of the whole. From a node
that lists the validators it knows it makes the map of those among the keys that are known, which is
also what one request for all keys would have made. -/
theorem validators_of_batches {base : Url} {ss : List String} (hbase : base.path = .segments ss)
    (slot : UInt64) {keys : List Pubkey} (hkeys : keys.Nodup)
    (answer : Http.Call → Option HttpResponse) (limit : Nat) {events : List Ordered.Event}
    {s : Ordered.State} (hrun : Ordered.Run (batchResults base slot answer keys) limit events s) :
    (∀ batch log r, (get base (validatorsPath slot batch) (.list validatorReader)).Runs log r →
      log.map (·.1) = [.get (validatorsUrl base slot batch)]) ∧
    (∀ url ∈ requests base slot keys events, (askedFor url).length ≤ 100) ∧
    (requests base slot keys events).flatMap askedFor <+: keys ∧
    s.next ≤ s.taken + max limit 1 ∧
    ((∃ e s', Ordered.Step (batchResults base slot answer keys) limit s e s') ↔
      ¬ s.Over (batchResults base slot answer keys)) ∧
    events.length ≤ 3 * (pieces batchSize keys).length ∧
    (s.Over (batchResults base slot answer keys) →
      let outcome := gathered slot (s.outcome (batchResults base slot answer keys))
      (validators base keys slot).runIn (.fixed answer) () = (outcome, ()) ∧
      (∀ m, outcome = .ok m → (requests base slot keys events).flatMap askedFor = keys) ∧
      ((∃ f, outcome = .error f) ↔
        ∃ batch ∈ pieces batchSize keys, ∃ f, batchResult base slot answer batch = .error f) ∧
      (∀ batch ∈ pieces batchSize keys,
        (∀ response, answer (.get (validatorsUrl base slot batch)) = some response →
          response.status = 404 ∨ response.isSuccess = false ∨ response.body = none) →
        ∃ f, outcome = .error f) ∧
      ∀ known longest, Knows answer base slot known longest → 100 ≤ longest →
        ∃ m, outcome = .ok m ∧ (∀ k v, m.get? k = some v ↔ k ∈ keys ∧ known k = some v) ∧
          (keys ≠ [] → keys.length ≤ longest → ∃ vs,
            (get base (validatorsPath slot keys) (.list validatorReader)).runIn (.fixed answer) () =
              (.ok vs, ()) ∧ m = recordMap vs)) := by
  have hsound := hrun.sound
  have hlength : (batchResults base slot answer keys).length = (pieces batchSize keys).length :=
    List.length_map _
  have hflatten := flatten_pieces (show 0 < batchSize by decide) keys
  have hasked : (requests base slot keys events).flatMap askedFor =
      ((pieces batchSize keys).take s.next).flatten := by
    rw [requests_eq hsound.started, flatMap_askedFor]
  refine ⟨fun _ _ _ => runs_batch hbase, fun url hurl => ?_, ?_, hsound.room,
    hsound.exists_step_iff, hlength ▸ hsound.length_events_le, fun hover => ?_⟩
  · rw [requests_eq hsound.started] at hurl
    obtain ⟨batch, hbatch, rfl⟩ := List.mem_map.1 hurl
    rw [askedFor_validatorsUrl]
    exact length_le_of_mem_pieces (List.mem_of_mem_take hbatch)
  · have hfirst := (List.take_prefix s.next (pieces batchSize keys)).flatten
    rwa [hflatten, ← hasked] at hfirst
  have houtcome := Ordered.outcome_of_over hover
  have hfails : (∃ f, gathered slot (s.outcome (batchResults base slot answer keys)) = .error f) ↔
      ∃ batch ∈ pieces batchSize keys, ∃ f, batchResult base slot answer batch = .error f := by
    rw [houtcome]
    exact gathered_batches_eq_error_iff
  refine ⟨?_, fun m hm => ?_, hfails, fun batch hbatch hrefused => hfails.2 ⟨batch, hbatch, ?_⟩,
    fun known longest hknows hlongest => ?_⟩
  · rw [runIn_validators, houtcome]
  · obtain ⟨outputs, hok⟩ := ok_of_gathered hm
    rw [hasked, hsound.next_of_over hover hok, hlength, List.take_length, hflatten]
  · refine batchResult_of_refused hbase fun response hreply hsuccess => ?_
    rcases hrefused response hreply with hmissing | hrefused | hbody
    · exact absurd hsuccess (by simp [HttpResponse.isSuccess, hmissing])
    · exact absurd hsuccess (by simp [hrefused])
    · exact hbody
  · obtain ⟨m, hm, hget, hone⟩ := gathered_of_knows hbase hknows hkeys hlongest
    rw [houtcome]
    refine ⟨m, hm, hget, fun hne hle => ?_⟩
    obtain ⟨vs, hvs, rfl⟩ := hone hne hle
    exact ⟨vs, congrArg (·, ()) hvs, rfl⟩

/-- A node beside the program. -/
def localBase : Url := ⟨"http", some ⟨"", "", "localhost", some 5052⟩, .segments [""], none, none⟩

/-- A validator that a node knows among a hundred and one that it is asked for. -/
def lastOfCrowd : ValidatorStatus :=
  ⟨.ofNat 100, 5, 32_000_000_000, 10, 20, false, "active_ongoing"⟩

/-- One key more than fits in a request. -/
def crowd : List Pubkey := (List.range 101).map .ofNat

/-- The node that knows just the last of the crowd. -/
def crowdNode : Http.Call → Option HttpResponse :=
  listing fun k => if k = lastOfCrowd.pubkey then some lastOfCrowd else none

/-- Of a hundred and one keys that are asked for by two requests the one that is known is found. -/
theorem last_of_crowd_found :
    ∃ (events : List Ordered.Event) (s : Ordered.State) (m : Validators),
      Ordered.Run (batchResults localBase 7 crowdNode crowd) 4 events s ∧
      (requests localBase 7 crowd events).flatMap askedFor = crowd ∧
      (validators localBase crowd 7).runIn (.fixed crowdNode) () = (.ok m, ()) ∧
      m.get? lastOfCrowd.pubkey = some lastOfCrowd ∧ m.get? (.ofNat 0) = none := by
  have hkeys : crowd.Nodup := by decide +kernel
  have hown : ∀ k v, (if k = lastOfCrowd.pubkey then some lastOfCrowd else none) = some v →
      v.pubkey = k := by
    intro k v hv
    obtain ⟨hk, hv⟩ := Option.ite_none_right_eq_some.1 hv
    rw [hk, ← Option.some.inj hv]
  obtain ⟨events, s, hrun, hover⟩ :=
    Ordered.exists_over (batchResults localBase 7 crowdNode crowd) 4
  obtain ⟨-, -, -, -, -, -, hend⟩ := validators_of_batches rfl 7 hkeys crowdNode 4 hrun
  obtain ⟨hresult, hall, -, -, hmap⟩ := hend hover
  obtain ⟨m, hm, hget, -⟩ := hmap _ 100 (knows_listing hown _ 7 100) (Nat.le_refl _)
  refine ⟨events, s, m, hrun, hall m hm, hm ▸ hresult, ?_, ?_⟩
  · exact (hget _ _).2 ⟨List.mem_map_of_mem (List.mem_range.2 (by decide)), if_pos rfl⟩
  · refine Option.eq_none_iff_forall_ne_some.2 fun v hv => ?_
    obtain ⟨hsame, -⟩ := Option.ite_none_right_eq_some.1 ((hget _ _).1 hv).2
    exact absurd hsame (by decide +kernel)

end Beacon.Rest
end PoolKeeper
