/-
What a request to a beacon node comes to, and what it takes to succeed.

Whatever is asked for goes out as one GET (`get_eq`), and succeeds just if a whole
body comes back with a status of success and can be read (`received_eq_ok_iff`): a
resource that is not there is a failure where it has to be there. A body can be
read if the members that are looked for are among its own, in any order
(`record_reads_of_mem`), as they are in what a node says of a validator
(`IsRecordOf.reads`).
-/
import PoolKeeper.Beacon.Rest
import PoolKeeper.Proofs.Json.Quoted
import PoolKeeper.Proofs.Transcript

namespace PoolKeeper

namespace Beacon.Rest

open Json

/-! ## Requests -/

section Get
variable {α : Type} {base url : Url} {path : String} {r : Reader α}

/-- What a reply to a request for something that has to be there comes to. -/
def received (url : Url) (path : String) (r : Reader α) : Option HttpResponse → Except Failure α
  | none =>
    .error (.because ("error requesting " ++ url.text) (.first (.http (.unreachable url.text))))
  | some response =>
    if response.status = 404 then .error (.text ("beacon node has no resource at " ++ path))
    else if !response.isSuccess then
      .error (.text (url.text ++ " responded with status " ++ HttpStatus.text response.status))
    else match response.body with
      | none =>
        .error (.because ("error reading response from " ++ url.text) (.first (.http .cutShort)))
      | some bytes => ((record (field "data" r)).read bytes).mapError fun e =>
        .because ("unexpected response shape from " ++ url.text) (.first (.json e))

/-- **What has to be there is asked for once.** -/
theorem get_eq (h : base.join path = .ok url) :
    (get base path r).outcome = .ask (.get url) fun reply => .done (received url path r reply) := by
  rw [get, get?, h]
  show Program.ask _ _ = _
  congr 1
  funext reply
  cases reply with
  | none => rfl
  | some response =>
    obtain ⟨status, body⟩ := response
    show Program.bind (Program.bind (.done (Except.ok (HttpResponse.mk status body))) _) _ = _
    simp only [Program.bind, ExceptT.bindCont]
    by_cases hmissing : status = 404
    · subst hmissing
      rfl
    · rw [received, if_neg hmissing, if_neg hmissing]
      cases (HttpResponse.mk status body).isSuccess with
      | false => rfl
      | true =>
        cases body with
        | none => rfl
        | some bytes =>
          -- the body is there, so what it is read as decides
          have hbody (f : Bytes → Attempt Http Failure (Option α)) :
            (Attempt.ofExcept (.ok bytes) >>= f) = f bytes := rfl
          simp only [Http.bodyOf, Except.mapError, hbody]
          cases (record (field "data" r)).read bytes with
          | error e => rfl
          | ok a => rfl

/-- **A resource is had just from a whole body that can be read**, of a status of success. -/
theorem received_eq_ok_iff {reply : Option HttpResponse} {a : α} :
    received url path r reply = .ok a ↔ ∃ response bytes, reply = some response ∧
      response.isSuccess = true ∧ response.body = some bytes ∧
      (record (field "data" r)).read bytes = .ok a := by
  constructor
  · intro h
    cases reply with
    | none => cases h
    | some response =>
      rw [received] at h
      split at h
      · cases h
      · split at h
        · cases h
        · rename_i hsuccess
          split at h
          · cases h
          · rename_i bytes hbody
            refine ⟨response, bytes, rfl, by simpa using hsuccess, hbody, ?_⟩
            cases hread : (record (field "data" r)).read bytes with
            | error e =>
              rw [hread] at h
              cases h
            | ok a' =>
              rw [hread] at h
              cases h
              rfl
  · rintro ⟨⟨status, _⟩, bytes, rfl, hsuccess, rfl, hread⟩
    have hfound : status ≠ 404 := by
      rintro rfl
      exact absurd hsuccess (by simp [HttpResponse.isSuccess])
    rw [received, if_neg hfound, hsuccess]
    simp only [hread]
    rfl

end Get

/-! ## Records of validators -/

/-- The JSON tells of the validator what there is to tell, and may tell other things. -/
def Tells (v : ValidatorStatus) (j : Json) : Prop :=
  ∃ ms standing : List (String × Json), j = .object ms ∧
    (ms.map Prod.fst).Nodup ∧ (standing.map Prod.fst).Nodup ∧
    [("index", quotedJson v.index), ("balance", quotedJson v.balance), ("status", .string v.status),
      ("validator", .object standing)] ⊆ ms ∧
    [("pubkey", v.pubkey.json), ("slashed", .bool v.slashed),
      ("activation_epoch", quotedJson v.activationEpoch), ("exit_epoch", quotedJson v.exitEpoch)] ⊆
        standing

open Json.Reader Json.FieldReader in
/-- A record is read as the validator it tells of. -/
theorem validatorReader_reads {v : ValidatorStatus} {j : Json} (h : Tells v j) :
    validatorReader.Reads j.tree v := by
  obtain ⟨ms, standing, rfl, hkeys, hkeys', hms, hstanding⟩ := h
  simp only [List.cons_subset, List.nil_subset, and_true] at hms hstanding
  obtain ⟨hindex, hbalance, hstatus, hvalidator⟩ := hms
  obtain ⟨hpubkey, hslashed, hactivation, hexit⟩ := hstanding
  have hinner : standingReader.Reads (Json.object standing).tree
      ⟨v.pubkey, v.slashed, v.activationEpoch, v.exitEpoch⟩ := by
    refine record_reads_of_mem hkeys' fun value? hvalue => ?_
    exact seq_reads (seq_reads (seq_reads (map_reads
      (field_reads (hvalue _ hpubkey) (fixedBytes_reads v.pubkey)))
      (field_reads (hvalue _ hslashed) (bool_reads v.slashed)))
      (field_reads (hvalue _ hactivation) (quotedUInt64_reads v.activationEpoch).2))
      (field_reads (hvalue _ hexit) (quotedUInt64_reads v.exitEpoch).2)
  refine record_reads_of_mem hkeys fun value? hvalue => ?_
  exact seq_reads (seq_reads (seq_reads (map_reads
    (field_reads (hvalue _ hindex) (quotedUInt64_reads v.index).2))
    (field_reads (hvalue _ hbalance) (quotedUInt64_reads v.balance).2))
    (field_reads (hvalue _ hstatus) (string_reads v.status)))
    (field_reads (hvalue _ hvalidator) hinner)

/-- The response holds records of these validators, whatever else it holds. -/
def Lists (vs : List ValidatorStatus) (response : HttpResponse) : Prop :=
  response.isSuccess = true ∧
    ∃ (ms : List (String × Json)) (js : List Json), response.body = some (Json.object ms).write ∧
      (Json.object ms).Fits ∧ (ms.map Prod.fst).Nodup ∧ ("data", .array js) ∈ ms ∧
      List.Forall₂ Tells vs js

/-- **Validators are received as the response lists them.** -/
theorem received_of_lists {vs : List ValidatorStatus} {response : HttpResponse}
    (h : Lists vs response) (url : Url) (path : String) :
    received url path (.list validatorReader) (some response) = .ok vs := by
  obtain ⟨hsuccess, ms, js, hbody, hfits, hkeys, hdata, hvs⟩ := h
  have hlist : (Reader.list validatorReader).Reads (Json.array js).tree vs := by
    rw [tree, trees_eq_map]
    refine Reader.list_reads (List.forall₂_map_left_iff.2 ?_)
    exact hvs.flip.imp fun _ _ => validatorReader_reads
  refine received_eq_ok_iff.2 ⟨response, _, rfl, hsuccess, hbody, ?_⟩
  rw [Reader.read, scan_write hfits]
  exact record_reads_of_mem hkeys (fun value? hvalue =>
    FieldReader.field_reads (hvalue _ hdata) hlist) []

end Beacon.Rest
end PoolKeeper
