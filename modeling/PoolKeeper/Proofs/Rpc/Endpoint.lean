/-
What is asked of an execution client.

A question is one request, sent until it is settled, and its answer is read from the
last reply (`runs_ask`). The header of a block is asked for so (`runs_headers`), and a
reply that shows one ends the asking. Among the calls to the contracts only the sending
of a reduction makes requests to reduce a bond (`method_ne_of_runs`).
-/
import PoolKeeper.Proofs.Rpc.Retry
import PoolKeeper.Rpc.Contracts

namespace PoolKeeper.Rpc

/-- What a client replies, to each call after all that was said before. -/
abbrev Client : Type := List (Exchange Endpoint) → (call : Endpoint.Call) → Endpoint.Reply call

variable {α β ε ε' : Type} {b : Backoff} {log : List (Exchange Endpoint)}

/-- **A question** is a request that is sent until it is settled. -/
theorem runs_ask {method : String} {params : List Json} {r : Json.Reader α} {q : Except Fault α} :
    (ask b method params r).Runs log q ↔
      ∃ reply, (send b ⟨method, params⟩).Runs log reply ∧ q = reply.bind (Answer.read r) := by
  rw [ask, Attempt.runs_ofOutcome, Program.runs_bind]
  constructor
  · rintro ⟨reply, l₁, l₂, hsend, hend, rfl⟩
    obtain ⟨rfl, rfl⟩ := Program.runs_pure.1 hend
    exact ⟨reply, by rwa [List.append_nil], rfl⟩
  · rintro ⟨reply, hsend, rfl⟩
    exact ⟨reply, log, [], hsend, .done _, (List.append_nil log).symm⟩

/-! ## Headers -/

/-- The request for a block. -/
def blockRequest (tag : BlockTag) : Request := ⟨"eth_getBlockByNumber", [tag.json, .bool false]⟩

/-- The block that a call wants the header of. -/
def tagOf : Headers.Call → BlockTag
  | .byNumber n => .number n
  | .latest => .latest

/-- What is read from the reply to a request for a block. -/
def blockIn (reply : Except Fault Answer) : Except Fault (Option Block) :=
  reply.bind (Answer.read (.optional Block.reader))

/-- The header of the block that a reply shows. -/
def headerIn? (reply : Except Fault Answer) : Option BlockHeader :=
  match blockIn reply with
  | .ok (some block) => some block.header
  | _ => none

/-- What comes of the reply to a request for a header. -/
def headerOf (tag : BlockTag) (reply : Except Fault Answer) : Except Failure BlockHeader :=
  match blockIn reply with
  | .ok (some block) => .ok block.header
  | .ok none => .error (.because tag.purpose (.text ("block " ++ tag.named ++ " does not exist")))
  | .error f => .error (.because tag.purpose (.first (.rpc f)))

theorem headerOf_eq_ok_iff {tag : BlockTag} {reply : Except Fault Answer} {h : BlockHeader} :
    headerOf tag reply = .ok h ↔ headerIn? reply = some h := by
  rw [headerOf, headerIn?]
  cases blockIn reply with
  | error f => simp
  | ok block => cases block <;> simp

theorem transient_of_headerIn? {reply : Except Fault Answer} {h : BlockHeader}
    (hshown : headerIn? reply = some h) : transient reply = false := by
  cases reply with
  | ok answer => rfl
  | error f => cases hshown

/-- **The header of a block** is asked for by one request. -/
theorem headers_eq (b : Backoff) (call : Headers.Call) :
    headers b call = headerOf (tagOf call) <$> send b (blockRequest (tagOf call)) := by
  have hheader : ∀ tag, (header b tag).outcome = headerOf tag <$> send b (blockRequest tag) := by
    intro tag
    have hopen : (header b tag).outcome =
        (fun r : Except Failure BlockHeader => r.mapError (.because tag.purpose)) <$>
          (((fun r : Except Fault (Option Block) => r.mapError (.first ∘ .rpc)) <$>
            (blockIn <$> send b (blockRequest tag))) >>= ExceptT.bindCont _) := rfl
    rw [hopen]
    simp only [map_eq_pure_bind, bind_assoc, pure_bind]
    refine congrArg (send b (blockRequest tag) >>= ·) (funext fun reply => ?_)
    rw [headerOf]
    cases blockIn reply with
    | error f => rfl
    | ok found => cases found <;> rfl
  cases call <;> exact hheader _

theorem runs_headers {call : Headers.Call} {r : Except Failure BlockHeader} :
    (headers b call).Runs log r ↔
      ∃ reply, (send b (blockRequest (tagOf call))).Runs log reply ∧
        r = headerOf (tagOf call) reply := by
  rw [headers_eq, Program.runs_map]

/-! ## Methods -/

/-- None of the requests that an attempt makes has this method, whatever the replies are. -/
def Avoids (avoided : String) (p : Attempt Endpoint ε α) : Prop :=
  ∀ log r, p.Runs log r → ∀ x ∈ sendings log, x.1.method ≠ avoided

section Avoids
variable {avoided method : String} {params : List Json}

theorem avoids_ask {r : Json.Reader α} (h : method ≠ avoided) :
    Avoids avoided (ask b method params r) := by
  intro log q hruns x hx
  obtain ⟨reply, hsend, -⟩ := runs_ask.1 hruns
  rw [(sentUntilSettled_of_runs hsend).request_eq hx]
  exact h

theorem avoids_pure (a : α) : Avoids avoided (pure a : Attempt Endpoint ε α) := by
  intro log r hruns
  obtain ⟨rfl, -⟩ := Attempt.runs_pure.1 hruns
  simp [sendings]

theorem avoids_throw (e : ε) : Avoids avoided (throw e : Attempt Endpoint ε α) := by
  intro log r hruns
  obtain ⟨rfl, -⟩ := Attempt.runs_throw.1 hruns
  simp [sendings]

theorem Avoids.mapError {p : Attempt Endpoint ε α} (h : Avoids avoided p) (f : ε → ε') :
    Avoids avoided (p.mapError f) := by
  intro log r hruns
  obtain ⟨q, hq, -⟩ := Attempt.runs_mapError.1 hruns
  exact h log q hq

theorem Avoids.bind {p : Attempt Endpoint ε α} {f : α → Attempt Endpoint ε β}
    (hp : Avoids avoided p) (hf : ∀ a, Avoids avoided (f a)) : Avoids avoided (p >>= f) := by
  intro log r hruns
  rcases Attempt.runs_bind.1 hruns with ⟨e, herror, -⟩ | ⟨a, l₁, l₂, hok, hrest, rfl⟩
  · exact hp log _ herror
  · intro x hx
    rw [sendings_append, List.mem_append] at hx
    rcases hx with hx | hx
    · exact hp l₁ _ hok x hx
    · exact hf a l₂ _ hrest x hx

theorem avoids_contract {r : Json.Reader α} (h : method ≠ avoided) :
    Avoids avoided (contract b method params r) := (avoids_ask h).mapError _

theorem avoids_oneForEach {r : Json.Reader α} {count : Nat} {questions : String}
    (h : method ≠ avoided) : Avoids avoided (oneForEach b method params r count questions) := by
  refine (avoids_contract h).bind fun results => ?_
  split
  · exact avoids_pure _
  · exact avoids_throw _

/-- A fee is suggested from those of the last blocks, or else from the last block. -/
theorem avoids_suggestedFee (hhistory : "eth_feeHistory" ≠ avoided)
    (hblock : "eth_getBlockByNumber" ≠ avoided) : Avoids avoided (suggestedFee b) := by
  have hlatest : Avoids avoided (suggestedFee.ofLatestBlock b) := by
    refine (avoids_ask hblock).bind fun found => ?_
    cases found with
    | none => exact avoids_throw _
    | some block =>
      cases hfee : block.baseFee with
      | none => simpa only [hfee] using avoids_throw _
      | some fee => simpa only [hfee] using avoids_pure _
  refine (avoids_ask hhistory).bind fun history => ?_
  have hcap : ∀ base : Fee,
      Avoids avoided (pure (feeCap base history.rewards) : Attempt Endpoint Fault Fee) :=
    fun base => avoids_pure _
  cases history.latestBaseFee? with
  | none => exact hlatest.bind hcap
  | some base =>
    simp only
    split
    · exact hlatest.bind hcap
    · exact hcap base

/-- **Only the sending of a reduction** makes requests to reduce a bond. -/
theorem method_ne_of_runs {call : Chain.Call} {reply : Chain.Reply call}
    (hcall : ∀ minipool options, call ≠ .sendReduction minipool options)
    (h : (contracts b call).Runs log reply) :
    ∀ x ∈ sendings log, x.1.method ≠ "rp_reduceBondAmount" := by
  cases call with
  | readWords reads block => exact avoids_oneForEach (by decide) log _ h
  | isAtlasDeployed block => exact avoids_contract (by decide) log _ h
  | nodeDetails offset limit block => exact avoids_contract (by decide) log _ h
  | minipoolDetails offset limit block => exact avoids_contract (by decide) log _ h
  | minipoolShares balances block => exact avoids_oneForEach (by decide) log _ h
  | rewardsEvent pool interval => exact (avoids_contract (by decide)).mapError _ log _ h
  | estimateReduceBond minipool => exact avoids_contract (by decide) log _ h
  | sendReduction minipool options => exact absurd rfl (hcall minipool options)
  | suggestedFeeCap =>
    have hfee := avoids_suggestedFee (b := b) (by decide : _ ≠ "rp_reduceBondAmount") (by decide)
    exact (hfee.bind fun fee => avoids_pure _).mapError _ log _ h

end Avoids

end PoolKeeper.Rpc
