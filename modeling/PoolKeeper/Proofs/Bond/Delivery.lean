/-
How often a reduction goes out to the execution client.

The line sends every request until it is settled, and makes no difference between a
reading and a transaction: a reduction whose answer was lost goes out again
(`sent_again_after_lost_answer`). In a pass there is one call for a minipool at most, so
what goes out for it is what one call sends, and at most one of these requests meets
with anything but a passing error (`reductions_until_settled`). A client that leaves
requests undone when it answers them with such an error does one reduction.
-/
import PoolKeeper.Proofs.Bond.Submissions
import PoolKeeper.Proofs.Rpc.Endpoint

namespace PoolKeeper

open Rpc (Endpoint Client Backoff Fault Answer)

/-- The minipool whose bond a request asks to reduce. -/
def Rpc.Request.reduction? (r : Rpc.Request) : Option Address :=
  if r.method = "rp_reduceBondAmount" then
    match r.params with
    | .string minipool :: _ => FixedBytes.ofText? minipool
    | _ => none
  else none

/-- The request that a reduction is sent by. -/
def reductionRequest (minipool : Address) (options : TxOptions) : Rpc.Request :=
  ⟨"rp_reduceBondAmount", [minipool.json, options.json]⟩

theorem reduction?_reductionRequest (minipool : Address) (options : TxOptions) :
    (reductionRequest minipool options).reduction? = some minipool :=
  FixedBytes.ofText?_text minipool

/-- The requests to reduce the bond of a minipool that go out, and what becomes of each. -/
def reductionsOf (minipool : Address) (log : List (Exchange Endpoint)) :
    List (Rpc.Request × Except Fault Answer) :=
  (Rpc.sendings log).filter fun x => x.1.reduction? = some minipool

theorem reductionsOf_append (minipool : Address) (l l' : List (Exchange Endpoint)) :
    reductionsOf minipool (l ++ l') = reductionsOf minipool l ++ reductionsOf minipool l' := by
  rw [reductionsOf, Rpc.sendings_append, List.filter_append]
  rfl

section Runs
variable {b : Backoff} {log : List (Exchange Endpoint)} {minipool other : Address}
  {options : TxOptions} {call : Chain.Call}

/-- **One call** sends one request until it is settled. -/
theorem sent_of_runs {reply : Except Failure Hash}
    (h : (Rpc.contracts b (.sendReduction minipool options)).Runs log reply) :
    Rpc.SentUntilSettled b (reductionRequest minipool options) (Rpc.sendings log) := by
  obtain ⟨q, hask, -⟩ := Attempt.runs_mapError.1 h
  obtain ⟨answer, hsend, -⟩ := Rpc.runs_ask.1 hask
  exact Rpc.sentUntilSettled_of_runs hsend

theorem reductionsOf_self {reply : Except Failure Hash}
    (h : (Rpc.contracts b (.sendReduction minipool options)).Runs log reply) :
    reductionsOf minipool log = Rpc.sendings log := by
  refine List.filter_eq_self.2 fun x hx => ?_
  rw [(sent_of_runs h).request_eq hx]
  simp [reduction?_reductionRequest]

/-- A call that is not about a minipool sends nothing for it. -/
theorem reductionsOf_eq_nil {reply : Chain.Reply call}
    (hcall : ∀ options, call ≠ .sendReduction minipool options)
    (h : (Rpc.contracts b call).Runs log reply) : reductionsOf minipool log = [] := by
  refine List.filter_eq_nil_iff.2 fun x hx => ?_
  by_cases hsend : ∃ other options, call = .sendReduction other options
  · obtain ⟨other, options, rfl⟩ := hsend
    have hother : other ≠ minipool := by
      rintro rfl
      exact hcall options rfl
    rw [(sent_of_runs h).request_eq hx]
    simp [reduction?_reductionRequest, hother]
  · have hmethod := Rpc.method_ne_of_runs (fun a o heq => hsend ⟨a, o, heq⟩) h x hx
    simp [Rpc.Request.reduction?, hmethod]

end Runs

/-! ## Passes -/

section Pass
variable {b : Backoff} {minipool : Address} {options : TxOptions} {x : Relayed Chain Endpoint}
  {relayed : List (Relayed Chain Endpoint)}

/-- The minipools for which a reduction was sent. -/
def sentFor (relayed : List (Relayed Chain Endpoint)) : List Address :=
  (submissions (relayed.map Relayed.exchange)).map Prod.fst

theorem sentFor_cons_of_eq (h : x.exchange.1 = .sendReduction minipool options) :
    sentFor (x :: relayed) = minipool :: sentFor relayed := by
  obtain ⟨⟨call, reply⟩, below⟩ := x
  cases h
  rfl

theorem sentFor_cons_of_ne
    (h : ∀ minipool options, x.exchange.1 ≠ .sendReduction minipool options) :
    sentFor (x :: relayed) = sentFor relayed := by
  obtain ⟨⟨call, reply⟩, below⟩ := x
  cases call with
  | sendReduction minipool options => exact absurd rfl (h minipool options)
  | _ => rfl

/-- What was not sent before the last calls is sent by the first, or not at all. -/
theorem mem_sentFor_cons : minipool ∈ sentFor (x :: relayed) ↔
    (∃ options, x.exchange.1 = .sendReduction minipool options) ∨ minipool ∈ sentFor relayed := by
  by_cases hsend : ∃ other options, x.exchange.1 = .sendReduction other options
  · obtain ⟨other, options, heq⟩ := hsend
    rw [sentFor_cons_of_eq heq, List.mem_cons, heq]
    simp [eq_comm]
  · have hne : ∀ other options, x.exchange.1 ≠ .sendReduction other options :=
      fun other options heq => hsend ⟨other, options, heq⟩
    rw [sentFor_cons_of_ne hne]
    simp [hne]

theorem nodup_sentFor_of_cons (h : (sentFor (x :: relayed)).Nodup) :
    (sentFor relayed).Nodup ∧ ∀ minipool options,
      x.exchange.1 = .sendReduction minipool options → minipool ∉ sentFor relayed := by
  by_cases hsend : ∃ other options, x.exchange.1 = .sendReduction other options
  · obtain ⟨other, options, heq⟩ := hsend
    rw [sentFor_cons_of_eq heq, List.nodup_cons] at h
    refine ⟨h.2, fun other' options' heq' => ?_⟩
    cases heq.symm.trans heq'
    exact h.1
  · have hne : ∀ other options, x.exchange.1 ≠ .sendReduction other options :=
      fun other options heq => hsend ⟨other, options, heq⟩
    rw [sentFor_cons_of_ne hne] at h
    exact ⟨h, fun other options heq => absurd heq (hne other options)⟩

/-- Nothing goes out for a minipool that no call is about. -/
theorem reductionsOf_of_not_mem
    (hanswers : ∀ x ∈ relayed, (Rpc.contracts b x.exchange.1).Runs x.below x.exchange.2)
    (hunsent : minipool ∉ sentFor relayed) :
    reductionsOf minipool (relayed.flatMap Relayed.below) = [] := by
  induction relayed with
  | nil => rfl
  | cons x relayed ih =>
    obtain ⟨hx, hanswers⟩ := List.forall_mem_cons.1 hanswers
    rw [mem_sentFor_cons, not_or, not_exists] at hunsent
    rw [List.flatMap_cons, reductionsOf_append, reductionsOf_eq_nil hunsent.1 hx,
      ih hanswers hunsent.2, List.nil_append]

/-- **What goes out for a minipool** that one call is about is what that call sends. -/
theorem sent_of_mem
    (hanswers : ∀ x ∈ relayed, (Rpc.contracts b x.exchange.1).Runs x.below x.exchange.2)
    (hnodup : (sentFor relayed).Nodup) (hsent : minipool ∈ sentFor relayed) :
    ∃ options, Rpc.SentUntilSettled b (reductionRequest minipool options)
      (reductionsOf minipool (relayed.flatMap Relayed.below)) := by
  induction relayed with
  | nil => cases hsent
  | cons x relayed ih =>
    obtain ⟨hx, hanswers⟩ := List.forall_mem_cons.1 hanswers
    obtain ⟨hlater, honce⟩ := nodup_sentFor_of_cons hnodup
    rw [List.flatMap_cons, reductionsOf_append]
    by_cases hfirst : ∃ options, x.exchange.1 = .sendReduction minipool options
    · obtain ⟨options, heq⟩ := hfirst
      rw [reductionsOf_of_not_mem hanswers (honce minipool options heq), List.append_nil]
      obtain ⟨⟨call, reply⟩, below⟩ := x
      obtain rfl : call = .sendReduction minipool options := heq
      rw [reductionsOf_self hx]
      exact ⟨options, sent_of_runs hx⟩
    · have hcall := not_exists.1 hfirst
      rw [reductionsOf_eq_nil hcall hx, List.nil_append]
      exact ih hanswers hlater ((mem_sentFor_cons.1 hsent).resolve_left hfirst)

end Pass

/-! ## What a client is sent -/

/-- What is said to a client while a call to the contracts is answered. -/
def saidForCall (b : Backoff) (client : Client) (call : Chain.Call) : List (Exchange Endpoint) :=
  ((Rpc.contracts b call).runIn (.recording client) []).2

/-- What is said to a client in a pass. -/
def saidInPass (b : Backoff) (client : Client) (s : Snapshot) (gas : GasSettings) (node : Address)
    (now : UInt64) : List (Exchange Endpoint) :=
  (((BondPass.run s gas node now).run (Rpc.contracts b)).runIn (.recording client) []).2

/-- A client whose first answer is lost, and that sends the hash of a transaction next. -/
def losingFirstAnswer : Client := fun said call =>
  match call with
  | .sleep _ => ()
  | .send _ =>
    if (Rpc.sendings said).isEmpty then .error (.transport .backendGone)
    else .ok (.result (.string (some (FixedBytes.text (.ofNat 0x77 : Hash)))))

/-- **A reduction goes out until it is settled.** Whatever the client replies: one call sends its
own request and no other, every time but the last after a passing error, and more often than the
first time only if there are retries and the first error was passing. In a pass nothing goes out for
a minipool or what one such call sends, so at most one of the requests for it meets with anything
but a passing error. -/
theorem reductions_until_settled (b : Backoff) (client : Client) :
    (∀ minipool options,
      let said := saidForCall b client (.sendReduction minipool options)
      let sent := Rpc.sendings said
      reductionsOf minipool said = sent ∧
        Rpc.SentUntilSettled b (reductionRequest minipool options) sent ∧
        sent.length ≤ b.maxRetries + 1 ∧
        (sent.length = 1 ∨
          0 < b.maxRetries ∧ ∃ x, sent.head? = some x ∧ Rpc.transient x.2 = true)) ∧
    (∀ s gas node now minipool,
      let sent := reductionsOf minipool (saidInPass b client s gas node now)
      (sent = [] ∨ ∃ options, Rpc.SentUntilSettled b (reductionRequest minipool options) sent) ∧
        sent.length ≤ b.maxRetries + 1 ∧
        sent.countP (fun x => !Rpc.transient x.2) ≤ 1) := by
  constructor
  · intro minipool options said sent
    obtain ⟨log, hlog, hruns, -⟩ := Program.runs_runIn client
      (Rpc.contracts b (.sendReduction minipool options)) []
    obtain rfl : said = log := hlog
    have hsent : Rpc.SentUntilSettled b (reductionRequest minipool options) sent :=
      sent_of_runs hruns
    exact ⟨reductionsOf_self hruns, hsent, hsent.length_le, hsent.length_eq_one_or⟩
  · intro s gas node now minipool sent
    obtain ⟨log, hlog, hruns, -⟩ := Program.runs_runIn client
      ((BondPass.run s gas node now).run (Rpc.contracts b)) []
    have hsaid : saidInPass b client s gas node now = log := hlog
    obtain ⟨relayed, hpass, hanswers, rfl⟩ := Program.runs_run.1 hruns
    obtain ⟨known, hleads⟩ := BondPass.leads_of_run hpass
    have hnodup : (sentFor relayed).Nodup := hleads.standing.nodup
    by_cases hmem : minipool ∈ sentFor relayed
    · obtain ⟨options, hsent⟩ := sent_of_mem hanswers hnodup hmem
      rw [← hsaid] at hsent
      exact ⟨.inr ⟨options, hsent⟩, hsent.length_le, hsent.countP_le_one⟩
    · have hnone := reductionsOf_of_not_mem hanswers hmem
      rw [← hsaid] at hnone
      have hsent : sent = [] := hnone
      simp [hsent]

/-- With one retry a reduction whose answer is lost goes out twice, and the client may have done it
the first time. -/
theorem sent_again_after_lost_answer :
    let minipool : Address := .ofNat 2
    let said := saidForCall ⟨0, 1⟩ losingFirstAnswer (.sendReduction minipool ⟨0, 0, 0⟩)
    (reductionsOf minipool said).length = 2 ∧
      (reductionsOf minipool said).map (fun x => Rpc.transient x.2) = [true, false] := by
  decide +kernel

end PoolKeeper
