/-
Requests that are sent until they are settled.

A run of `send` is told by the faults after which sending again may have helped and
by the reply after them (`runs_send`): the same request goes out once for each and a
last time, with a wait in between, and what comes of it is the last reply. There are
no more faults than retries, and another attempt is given up only when there are as
many.
-/
import PoolKeeper.Proofs.Transcript
import PoolKeeper.Rpc.Retry

namespace PoolKeeper.Rpc

variable {Request Response : Type}

/-- Sending again may help. -/
def transient : Except Fault Response → Bool
  | .ok _ => false
  | .error f => f.worthRetrying

/-- What is said while a request is sent, once for each fault and then for the last reply. -/
def attempts (b : Backoff) (request : Request) :
    (attempt : Nat) → List Fault → Except Fault Response → List (Exchange (Line Request Response))
  | _, [], last => [⟨.send request, last⟩]
  | attempt, f :: faults, last =>
    ⟨.send request, .error f⟩ :: ⟨.sleep (b.delay attempt), ()⟩ ::
      attempts b request (attempt + 1) faults last

/-- After these faults, with so many retries, a reply settles the request. -/
structure Settled (left : Nat) (faults : List Fault) (last : Except Fault Response) : Prop where
  passing : ∀ f ∈ faults, f.worthRetrying
  bounded : faults.length ≤ left
  final : transient last → faults.length = left

variable {b : Backoff} {request : Request} {left attempt : Nat} {faults : List Fault}
  {last reply : Except Fault Response} {log : List (Exchange (Line Request Response))}

theorem settled_nil (h : transient last → left = 0) : Settled left [] last :=
  ⟨by simp, Nat.zero_le _, fun hlast => (h hlast).symm⟩

theorem Settled.cons {f : Fault} (hf : f.worthRetrying) (h : Settled left faults last) :
    Settled (left + 1) (f :: faults) last := by
  refine ⟨List.forall_mem_cons.2 ⟨hf, h.passing⟩, ?_, fun hlast => ?_⟩
  · simpa using h.bounded
  · simpa using h.final hlast

theorem Settled.tail {f : Fault} (h : Settled (left + 1) (f :: faults) last) :
    f.worthRetrying ∧ Settled left faults last := by
  obtain ⟨hf, hfaults⟩ := List.forall_mem_cons.1 h.passing
  refine ⟨hf, hfaults, ?_, fun hlast => ?_⟩
  · simpa using h.bounded
  · simpa using h.final hlast

/-- The runs of `sendFrom`, by induction on the retries that are left. -/
theorem runs_sendFrom : (sendFrom b request left attempt).Runs log reply ↔
    ∃ faults, Settled left faults reply ∧ log = attempts b request attempt faults reply := by
  induction left generalizing attempt log with
  | zero =>
    rw [sendFrom, Program.runs_call]
    constructor
    · rintro rfl
      exact ⟨[], settled_nil fun _ => rfl, rfl⟩
    · rintro ⟨faults, hsettled, rfl⟩
      obtain rfl := List.eq_nil_of_length_eq_zero (Nat.le_zero.1 hsettled.bounded)
      rfl
  | succ left ih =>
    rw [sendFrom, Program.runs_ask]
    constructor
    · rintro ⟨r, rest, hrest, rfl⟩
      cases r with
      | ok response =>
        obtain ⟨rfl, rfl⟩ := Program.runs_done.1 hrest
        exact ⟨[], settled_nil nofun, rfl⟩
      | error f =>
        simp only at hrest
        split at hrest
        · rename_i hf
          obtain ⟨_, later, hlater, rfl⟩ := Program.runs_ask.1 hrest
          obtain ⟨faults, hsettled, rfl⟩ := ih.1 hlater
          exact ⟨f :: faults, hsettled.cons hf, rfl⟩
        · rename_i hf
          obtain ⟨rfl, rfl⟩ := Program.runs_done.1 hrest
          exact ⟨[], settled_nil fun hlast => absurd hlast hf, rfl⟩
    · rintro ⟨faults, hsettled, rfl⟩
      cases faults with
      | nil =>
        refine ⟨reply, [], ?_, rfl⟩
        cases reply with
        | ok response => exact .done _
        | error f =>
          have hf : ¬ f.worthRetrying := fun hf => by cases hsettled.final hf
          simp only [hf]
          exact .done _
      | cons f faults =>
        obtain ⟨hf, hsettled⟩ := hsettled.tail
        refine ⟨.error f, _, ?_, rfl⟩
        simp only [hf, if_true]
        exact Program.runs_ask.2 ⟨(), _, ih.2 ⟨faults, hsettled, rfl⟩, rfl⟩

/-- **What is said while a request is sent until it is settled.** -/
theorem runs_send : (send b request).Runs log reply ↔
    ∃ faults, Settled b.maxRetries faults reply ∧ log = attempts b request 0 faults reply :=
  runs_sendFrom

/-- The last thing said is the reply that settles the request. -/
theorem attempts_eq_append (b : Backoff) (request : Request) (attempt : Nat) (faults : List Fault)
    (last : Except Fault Response) :
    ∃ before, attempts b request attempt faults last = before ++ [⟨.send request, last⟩] := by
  induction faults generalizing attempt with
  | nil => exact ⟨[], rfl⟩
  | cons f faults ih =>
    obtain ⟨before, hbefore⟩ := ih (attempt + 1)
    rw [attempts, hbefore]
    exact ⟨_ :: _ :: before, rfl⟩

/-! ## What goes out -/

/-- A request that goes out, and what becomes of it. -/
def sending? : Exchange (Line Request Response) → Option (Request × Except Fault Response)
  | ⟨.send request, reply⟩ => some (request, reply)
  | ⟨.sleep _, _⟩ => none

/-- The requests that go out, in order. -/
def sendings (log : List (Exchange (Line Request Response))) :
    List (Request × Except Fault Response) := log.filterMap sending?

theorem sendings_append (l l' : List (Exchange (Line Request Response))) :
    sendings (l ++ l') = sendings l ++ sendings l' := List.filterMap_append

/-- A request that is sent until it is settled: every time but the last something passing was in
the way. -/
def SentUntilSettled (b : Backoff) (request : Request)
    (sent : List (Request × Except Fault Response)) : Prop :=
  ∃ faults last, Settled b.maxRetries faults last ∧
    sent = faults.map (fun f => (request, .error f)) ++ [(request, last)]

theorem sendings_attempts : sendings (attempts b request attempt faults last) =
    faults.map (fun f => (request, .error f)) ++ [(request, last)] := by
  induction faults generalizing attempt with
  | nil => rfl
  | cons f faults ih => exact congrArg ((request, .error f) :: ·) ih

theorem sentUntilSettled_of_runs (h : (send b request).Runs log reply) :
    SentUntilSettled b request (sendings log) := by
  obtain ⟨faults, hsettled, rfl⟩ := runs_send.1 h
  exact ⟨faults, reply, hsettled, sendings_attempts⟩

namespace SentUntilSettled
variable {sent : List (Request × Except Fault Response)}

theorem request_eq (h : SentUntilSettled b request sent)
    {x : Request × Except Fault Response} (hx : x ∈ sent) : x.1 = request := by
  obtain ⟨faults, last, -, rfl⟩ := h
  rw [List.mem_append, List.mem_map, List.mem_singleton] at hx
  rcases hx with ⟨f, -, rfl⟩ | rfl <;> rfl

/-- Only the last time can it have been something that does not pass. -/
theorem countP_le_one (h : SentUntilSettled b request sent) :
    sent.countP (fun x => !transient x.2) ≤ 1 := by
  obtain ⟨faults, last, hsettled, rfl⟩ := h
  have hfaults : (faults.map fun f => (request, (.error f : Except Fault Response))).countP
      (fun x => !transient x.2) = 0 := by
    rw [List.countP_eq_zero]
    intro x hx
    obtain ⟨f, hf, rfl⟩ := List.mem_map.1 hx
    simp [transient, hsettled.passing f hf]
  rw [List.countP_append, hfaults, Nat.zero_add]
  exact List.countP_le_length

theorem length_le (h : SentUntilSettled b request sent) : sent.length ≤ b.maxRetries + 1 := by
  obtain ⟨faults, last, hsettled, rfl⟩ := h
  simpa using hsettled.bounded

/-- It is sent again only if there are retries and the first error was passing. -/
theorem length_eq_one_or (h : SentUntilSettled b request sent) : sent.length = 1 ∨
    0 < b.maxRetries ∧ ∃ x, sent.head? = some x ∧ transient x.2 = true := by
  obtain ⟨faults, last, hsettled, rfl⟩ := h
  cases faults with
  | nil => exact .inl rfl
  | cons f faults =>
    have hbound := hsettled.bounded
    rw [List.length_cons] at hbound
    exact .inr ⟨by omega, (request, .error f), rfl, hsettled.passing f List.mem_cons_self⟩

end SentUntilSettled

end PoolKeeper.Rpc
