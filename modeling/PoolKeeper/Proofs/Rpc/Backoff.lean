/-
How often a request is sent, and how long the waits are.

Against a line that gives one answer after the other, a request is sent until an answer
is no passing error, or the retries are used up (`sent_with_backoff`). Its waits double
from the first on, up to the longest. The factor stops growing after sixteen retries, when
every wait of a millisecond or more has come to the longest long since (`delay_eq`), so
that it fits a machine word (`wordDelay_eq`).
-/
import Mathlib.Data.List.Induction
import Mathlib.Order.Bounds.Defs
import PoolKeeper.Proofs.Rpc.Retry

namespace PoolKeeper.Rpc

variable {Request Response : Type}

/-! ## Waits -/

/-- **A wait is doubled once for each retry before it**, and is no longer than the longest. -/
theorem delay_eq (b : Backoff) (attempt : Nat) :
    b.delay attempt = min (b.initial * 2 ^ attempt) maxDelay := by
  rw [Backoff.delay]
  rcases Nat.le_total attempt 16 with hfew | hmany
  · rw [Nat.min_eq_left hfew]
  rw [Nat.min_eq_right hmany]
  -- after sixteen retries the wait is the longest, unless it is none at all
  rcases Nat.eq_zero_or_pos b.initial with hzero | hpos
  · simp [hzero]
  · have hlong : maxDelay ≤ b.initial * 2 ^ 16 :=
      Nat.le_trans (by decide) (Nat.le_mul_of_pos_left (2 ^ 16) hpos)
    have hgrows : b.initial * 2 ^ 16 ≤ b.initial * 2 ^ attempt :=
      Nat.mul_le_mul_left _ (Nat.pow_le_pow_right (by decide) hmany)
    rw [Nat.min_eq_right hlong, Nat.min_eq_right (Nat.le_trans hlong hgrows)]

/-- The longest time that a clock of 64-bit seconds and of nanoseconds can measure, in whole
milliseconds. -/
def longestTime : Nat := (2 ^ 64 - 1) * 1000 + 999

/-- A wait computed in machine words: the factor is a power of two in 32 bits, and the product is
cut off at the longest time. -/
def Backoff.wordDelay (b : Backoff) (attempt : UInt32) : Nat :=
  min (min (b.initial * ((1 : UInt32) <<< min attempt 16).toNat) longestTime) maxDelay

/-- The factor of a wait fits its word. -/
theorem toNat_factor (attempt : UInt32) :
    ((1 : UInt32) <<< min attempt 16).toNat = 2 ^ min attempt.toNat 16 := by
  have hmin : (min attempt 16).toNat = min attempt.toNat 16 := by
    rw [UInt32.min_def]
    split <;> rename_i h <;> rw [UInt32.le_iff_toNat_le] at h <;>
      simp only [UInt32.reduceToNat] at h ⊢ <;> omega
  have hsmall : 2 ^ min attempt.toNat 16 < 2 ^ 32 := Nat.pow_lt_pow_right (by decide) (by omega)
  have hshift : min attempt.toNat 16 < 32 := by omega
  rw [UInt32.toNat_shiftLeft, hmin, Nat.mod_eq_of_lt hshift, UInt32.toNat_one, Nat.one_shiftLeft,
    Nat.mod_eq_of_lt hsmall]

/-- **Nothing overflows**: machine words compute the wait as it should be. -/
theorem wordDelay_eq (b : Backoff) (attempt : UInt32) :
    b.wordDelay attempt = min (b.initial * 2 ^ attempt.toNat) maxDelay := by
  have hshort : maxDelay ≤ longestTime := by decide
  rw [← delay_eq, Backoff.wordDelay, Backoff.delay, toNat_factor, Nat.min_assoc,
    Nat.min_eq_right hshort]

/-- A wait, and how long it is. -/
def wait? : Exchange (Line Request Response) → Option Nat
  | ⟨.send _, _⟩ => none
  | ⟨.sleep milliseconds, _⟩ => some milliseconds

/-- The waits, in order. -/
def waits (log : List (Exchange (Line Request Response))) : List Nat := log.filterMap wait?

/-! ## Answers -/

/-- A failure of the transport, or an answer that asks for fewer requests. -/
inductive Passing : Except Fault Response → Prop
  | transport (f : TransportFault) : Passing (.error (.transport f))
  | tooManyRequests (message : String) : Passing (.error (.answered 429 message))
  | limitExceeded (message : String) : Passing (.error (.answered (-32005) message))

theorem transient_iff {answer : Except Fault Response} :
    transient answer = true ↔ Passing answer := by
  constructor
  · intro h
    cases answer with
    | ok response => cases h
    | error f =>
      cases f with
      | transport f => exact .transport f
      | answered code message =>
        simp only [transient, Fault.worthRetrying, rateLimitCodes, List.contains_eq_mem,
          decide_eq_true_eq, List.mem_cons, List.not_mem_nil, or_false] at h
        rcases h with rfl | rfl
        · exact .tooManyRequests message
        · exact .limitExceeded message
      | _ => cases h
  · intro h
    cases h <;> rfl

/-- A line that gives one answer after the other, whatever it is sent. -/
def inTurn (answers : Nat → Except Fault Response)
    (said : List (Exchange (Line Request Response))) :
    (call : Line.Call Request) → Line.Reply Response call
  | .send _ => answers (sendings said).length
  | .sleep _ => ()

variable {answers : Nat → Except Fault Response} {log : List (Exchange (Line Request Response))}

/-- The answers that were given are the first there are. -/
theorem sendings_inTurn (h : RepliedBy (inTurn answers) log) :
    (sendings log).map Prod.snd = (List.range (sendings log).length).map answers := by
  induction log using List.reverseRecOn with
  | nil => rfl
  | append_singleton log x ih =>
    have hlog : RepliedBy (inTurn answers) log := fun l₁ y l₂ hsplit =>
      h l₁ y (l₂ ++ [x]) (by rw [hsplit, List.append_assoc, List.cons_append])
    have hlast := h log x [] rfl
    obtain ⟨call, reply⟩ := x
    rw [sendings_append, List.map_append, ih hlog]
    cases call with
    | sleep milliseconds =>
      have hnone :
          sendings [(⟨.sleep milliseconds, reply⟩ : Exchange (Line Request Response))] = [] := rfl
      rw [hnone, List.map_nil, List.append_nil, List.append_nil]
    | send request =>
      obtain rfl : reply = answers (sendings log).length := hlast
      simp [sendings, sending?, List.range_succ]

/-- A time that a request was sent in vain, and the wait after it. -/
def retried (request : Request) (answer : Except Fault Response) (milliseconds : Nat) :
    List (Exchange (Line Request Response)) :=
  [⟨.send request, answer⟩, ⟨.sleep milliseconds, ()⟩]

/-- What is said while a request is sent, told by the answers. -/
theorem attempts_eq (b : Backoff) (request : Request) (attempt : Nat) {faults : List Fault}
    (last : Except Fault Response)
    (h : faults.map .error = (List.range faults.length).map answers) :
    attempts b request attempt faults last =
      (List.range faults.length).flatMap
        (fun j => retried request (answers j) (b.delay (attempt + j))) ++
      [⟨.send request, last⟩] := by
  induction faults generalizing attempt answers with
  | nil => rfl
  | cons f faults ih =>
    rw [List.length_cons, List.range_succ_eq_map, List.map_cons, List.map_cons, List.map_map] at h
    obtain ⟨hfirst, hlater⟩ := List.cons.inj h
    rw [attempts, ih (attempt + 1) hlater, List.length_cons,
      List.range_succ_eq_map, List.flatMap_cons, List.flatMap_map, hfirst]
    simp only [Nat.add_right_comm attempt 1]
    rfl

theorem waits_attempts (b : Backoff) (request : Request) (attempt : Nat) (faults : List Fault)
    (last : Except Fault Response) :
    waits (attempts b request attempt faults last) =
      (List.range faults.length).map fun j => b.delay (attempt + j) := by
  induction faults generalizing attempt with
  | nil => rfl
  | cons f faults ih =>
    have hfirst : waits (attempts b request attempt (f :: faults) last) =
        b.delay attempt :: waits (attempts b request (attempt + 1) faults last) := rfl
    rw [hfirst, ih, List.length_cons, List.range_succ_eq_map, List.map_cons, List.map_map]
    simp only [Nat.add_right_comm attempt 1]
    rfl

/-- Sending ends with the first answer that does not pass, or with the last retry. -/
theorem Settled.isLeast {left : Nat} {faults : List Fault} {last : Except Fault Response}
    (h : Settled left faults last)
    (hfaults : faults.map .error = (List.range faults.length).map answers)
    (hlast : last = answers faults.length) :
    IsLeast {n | n = left ∨ ¬ Passing (answers n)} faults.length := by
  constructor
  · by_cases hpassing : Passing (answers faults.length)
    · exact .inl (h.final (transient_iff.2 (hlast ▸ hpassing)))
    · exact .inr hpassing
  · intro n hn
    rcases hn with rfl | hn
    · exact h.bounded
    by_contra hearly
    -- the answer is one of those after which the request was sent again
    have hmem : answers n ∈ faults.map .error := by
      rw [hfaults]
      exact List.mem_map_of_mem (List.mem_range.2 (Nat.lt_of_not_le hearly))
    obtain ⟨f, hf, heq⟩ := List.mem_map.1 hmem
    exact hn (transient_iff.1 (heq ▸ h.passing f hf))

/-- A run against a line that answers in turn is told by the first answers there are. -/
theorem runs_inTurn {b : Backoff} {request : Request} {reply : Except Fault Response}
    (hruns : (send b request).Runs log reply) (hreplied : RepliedBy (inTurn answers) log) :
    ∃ faults : List Fault, Settled b.maxRetries faults reply ∧
      log = attempts b request 0 faults reply ∧
      faults.map .error = (List.range faults.length).map answers ∧
      reply = answers faults.length := by
  obtain ⟨faults, hsettled, hlog⟩ := runs_send.1 hruns
  have hsent : sendings log = faults.map (fun f => (request, .error f)) ++ [(request, reply)] := by
    rw [hlog, sendings_attempts]
  have hgiven := sendings_inTurn hreplied
  rw [hsent, List.length_append, List.length_map, List.length_singleton, List.range_succ,
    List.map_append, List.map_append, List.map_map] at hgiven
  obtain ⟨hfaults, hlast⟩ := List.append_inj' hgiven rfl
  exact ⟨faults, hsettled, hlog, hfaults, (List.cons.inj hlast).1⟩

/-- **A request is sent until an answer does not pass, or the retries are used up**, with a wait
before each retry that is twice as long as the one before, up to half a minute. The last answer
is what comes of it. -/
theorem sent_with_backoff (b : Backoff) (request : Request)
    (answers : Nat → Except Fault Response) :
    let run := (send b request).runIn (.recording (inTurn answers)) []
    (∃ k, IsLeast {n | n = b.maxRetries ∨ ¬ Passing (answers n)} k ∧
      run.1 = answers k ∧
      run.2 = (List.range k).flatMap
          (fun j => retried request (answers j) (min (b.initial * 2 ^ j) 30000)) ++
        [⟨.send request, answers k⟩] ∧
      sendings run.2 = (List.range (k + 1)).map (fun i => (request, answers i)) ∧
      waits run.2 = (List.range k).map (fun j => min (b.initial * 2 ^ j) 30000)) ∧
    ∀ attempt : UInt32, b.delay attempt.toNat = min (b.initial * 2 ^ attempt.toNat) 30000 ∧
      b.wordDelay attempt = min (b.initial * 2 ^ attempt.toNat) 30000 := by
  intro run
  refine ⟨?_, fun attempt => ⟨delay_eq b attempt.toNat, wordDelay_eq b attempt⟩⟩
  obtain ⟨log, hlog, hruns, hreplied⟩ := Program.runs_runIn (inTurn answers) (send b request) []
  change run.2 = log at hlog
  obtain ⟨faults, hsettled, hattempts, hfaults, hlast⟩ := runs_inTurn hruns hreplied
  refine ⟨faults.length, hsettled.isLeast hfaults hlast, hlast, ?_, ?_, ?_⟩
  · rw [hlog, hattempts, attempts_eq b request 0 _ hfaults, hlast]
    simp only [Nat.zero_add, delay_eq, maxDelay]
  · have hpairs : faults.map (fun f => (request, (.error f : Except Fault Response))) =
        (List.range faults.length).map fun i => (request, answers i) := by
      have hmapped := congrArg (List.map (Prod.mk request)) hfaults
      rwa [List.map_map, List.map_map] at hmapped
    rw [hlog, hattempts, sendings_attempts, hpairs, hlast, List.range_succ, List.map_append]
    rfl
  · rw [hlog, hattempts, waits_attempts]
    simp only [Nat.zero_add, delay_eq, maxDelay]

end PoolKeeper.Rpc
