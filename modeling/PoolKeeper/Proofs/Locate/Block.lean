/-
The block of a time.

While the search goes on, its first block is at or before the time and its
second is the head or after the time (`Brackets`); every read halves what lies
between, and when nothing does, the first block is one at which the time is
passed (`IsTurn`). What is read on the way and where that ends is `Searched`,
with one rule for a read, `searched_headerAt`; `bisect_runs` is the one
induction, by which no search is `endless`. It holds in every chain, whatever
the times of its blocks, and with it the bound on the reads
(`blockForTime_reads`). In a chain whose times never decrease there is at most
one such block, the last that is not after the time, so where the search starts
does not matter (`blockForTime_last`).
-/
import Mathlib.Data.Nat.Log
import PoolKeeper.InMemory.Headers
import PoolKeeper.Locate.Block
import PoolKeeper.Proofs.Transcript

namespace PoolKeeper

/-- The blocks of a chain up to its head. -/
structure ExecutionChain where
  head : UInt64
  header : UInt64 → BlockHeader
  number_header : ∀ n, n ≤ head → (header n).number = n

namespace ExecutionChain
open InMemory (HeaderChain)
variable (c : ExecutionChain) (target : UInt64)

def time (n : UInt64) : UInt64 := (c.header n).timestamp

/-- Times never decrease from a block to a later one. -/
def Ordered : Prop := ∀ i j, i ≤ j → j ≤ c.head → c.time i ≤ c.time j

/-- Whoever is asked knows the headers of the chain. -/
structure ServedBy {σ : Type} (w : Surroundings Headers σ) : Prop where
  latest : ∀ s, (w .latest s).1 = .ok (c.header c.head)
  byNumber : ∀ n s, n ≤ c.head → (w (.byNumber n) s).1 = .ok (c.header n)

/-- What is told of the chain is so: a reply is a failure, or the header that was asked for. -/
def Tells : Exchange Headers → Prop
  | ⟨.latest, reply⟩ => ∀ h, reply = .ok h → h = c.header c.head
  | ⟨.byNumber n, reply⟩ => n ≤ c.head → ∀ h, reply = .ok h → h = c.header n

/-- A block below the head that is not after a time. -/
def Reached (n : UInt64) : Prop := n < c.head ∧ c.time n ≤ target

/-- The last block below the head that is not after a time. -/
def IsLast (b : UInt64) : Prop := c.Reached target b ∧ ∀ n, c.Reached target n → n ≤ b

/-- A block that is not after a time, while the next one is after it or is the head. -/
structure IsTurn (b : UInt64) : Prop where
  reached : c.Reached target b
  next : b + 1 = c.head ∨ target < c.time (b + 1)

/-- The ends of a search: a block not after the time, and a later one after it or at the head. -/
structure Brackets (lo hi : UInt64) : Prop where
  lt : lo < hi
  le_head : hi ≤ c.head
  notAfter : c.time lo ≤ target
  after : hi = c.head ∨ target < c.time hi

/-- How a search ends: at a turn, or because nothing is reached, or with the failure of a call. -/
inductive Ends (log : List (Exchange Headers)) : Except LocateFault BlockHeader → Prop
  | turn (b : UInt64) (h : c.IsTurn target b) : Ends log (.ok (c.header b))
  | nothing (h : c.head = 0 ∨ target < c.time 0) : Ends log (.error (.notFound target))
  | failed (call : Headers.Call) (e : Failure) (h : ⟨call, .error e⟩ ∈ log) :
    Ends log (.error (.chain e))

variable {c} {target} {b lo hi pivot : UInt64}

theorem ServedBy.tells {σ : Type} {w : Surroundings Headers σ} (h : c.ServedBy w)
    (call : Headers.Call) (s : σ) : c.Tells ⟨call, (w call s).1⟩ := by
  cases call with
  | latest => exact fun h' hok => Except.ok.inj (hok.symm.trans (h.latest s))
  | byNumber n => exact fun hn h' hok => Except.ok.inj (hok.symm.trans (h.byNumber n s hn))

/-- What is said in a search for the block of a time, and how the search ends: headers are read by
number, at most so many and all of blocks below one. -/
structure Searched (c : ExecutionChain) (target : UInt64) (most : Nat) (below : UInt64)
    (log : List (Exchange Headers)) (r : Except LocateFault BlockHeader) : Prop where
  few : log.length ≤ most
  below : ∀ x ∈ log, ∃ n, x.1 = .byNumber n ∧ n < below
  ends : c.Ends target log r

theorem Ends.cons {log : List (Exchange Headers)} {r : Except LocateFault BlockHeader}
    {x : Exchange Headers} (h : c.Ends target log r) : c.Ends target (x :: log) r := by
  cases h with
  | turn b h => exact .turn b h
  | nothing h => exact .nothing h
  | failed call e h => exact .failed call e (List.mem_cons_of_mem x h)

namespace Searched
variable {most most' : Nat} {below below' n : UInt64} {log : List (Exchange Headers)}
  {r : Except LocateFault BlockHeader}

/-- A search that ends where nothing more is said. -/
theorem nil (h : c.Ends target [] r) : c.Searched target most below [] r :=
  ⟨Nat.zero_le most, by simp, h⟩

theorem failed (hn : n < below) (e : Failure) :
    c.Searched target (most + 1) below [⟨.byNumber n, .error e⟩] (.error (.chain e)) := by
  refine ⟨Nat.succ_le_succ (Nat.zero_le most), fun x hx => ?_, .failed _ e List.mem_cons_self⟩
  obtain rfl := List.mem_singleton.1 hx
  exact ⟨n, rfl, hn⟩

theorem cons {reply : Except Failure BlockHeader} (hn : n < below)
    (h : c.Searched target most below log r) :
    c.Searched target (most + 1) below (⟨.byNumber n, reply⟩ :: log) r :=
  ⟨Nat.succ_le_succ h.few, List.forall_mem_cons.2 ⟨⟨n, rfl, hn⟩, h.below⟩, h.ends.cons⟩

theorem mono (h : c.Searched target most below log r) (hmost : most ≤ most')
    (hbelow : below ≤ below') : c.Searched target most' below' log r := by
  refine ⟨Nat.le_trans h.few hmost, fun x hx => ?_, h.ends⟩
  obtain ⟨n, hn, hlt⟩ := h.below x hx
  exact ⟨n, hn, UInt64.lt_of_lt_of_le hlt hbelow⟩

end Searched

theorem toNat_succ_of_lt {n m : UInt64} (h : n < m) : (n + 1).toNat = n.toNat + 1 := by
  have hm := m.toNat_lt
  rw [UInt64.lt_iff_toNat_lt] at h
  rw [UInt64.toNat_add, UInt64.toNat_one]
  omega

theorem lt_of_le_sub_one {n m : UInt64} (hm : m ≠ 0) (h : n ≤ m - 1) : n < m := by
  have hpos : m.toNat ≠ 0 := fun hzero => hm (UInt64.toNat_inj.1 hzero)
  have hone : 1 ≤ m := by
    rw [UInt64.le_iff_toNat_le, UInt64.toNat_one]
    omega
  rw [UInt64.le_iff_toNat_le, UInt64.toNat_sub_of_le _ _ hone, UInt64.toNat_one] at h
  rw [UInt64.lt_iff_toNat_lt]
  omega

theorem Brackets.isTurn (h : c.Brackets target lo hi) (hnext : hi.toNat - lo.toNat ≤ 1) :
    c.IsTurn target lo := by
  have hlt := UInt64.lt_iff_toNat_lt.1 h.lt
  have heq : lo + 1 = hi := by
    rw [← UInt64.toNat_inj, toNat_succ_of_lt h.lt]
    omega
  refine ⟨⟨UInt64.lt_of_lt_of_le h.lt h.le_head, h.notAfter⟩, ?_⟩
  rw [heq]
  exact h.after

/-- In an ordered chain a turn is the last block that is reached. -/
theorem IsTurn.isLast (hordered : c.Ordered) (h : c.IsTurn target b) : c.IsLast target b := by
  refine ⟨h.reached, fun n hn => UInt64.not_lt.1 fun hlater => ?_⟩
  have hnext : b + 1 ≤ n := by
    have := UInt64.lt_iff_toNat_lt.1 hlater
    rw [UInt64.le_iff_toNat_le, toNat_succ_of_lt hlater]
    omega
  rcases h.next with hhead | hafter
  · exact UInt64.not_le.2 hn.1 (hhead ▸ hnext)
  · have htime := hordered (b + 1) n hnext (UInt64.le_of_lt hn.1)
    exact UInt64.not_le.2 hafter (UInt64.le_trans htime hn.2)

theorem IsLast.unique {b' : UInt64} (h : c.IsLast target b) (h' : c.IsLast target b') : b = b' :=
  UInt64.le_antisymm (h'.2 b h.1) (h.2 b' h'.1)

/-- In an ordered chain nothing is reached if the first block is not. -/
theorem not_reached_of_genesis (hordered : c.Ordered) (h : c.head = 0 ∨ target < c.time 0) :
    ¬ ∃ n, c.Reached target n := by
  rintro ⟨n, hbelow, htime⟩
  rcases h with hhead | hgenesis
  · rw [hhead] at hbelow
    exact UInt64.not_lt_zero hbelow
  · have hle := hordered 0 n UInt64.zero_le (UInt64.le_of_lt hbelow)
    exact UInt64.not_le.2 hgenesis (UInt64.le_trans hle htime)

/-! ## A chain held in memory -/

/-- The chain whose blocks have these times. -/
def ofTimes (times : List UInt64) : ExecutionChain where
  head := UInt64.ofNat (times.length - 1)
  header n := ⟨n, times.getD n.toNat 0, keccak256 (Bytes.bigEndian 8 n.toNat)⟩
  number_header _ _ := rfl

section OfTimes
variable {times : List UInt64} (hne : times ≠ []) (hsize : times.length ≤ 2 ^ 64)
include hne hsize

theorem lt_length_of_le_head {n : UInt64} (h : n ≤ (ofTimes times).head) :
    n.toNat < times.length := by
  have hpos := List.length_pos_iff.2 hne
  have hhead : (ofTimes times).head.toNat = times.length - 1 :=
    UInt64.toNat_ofNat_of_lt' (show times.length - 1 < 2 ^ 64 by omega)
  rw [UInt64.le_iff_toNat_le, hhead] at h
  omega

theorem ordered_ofTimes (hsorted : times.Pairwise (· ≤ ·)) : (ofTimes times).Ordered := by
  intro i j hij hj
  have hjlt := lt_length_of_le_head hne hsize hj
  have hilt := lt_length_of_le_head hne hsize (UInt64.le_trans hij hj)
  change times.getD i.toNat 0 ≤ times.getD j.toNat 0
  rw [← List.getElem_eq_getD (h := hilt), ← List.getElem_eq_getD (h := hjlt)]
  rcases Nat.lt_or_eq_of_le (UInt64.le_iff_toNat_le.1 hij) with hlt | heq
  · exact List.pairwise_iff_getElem.1 hsorted _ _ hilt hjlt hlt
  · simp only [heq, UInt64.le_refl]

/-- The headers of a chain in memory are those of its blocks. -/
theorem servedBy_ofTimes :
    (ofTimes times).ServedBy (.fixed (HeaderChain.answer ⟨.listed times.toArray, []⟩)) := by
  have known : ∀ n, n ≤ (ofTimes times).head →
      HeaderChain.header ⟨.listed times.toArray, []⟩ n = .ok ((ofTimes times).header n) := by
    intro n hn
    have hlt := lt_length_of_le_head hne hsize hn
    have htime : HeaderChain.time? ⟨.listed times.toArray, []⟩ n = some (times.getD n.toNat 0) := by
      change times.toArray[n.toNat]? = _
      rw [List.getElem?_toArray, List.getElem?_eq_getElem hlt, List.getElem_eq_getD 0]
    rw [HeaderChain.header, htime]
    rfl
  refine ⟨fun _ => ?_, fun n _ hn => known n hn⟩
  have hhead : HeaderChain.head? ⟨.listed times.toArray, []⟩ = some (ofTimes times).head :=
    if_neg (by simpa using hne)
  change HeaderChain.answer ⟨.listed times.toArray, []⟩ .latest = _
  simp only [HeaderChain.answer, hhead, List.lookup_nil]
  exact known _ (UInt64.le_refl _)

end OfTimes

end ExecutionChain

namespace Locate
open ExecutionChain
variable {c : ExecutionChain} {σ : Type} {w : Surroundings Headers σ} {target lo hi : UInt64}
  {log : List (Exchange Headers)}

/-- The block half way between two others. -/
theorem toNat_pivot (h : lo < hi) :
    (lo + (hi - lo) / 2).toNat = lo.toNat + (hi.toNat - lo.toNat) / 2 := by
  have hlt := UInt64.lt_iff_toNat_lt.1 h
  have hhi := hi.toNat_lt
  rw [UInt64.toNat_add, UInt64.toNat_div, UInt64.toNat_sub_of_le _ _ (UInt64.le_of_lt h),
    show (2 : UInt64).toNat = 2 from rfl]
  omega

/-- Half of a distance, rounded up, takes one halving less. -/
theorem clog_half {d : Nat} (h : 2 ≤ d) : Nat.clog 2 (d - d / 2) + 1 = Nat.clog 2 d := by
  have hhalf : d - d / 2 = (d + 2 - 1) / 2 := by omega
  rw [hhalf, ← Nat.clog_of_two_le (by decide) h]

/-- **A read of a search**: a header is read, and the search goes on with it unless that fails. -/
theorem searched_headerAt {n below : UInt64} {most : Nat} (hn : n < below) (hbelow : below ≤ c.head)
    {next : BlockHeader → Attempt Headers LocateFault BlockHeader}
    {r : Except LocateFault BlockHeader} (hruns : (headerAt n >>= next).Runs log r)
    (htold : ∀ x ∈ log, c.Tells x)
    (hnext : ∀ rest, (next (c.header n)).Runs rest r → (∀ x ∈ rest, c.Tells x) →
      c.Searched target most below rest r) :
    c.Searched target (most + 1) below log r := by
  obtain ⟨e, hread, rfl⟩ | ⟨h, _, rest, hread, hrest, rfl⟩ := Attempt.runs_mapError_bind.1 hruns
  · cases Program.runs_call.1 hread
    exact .failed hn e
  · cases Program.runs_call.1 hread
    obtain ⟨hfirst, hlater⟩ := List.forall_mem_cons.1 htold
    obtain rfl := hfirst (UInt64.le_of_lt (UInt64.lt_of_lt_of_le hn hbelow)) h rfl
    exact (hnext rest hrest hlater).cons hn

/-- **A search among some blocks** reads headers between them, at most as many as their distance
can be halved, and ends at a turn. The induction is on the fuel: it covers the distance, which is
never zero, so that there is always some left. -/
theorem bisect_runs {fuel : Nat} (hb : c.Brackets target lo hi)
    (hfuel : hi.toNat - lo.toNat ≤ fuel) {r : Except LocateFault BlockHeader}
    (hruns : (bisect target fuel (c.header lo) hi).Runs log r) (htold : ∀ x ∈ log, c.Tells x) :
    c.Searched target (Nat.clog 2 (hi.toNat - lo.toNat)) hi log r := by
  induction fuel generalizing lo hi log with
  | zero =>
    have hlt := UInt64.lt_iff_toNat_lt.1 hb.lt
    omega
  | succ fuel ih =>
    have hlo : lo ≤ c.head := UInt64.le_of_lt (UInt64.lt_of_lt_of_le hb.lt hb.le_head)
    have hdistance : (hi - lo).toNat = hi.toNat - lo.toNat :=
      UInt64.toNat_sub_of_le _ _ (UInt64.le_of_lt hb.lt)
    rw [bisect, c.number_header lo hlo] at hruns
    by_cases hclose : hi - lo ≤ 1
    · rw [if_pos hclose] at hruns
      obtain ⟨rfl, rfl⟩ := Attempt.runs_pure.1 hruns
      rw [UInt64.le_iff_toNat_le, hdistance] at hclose
      exact .nil (.turn lo (hb.isTurn hclose))
    rw [if_neg hclose] at hruns
    rw [UInt64.le_iff_toNat_le, hdistance, UInt64.toNat_one] at hclose
    have hpivot := toNat_pivot hb.lt
    generalize lo + (hi - lo) / 2 = pivot at hpivot hruns
    have hlopivot : lo < pivot := by
      rw [UInt64.lt_iff_toNat_lt]
      omega
    have hpivothi : pivot < hi := by
      rw [UInt64.lt_iff_toNat_lt]
      omega
    -- what lies before the pivot is no more than what lies after it
    have hbefore : pivot.toNat - lo.toNat ≤ hi.toNat - pivot.toNat := by omega
    have hhalf : Nat.clog 2 (hi.toNat - pivot.toNat) + 1 = Nat.clog 2 (hi.toNat - lo.toNat) := by
      rw [← clog_half (show 2 ≤ hi.toNat - lo.toNat by omega)]
      congr 2
      omega
    rw [← hhalf]
    refine searched_headerAt hpivothi hb.le_head hruns htold fun rest hnext hrest => ?_
    by_cases htime : (c.header pivot).timestamp ≤ target
    · rw [if_pos htime] at hnext
      exact ih ⟨hpivothi, hb.le_head, htime, hb.after⟩ (by omega) hnext hrest
    · rw [if_neg htime] at hnext
      have hle := UInt64.le_of_lt hpivothi
      have hleft : c.Brackets target lo pivot :=
        ⟨hlopivot, UInt64.le_trans hle hb.le_head, hb.notAfter, .inr (UInt64.not_le.1 htime)⟩
      exact (ih hleft (by omega) hnext hrest).mono (Nat.clog_mono_right 2 hbefore) hle

theorem distance_le (lo hi : UInt64) : hi.toNat - lo.toNat ≤ UInt64.size :=
  Nat.le_trans (Nat.sub_le _ _) (Nat.le_of_lt hi.toNat_lt_size)

/-- **The search for a time** reads at most two headers before it is a search among some blocks. -/
theorem blockForTime_runs {deployBlock : UInt64} {r : Except LocateFault BlockHeader}
    (hruns : (blockForTime deployBlock target).Runs log r) (htold : ∀ x ∈ log, c.Tells x) :
    (∃ e, log = [⟨.latest, .error e⟩] ∧ r = .error (.chain e)) ∨
      ∃ reads, log = ⟨.latest, .ok (c.header c.head)⟩ :: reads ∧
        c.Searched target (Nat.clog 2 c.head.toNat + 2) c.head reads r := by
  obtain ⟨e, hlatest, rfl⟩ | ⟨h, _, reads, hlatest, hsearch, rfl⟩ :=
    Attempt.runs_mapError_bind.1 hruns
  · cases Program.runs_call.1 hlatest
    exact .inl ⟨e, rfl, rfl⟩
  cases Program.runs_call.1 hlatest
  obtain ⟨hfirst, hreads⟩ := List.forall_mem_cons.1 htold
  obtain rfl := hfirst h rfl
  refine .inr ⟨reads, rfl, ?_⟩
  rw [c.number_header c.head (UInt64.le_refl _)] at hsearch
  dsimp only at hsearch
  by_cases hhead : c.head = 0
  · rw [if_pos hhead] at hsearch
    obtain ⟨rfl, rfl⟩ := Attempt.runs_throw.1 hsearch
    exact .nil (.nothing (.inl hhead))
  rw [if_neg hhead] at hsearch
  generalize hfloor : min deployBlock (c.head - 1) = floor at hsearch
  have hlt : floor < c.head := by
    rw [← hfloor]
    exact lt_of_le_sub_one hhead Std.min_le_right
  refine searched_headerAt hlt (UInt64.le_refl _) hsearch hreads fun reads hfrom hlater => ?_
  rw [c.number_header floor (UInt64.le_of_lt hlt)] at hfrom
  by_cases htime : (c.header floor).timestamp ≤ target
  · rw [if_pos htime] at hfrom
    have hb : c.Brackets target floor c.head := ⟨hlt, UInt64.le_refl _, htime, .inl rfl⟩
    have hmost : Nat.clog 2 (c.head.toNat - floor.toNat) ≤ Nat.clog 2 c.head.toNat :=
      Nat.clog_mono_right 2 (Nat.sub_le _ _)
    exact (bisect_runs hb (distance_le _ _) hfrom hlater).mono (by omega) (UInt64.le_refl _)
  rw [if_neg htime] at hfrom
  have hafter : target < c.time floor := UInt64.not_le.1 htime
  by_cases hzero : floor = 0
  · rw [if_pos hzero] at hfrom
    obtain ⟨rfl, rfl⟩ := Attempt.runs_throw.1 hfrom
    exact .nil (.nothing (.inr (hzero ▸ hafter)))
  rw [if_neg hzero] at hfrom
  refine searched_headerAt (UInt64.pos_iff_ne_zero.2 hhead) (UInt64.le_refl _) hfrom hlater
    fun reads hbelow hlast => ?_
  by_cases hgenesis : target < (c.header 0).timestamp
  · rw [if_pos hgenesis] at hbelow
    obtain ⟨rfl, rfl⟩ := Attempt.runs_throw.1 hbelow
    exact .nil (.nothing (.inr hgenesis))
  rw [if_neg hgenesis] at hbelow
  have hb : c.Brackets target 0 floor :=
    ⟨UInt64.pos_iff_ne_zero.2 hzero, UInt64.le_of_lt hlt, UInt64.not_lt.1 hgenesis, .inr hafter⟩
  have hle := UInt64.le_iff_toNat_le.1 (UInt64.le_of_lt hlt)
  exact (bisect_runs hb (distance_le _ _) hbelow hlast).mono (Nat.clog_mono_right 2 hle)
    (UInt64.le_of_lt hlt)

/-- **The reads of a search are few.** In every chain, whatever the times of its blocks, headers
are read by number at most twice and once for each halving of the chain, all of blocks below the
head, after the one read of the head. A block that is found lies below the head and is not after
the time; the next block is after it, or is the head. -/
theorem blockForTime_reads (c : ExecutionChain)
    (answer : List (Exchange Headers) → (call : Headers.Call) → Headers.Reply call)
    (htold : ∀ said call, c.Tells ⟨call, answer said call⟩) (deployBlock target : UInt64) :
    let run := (blockForTime deployBlock target).runIn (.recording answer) []
    (∃ reply reads, run.2 = ⟨.latest, reply⟩ :: reads ∧
      reads.length ≤ 2 + Nat.clog 2 c.head.toNat ∧
      ∀ x ∈ reads, ∃ n, x.1 = .byNumber n ∧ n < c.head) ∧
    ∀ b, run.1 = .ok b →
      b.number < c.head ∧ b = c.header b.number ∧ b.timestamp ≤ target ∧
      (b.number + 1 = c.head ∨ target < (c.header (b.number + 1)).timestamp) := by
  intro run
  obtain ⟨hruns, hsaid⟩ := Program.runs_recording htold (blockForTime deployBlock target).outcome
  change (blockForTime deployBlock target).Runs run.2 run.1 at hruns
  obtain ⟨e, hlog, hfailed⟩ | ⟨reads, hlog, hsearched⟩ := blockForTime_runs hruns hsaid
  · refine ⟨⟨_, [], hlog, Nat.zero_le _, by simp⟩, fun b hb => ?_⟩
    exact absurd (hb.symm.trans hfailed) nofun
  refine ⟨⟨_, reads, hlog, Nat.add_comm 2 _ ▸ hsearched.few, hsearched.below⟩, fun b hb => ?_⟩
  obtain ⟨n, hn, rfl⟩ : ∃ n, c.IsTurn target n ∧ c.header n = b := by
    have hends := hsearched.ends
    rw [hb] at hends
    cases hends with
    | turn n hn => exact ⟨n, hn, rfl⟩
  rw [c.number_header n (UInt64.le_of_lt hn.reached.1)]
  exact ⟨hn.reached.1, rfl, hn.reached.2, hn.next⟩

/-- Block 2 is reached too, but block 1 before it is not: the search ends at a turn, and not at the
last block that is reached. -/
theorem reads_of_disordered_times :
    let c := ExecutionChain.ofTimes [10, 50, 20, 40, 30, 60]
    let held : InMemory.HeaderChain := ⟨.listed #[10, 50, 20, 40, 30, 60], []⟩
    let run := (blockForTime 3 25).runIn (.recording fun _ => held.answer) []
    (∀ call, c.Tells ⟨call, held.answer call⟩) ∧
      run.1 = .ok (c.header 0) ∧ run.2.length ≤ 3 + Nat.clog 2 5 ∧
      c.time 0 ≤ 25 ∧ 25 < c.time 1 := by
  intro c held run
  have hserved : c.ServedBy (.fixed held.answer) :=
    ExecutionChain.servedBy_ofTimes (by decide) (by decide)
  have htold : ∀ call, c.Tells ⟨call, held.answer call⟩ := fun call => hserved.tells call ()
  have hfound : run.1 = .ok (c.header 0) := rfl
  obtain ⟨⟨reply, reads, hlog, hfew, -⟩, hturn⟩ :=
    blockForTime_reads c (fun _ => held.answer) (fun _ => htold) 3 25
  obtain ⟨-, -, htime, hhead | hnext⟩ := hturn _ hfound
  · exact absurd hhead (by decide)
  · refine ⟨htold, hfound, ?_, htime, hnext⟩
    rw [hlog, List.length_cons]
    have hhead : c.head.toNat = 5 := rfl
    rw [hhead] at hfew
    omega

/-- A search ends at a turn, or finds that nothing is reached from the first block on. -/
theorem blockForTime_turn (target : UInt64) (h : c.ServedBy w) (deployBlock : UInt64) (s : σ) :
    (∃ b, c.IsTurn target b ∧ ((blockForTime deployBlock target).runIn w s).1 = .ok (c.header b)) ∨
      (c.head = 0 ∨ target < c.time 0) ∧
        ((blockForTime deployBlock target).runIn w s).1 = .error (.notFound target) := by
  obtain ⟨log, hruns, hgiven⟩ := Program.exists_runs w (blockForTime deployBlock target).outcome s
  change (blockForTime deployBlock target).Runs log
    ((blockForTime deployBlock target).runIn w s).1 at hruns
  have htold : ∀ x ∈ log, c.Tells x := by
    rintro ⟨call, reply⟩ hx
    obtain ⟨s', hreply⟩ := hgiven _ hx
    obtain rfl : (w call s').1 = reply := hreply
    exact h.tells call s'
  -- no call fails: the head is known, and what is read by number lies below it
  obtain ⟨e, rfl, -⟩ | ⟨reads, rfl, hsearched⟩ := blockForTime_runs hruns htold
  · obtain ⟨s', hfailed⟩ := hgiven _ List.mem_cons_self
    rw [h.latest s'] at hfailed
    cases hfailed
  have hends := hsearched.ends
  generalize ((blockForTime deployBlock target).runIn w s).1 = r at hends ⊢
  cases hends with
  | turn b hb => exact .inl ⟨b, hb, rfl⟩
  | nothing hnone => exact .inr ⟨hnone, rfl⟩
  | failed call e hmem =>
    obtain ⟨s', hfailed⟩ := hgiven _ (List.mem_cons_of_mem _ hmem)
    obtain ⟨n, rfl, hn⟩ := hsearched.below _ hmem
    rw [h.byNumber n s' (UInt64.le_of_lt hn)] at hfailed
    cases hfailed

/-- **The block of a time is the last one below the head that is not after it.** In a chain whose
times never decrease the search finds it if there is one, and says that there is none just when that
is so; and from wherever it starts, it answers the same. -/
theorem blockForTime_last (h : c.ServedBy w) (hordered : c.Ordered) (target : UInt64) (s : σ) :
    let answer := fun deployBlock => ((blockForTime deployBlock target).runIn w s).1
    ((∃ n, c.Reached target n) →
      ∃ b, c.IsLast target b ∧ ∀ deployBlock, answer deployBlock = .ok (c.header b)) ∧
    (∀ deployBlock,
      answer deployBlock = .error (.notFound target) ↔ ¬ ∃ n, c.Reached target n) ∧
    ∀ deployBlock deployBlock', answer deployBlock = answer deployBlock' := by
  intro answer
  -- in an ordered chain each of the two ends of a search settles whether something is reached
  have found : ∀ {b}, c.IsTurn target b → ∀ deployBlock, answer deployBlock = .ok (c.header b) := by
    intro b hb deployBlock
    obtain ⟨b', hb', hanswer⟩ | ⟨hnone, -⟩ := blockForTime_turn target h deployBlock s
    · rw [(hb.isLast hordered).unique (hb'.isLast hordered)]
      exact hanswer
    · exact absurd ⟨b, hb.reached⟩ (not_reached_of_genesis hordered hnone)
  obtain ⟨b, hb, -⟩ | ⟨hnone, -⟩ := blockForTime_turn target h 0 s
  · refine ⟨fun _ => ⟨b, hb.isLast hordered, found hb⟩, fun deployBlock => ?_, ?_⟩
    · rw [found hb deployBlock]
      exact ⟨nofun, fun hnone => absurd ⟨b, hb.reached⟩ hnone⟩
    · intro deployBlock deployBlock'
      rw [found hb, found hb]
  · have hnothing := not_reached_of_genesis hordered hnone
    have missed : ∀ deployBlock, answer deployBlock = .error (.notFound target) := by
      intro deployBlock
      obtain ⟨b, hb, -⟩ | ⟨-, hanswer⟩ := blockForTime_turn target h deployBlock s
      · exact absurd ⟨b, hb.reached⟩ hnothing
      · exact hanswer
    refine ⟨fun hsome => absurd hsome hnothing, fun deployBlock => ?_, ?_⟩
    · exact iff_of_true (missed deployBlock) hnothing
    · intro deployBlock deployBlock'
      rw [missed, missed]

/-- Blocks 1 and 2 are of one time. -/
theorem blockForTime_of_equal_times :
    let c := ExecutionChain.ofTimes [10, 20, 20, 40, 50]
    let held : InMemory.HeaderChain := ⟨.listed #[10, 20, 20, 40, 50], []⟩
    let answer := fun target deployBlock =>
      ((blockForTime deployBlock target).runIn (.fixed held.answer) ()).1
    c.ServedBy (.fixed held.answer) ∧ c.Ordered ∧ c.IsLast 25 2 ∧
      answer 25 0 = .ok (c.header 2) ∧ answer 25 3 = .ok (c.header 2) ∧
      answer 25 99 = .ok (c.header 2) ∧ answer 9 3 = .error (.notFound 9) := by
  intro c held answer
  have hserved : c.ServedBy (.fixed held.answer) :=
    ExecutionChain.servedBy_ofTimes (by decide) (by decide)
  have hordered : c.Ordered := ExecutionChain.ordered_ofTimes (by decide) (by decide) (by decide)
  have hturn : c.IsTurn 25 2 := ⟨⟨by decide, by decide⟩, .inr (by decide)⟩
  have hlast := hturn.isLast hordered
  obtain ⟨hfound, -, -⟩ := blockForTime_last hserved hordered 25 ()
  obtain ⟨-, hnone, -⟩ := blockForTime_last hserved hordered 9 ()
  obtain ⟨b, hb, hanswer⟩ := hfound ⟨2, hlast.1⟩
  obtain rfl := hb.unique hlast
  refine ⟨hserved, hordered, hlast, hanswer 0, hanswer 3, hanswer 99, ?_⟩
  exact (hnone 3).2 (not_reached_of_genesis hordered (.inr (by decide)))

end Locate
end PoolKeeper
