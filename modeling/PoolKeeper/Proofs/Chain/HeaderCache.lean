/-
The cache of headers is not seen.

A cache in which every header is the chain's own of its number (`Kept`) answers as the
client would: a header that is kept is the one the client shows, and all else is asked
of the client, and kept if it is a header (`Moment.cached_eq_keep`). What a client shows
is of the chain, so the cache stays such a one; a chain that only grows keeps the headers
it has, so the cache is such a one after every history that starts with nothing kept
(`kept_after`).
-/
import PoolKeeper.Chain.HeaderCache
import PoolKeeper.Proofs.Rpc.Block
import PoolKeeper.Session

namespace PoolKeeper

open Rpc (Client Backoff headerIn? headerOf blockRequest tagOf)

namespace HeaderCache

/-! ## What is kept -/

/-- Every header that is kept is the chain's own of its number. -/
def Kept (chain : List BlockHeader) (c : HeaderCache) : Prop :=
  ∀ h ∈ c.recent, chain[h.number.toNat]? = some h

variable {chain chain' : List BlockHeader} {c : HeaderCache} {h : BlockHeader} {n : UInt64}

theorem kept_empty : Kept chain .empty := by
  intro h hmem
  cases hmem

theorem Kept.mono (hkept : Kept chain c) (hgrown : chain <+: chain') : Kept chain' c := by
  intro h hmem
  obtain ⟨later, rfl⟩ := hgrown
  have hown := hkept h hmem
  obtain ⟨hbelow, -⟩ := List.getElem?_eq_some_iff.1 hown
  rw [List.getElem?_append_left hbelow, hown]

theorem Kept.insert (hkept : Kept chain c) (hown : chain[h.number.toNat]? = some h) :
    Kept chain (c.insert h) := by
  intro a ha
  rcases mem_insert ha with rfl | hmem
  · exact hown
  · exact hkept a hmem

theorem Kept.own (hkept : Kept chain c) (hfound : c.get? n = some h) :
    chain[n.toNat]? = some h := by
  have hown := hkept h (mem_of_get? hfound)
  rwa [number_of_get? hfound] at hown

theorem get?_insert_self : (c.insert h).get? h.number = some h := by
  have hfirst : (c.insert h).recent =
      h :: (c.recent.filter (·.number ≠ h.number)).take 1023 := List.take_succ_cons
  rw [get?, hfirst, List.find?_cons_of_pos (by simp)]

/-! ## Calls to the cache -/

section Run
variable {J : Interface} (f : (call : Headers.Call) → Program J (Headers.Reply call))

theorem run_answer_of_hit (hfound : c.get? n = some h) :
    (answer (.byNumber n) c).run f = pure (.ok h, c.insert h) := by
  simp only [answer, hfound]
  rfl

theorem run_answer_of_miss {call : Headers.Call}
    (hmiss : ∀ n, call = .byNumber n → c.get? n = none) :
    (answer call c).run f = (fun reply => c.keep reply) <$> f call := by
  have hasked : ((fun reply => c.keep reply) <$> Program.call (I := Headers) call).run f =
      (fun reply => c.keep reply) <$> f call := by
    rw [map_eq_pure_bind, Program.run_bind, Program.run_call, map_eq_pure_bind]
    rfl
  cases call with
  | latest => exact hasked
  | byNumber n => simpa only [answer, hmiss n rfl] using hasked

end Run

/-! ## Moments -/

/-- A moment at which something is asked: the chain as it is, what the client replies, and the
call. -/
structure Moment where
  chain : List BlockHeader
  client : Client
  call : Headers.Call

namespace Moment

/-- The client shows every block of the chain when it is asked for, and no other block. -/
structure Faithful (m : Moment) : Prop where
  numbered : Rpc.Numbered m.chain
  shows : ∀ said (n : UInt64) h, m.chain[n.toNat]? = some h →
    headerIn? (m.client said (.send (blockRequest (.number n)))) = some h
  honest : ∀ said tag h, headerIn? (m.client said (.send (blockRequest tag))) = some h → h ∈ m.chain

/-- What the call is answered without a cache. -/
def direct (b : Backoff) (m : Moment) : Except Failure BlockHeader :=
  ((Rpc.headers b m.call).runIn (.recording m.client) []).1

/-- What the call is answered with a cache, and the cache after it. -/
def cached (b : Backoff) (c : HeaderCache) (m : Moment) :
    Except Failure BlockHeader × HeaderCache :=
  (((answer m.call c).run (Rpc.headers b)).runIn (.recording m.client) []).1

variable {b : Backoff} {m : Moment} {c : HeaderCache} {h : BlockHeader} {n : UInt64}

/-- The first reply to the request for the block that the call is about. -/
abbrev first (m : Moment) : Except Rpc.Fault Rpc.Answer :=
  m.client [] (.send (blockRequest (tagOf m.call)))

/-- An answer is taken from one of the replies to the request. -/
theorem exists_reply (b : Backoff) (m : Moment) : ∃ said, m.direct b =
    headerOf (tagOf m.call) (m.client said (.send (blockRequest (tagOf m.call)))) := by
  obtain ⟨log, -, hruns, hgiven⟩ := Program.runs_runIn m.client (Rpc.headers b m.call) []
  obtain ⟨reply, hsend, hdirect⟩ := Rpc.runs_headers.1 hruns
  obtain ⟨faults, -, rfl⟩ := Rpc.runs_send.1 hsend
  obtain ⟨said, hlast⟩ := Rpc.attempts_eq_append b (blockRequest (tagOf m.call)) 0 faults reply
  have hreply : reply = m.client said (.send (blockRequest (tagOf m.call))) :=
    hgiven said _ [] hlast
  rw [hreply] at hdirect
  exact ⟨said, hdirect⟩

/-- It is taken from the first reply if that settles the request. -/
theorem direct_of_first (hfinal : Rpc.transient m.first = false) :
    m.direct b = headerOf (tagOf m.call) m.first := by
  obtain ⟨log, -, hruns, hgiven⟩ := Program.runs_runIn m.client (Rpc.headers b m.call) []
  obtain ⟨reply, hsend, hdirect⟩ := Rpc.runs_headers.1 hruns
  obtain ⟨faults, hsettled, rfl⟩ := Rpc.runs_send.1 hsend
  cases faults with
  | nil =>
    have hreply : reply = m.first := hgiven [] _ [] rfl
    rw [← hreply]
    exact hdirect
  | cons f faults =>
    -- there is no retry after a reply that settles the request
    have hfault : .error f = m.first := hgiven [] _ _ rfl
    rw [← hfault, Rpc.transient, hsettled.passing f List.mem_cons_self] at hfinal
    cases hfinal

theorem direct_of_own (hm : m.Faithful) (hcall : m.call = .byNumber n)
    (hown : m.chain[n.toNat]? = some h) : m.direct b = .ok h := by
  have hshown : headerIn? m.first = some h := by
    rw [first, hcall]
    exact hm.shows [] n h hown
  rw [direct_of_first (Rpc.transient_of_headerIn? hshown), Rpc.headerOf_eq_ok_iff]
  exact hshown

/-- A header that the client answers with is the chain's own of its number. -/
theorem own_of_direct (hm : m.Faithful) (hdirect : m.direct b = .ok h) :
    m.chain[h.number.toNat]? = some h := by
  obtain ⟨said, hreply⟩ := exists_reply b m
  rw [hdirect] at hreply
  have hmem := hm.honest said (tagOf m.call) h (Rpc.headerOf_eq_ok_iff.1 hreply.symm)
  obtain ⟨i, hi⟩ := List.mem_iff_getElem?.1 hmem
  rwa [hm.numbered i h hi]

/-- **A cache answers as the client does**, and keeps the header that it answers with. -/
theorem cached_eq_keep (hm : m.Faithful) (hkept : Kept m.chain c) :
    m.cached b c = c.keep (m.direct b) := by
  by_cases hhit : ∃ n h, m.call = .byNumber n ∧ c.get? n = some h
  · -- what is kept is the chain's own, and so what the client would show
    obtain ⟨n, h, hcall, hfound⟩ := hhit
    rw [direct_of_own hm hcall (hkept.own hfound), cached, hcall,
      run_answer_of_hit (Rpc.headers b) hfound]
    rfl
  · have hmiss : ∀ n, m.call = .byNumber n → c.get? n = none := by
      intro n hcall
      exact Option.eq_none_iff_forall_ne_some.2 fun h hfound => hhit ⟨n, h, hcall, hfound⟩
    rw [cached, run_answer_of_miss (Rpc.headers b) hmiss, Program.runIn_map, direct]

/-- One call keeps the cache as it is to be. -/
theorem Faithful.kept (hm : m.Faithful) (hkept : Kept m.chain c) :
    Kept m.chain (m.cached b c).2 := by
  rw [cached_eq_keep hm hkept]
  cases hdirect : m.direct b with
  | error f => exact hkept
  | ok h => exact hkept.insert (own_of_direct hm hdirect)

end Moment

/-! ## Chains of some blocks -/

/-- A client that shows the blocks of a chain knows them. -/
theorem faithful_ofChain {chain : List BlockHeader} (hnumbered : Rpc.Numbered chain)
    (u : Rpc.Block.Unused) (call : Headers.Call) :
    Moment.Faithful ⟨chain, .ofChain chain u, call⟩ where
  numbered := hnumbered
  shows said n h hplace := by
    rw [Rpc.headerIn?_ofChain]
    exact Rpc.headerNamed?_of_getElem? hnumbered hplace
  honest said tag h hshown := by
    rw [Rpc.headerIn?_ofChain] at hshown
    exact Rpc.mem_of_headerNamed? hshown

/-- A chain of so many blocks. -/
def blocks (count : Nat) : List BlockHeader :=
  (List.range count).map fun i => ⟨UInt64.ofNat i, UInt64.ofNat (12 * i), .ofNat i⟩

theorem numbered_blocks {count : Nat} (hcount : count ≤ 2 ^ 64) : Rpc.Numbered (blocks count) := by
  intro i h hplace
  rw [blocks, List.getElem?_map, Option.map_eq_some_iff] at hplace
  obtain ⟨j, hj, rfl⟩ := hplace
  obtain ⟨hi, rfl⟩ := List.getElem?_eq_some_iff.1 hj
  rw [List.length_range] at hi
  rw [List.getElem_range, UInt64.toNat_ofNat', Nat.mod_eq_of_lt (by omega)]

/-- A call while the chain has so many blocks. -/
def asked (count : Nat) (call : Headers.Call) : Moment :=
  ⟨blocks count, .ofChain (blocks count) default, call⟩

theorem faithful_asked {count : Nat} (hcount : count ≤ 2 ^ 64) (call : Headers.Call) :
    (asked count call).Faithful :=
  faithful_ofChain (numbered_blocks hcount) default call

/-! ## Histories -/

/-- The cache after calls at several moments. -/
def after (b : Backoff) (c : HeaderCache) (moments : List Moment) : HeaderCache :=
  moments.foldl (fun c m => (m.cached b c).2) c

/-- A chain that grows keeps its blocks from one moment to all later ones. -/
def Grows (moments : List Moment) : Prop :=
  moments.Pairwise fun m m' => m.chain <+: m'.chain

/-- **In every history the cache is as it is to be**, by induction on the moments: what is kept at
one of them is the chain's own at all later ones. -/
theorem kept_after {b : Backoff} {c : HeaderCache} {before : List Moment} {m : Moment}
    (hfaithful : ∀ m' ∈ before, m'.Faithful) (hgrows : Grows (before ++ [m]))
    (hkept : ∀ m' ∈ before ++ [m], Kept m'.chain c) : Kept m.chain (after b c before) := by
  induction before generalizing c with
  | nil => exact hkept m (by simp)
  | cons m' before ih =>
    obtain ⟨hm', hfaithful⟩ := List.forall_mem_cons.1 hfaithful
    obtain ⟨hlater, hgrows⟩ := List.pairwise_cons.1 hgrows
    have hnow := hm'.kept (b := b) (hkept m' List.mem_cons_self)
    exact ih hfaithful hgrows fun m'' hmem => hnow.mono (hlater m'' hmem)

/-- **The cache is not seen.** A chain grows, and its client shows the blocks that there are: after
any calls whatever, a call is answered as it would be without a cache, errors included. Under a
number the chain's own header is kept, a header that was answered with among them, and nothing is
kept of a call that fails. -/
theorem cached_as_direct {b : Backoff} {before : List Moment} {m : Moment}
    (hfaithful : ∀ m' ∈ before ++ [m], m'.Faithful) (hgrows : Grows (before ++ [m])) :
    (m.cached b (after b .empty before)).1 = m.direct b ∧
      (∀ n h, (m.cached b (after b .empty before)).2.get? n = some h →
        m.chain[n.toNat]? = some h) ∧
      (∀ f, m.direct b = .error f →
        (m.cached b (after b .empty before)).2 = after b .empty before) ∧
      ∀ h, m.direct b = .ok h →
        (m.cached b (after b .empty before)).2.get? h.number = some h := by
  have hm : m.Faithful := hfaithful m (by simp)
  have hbefore : ∀ m' ∈ before, m'.Faithful := fun m' hmem => hfaithful m' (by simp [hmem])
  have hkept : Kept m.chain (after b .empty before) :=
    kept_after hbefore hgrows fun _ _ => kept_empty
  have hnow := hm.kept (b := b) hkept
  refine ⟨?_, fun n h hfound => hnow.own hfound, fun f herror => ?_, fun h hok => ?_⟩
  · rw [Moment.cached_eq_keep hm hkept]
    cases m.direct b <;> rfl
  · rw [Moment.cached_eq_keep hm hkept, herror]
    rfl
  · rw [Moment.cached_eq_keep hm hkept, hok]
    exact get?_insert_self

/-- Block 2 is asked for too early, then comes as the latest block, and then is found: that it was
missing is forgotten. -/
theorem found_after_growth :
    (∃ f, (asked 2 (.byNumber 2)).direct ⟨0, 0⟩ = .error f) ∧
      ((asked 3 (.byNumber 2)).cached ⟨0, 0⟩
        (after ⟨0, 0⟩ .empty [asked 2 (.byNumber 2), asked 3 .latest])).1 =
          .ok ⟨2, 24, .ofNat 2⟩ := by
  have hunknown : Rpc.headerNamed? (blocks 2) (blockRequest (.number 2)).params = none := by
    decide +kernel
  have hfirst : (asked 2 (.byNumber 2)).first = .ok (.result .null) := by
    show Except.ok (Rpc.Answer.result ((Rpc.headerNamed? (blocks 2)
      (blockRequest (.number 2)).params).elim .null (Rpc.Block.shown · default))) = _
    rw [hunknown]
    rfl
  constructor
  · rw [Moment.direct_of_first (by rw [hfirst]; rfl), hfirst]
    exact ⟨_, rfl⟩
  · have hfaithful : ∀ m ∈ [asked 2 (.byNumber 2), asked 3 .latest] ++ [asked 3 (.byNumber 2)],
        m.Faithful := by
      simp [faithful_asked]
    have hgrows : Grows ([asked 2 (.byNumber 2), asked 3 .latest] ++ [asked 3 (.byNumber 2)]) := by
      have hlater : blocks 2 <+: blocks 3 := by decide
      simp [Grows, asked, hlater]
    rw [(cached_as_direct hfaithful hgrows).1]
    exact Moment.direct_of_own (faithful_asked (by decide) _) rfl (by decide +kernel)

end HeaderCache

/-- What a session answers is what the cache does, over the line of the session. -/
theorem Session.askHeaders_eq (settings : ChainSettings) (call : Headers.Call) :
    askHeaders settings call = (do
      let s ← get
      let (reply, cache) ← ((HeaderCache.answer call s.headers).run
        (Rpc.headers settings.backoff)).run (line settings)
      modify fun s => { s with headers := cache }
      return reply) := by
  simp only [askHeaders, Program.run_run]

end PoolKeeper
