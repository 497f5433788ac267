/-
What is said while the event of an interval is looked for.

`LookUp` has every way there is for this to go: the pools are asked one by one,
the current one first, and the first that has the event or fails is the last
that is asked. `lookUp_of_runs` says that whatever the chain replies, it goes in
one of these ways, by induction on the pools that are still to be asked.
-/
import PoolKeeper.Proofs.Transcript
import PoolKeeper.Rewards.Resolve

namespace PoolKeeper.RewardsEvent

/-- A pool is asked for the event of an interval. -/
def asked (interval : UInt64) (pool : Address) (reply : Except Failure (Option RewardsEvent)) :
    Exchange Chain :=
  ⟨.rewardsEvent pool interval, reply⟩

/-- How pools are asked for an event one after the other, and what comes of it. -/
inductive Search (interval : UInt64) (pools : List Address) :
    List (Exchange Chain) → Except EventFault RewardsEvent → Prop
  /-- A pool has the event. Those before it do not, and no other is asked. -/
  | recorded (before : List Address) {after : List Address} {pool : Address} (event : RewardsEvent)
      (h : pools = before ++ pool :: after) :
    Search interval pools
      (before.map (asked interval · (.ok none)) ++ [asked interval pool (.ok (some event))])
      (.ok event)
  /-- A pool fails. Those before it do not have the event, and no other is asked. -/
  | failed (before : List Address) {after : List Address} {pool : Address} (f : Failure)
      (h : pools = before ++ pool :: after) :
    Search interval pools
      (before.map (asked interval · (.ok none)) ++ [asked interval pool (.error f)])
      (.error (.read interval f))
  /-- All are asked, and none has the event. -/
  | nowhere :
    Search interval pools (pools.map (asked interval · (.ok none))) (.error (.notFound interval))

/-- The contracts are asked where the current rewards pool is. -/
def askedForPool (block : Option UInt64) (reply : Except Failure (List Word)) : Exchange Chain :=
  ⟨.readWords [.contractAddress poolContract] block, reply⟩

/-- How the event of an interval is looked for, and what comes of it. -/
inductive LookUp (previousPools : List Address) (interval : UInt64) (block : Option UInt64) :
    List (Exchange Chain) → Except EventFault RewardsEvent → Prop
  /-- The address of the current pool cannot be read. -/
  | unread (f : Failure) :
    LookUp previousPools interval block [askedForPool block (.error f)] (.error (.read interval f))
  /-- There is no address. -/
  | unnamed :
    LookUp previousPools interval block [askedForPool block (.ok [])]
      (.error (.read interval (.text ("no address returned for " ++ poolContract))))
  /-- The current pool and those before it are asked, as far as they are not at the zero address. -/
  | searched (word : Word) (words : List Word) {log : List (Exchange Chain)}
      {r : Except EventFault RewardsEvent}
      (h : Search interval ((Address.ofWord word :: previousPools).filter (· ≠ .zero)) log r) :
    LookUp previousPools interval block (askedForPool block (.ok (word :: words)) :: log) r

variable {interval : UInt64} {log : List (Exchange Chain)} {r : Except EventFault RewardsEvent}

/-- A pool that does not have the event is passed by. -/
theorem Search.passed {pools : List Address} (pool : Address) (h : Search interval pools log r) :
    Search interval (pool :: pools) (asked interval pool (.ok none) :: log) r := by
  cases h with
  | recorded before event h => exact .recorded (pool :: before) event (congrArg (pool :: ·) h)
  | failed before f h => exact .failed (pool :: before) f (congrArg (pool :: ·) h)
  | nowhere => exact .nowhere

theorem search_of_runs {pools : List Address} (h : (firstOf interval pools).Runs log r) :
    Search interval pools log r := by
  induction pools generalizing log with
  | nil =>
    obtain ⟨rfl, rfl⟩ := Attempt.runs_throw.1 h
    exact .nowhere
  | cons pool pools ih =>
    obtain ⟨e, hfault, rfl⟩ | ⟨found, l₁, l₂, hfound, hrest, rfl⟩ := Attempt.runs_bind.1 h
    · obtain ⟨f, hcall, rfl⟩ := Attempt.runs_mapError_error.1 hfault
      obtain rfl := Program.runs_call.1 hcall
      exact .failed [] f rfl
    · obtain rfl := Program.runs_call.1 (Attempt.runs_mapError_ok.1 hfound)
      cases found with
      | some event =>
        obtain ⟨rfl, rfl⟩ := Attempt.runs_pure.1 hrest
        exact .recorded [] event rfl
      | none => exact (ih hrest).passed pool

/-- The address of the current pool is one read, and the first word that it yields. -/
theorem of_runs_currentPool {block : Option UInt64} {r : Except EventFault Address}
    (h : (currentPool interval block).Runs log r) :
    (∃ f, log = [askedForPool block (.error f)] ∧ r = .error (.read interval f)) ∨
    (log = [askedForPool block (.ok [])] ∧
      r = .error (.read interval (.text ("no address returned for " ++ poolContract)))) ∨
    ∃ word words, log = [askedForPool block (.ok (word :: words))] ∧
      r = .ok (Address.ofWord word) := by
  obtain ⟨e, hfault, rfl⟩ | ⟨words, l₁, l₂, hread, hwords, rfl⟩ := Attempt.runs_bind.1 h
  · obtain ⟨f, hcall, rfl⟩ := Attempt.runs_mapError_error.1 hfault
    exact .inl ⟨f, Program.runs_call.1 hcall, rfl⟩
  · obtain rfl := Program.runs_call.1 (Attempt.runs_mapError_ok.1 hread)
    cases words with
    | nil =>
      obtain ⟨rfl, rfl⟩ := Attempt.runs_throw.1 hwords
      exact .inr (.inl ⟨rfl, rfl⟩)
    | cons word words =>
      obtain ⟨rfl, rfl⟩ := Attempt.runs_pure.1 hwords
      exact .inr (.inr ⟨word, words, rfl, rfl⟩)

/-- **An event that is not known beforehand is looked for in the pools**, in one of the ways that
there are. -/
theorem lookUp_of_runs {table : List Prehistoric} {network : Network}
    {previousPools : List Address} {block : Option UInt64}
    (hnone : prehistoric? table network interval = none)
    (h : (resolveIn table network previousPools interval block).Runs log r) :
    LookUp previousPools interval block log r := by
  rw [resolveIn, hnone] at h
  obtain ⟨e, hpool, rfl⟩ | ⟨current, l₁, l₂, hpool, hsearch, rfl⟩ := Attempt.runs_bind.1 h
  · obtain ⟨f, rfl, he⟩ | ⟨rfl, he⟩ | ⟨word, words, -, he⟩ := of_runs_currentPool hpool
    · cases he
      exact .unread f
    · cases he
      exact .unnamed
    · cases he
  · obtain ⟨f, -, he⟩ | ⟨-, he⟩ | ⟨word, words, rfl, he⟩ := of_runs_currentPool hpool
    · cases he
    · cases he
    · cases he
      exact .searched word words (search_of_runs hsearch)

end PoolKeeper.RewardsEvent
