/-
Headers that have been read lately, so that a search which comes back to a
block need not ask for it again.

A header is kept under the number that it carries itself. The chain's newest
header is always asked for, and kept like any other.
-/
import PoolKeeper.Chain.Headers

namespace PoolKeeper

/-- At most 1024 headers with different numbers, the latest used first. -/
structure HeaderCache where
  recent : List BlockHeader
  distinct : recent.Pairwise fun a b => a.number ≠ b.number
  bounded : recent.length ≤ 1024

namespace HeaderCache

def empty : HeaderCache := ⟨[], .nil, by simp⟩

def get? (c : HeaderCache) (number : UInt64) : Option BlockHeader :=
  c.recent.find? (·.number = number)

/-- Keeps a header as the one used last. When there is no room, the one not
used for longest goes. -/
def insert (c : HeaderCache) (h : BlockHeader) : HeaderCache where
  recent := (h :: c.recent.filter (·.number ≠ h.number)).take 1024
  distinct := by
    refine List.Pairwise.sublist (List.take_sublist _ _) (List.pairwise_cons.2 ⟨?_, ?_⟩)
    · intro a ha
      have := (List.mem_filter.1 ha).2
      exact fun e => (of_decide_eq_true this) e.symm
    · exact c.distinct.sublist List.filter_sublist
  bounded := by
    rw [List.length_take]
    omega

theorem number_of_get? {c : HeaderCache} {number : UInt64} {h : BlockHeader}
    (found : c.get? number = some h) : h.number = number := by
  simpa using List.find?_some found

theorem mem_of_get? {c : HeaderCache} {number : UInt64} {h : BlockHeader}
    (found : c.get? number = some h) : h ∈ c.recent := List.mem_of_find?_eq_some found

theorem mem_insert {c : HeaderCache} {h a : BlockHeader} (ha : a ∈ (c.insert h).recent) :
    a = h ∨ a ∈ c.recent := by
  rcases List.mem_cons.1 (List.mem_of_mem_take ha) with e | e
  · exact .inl e
  · exact .inr (List.mem_filter.1 e).1

/-- A reply, kept if there is a header. -/
def keep (reply : Except Failure BlockHeader) (c : HeaderCache) :
    Except Failure BlockHeader × HeaderCache :=
  match reply with
  | .ok h => (.ok h, c.insert h)
  | .error f => (.error f, c)

/-- Answers a call, from the cache if it can. -/
def answer (call : Headers.Call) (c : HeaderCache) :
    Program Headers (Except Failure BlockHeader × HeaderCache) :=
  let asked := (fun reply => c.keep reply) <$> Program.call (I := Headers) call
  match call with
  | .latest => asked
  | .byNumber number =>
    match c.get? number with
    | some h => .done (.ok h, c.insert h)
    | none => asked

end HeaderCache
end PoolKeeper
