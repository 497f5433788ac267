/-
Collisions of a hash function.

They are not assumed away: a list of strings that have been hashed either holds
two that collide, or a digest tells which of them it was made of
(`eq_of_hash_eq`).
-/
import PoolKeeper.FixedBytes

namespace PoolKeeper

/-- Two different strings out of a list have one digest. -/
def Collision (hash : Bytes → Hash) (strings : List Bytes) : Prop :=
  ∃ x ∈ strings, ∃ y ∈ strings, x ≠ y ∧ hash x = hash y

/-- Without a collision a digest tells which string was hashed. -/
theorem eq_of_hash_eq {hash : Bytes → Hash} {strings : List Bytes} (h : ¬ Collision hash strings)
    {x y : Bytes} (hx : x ∈ strings) (hy : y ∈ strings) (heq : hash x = hash y) : x = y := by
  refine Decidable.by_contra fun hne => ?_
  exact h ⟨x, hx, y, hy, hne, heq⟩

end PoolKeeper
