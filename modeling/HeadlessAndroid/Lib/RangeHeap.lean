import Mathlib.Data.Nat.Basic
import Mathlib.Order.Basic

/-!
# Lib.RangeHeap — ranges that are taken out of a larger range

The state is what is taken; nothing says how the rest is kept.  A request of `n` can be met wherever
there is a hole of `n`, and only there.  A gap is a hole that cannot be made longer: a best fit takes
the front of a gap that is no longer than any other gap that is long enough.
-/

namespace Lib

@[ext] structure RangeHeap where
  lo : ℕ
  hi : ℕ
  /-- Each from its first number to the one after its last, in order. -/
  taken : List (ℕ × ℕ)
  inside : ∀ r ∈ taken, lo ≤ r.1 ∧ r.1 < r.2 ∧ r.2 ≤ hi
  disjoint : taken.Pairwise fun r s => r.2 ≤ s.1

namespace RangeHeap

variable (H H' : RangeHeap)

/-- The `n` numbers from `x` on are all free. -/
def Hole (x n : ℕ) : Prop := H.lo ≤ x ∧ x + n ≤ H.hi ∧ ∀ r ∈ H.taken, x + n ≤ r.1 ∨ r.2 ≤ x

/-- A hole with something taken, or an end, on both sides. -/
structure Gap (x n : ℕ) : Prop where
  pos : 0 < n
  hole : H.Hole x n
  left : x = H.lo ∨ ∃ r ∈ H.taken, r.2 = x
  right : x + n = H.hi ∨ ∃ r ∈ H.taken, r.1 = x + n

/-- `H'` is `H` with the `n` numbers from `x` on taken. -/
structure Take (x n : ℕ) : Prop where
  lo : H'.lo = H.lo
  hi : H'.hi = H.hi
  taken : ∃ l m, H.taken = l ++ m ∧ H'.taken = l ++ (x, x + n) :: m

/-- The front of a shortest gap that is long enough is taken. -/
structure TakeBest (x n : ℕ) : Prop extends Take H H' x n where
  best : ∃ g, H.Gap x g ∧ n ≤ g ∧ ∀ y k, H.Gap y k → n ≤ k → g ≤ k

/-- `H'` is `H` with the range that starts at `x` given back. -/
def Drop (x : ℕ) : Prop := ∃ n, Take H' H x n

variable {H H'}

theorem Hole.mono {x n y k : ℕ} (h : H.Hole x n) (hx : x ≤ y) (hy : y + k ≤ x + n) :
    H.Hole y k := by
  obtain ⟨h1, h2, h3⟩ := h
  refine ⟨h1.trans hx, hy.trans h2, fun r hr => ?_⟩
  rcases h3 r hr with h | h
  · exact Or.inl (hy.trans h)
  · exact Or.inr (h.trans hx)

end RangeHeap

end Lib
