import HeadlessAndroid.Lib.Slots
import Mathlib.Algebra.BigOperators.Group.List.Basic
import Mathlib.Algebra.Order.Monoid.Unbundled.Basic
import Mathlib.Algebra.Order.Group.Multiset

/-!
# Lib.Tally — what the occupants of the slots add up to

`total f s` is the sum of `f` over the occupied slots.  With `f` into the naturals it counts; with `f`
into multisets it collects what the occupants hold.  One rule says how a slot that changes its
occupant changes the sum (`total_split`): everything but the slot is one summand that stays.
-/

namespace Lib

namespace Slots

variable {α M : Type}

/-- Putting back what is there changes nothing. -/
theorem put_self {s : Slots α} {i : ℕ} {a : α} (h : s.get i = some a) : s.put i (some a) = s := by
  apply List.ext_getElem?
  intro j
  unfold put get at *
  rw [List.getElem?_set]
  split_ifs with hij hlt
  · subst hij
    rw [List.getElem?_eq_getElem hlt] at h ⊢
    exact congrArg some h.symm
  · subst hij
    rw [List.getElem?_eq_none (Nat.le_of_not_lt hlt)]
  · rfl

section Total

variable [AddCommMonoid M] (f : α → M)

def total (s : Slots α) : M := (s.map fun o => o.elim 0 f).sum

@[simp] theorem total_nil : total f [] = 0 := rfl

@[simp] theorem total_cons (o : Option α) (s : Slots α) :
    total f (o :: s) = o.elim 0 f + total f s := by
  simp [total]

@[simp] theorem total_add (s : Slots α) (a : α) : total f (s.add a) = total f s + f a := by
  simp [total, add]

/-- All slots but `i` are one summand. -/
theorem total_split {s : Slots α} {i : ℕ} {a : α} (h : s.get i = some a) :
    ∃ m, total f s = f a + m ∧ ∀ o : Option α, total f (s.put i o) = o.elim 0 f + m := by
  induction s generalizing i with
  | nil => simp [get] at h
  | cons o s ih =>
    cases i with
    | zero =>
      have h : o = some a := by simpa [get] using h
      subst h
      exact ⟨total f s, by simp, fun o => by simp [put]⟩
    | succ i =>
      obtain ⟨m, hm, hput⟩ := ih (i := i) (by simpa [get] using h)
      refine ⟨o.elim 0 f + m, ?_, fun o' => ?_⟩
      · rw [total_cons, hm, add_left_comm]
      · have hput := hput o'
        simp only [put, List.set_cons_succ, total_cons] at hput ⊢
        rw [hput, add_left_comm]

theorem total_congr {g : α → M} {s : Slots α} (h : ∀ i a, s.get i = some a → f a = g a) :
    total f s = total g s := by
  induction s with
  | nil => rfl
  | cons o s ih =>
    have htl : total f s = total g s := ih fun i a hi => h (i + 1) a (by simpa [get] using hi)
    rw [total_cons, total_cons, htl]
    cases o with
    | none => rfl
    | some a => simp only [Option.elim_some, h 0 a (by simp [get])]

/-- A slot whose occupant counts for as much as before leaves the sum as it is. -/
theorem total_put_of_eq {s : Slots α} {i : ℕ} {a b : α} (h : s.get i = some a) (hf : f b = f a) :
    total f (s.put i (some b)) = total f s := by
  obtain ⟨m, hm, hput⟩ := total_split f h
  rw [hm, hput, Option.elim_some, hf]

end Total

/-! ### Counting -/

theorem le_total {f : α → ℕ} {s : Slots α} {i : ℕ} {a : α} (h : s.get i = some a) :
    f a ≤ total f s := by
  obtain ⟨m, hm, -⟩ := total_split f h
  omega

theorem exists_of_total_pos {f : α → ℕ} {s : Slots α} (h : 0 < total f s) :
    ∃ i a, s.get i = some a ∧ 0 < f a := by
  by_contra hno
  push Not at hno
  have hz : total f s = total (fun _ => 0) s :=
    total_congr f fun i a hi => Nat.le_zero.mp (hno i a hi)
  have hz0 : total (fun _ : α => 0) s = 0 := by
    clear hno hz h
    induction s with
    | nil => rfl
    | cons o s ih => cases o <;> simp [ih]
  omega

/-! ### Collecting -/

theorem mem_total {β : Type} {f : α → Multiset β} {s : Slots α} {b : β} :
    b ∈ total f s ↔ ∃ i a, s.get i = some a ∧ b ∈ f a := by
  constructor
  · induction s with
    | nil => simp
    | cons o s ih =>
      intro h
      rw [total_cons, Multiset.mem_add] at h
      rcases h with h | h
      · cases o with
        | none => simp at h
        | some a => exact ⟨0, a, by simp [get], h⟩
      · obtain ⟨i, a, hi, hb⟩ := ih h
        exact ⟨i + 1, a, by simpa [get] using hi, hb⟩
  · rintro ⟨i, a, hi, hb⟩
    obtain ⟨m, hm, -⟩ := total_split f hi
    rw [hm]
    exact Multiset.mem_add.mpr (Or.inl hb)

end Slots

end Lib
