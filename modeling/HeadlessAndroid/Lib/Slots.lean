import Mathlib.Data.List.Basic

/-!
# Lib.Slots — what is in flight, delivered in any order

Each message or request gets the next slot and leaves it empty when it is over, so that the number of
a slot names one request throughout a run.
-/

namespace Lib

abbrev Slots (α : Type) := List (Option α)

namespace Slots

variable {α : Type}

def get (s : Slots α) (i : ℕ) : Option α := s[i]?.join

def add (s : Slots α) (a : α) : Slots α := s ++ [some a]

/-- The slot `i` holds `o` from now on. -/
def put (s : Slots α) (i : ℕ) (o : Option α) : Slots α := List.set s i o

/-- Nothing is in flight. -/
def quiet (s : Slots α) : Bool := s.all Option.isNone

theorem get_add (s : Slots α) (a : α) (j : ℕ) :
    (s.add a).get j = if j = s.length then some a else s.get j := by
  unfold get add
  rcases Nat.lt_trichotomy j s.length with h | h | h
  · rw [List.getElem?_append_left h, if_neg (Nat.ne_of_lt h)]
  · subst h
    rw [List.getElem?_concat_length, if_pos rfl]
    rfl
  · have h1 : (s ++ [some a])[j]? = none := List.getElem?_eq_none (by simp; omega)
    have h2 : s[j]? = none := List.getElem?_eq_none (Nat.le_of_lt h)
    rw [h1, h2, if_neg (Nat.ne_of_gt h)]

theorem lt_length_of_get {s : Slots α} {i : ℕ} {a : α} (h : s.get i = some a) : i < s.length := by
  by_contra hi
  unfold get at h
  rw [List.getElem?_eq_none (Nat.not_lt.mp hi)] at h
  cases h

theorem get_put {s : Slots α} {i : ℕ} {a : α} (h : s.get i = some a) (o : Option α) (j : ℕ) :
    (s.put i o).get j = if j = i then o else s.get j := by
  unfold get put
  by_cases hj : j = i
  · subst hj
    rw [List.getElem?_set_self (lt_length_of_get h), if_pos rfl]
    rfl
  · rw [List.getElem?_set_ne (Ne.symm hj), if_neg hj]

theorem quiet_iff {s : Slots α} : s.quiet = true ↔ ∀ j, s.get j = none := by
  unfold quiet get
  rw [List.all_eq_true]
  constructor
  · intro h j
    cases hj : s[j]? with
    | none => rfl
    | some o => simpa using h o (List.mem_of_getElem? hj)
  · intro h o ho
    obtain ⟨j, hj⟩ := List.getElem?_of_mem ho
    have := h j
    rw [hj] at this
    simpa using this

theorem not_quiet {s : Slots α} {i : ℕ} {a : α} (h : s.get i = some a) : s.quiet = false := by
  cases hq : s.quiet with
  | false => rfl
  | true =>
    rw [quiet_iff.mp hq i] at h
    cases h

end Slots

end Lib
