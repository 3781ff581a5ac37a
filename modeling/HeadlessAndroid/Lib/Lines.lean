import Mathlib.Data.List.Basic
import Mathlib.Tactic.Ring

/-!
# Lib.Lines — the non-empty lines of a list and of its pieces

`segments sep l` are the non-empty stretches of `l` between separators.  Taking them piece by piece
gives one more for every cut that falls inside a stretch (`length_flatMap_segments`), so it gives
the same list where no cut does (`flatMap_segments_of_clean`).
-/

namespace Lib

variable {α β : Type*} [DecidableEq α] [DecidableEq β]

/-- Splitting commutes with a map that takes the separator `s` to `t` and works on the two sides
of it apart. -/
theorem splitOn_map_of_cut {f : List α → List β} {s : α} {t : β}
    (hcut : ∀ a b, f (a ++ s :: b) = f a ++ t :: f b) (hmem : ∀ a, s ∉ a → t ∉ f a)
    (l : List α) : (f l).splitOn t = (l.splitOn s).map f := by
  induction h : l.length using Nat.strong_induction_on generalizing l with
  | _ n ih =>
    by_cases hs : s ∈ l
    · obtain ⟨a, b, rfl, ha⟩ := List.eq_append_cons_of_mem hs
      have hb : b.length < n := by rw [← h]; simp; omega
      rw [hcut, List.splitOn_append_cons_self_of_not_mem (hmem a ha),
        List.splitOn_append_cons_self_of_not_mem ha, List.map_cons, ih _ hb b rfl]
    · rw [List.splitOn_eq_singleton hs, List.splitOn_eq_singleton (hmem l hs), List.map_singleton]

theorem length_splitOn (s : α) (l : List α) : (l.splitOn s).length = l.count s + 1 := by
  induction l with
  | nil => rfl
  | cons x l ih =>
    rw [List.splitOn_cons_eq_if_modifyHead, List.count_cons]
    split_ifs with hx
    · simp [ih]
    · simp [ih]

/-- The non-empty stretches between separators. -/
def segments (sep : α) (l : List α) : List (List α) := (l.splitOn sep).filter (fun s => !s.isEmpty)

variable {sep : α}

@[simp] theorem segments_nil : segments sep [] = [] := rfl

theorem segments_append_sep (a b : List α) :
    segments sep (a ++ sep :: b) = segments sep a ++ segments sep b := by
  unfold segments
  rw [List.splitOn_append_cons_self, List.filter_append]

@[simp] theorem segments_sep_cons (b : List α) : segments sep (sep :: b) = segments sep b := by
  have h : segments sep ([] ++ sep :: b) = _ := segments_append_sep [] b
  simpa using h

/-- A stretch is not empty, has no separator in it and is made of elements of the list. -/
theorem of_mem_segments {l u : List α} (h : u ∈ segments sep l) :
    u ≠ [] ∧ sep ∉ u ∧ u ⊆ l := by
  induction hn : l.length using Nat.strong_induction_on generalizing l with
  | _ n ih =>
    by_cases hs : sep ∈ l
    · obtain ⟨a, b, rfl, ha⟩ := List.eq_append_cons_of_mem hs
      rw [segments_append_sep, List.mem_append] at h
      rcases h with h | h
      · obtain ⟨h1, h2, h3⟩ := ih a.length (by rw [← hn]; simp) h rfl
        exact ⟨h1, h2, List.Subset.trans h3 (List.subset_append_left _ _)⟩
      · obtain ⟨h1, h2, h3⟩ := ih b.length (by rw [← hn]; simp; omega) h rfl
        exact ⟨h1, h2, fun x hx => List.mem_append_right _ (List.mem_cons_of_mem _ (h3 hx))⟩
    · unfold segments at h
      rw [List.splitOn_eq_singleton hs, List.mem_filter, List.mem_singleton] at h
      obtain ⟨rfl, h⟩ := h
      exact ⟨by simpa using h, hs, List.Subset.refl _⟩

/-- A cut of a list next to a separator, or at one of its ends. -/
def CleanCut (sep : α) (a b : List α) : Prop :=
  a = [] ∨ b = [] ∨ a.getLast? = some sep ∨ b.head? = some sep

instance (sep : α) (a b : List α) : Decidable (CleanCut sep a b) := by
  unfold CleanCut; infer_instance

theorem segments_append_of_clean {a b : List α} (h : CleanCut sep a b) :
    segments sep (a ++ b) = segments sep a ++ segments sep b := by
  rcases h with rfl | rfl | h | h
  · rfl
  · simp
  · obtain ⟨a, rfl⟩ := List.getLast?_eq_some_iff.mp h
    rw [List.append_assoc, List.singleton_append, segments_append_sep, segments_append_sep]
    simp
  · obtain ⟨b, rfl⟩ := List.head?_eq_some_iff.mp h
    rw [segments_append_sep, segments_sep_cons]

/-- An element that is no separator lengthens the stretch that follows it, or is one by itself. -/
theorem length_segments_cons {x : α} (hx : x ≠ sep) (l : List α) :
    (segments sep (x :: l)).length =
      (segments sep l).length + if l = [] ∨ l.head? = some sep then 1 else 0 := by
  cases l with
  | nil => simp [segments, List.splitOn_eq_singleton (show sep ∉ [x] by simpa using hx.symm)]
  | cons y l =>
    by_cases hy : y = sep
    · subst hy
      have e : segments y (x :: y :: l) = segments y [x] ++ segments y l :=
        segments_append_sep [x] l
      have hh : y :: l = [] ∨ (y :: l).head? = some y := Or.inr rfl
      rw [e, segments_sep_cons, if_pos hh]
      simp [segments, List.splitOn_eq_singleton (show y ∉ [x] by simpa using hx.symm), add_comm]
    · have hne : ¬ (y :: l = [] ∨ (y :: l).head? = some sep) := by simp [hy]
      rw [if_neg hne]
      -- both lists begin with a stretch, and it is not empty
      obtain ⟨u, us, hu⟩ := List.exists_cons_of_ne_nil (List.splitOn_ne_nil sep l)
      simp [segments, List.splitOn_cons_eq_if_modifyHead, hx, hy, hu]

/-- **A cut inside a stretch makes two of it**, and every other cut leaves the number alone. -/
theorem length_segments_append : ∀ (a b : List α),
    (segments sep a).length + (segments sep b).length =
      (segments sep (a ++ b)).length + if CleanCut sep a b then 0 else 1
  | [], b => by simp [CleanCut]
  | [x], b => by
    by_cases hx : x = sep
    · subst hx
      have hc : CleanCut x [x] b := Or.inr (Or.inr (Or.inl rfl))
      simp [hc]
    · have h1 := length_segments_cons hx b
      have h2 := length_segments_cons hx []
      have hc : CleanCut sep [x] b ↔ b = [] ∨ b.head? = some sep := by simp [CleanCut, hx]
      simp only [List.cons_append, List.nil_append, h1, h2]
      by_cases hb : b = [] ∨ b.head? = some sep
      · simp [hc.mpr hb, hb]; omega
      · simp [mt hc.mp hb, hb]; omega
  | x :: y :: a, b => by
    have ih := length_segments_append (y :: a) b
    have hc : CleanCut sep (x :: y :: a) b ↔ CleanCut sep (y :: a) b := by
      simp [CleanCut]
    by_cases hx : x = sep
    · subst hx
      simp only [List.cons_append, segments_sep_cons, hc] at ih ⊢
      exact ih
    · have h1 := length_segments_cons hx (y :: a)
      have h2 := length_segments_cons hx (y :: a ++ b)
      have hh : (y :: a ++ b = [] ∨ (y :: a ++ b).head? = some sep) ↔
          (y :: a = [] ∨ (y :: a).head? = some sep) := by simp
      simp only [hc, List.cons_append] at ih h1 h2 hh ⊢
      simp only [hh] at h2
      omega

/-- How many of the cuts between the pieces fall inside a stretch. -/
def cutsInside (sep : α) : List (List α) → ℕ
  | [] => 0
  | c :: cs => (if CleanCut sep c cs.flatten then 0 else 1) + cutsInside sep cs

theorem length_flatMap_segments : ∀ (cs : List (List α)),
    (cs.flatMap (segments sep)).length =
      (segments sep cs.flatten).length + cutsInside sep cs
  | [] => rfl
  | c :: cs => by
    have ih := length_flatMap_segments cs
    have hc : (segments sep c).length + (segments sep cs.flatten).length = _ :=
      length_segments_append c cs.flatten
    simp only [List.flatMap_cons, List.length_append, List.flatten_cons, cutsInside]
    omega

theorem flatMap_segments_of_clean : ∀ (cs : List (List α)), cutsInside sep cs = 0 →
    cs.flatMap (segments sep) = segments sep cs.flatten
  | [], _ => rfl
  | c :: cs, h => by
    unfold cutsInside at h
    have hc : CleanCut sep c cs.flatten := by
      by_contra hc
      rw [if_neg hc] at h
      omega
    rw [List.flatMap_cons, List.flatten_cons, segments_append_of_clean hc,
      flatMap_segments_of_clean cs (by omega)]

end Lib
