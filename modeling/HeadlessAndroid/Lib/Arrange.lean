import Mathlib.Data.List.Sort

/-!
# Lib.Arrange — what a stable arrangement keeps when items are taken out

`insertionSort` is the stable sort.  Items taken out before it or after it leave the same list
(`filter_insertionSort`), and a list gathered from tagged sources loses the items of one source just
when that source is taken out (`filter_flatMap_of_tag`).
-/

namespace Lib

section Stable

variable {α : Type*} (r : α → α → Prop) [DecidableRel r]

/-- The item that goes out leaves no trace in the order of the others. -/
theorem filter_orderedInsert_neg (p : α → Bool) {a : α} (ha : p a = false) :
    ∀ l : List α, (l.orderedInsert r a).filter p = l.filter p
  | [] => by
    rw [List.orderedInsert_nil, List.filter_cons, ha]
    rfl
  | b :: l => by
    rw [List.orderedInsert_cons]
    by_cases hab : r a b
    · rw [if_pos hab, List.filter_cons, ha]
      rfl
    · rw [if_neg hab, List.filter_cons, List.filter_cons, filter_orderedInsert_neg p ha l]

variable [IsTrans α r]

/-- The item that stays comes before the same items, whether or not the others are there. -/
theorem filter_orderedInsert_pos (p : α → Bool) {a : α} (ha : p a = true) :
    ∀ l : List α, l.Pairwise r →
      (l.orderedInsert r a).filter p = (l.filter p).orderedInsert r a
  | [], _ => by
    rw [List.orderedInsert_nil, List.filter_cons, ha]
    rfl
  | b :: l, hl => by
    obtain ⟨hb, hl⟩ := List.pairwise_cons.mp hl
    rw [List.orderedInsert_cons]
    by_cases hab : r a b
    · rw [if_pos hab, List.filter_cons, ha]
      show a :: (b :: l).filter p = _
      -- every item that is left is one that `a` comes before
      have hall : ∀ c ∈ (b :: l).filter p, r a c := by
        intro c hc
        rcases List.mem_cons.mp (List.mem_filter.mp hc).1 with rfl | hc
        · exact hab
        · exact Trans.trans hab (hb c hc)
      cases hf : (b :: l).filter p with
      | nil => rfl
      | cons c m =>
        have hc : r a c := hall c (by rw [hf]; exact List.mem_cons_self)
        rw [List.orderedInsert_cons, if_pos hc]
    · rw [if_neg hab, List.filter_cons, List.filter_cons, filter_orderedInsert_pos p ha l hl]
      by_cases hp : p b = true
      · rw [if_pos hp, if_pos hp, List.orderedInsert_cons, if_neg hab]
      · rw [if_neg hp, if_neg hp]

variable [Std.Total r] in
/-- **Taking items out commutes with the stable sort.** -/
theorem filter_insertionSort (p : α → Bool) :
    ∀ l : List α, (l.insertionSort r).filter p = (l.filter p).insertionSort r
  | [] => rfl
  | a :: l => by
    rw [List.insertionSort_cons, List.filter_cons]
    have hsorted : (l.insertionSort r).Pairwise r := List.pairwise_insertionSort r l
    by_cases ha : p a = true
    · rw [if_pos ha, List.insertionSort_cons, filter_orderedInsert_pos r p ha _ hsorted,
        filter_insertionSort p l]
    · rw [if_neg ha, filter_orderedInsert_neg r p (Bool.eq_false_iff.mpr ha),
        filter_insertionSort p l]

end Stable

/-- Items that carry their source's tag: those of the other sources are the items of the other
sources. -/
theorem filter_flatMap_of_tag {α β : Type*} (items : α → List β) (keep : α → Bool) (p : β → Bool)
    (h : ∀ a, ∀ x ∈ items a, p x = keep a) :
    ∀ l : List α, (l.flatMap items).filter p = (l.filter keep).flatMap items
  | [] => rfl
  | a :: l => by
    rw [List.flatMap_cons, List.filter_append, filter_flatMap_of_tag items keep p h l,
      List.filter_cons]
    by_cases hk : keep a = true
    · rw [if_pos hk, List.flatMap_cons, List.filter_eq_self.mpr fun x hx => by rw [h a x hx, hk]]
    · have hnone : (items a).filter p = [] :=
        List.filter_eq_nil_iff.mpr fun x hx => by rw [h a x hx]; exact hk
      rw [if_neg hk, hnone, List.nil_append]

end Lib
