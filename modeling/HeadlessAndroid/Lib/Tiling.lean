import Mathlib.Data.List.Chain
import Mathlib.Tactic.Linarith

/-!
# Lib.Tiling — a range cut into consecutive parts

The parts are a list; each is named by where it starts and ends where the next one starts, the last
one at the end of the range.  Some of the parts are `used`.  A page of size `P` is occupied when a
used part reaches into it.
-/

namespace Lib.Tiling

variable {α : Type*} (start : α → ℕ)

/-- Where the parts `l` begin, `hi` when there are none. -/
def stop (l : List α) (hi : ℕ) : ℕ := (l.head?.map start).getD hi

/-- The parts `l` cut the range from `lo` to `hi`. -/
def Tiles : ℕ → List α → ℕ → Prop
  | lo, [], hi => lo = hi
  | lo, a :: l, hi => start a = lo ∧ lo < stop start l hi ∧ Tiles (stop start l hi) l hi

/-- A part with both its ends. -/
structure Span (α : Type*) where
  owner : α
  lo : ℕ
  hi : ℕ

def spans : List α → ℕ → List (Span α)
  | [], _ => []
  | a :: l, hi => ⟨a, start a, stop start l hi⟩ :: spans l hi

variable {start}

@[simp] theorem stop_nil (hi : ℕ) : stop start [] hi = hi := rfl

@[simp] theorem stop_cons (a : α) (l : List α) (hi : ℕ) : stop start (a :: l) hi = start a := rfl

theorem stop_append (l m : List α) (hi : ℕ) :
    stop start (l ++ m) hi = stop start l (stop start m hi) := by
  cases l <;> rfl

theorem Tiles.stop_eq {lo hi : ℕ} : ∀ {l : List α}, Tiles start lo l hi → stop start l hi = lo
  | [], h => h.symm
  | _ :: _, h => h.1

theorem Tiles.le : ∀ {l : List α} {lo hi : ℕ}, Tiles start lo l hi → lo ≤ hi
  | [], _, _, h => Nat.le_of_eq h
  | _ :: _, _, _, ⟨_, hlt, h⟩ => hlt.le.trans (Tiles.le h)

theorem tiles_append {l m : List α} {lo hi : ℕ} :
    Tiles start lo (l ++ m) hi ↔
      Tiles start lo l (stop start m hi) ∧ Tiles start (stop start m hi) m hi := by
  induction l generalizing lo with
  | nil =>
    constructor
    · intro h
      have h : Tiles start lo m hi := h
      rw [h.stop_eq]
      exact ⟨rfl, h⟩
    · rintro ⟨rfl, h⟩
      exact h
  | cons a l ih =>
    rw [List.cons_append, Tiles, Tiles, stop_append, ih, and_assoc, and_assoc]

theorem tiles_split {l m : List α} {a : α} {lo hi : ℕ} :
    Tiles start lo (l ++ a :: m) hi ↔ Tiles start lo l (start a) ∧
      start a < stop start m hi ∧ Tiles start (stop start m hi) m hi := by
  rw [tiles_append, Tiles, stop_cons]
  constructor
  · rintro ⟨hl, -, hlt, hm⟩
    exact ⟨hl, hlt, hm⟩
  · rintro ⟨hl, hlt, hm⟩
    exact ⟨hl, rfl, hlt, hm⟩

theorem Tiles.start_mem {l : List α} {lo hi : ℕ} (h : Tiles start lo l hi) {a : α} (ha : a ∈ l) :
    lo ≤ start a ∧ start a < hi := by
  obtain ⟨pre, post, rfl⟩ := List.append_of_mem ha
  obtain ⟨hpre, hlt, hpost⟩ := tiles_split.mp h
  exact ⟨hpre.le, hlt.trans_le hpost.le⟩

/-- No two parts start at the same place. -/
theorem Tiles.pairwise : ∀ {l : List α} {lo hi : ℕ}, Tiles start lo l hi →
    l.Pairwise fun a b => start a < start b
  | [], _, _, _ => List.Pairwise.nil
  | _ :: _, _, _, ⟨ha, hlt, h⟩ => List.pairwise_cons.mpr
    ⟨fun _ hb => ha ▸ hlt.trans_le (h.start_mem hb).1, h.pairwise⟩

/-! ### Spans -/

theorem spans_append (l m : List α) (hi : ℕ) :
    spans start (l ++ m) hi = spans start l (stop start m hi) ++ spans start m hi := by
  induction l with
  | nil => rfl
  | cons a l ih => rw [List.cons_append, spans, spans, ih, stop_append, List.cons_append]

theorem spans_split (l m : List α) (a : α) (hi : ℕ) :
    spans start (l ++ a :: m) hi =
      spans start l (start a) ++ ⟨a, start a, stop start m hi⟩ :: spans start m hi := by
  rw [spans_append, stop_cons, spans]

theorem spans_bounds : ∀ {l : List α} {lo hi : ℕ}, Tiles start lo l hi →
    ∀ t ∈ spans start l hi, lo ≤ t.lo ∧ t.lo < t.hi ∧ t.hi ≤ hi
  | [], _, _, _, t, ht => by simp [spans] at ht
  | a :: l, lo, hi, ⟨ha, hlt, h⟩, t, ht => by
    rcases List.mem_cons.mp ht with rfl | ht
    · exact ⟨ha.ge, ha ▸ hlt, h.le⟩
    · obtain ⟨h1, h2, h3⟩ := spans_bounds h t ht
      exact ⟨hlt.le.trans h1, h2, h3⟩

theorem spans_pairwise : ∀ {l : List α} {lo hi : ℕ}, Tiles start lo l hi →
    (spans start l hi).Pairwise fun s t => s.hi ≤ t.lo
  | [], _, _, _ => List.Pairwise.nil
  | _ :: _, _, _, ⟨_, _, h⟩ => List.pairwise_cons.mpr
    ⟨fun t ht => (spans_bounds h t ht).1, spans_pairwise h⟩

theorem exists_span : ∀ {l : List α} {lo hi x : ℕ}, Tiles start lo l hi → lo ≤ x → x < hi →
    ∃ t ∈ spans start l hi, t.lo ≤ x ∧ x < t.hi
  | [], lo, hi, x, h, h1, h2 => by
    have h : lo = hi := h
    omega
  | a :: l, lo, hi, x, ⟨ha, _, h⟩, h1, h2 => by
    by_cases hx : x < stop start l hi
    · exact ⟨_, List.mem_cons_self, ha.trans_le h1, hx⟩
    · obtain ⟨t, ht, htx⟩ := exists_span h (not_lt.mp hx) h2
      exact ⟨t, List.mem_cons_of_mem _ ht, htx⟩

theorem mem_spans {l : List α} {hi : ℕ} {t : Span α} : t ∈ spans start l hi ↔
    ∃ pre post, l = pre ++ t.owner :: post ∧ t.lo = start t.owner ∧ t.hi = stop start post hi := by
  constructor
  · intro ht
    induction l with
    | nil => simp [spans] at ht
    | cons a l ih =>
      rcases List.mem_cons.mp ht with rfl | ht
      · exact ⟨[], l, rfl, rfl, rfl⟩
      · obtain ⟨pre, post, rfl, h⟩ := ih ht
        exact ⟨a :: pre, post, rfl, h⟩
  · rintro ⟨pre, post, rfl, hlo, hhi⟩
    rw [spans_split]
    obtain ⟨o, lo, e⟩ := t
    have hlo : lo = start o := hlo
    have hhi : e = stop start post hi := hhi
    simp [hlo, hhi]

theorem owner_of_span {l : List α} {hi : ℕ} {t : Span α} (h : t ∈ spans start l hi) :
    t.owner ∈ l := by
  obtain ⟨pre, post, rfl, -⟩ := mem_spans.mp h
  simp

variable (start) in
theorem exists_span_of_mem {l : List α} {a : α} (h : a ∈ l) (hi : ℕ) :
    ∃ t ∈ spans start l hi, t.owner = a := by
  obtain ⟨pre, post, rfl⟩ := List.append_of_mem h
  exact ⟨⟨a, start a, stop start post hi⟩, mem_spans.mpr ⟨pre, post, rfl, rfl, rfl⟩, rfl⟩

/-! ### Holes -/

section Used

variable {used : α → Prop}

/-- Where no two unused parts touch, an unused stretch of the range lies in one part. -/
theorem exists_hole {l : List α} {lo hi x n : ℕ} (h : Tiles start lo l hi)
    (hchain : l.IsChain fun a b => used a ∨ used b) (hn : 0 < n) (hlo : lo ≤ x) (hhi : x + n ≤ hi)
    (hfree : ∀ t ∈ spans start l hi, used t.owner → x + n ≤ t.lo ∨ t.hi ≤ x) :
    ∃ t ∈ spans start l hi, ¬ used t.owner ∧ t.lo ≤ x ∧ x + n ≤ t.hi := by
  obtain ⟨t, ht, h1, h2⟩ := exists_span h hlo (by omega)
  have hunused : ¬ used t.owner := fun hu => by
    rcases hfree t ht hu with h3 | h3 <;> omega
  refine ⟨t, ht, hunused, h1, ?_⟩
  by_contra hlt
  obtain ⟨pre, post, rfl, -, hthi⟩ := mem_spans.mp ht
  cases post with
  | nil =>
    rw [stop_nil] at hthi
    omega
  | cons b post =>
    rw [stop_cons] at hthi
    -- the part after `t` is used and starts inside the stretch
    have hb : used b := by
      have hch := (List.isChain_append.mp hchain).2.1
      rcases (List.isChain_cons_cons.mp hch).1 with hu | hu
      · exact absurd hu hunused
      · exact hu
    have hspan : (⟨b, start b, stop start post hi⟩ : Span α) ∈
        spans start (pre ++ t.owner :: b :: post) hi :=
      mem_spans.mpr ⟨pre ++ [t.owner], post, by simp, rfl, rfl⟩
    obtain ⟨-, hpos, -⟩ := spans_bounds h _ hspan
    rcases hfree _ hspan hb with h3 | h3 <;> dsimp only at h3 hpos <;> omega

/-! ### Pages -/

/-- A used part reaches into the page at the address `x`. -/
def Occupied (start : α → ℕ) (used : α → Prop) (P : ℕ) (l : List α) (hi x : ℕ) : Prop :=
  ∃ t ∈ spans start l hi, used t.owner ∧ t.lo < x + P ∧ x < t.hi

variable {P x : ℕ}

theorem not_occupied_nil {hi : ℕ} : ¬ Occupied start used P [] hi x := by
  rintro ⟨t, ht, -⟩
  simp [spans] at ht

theorem occupied_append {l m : List α} {hi : ℕ} : Occupied start used P (l ++ m) hi x ↔
    Occupied start used P l (stop start m hi) x ∨ Occupied start used P m hi x := by
  unfold Occupied
  rw [spans_append]
  simp only [List.mem_append, or_and_right, exists_or]

theorem occupied_cons {a : α} {m : List α} {hi : ℕ} : Occupied start used P (a :: m) hi x ↔
    (used a ∧ start a < x + P ∧ x < stop start m hi) ∨ Occupied start used P m hi x := by
  unfold Occupied
  rw [spans]
  simp only [List.mem_cons, or_and_right, exists_or, exists_eq_left]

theorem Tiles.occupied_bounds {l : List α} {lo hi : ℕ} (h : Tiles start lo l hi)
    (hocc : Occupied start used P l hi x) : lo < x + P ∧ x < hi := by
  obtain ⟨t, ht, -, h1, h2⟩ := hocc
  obtain ⟨h3, -, h4⟩ := spans_bounds h t ht
  exact ⟨h3.trans_lt h1, h2.trans_le h4⟩

/-- The page in which a used first part starts is occupied. -/
theorem occupied_of_head {a : α} {m : List α} {lo hi : ℕ} (h : Tiles start lo (a :: m) hi)
    (ha : used a) (h1 : lo < x + P) (h2 : x ≤ lo) : Occupied start used P (a :: m) hi x := by
  obtain ⟨hlo, hlt, -⟩ := h
  exact occupied_cons.mpr (Or.inl ⟨ha, hlo ▸ h1, h2.trans_lt hlt⟩)

/-- The page in which a used last part ends is occupied. -/
theorem occupied_of_last {a : α} {l : List α} {lo hi : ℕ} (h : Tiles start lo (l ++ [a]) hi)
    (ha : used a) (h1 : hi ≤ x + P) (h2 : x < hi) : Occupied start used P (l ++ [a]) hi x := by
  obtain ⟨-, hlt, -⟩ := tiles_split.mp h
  refine occupied_append.mpr (Or.inr (occupied_cons.mpr (Or.inl ⟨ha, ?_, h2⟩)))
  exact (hlt : start a < hi).trans_le h1

end Used

end Lib.Tiling
