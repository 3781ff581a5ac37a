import Mathlib.Data.Tree.Basic
import Mathlib.Data.List.Basic
import Mathlib.Order.Lattice

/-!
# Lib.SearchTree — descents in a binary tree that somebody else balances

A descent asks `go` at each node whether to turn left (`lt`), to turn right (`gt`) or to stop
(`eq`); `none` is a node that must not be met.  Nothing here depends on the shape of the tree: the
rules speak of the elements in order, cut where the descent cuts them, and the balancing is any
`Rebalance`, which may change the shape and not the order.
-/

namespace Lib.SearchTree

variable {α : Type*}

/-- The elements from the leftmost to the rightmost. -/
def inorder : BinaryTree α → List α
  | .nil => []
  | .node a l r => inorder l ++ a :: inorder r

/-- The leftmost element. -/
def first : BinaryTree α → Option α
  | .nil => none
  | .node a .nil _ => some a
  | .node _ (.node b l r) _ => first (.node b l r)

/-- Hang `x` as a leaf where the descent ends. -/
def link (go : α → Option Ordering) (x : α) : BinaryTree α → Option (BinaryTree α)
  | .nil => some (.node x .nil .nil)
  | .node a l r =>
    match go a with
    | some .lt => (link go x l).map fun l' => .node a l' r
    | some .gt => (link go x r).map fun r' => .node a l r'
    | _ => none

/-- The node at which the descent stops. -/
def find (go : α → Option Ordering) : BinaryTree α → Option (Option α)
  | .nil => some none
  | .node a l r =>
    match go a with
    | some .lt => find go l
    | some .gt => find go r
    | some .eq => some (some a)
    | none => none

/-- The node at which the descent stops (`true`), else the last one at which it turned left. -/
def bestFit (go : α → Option Ordering) : BinaryTree α → Option α → Option (Option α × Bool)
  | .nil, best => some (best, false)
  | .node a l r, best =>
    match go a with
    | some .lt => bestFit go l (some a)
    | some .gt => bestFit go r best
    | some .eq => some (some a, true)
    | none => none

/-- What a balancing of the tree may do. -/
structure Rebalance (α : Type*) [DecidableEq α] where
  /-- After a leaf was hung. -/
  insertColor : BinaryTree α → BinaryTree α
  erase : α → BinaryTree α → BinaryTree α
  inorder_insertColor : ∀ t, inorder (insertColor t) = inorder t
  inorder_erase : ∀ x t, inorder (erase x t) = (inorder t).erase x

theorem first_eq : ∀ t : BinaryTree α, first t = (inorder t).head?
  | .nil => rfl
  | .node _ .nil _ => rfl
  | .node a (.node b l r) s => by
    rw [first, first_eq (.node b l r)]
    simp [inorder, List.head?_append]

/-! ### Where a cut of the elements falls at a node -/

theorem cut_of_left {a : α} {l r : BinaryTree α} {p q : List α} {P : α → Prop}
    (h : inorder (.node a l r) = p ++ q) (hp : ∀ b ∈ p, ¬ P b) (ha : P a) :
    ∃ q', inorder l = p ++ q' ∧ q = q' ++ a :: inorder r := by
  rcases List.append_eq_append_iff.mp h with ⟨s, hps, hs⟩ | ⟨s, hps, hs⟩
  · cases s with
    | nil =>
      refine ⟨[], ?_, ?_⟩
      · rw [List.append_nil] at hps ⊢
        exact hps.symm
      · exact hs.symm
    | cons b s =>
      obtain ⟨rfl, hs⟩ := List.cons.inj hs
      exact absurd ha (hp a (by simp [hps]))
  · exact ⟨s, hps, hs⟩

theorem cut_of_right {a : α} {l r : BinaryTree α} {p q : List α} {P : α → Prop}
    (h : inorder (.node a l r) = p ++ q) (hq : ∀ b ∈ q, ¬ P b) (ha : P a) :
    ∃ p', p = inorder l ++ a :: p' ∧ inorder r = p' ++ q := by
  rcases List.append_eq_append_iff.mp h with ⟨s, hps, hs⟩ | ⟨s, hps, hs⟩
  · cases s with
    | nil =>
      have hs : a :: inorder r = q := hs
      exact absurd ha (hq a (hs ▸ List.mem_cons_self))
    | cons b s =>
      obtain ⟨rfl, htl⟩ := List.cons.inj hs
      exact ⟨s, hps, htl⟩
  · exact absurd ha (hq a (by simp [hs]))

/-! ### The descents -/

section Descents

variable (go : α → Option Ordering)

theorem link_spec (x : α) {t : BinaryTree α} {p q : List α} (h : inorder t = p ++ q)
    (hp : ∀ a ∈ p, go a = some .gt) (hq : ∀ a ∈ q, go a = some .lt) :
    ∃ t', link go x t = some t' ∧ inorder t' = p ++ x :: q := by
  induction t generalizing p q with
  | nil =>
    obtain ⟨rfl, rfl⟩ := List.append_eq_nil_iff.mp h.symm
    exact ⟨_, rfl, rfl⟩
  | node a l r ihl ihr =>
    have ha : a ∈ p ++ q := by rw [← h]; simp [inorder]
    rcases List.mem_append.mp ha with ha | ha
    · have hgt := hp a ha
      obtain ⟨p', rfl, hr⟩ := cut_of_right (P := fun b => go b = some .gt) h
        (fun b hb => by simp [hq b hb]) hgt
      obtain ⟨r', hlink, hin⟩ := ihr hr (fun b hb => hp b (by simp [hb])) hq
      refine ⟨.node a l r', by simp [link, hgt, hlink], ?_⟩
      simp [inorder, hin]
    · have hlt := hq a ha
      obtain ⟨q', hl, rfl⟩ := cut_of_left (P := fun b => go b = some .lt) h
        (fun b hb => by simp [hp b hb]) hlt
      obtain ⟨l', hlink, hin⟩ := ihl hl hp (fun b hb => hq b (by simp [hb]))
      refine ⟨.node a l' r, by simp [link, hlt, hlink], ?_⟩
      simp [inorder, hin]

theorem find_spec {t : BinaryTree α} {p m q : List α} (h : inorder t = p ++ (m ++ q))
    (hp : ∀ a ∈ p, go a = some .gt) (hm : ∀ a ∈ m, go a = some .eq)
    (hq : ∀ a ∈ q, go a = some .lt) :
    (m = [] ∧ find go t = some none) ∨ ∃ a ∈ m, find go t = some (some a) := by
  induction t generalizing p m q with
  | nil =>
    have hnil := List.append_eq_nil_iff.mp h.symm
    exact Or.inl ⟨(List.append_eq_nil_iff.mp hnil.2).1, rfl⟩
  | node a l r ihl ihr =>
    have ha : a ∈ p ++ (m ++ q) := by rw [← h]; simp [inorder]
    simp only [List.mem_append] at ha
    rcases ha with ha | ha | ha
    · have hgt := hp a ha
      obtain ⟨p', rfl, hr⟩ := cut_of_right (P := fun b => go b = some .gt) h (fun b hb => by
        rcases List.mem_append.mp hb with hb | hb
        · simp [hm b hb]
        · simp [hq b hb]) hgt
      rw [find, hgt]
      exact ihr hr (fun b hb => hp b (by simp [hb])) hm hq
    · exact Or.inr ⟨a, ha, by simp [find, hm a ha]⟩
    · have hlt := hq a ha
      rw [← List.append_assoc] at h
      obtain ⟨q', hl, rfl⟩ := cut_of_left (P := fun b => go b = some .lt) h (fun b hb => by
        rcases List.mem_append.mp hb with hb | hb
        · simp [hp b hb]
        · simp [hm b hb]) hlt
      rw [List.append_assoc] at hl
      rw [find, hlt]
      exact ihl hl hp hm (fun b hb => hq b (by simp [hb]))

theorem bestFit_spec {t : BinaryTree α} {p m q : List α} (h : inorder t = p ++ (m ++ q))
    (hp : ∀ a ∈ p, go a = some .gt) (hm : ∀ a ∈ m, go a = some .eq)
    (hq : ∀ a ∈ q, go a = some .lt) (best : Option α) :
    (m = [] ∧ bestFit go t best = some (q.head?.or best, false)) ∨
      ∃ a ∈ m, bestFit go t best = some (some a, true) := by
  induction t generalizing p m q best with
  | nil =>
    have hnil := List.append_eq_nil_iff.mp h.symm
    obtain ⟨rfl, rfl⟩ := List.append_eq_nil_iff.mp hnil.2
    exact Or.inl ⟨rfl, rfl⟩
  | node a l r ihl ihr =>
    have ha : a ∈ p ++ (m ++ q) := by rw [← h]; simp [inorder]
    simp only [List.mem_append] at ha
    rcases ha with ha | ha | ha
    · have hgt := hp a ha
      obtain ⟨p', rfl, hr⟩ := cut_of_right (P := fun b => go b = some .gt) h (fun b hb => by
        rcases List.mem_append.mp hb with hb | hb
        · simp [hm b hb]
        · simp [hq b hb]) hgt
      rw [bestFit, hgt]
      exact ihr hr (fun b hb => hp b (by simp [hb])) hm hq best
    · exact Or.inr ⟨a, ha, by simp [bestFit, hm a ha]⟩
    · have hlt := hq a ha
      rw [← List.append_assoc] at h
      obtain ⟨q', hl, rfl⟩ := cut_of_left (P := fun b => go b = some .lt) h (fun b hb => by
        rcases List.mem_append.mp hb with hb | hb
        · simp [hp b hb]
        · simp [hm b hb]) hlt
      rw [List.append_assoc] at hl
      rw [bestFit, hlt]
      rcases ihl hl hp hm (fun b hb => hq b (by simp [hb])) (some a) with ⟨hnil, hfit⟩ | hfit
      · refine Or.inl ⟨hnil, hfit.trans ?_⟩
        cases q' <;> rfl
      · exact Or.inr hfit

end Descents

/-! ### Sorted elements are cut at every key -/

theorem exists_cut {κ : Type*} [LinearOrder κ] (key : α → κ) (k : κ) {l : List α}
    (h : l.Pairwise fun a b => key a ≤ key b) :
    ∃ p m q, l = p ++ (m ++ q) ∧ (∀ a ∈ p, key a < k) ∧ (∀ a ∈ m, key a = k) ∧
      ∀ a ∈ q, k < key a := by
  induction l with
  | nil => exact ⟨[], [], [], rfl, by simp, by simp, by simp⟩
  | cons a l ih =>
    obtain ⟨hal, hl⟩ := List.pairwise_cons.mp h
    rcases lt_trichotomy (key a) k with ha | ha | ha
    · obtain ⟨p, m, q, rfl, hp, hm, hq⟩ := ih hl
      exact ⟨a :: p, m, q, rfl, List.forall_mem_cons.mpr ⟨ha, hp⟩, hm, hq⟩
    · obtain ⟨p, m, q, rfl, hp, hm, hq⟩ := ih hl
      -- nothing that follows `a` has a smaller key
      have hnil : p = [] := by
        apply List.eq_nil_iff_forall_not_mem.mpr
        intro b hb
        exact absurd (hp b hb) (not_lt.mpr (ha ▸ hal b (by simp [hb])))
      subst hnil
      exact ⟨[], a :: m, q, rfl, by simp, List.forall_mem_cons.mpr ⟨ha, hm⟩, hq⟩
    · refine ⟨[], [], a :: l, rfl, by simp, by simp, List.forall_mem_cons.mpr ⟨ha, ?_⟩⟩
      intro b hb
      exact lt_of_lt_of_le ha (hal b hb)

/-! ### A tree that nobody balances -/

/-- `r` under the rightmost node of `l`. -/
def graft : BinaryTree α → BinaryTree α → BinaryTree α
  | .nil, r => r
  | .node a l m, r => .node a l (graft m r)

theorem inorder_graft : ∀ l r : BinaryTree α, inorder (graft l r) = inorder l ++ inorder r
  | .nil, _ => rfl
  | .node a l m, r => by simp [graft, inorder, inorder_graft m r]

section Plain

variable [DecidableEq α]

def remove (x : α) : BinaryTree α → BinaryTree α
  | .nil => .nil
  | .node a l r =>
    if x ∈ inorder l then .node a (remove x l) r
    else if a = x then graft l r
    else .node a l (remove x r)

theorem inorder_remove (x : α) : ∀ t : BinaryTree α, inorder (remove x t) = (inorder t).erase x
  | .nil => rfl
  | .node a l r => by
    rw [remove, inorder, List.erase_append]
    by_cases hl : x ∈ inorder l
    · rw [if_pos hl, if_pos hl, inorder, inorder_remove x l]
    · rw [if_neg hl, if_neg hl]
      by_cases ha : a = x
      · rw [if_pos ha, inorder_graft, ha, List.erase_cons_head]
      · rw [if_neg ha, inorder, inorder_remove x r, List.erase_cons_tail (by simpa using ha)]

/-- Leaves stay where they are hung. -/
def Rebalance.plain : Rebalance α :=
  ⟨id, remove, fun _ => rfl, inorder_remove⟩

end Plain

end Lib.SearchTree
