import HeadlessAndroid.Lib.SearchTree
import Mathlib.Data.List.Nodup
import Mathlib.Data.List.Pairwise

/-!
# Lib.KeyedTree — a search tree whose elements are pointers

The key of an element is read where it points to (`key a = none` is a pointer to nothing), so a tree
is in order only as long as what it points to is there and keeps its key.  No two elements of a
`Keyed` tree have the same key.
-/

namespace Lib.SearchTree

section Keyed

variable {α κ : Type*} [LinearOrder κ] {key : α → Option κ} {t : BinaryTree α}

/-- Where a search for `k` turns. -/
def turn (key : α → Option κ) (k : κ) (a : α) : Option Ordering := (key a).map (compare k ·)

/-- The keys go up from the leftmost element to the rightmost. -/
def Keyed (key : α → Option κ) (t : BinaryTree α) : Prop :=
  ∃ g : α → κ, (∀ a ∈ inorder t, key a = some (g a)) ∧ (inorder t).Pairwise fun a b => g a < g b

theorem keyed_nil [Inhabited κ] : Keyed key (.nil : BinaryTree α) :=
  ⟨fun _ => default, by simp [inorder], List.Pairwise.nil⟩

theorem Keyed.congr {key' : α → Option κ} (h : Keyed key t)
    (hkey : ∀ a ∈ inorder t, key' a = key a) : Keyed key' t := by
  obtain ⟨g, hg, hlt⟩ := h
  exact ⟨g, fun a ha => (hkey a ha).trans (hg a ha), hlt⟩

theorem Keyed.nodup (h : Keyed key t) : (inorder t).Nodup := by
  obtain ⟨g, -, hlt⟩ := h
  exact hlt.imp fun hab he => absurd (he ▸ hab) (lt_irrefl _)

theorem Keyed.inj (h : Keyed key t) {a b : α} {k : κ} (ha : a ∈ inorder t) (hb : b ∈ inorder t)
    (hka : key a = some k) (hkb : key b = some k) : a = b := by
  obtain ⟨g, hg, hlt⟩ := h
  have hga : g a = k := Option.some.inj ((hg a ha).symm.trans hka)
  have hgb : g b = k := Option.some.inj ((hg b hb).symm.trans hkb)
  by_contra hne
  have hsymm : Std.Symm fun a b : α => g a ≠ g b := ⟨fun _ _ => Ne.symm⟩
  have hpair : (inorder t).Pairwise fun a b => g a ≠ g b := hlt.imp ne_of_lt
  exact hpair.forall ha hb hne (hga.trans hgb.symm)

/-- The elements with smaller keys, the one with the key `k` if there is one, and the others. -/
theorem Keyed.cut (h : Keyed key t) (k : κ) : ∃ p m q, inorder t = p ++ (m ++ q) ∧
    (∀ a ∈ p, turn key k a = some .gt) ∧ (∀ a ∈ m, turn key k a = some .eq) ∧
      ∀ a ∈ q, turn key k a = some .lt := by
  obtain ⟨g, hg, hlt⟩ := h
  obtain ⟨p, m, q, hin, hp, hm, hq⟩ := exists_cut g k (hlt.imp le_of_lt)
  have hturn : ∀ a ∈ inorder t, turn key k a = some (compare k (g a)) := by
    intro a ha
    rw [turn, hg a ha]
    rfl
  refine ⟨p, m, q, hin, fun a ha => ?_, fun a ha => ?_, fun a ha => ?_⟩
  · rw [hturn a (by simp [hin, ha]), compare_gt_iff_gt.mpr (hp a ha)]
  · rw [hturn a (by simp [hin, ha]), compare_eq_iff_eq.mpr (hm a ha).symm]
  · rw [hturn a (by simp [hin, ha]), compare_lt_iff_lt.mpr (hq a ha)]

/-- The keys in order. -/
theorem Keyed.keys (h : Keyed key t) : ((inorder t).filterMap key).Pairwise (· < ·) := by
  obtain ⟨g, hg, hlt⟩ := h
  have hmap : (inorder t).filterMap key = (inorder t).map g := by
    rw [← List.filterMap_eq_map]
    exact List.filterMap_congr hg
  rw [hmap, List.pairwise_map]
  exact hlt

theorem key_of_turn_eq {k : κ} {a : α} (h : turn key k a = some .eq) : key a = some k := by
  cases hk : key a with
  | none => simp [turn, hk] at h
  | some x =>
    have hc : compare k x = .eq := by simpa [turn, hk] using h
    rw [compare_eq_iff_eq.mp hc]

theorem turn_of_key {k : κ} {a : α} (h : key a = some k) : turn key k a = some .eq := by
  rw [turn, h, Option.map_some, compare_eq_iff_eq.mpr rfl]

/-- A search finds the element with the key `k`, or nothing where there is none. -/
theorem Keyed.find (h : Keyed key t) (k : κ) :
    (∃ a ∈ inorder t, key a = some k ∧ SearchTree.find (turn key k) t = some (some a)) ∨
      (∀ a ∈ inorder t, key a ≠ some k) ∧ SearchTree.find (turn key k) t = some none := by
  obtain ⟨p, m, q, hin, hp, hm, hq⟩ := h.cut k
  rcases find_spec (turn key k) hin hp hm hq with ⟨rfl, hfind⟩ | ⟨a, ha, hfind⟩
  · refine Or.inr ⟨fun a ha hka => ?_, hfind⟩
    have heq := turn_of_key hka
    rw [hin] at ha
    rcases List.mem_append.mp ha with ha | ha
    · rw [hp a ha] at heq
      cases heq
    · rw [hq a ha] at heq
      cases heq
  · exact Or.inl ⟨a, by simp [hin, ha], key_of_turn_eq (hm a ha), hfind⟩

/-- An element with a new key is hung where the search for its key ends.  What it points to is there
once it is hung (`key'`), and need not be before. -/
theorem Keyed.link [Inhabited κ] (h : Keyed key t) {k : κ} (x : α)
    (hnew : ∀ a ∈ inorder t, key a ≠ some k) :
    ∃ t', SearchTree.link (turn key k) x t = some t' ∧
      (∀ b, b ∈ inorder t' ↔ b = x ∨ b ∈ inorder t) ∧
      ∀ key' : α → Option κ, (∀ a ∈ inorder t, key' a = key a) → key' x = some k →
        Keyed key' t' := by
  obtain ⟨g, hg, hlt⟩ := h
  obtain ⟨p, m, q, hin, hp, hm, hq⟩ := exists_cut g k (hlt.imp le_of_lt)
  have hgx : ∀ a ∈ inorder t, turn key k a = some (compare k (g a)) := by
    intro a ha
    rw [turn, hg a ha]
    rfl
  have hnil : m = [] := by
    apply List.eq_nil_iff_forall_not_mem.mpr
    intro a ha
    have hmem : a ∈ inorder t := by simp [hin, ha]
    exact hnew a hmem (hm a ha ▸ hg a hmem)
  subst hnil
  rw [List.nil_append] at hin
  obtain ⟨t', hlink, hin'⟩ := link_spec (turn key k) x hin
    (fun a ha => by rw [hgx a (by simp [hin, ha]), compare_gt_iff_gt.mpr (hp a ha)])
    fun a ha => by rw [hgx a (by simp [hin, ha]), compare_lt_iff_lt.mpr (hq a ha)]
  have hmem : ∀ b, b ∈ inorder t' ↔ b = x ∨ b ∈ inorder t := by
    intro b
    rw [hin', hin]
    simp only [List.mem_append, List.mem_cons]
    tauto
  refine ⟨t', hlink, hmem, fun key' hsame hx => ⟨fun a => (key' a).getD default, ?_, ?_⟩⟩
  · intro a ha
    rcases (hmem a).mp ha with rfl | ha
    · simp [hx]
    · simp [hsame a ha, hg a ha]
  · have hget : ∀ a ∈ inorder t, (key' a).getD default = g a := by
      intro a ha
      simp [hsame a ha, hg a ha]
    have hold : (inorder t).Pairwise fun a b => (key' a).getD default < (key' b).getD default :=
      hlt.imp_of_mem fun {a b} ha hb hab => by rw [hget a ha, hget b hb]; exact hab
    rw [hin] at hold hget
    rw [hin']
    obtain ⟨hpp, hqq, hpq⟩ := List.pairwise_append.mp hold
    refine List.pairwise_append.mpr ⟨hpp, List.pairwise_cons.mpr ⟨fun b hb => ?_, hqq⟩, ?_⟩
    · change (key' x).getD default < (key' b).getD default
      rw [hx, hget b (by simp [hb])]
      exact hq b hb
    · intro a ha b hb
      rcases List.mem_cons.mp hb with rfl | hb
      · change (key' a).getD default < (key' b).getD default
        rw [hx, hget a (by simp [ha])]
        exact hp a ha
      · exact hpq a ha b hb

variable [DecidableEq α]

theorem Keyed.insertColor (rb : Rebalance α) (h : Keyed key t) : Keyed key (rb.insertColor t) := by
  unfold Keyed
  rw [rb.inorder_insertColor]
  exact h

theorem Keyed.erase (rb : Rebalance α) (h : Keyed key t) (x : α) : Keyed key (rb.erase x t) := by
  obtain ⟨g, hg, hlt⟩ := h
  refine ⟨g, ?_, ?_⟩
  · intro a ha
    rw [rb.inorder_erase] at ha
    exact hg a (List.mem_of_mem_erase ha)
  · rw [rb.inorder_erase]
    exact hlt.sublist List.erase_sublist

theorem Keyed.mem_erase (rb : Rebalance α) (h : Keyed key t) (x b : α) :
    b ∈ inorder (rb.erase x t) ↔ b ≠ x ∧ b ∈ inorder t := by
  rw [rb.inorder_erase, h.nodup.mem_erase_iff]

end Keyed

end Lib.SearchTree
