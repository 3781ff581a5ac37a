import Mathlib.Data.List.Dedup
import Mathlib.Data.List.Induction

/-!
# Lib.Distinct — lists that get each key once

`insertNew` appends an element unless its key is there.  Folded over a list of keys it makes one
element of each new key, in the order in which they come.
-/

namespace Lib

section InsertNew

variable {α κ : Type*} [BEq κ] [LawfulBEq κ]

def insertNew (key : α → κ) (acc : List α) (a : α) : List α :=
  if acc.any fun b => key b == key a then acc else acc ++ [a]

variable {key : α → κ}

theorem any_key_iff {acc : List α} {k : κ} :
    (acc.any fun b => key b == k) = true ↔ k ∈ acc.map key := by
  simp [List.any_eq_true, List.mem_map]

theorem nodup_insertNew {acc : List α} (h : (acc.map key).Nodup) (a : α) :
    ((insertNew key acc a).map key).Nodup := by
  unfold insertNew
  split
  · exact h
  · rename_i hno
    rw [any_key_iff] at hno
    rw [List.map_append, List.map_singleton, ← List.concat_eq_append]
    exact h.concat hno

theorem mem_insertNew {acc : List α} {a b : α} :
    b ∈ insertNew key acc a ↔ b ∈ acc ∨ key a ∉ acc.map key ∧ b = a := by
  unfold insertNew
  split
  · rename_i h
    rw [any_key_iff] at h
    simp [h]
  · rename_i h
    rw [any_key_iff] at h
    simp [h]

variable {make : κ → α}

theorem nodup_foldl_insertNew : ∀ (ks : List κ) {acc : List α}, (acc.map key).Nodup →
    ((ks.foldl (fun acc k => insertNew key acc (make k)) acc).map key).Nodup
  | [], _, h => h
  | k :: ks, _, h => nodup_foldl_insertNew ks (nodup_insertNew h (make k))

/-- **The fold adds what is made of the keys that were not there.** -/
theorem mem_foldl_insertNew (hmake : ∀ k, key (make k) = k) : ∀ {ks : List κ} {acc : List α} {b : α},
    b ∈ ks.foldl (fun acc k => insertNew key acc (make k)) acc ↔
      b ∈ acc ∨ ∃ k ∈ ks, k ∉ acc.map key ∧ b = make k
  | [], _, _ => by simp
  | k :: ks, acc, b => by
    have hkeys : ∀ k', k' ∈ (insertNew key acc (make k)).map key ↔ k' ∈ acc.map key ∨ k' = k := by
      intro k'
      simp only [List.mem_map, mem_insertNew, hmake]
      constructor
      · rintro ⟨c, hc | ⟨-, rfl⟩, rfl⟩
        · exact .inl ⟨c, hc, rfl⟩
        · exact .inr (hmake k)
      · rintro (⟨c, hc, rfl⟩ | rfl)
        · exact ⟨c, .inl hc, rfl⟩
        · by_cases hk : ∃ c ∈ acc, key c = k'
          · obtain ⟨c, hc, hck⟩ := hk
            exact ⟨c, .inl hc, hck⟩
          · exact ⟨make k', .inr ⟨hk, rfl⟩, hmake k'⟩
    rw [List.foldl_cons, mem_foldl_insertNew hmake, mem_insertNew, hmake]
    simp only [hkeys, List.mem_cons, exists_eq_or_imp]
    constructor
    · rintro ((hb | ⟨hk, rfl⟩) | ⟨k', hk', hno, rfl⟩)
      · exact .inl hb
      · exact .inr (.inl ⟨hk, rfl⟩)
      · exact .inr (.inr ⟨k', hk', fun h => hno (.inl h), rfl⟩)
    · rintro (hb | ⟨hk, rfl⟩ | ⟨k', hk', hno, rfl⟩)
      · exact .inl (.inl hb)
      · exact .inl (.inr ⟨hk, rfl⟩)
      · by_cases hkk : k' = k
        · subst hkk
          exact .inl (.inr ⟨hno, rfl⟩)
        · exact .inr ⟨k', hk', fun h => h.elim hno hkk, rfl⟩

end InsertNew

/-- A list without repetitions that has the elements of `l` is as long as `l` just when `l` has no
repetitions either. -/
theorem length_eq_iff_nodup {α : Type*} [DecidableEq α] {d l : List α} (hd : d.Nodup)
    (h : ∀ a, a ∈ d ↔ a ∈ l) : l.length = d.length ↔ l.Nodup := by
  have hperm : d.Perm l.dedup :=
    (List.perm_ext_iff_of_nodup hd l.nodup_dedup).mpr fun a => by rw [h, List.mem_dedup]
  rw [hperm.length_eq]
  constructor
  · intro hlen
    exact List.dedup_eq_self.mp (l.dedup_sublist.eq_of_length hlen.symm)
  · intro hl
    rw [List.dedup_eq_self.mpr hl]

end Lib
