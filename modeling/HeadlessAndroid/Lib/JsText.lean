import HeadlessAndroid.Lib.Utf8
import Mathlib.Data.List.Infix

/-!
# Lib.JsText — string operations of JavaScript

A string is the list of its characters.  `isSpace` is the class `\s`, which is also what `trim`
removes; `isWord` is the class `\w`.
-/

namespace Lib.Js

/-- WhiteSpace and LineTerminator of ECMAScript. -/
def isSpace (c : Char) : Bool :=
  (0x09 ≤ c.toNat && c.toNat ≤ 0x0D) || c.toNat == 0x20 || c.toNat == 0xA0 ||
    c.toNat == 0x1680 || (0x2000 ≤ c.toNat && c.toNat ≤ 0x200A) || c.toNat == 0x2028 ||
    c.toNat == 0x2029 || c.toNat == 0x202F || c.toNat == 0x205F || c.toNat == 0x3000 ||
    c.toNat == 0xFEFF

def isDigit (c : Char) : Bool := 0x30 ≤ c.toNat && c.toNat ≤ 0x39

def isLetter (c : Char) : Bool :=
  (0x41 ≤ c.toNat && c.toNat ≤ 0x5A) || (0x61 ≤ c.toNat && c.toNat ≤ 0x7A)

def isWord (c : Char) : Bool := isDigit c || isLetter c || c == '_'

def trim (t : Text) : Text := ((t.dropWhile isSpace).reverse.dropWhile isSpace).reverse

theorem isDigit_iff {c : Char} : isDigit c = true ↔ c.isDigit = true := by
  unfold isDigit Char.isDigit
  simp only [Bool.and_eq_true, decide_eq_true_eq]
  constructor
  · rintro ⟨h1, h2⟩; exact ⟨h1, h2⟩
  · rintro ⟨h1, h2⟩; exact ⟨h1, h2⟩

theorem isSpace_of_isDigit {c : Char} (h : isDigit c = true) : isSpace c = false := by
  unfold isDigit at h
  unfold isSpace
  simp only [Bool.and_eq_true, decide_eq_true_eq] at h
  simp only [Bool.or_eq_false_iff, Bool.and_eq_false_iff, decide_eq_false_iff_not, beq_eq_false_iff_ne]
  omega

theorem trim_of_clean {t : Text} (h : ∀ c ∈ t, isSpace c = false) : trim t = t := by
  have hd : ∀ u : Text, (∀ c ∈ u, isSpace c = false) → u.dropWhile isSpace = u := by
    intro u hu
    cases u with
    | nil => rfl
    | cons c u => rw [List.dropWhile_cons_of_neg (by simp [hu c List.mem_cons_self])]
  unfold trim
  rw [hd t h, hd _ fun c hc => h c (List.mem_reverse.mp hc), List.reverse_reverse]

theorem count_dropWhile_space {c : Char} (hc : isSpace c = false) :
    ∀ t : Text, (t.dropWhile isSpace).count c = t.count c
  | [] => rfl
  | d :: t => by
    by_cases hd : isSpace d = true
    · have hne : d ≠ c := by
        rintro rfl
        rw [hc] at hd
        cases hd
      rw [List.dropWhile_cons_of_pos hd, List.count_cons_of_ne hne]
      exact count_dropWhile_space hc t
    · rw [List.dropWhile_cons_of_neg hd]

/-- `trim` loses no character that is not white space. -/
theorem count_trim {c : Char} (hc : isSpace c = false) (t : Text) :
    (trim t).count c = t.count c := by
  unfold trim
  rw [List.count_reverse, count_dropWhile_space hc, List.count_reverse, count_dropWhile_space hc]

theorem trim_newline {t : Text} (h : ∀ c ∈ t, isSpace c = false) : trim (t ++ ['\n']) = t := by
  cases t with
  | nil => rfl
  | cons c t =>
    have hc : isSpace c = false := h c List.mem_cons_self
    have hn : isSpace '\n' = true := by decide
    have ht := trim_of_clean h
    unfold trim at ht ⊢
    rw [List.cons_append, List.dropWhile_cons_of_neg (by simp [hc])]
    rw [List.dropWhile_cons_of_neg (by simp [hc])] at ht
    rw [← List.cons_append, List.reverse_append, List.reverse_singleton, List.singleton_append,
      List.dropWhile_cons_of_pos hn]
    exact ht

/-- `t.includes(pat)`. -/
def includes (t pat : Text) : Bool := t.tails.any fun u => pat.isPrefixOf u

theorem includes_iff {t pat : Text} : includes t pat = true ↔ pat <:+: t := by
  unfold includes
  rw [List.any_eq_true]
  constructor
  · rintro ⟨u, hu, hp⟩
    exact (List.isPrefixOf_iff_prefix.mp hp).isInfix.trans ((List.mem_tails u t).mp hu).isInfix
  · rintro ⟨a, b, rfl⟩
    refine ⟨pat ++ b, (List.mem_tails _ _).mpr ⟨a, by simp⟩, ?_⟩
    exact List.isPrefixOf_iff_prefix.mpr (List.prefix_append pat b)

theorem includes_append {t u pat : Text} (h : includes t pat = true) :
    includes (t ++ u) pat = true :=
  includes_iff.mpr ((includes_iff.mp h).trans (List.prefix_append t u).isInfix)

end Lib.Js
