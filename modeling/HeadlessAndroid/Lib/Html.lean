import HeadlessAndroid.Lib.JsText
import Mathlib.Data.List.MinMax

/-!
# Lib.Html — text, character references and `<b>` in a fragment of HTML

A reader of the fragments that an element with ordinary content (a `div`) is given.  It reads text,
character references and the tags `<b>` and `</b>`, and gives up (`none`) at all other markup.  None
of what it gives up at is text, and a character that does not stand for itself comes to less than
itself (`readOne_lost`): so a text comes out as it is just when it is `Inert`.
-/

namespace Lib.Html

open Lib Lib.Js

inductive Item where
  | char (c : Char)
  | openTag (name : Text)
  | closeTag (name : Text)
  deriving DecidableEq

/-! ## Character references -/

/-- The named references: what stands after `&`, for most of them with a semicolon at the end, and
the characters that it stands for. -/
structure NamedRefs where
  table : List (Text × Text)
  name_char : ∀ e ∈ table, ∀ c ∈ e.1, (isLetter c || isDigit c || c == ';') = true
  short : ∀ e ∈ table, e.2.length ≤ e.1.length
  no_return : ∀ e ∈ table, '\r' ∉ e.2

/-- A table that passes the check. -/
def NamedRefs.ofTable (table : List (Text × Text))
    (h : (table.all fun e => e.1.all (fun c => isLetter c || isDigit c || c == ';') &&
      decide (e.2.length ≤ e.1.length) && !e.2.contains '\r') = true) : NamedRefs where
  table := table
  name_char e he c hc := by
    have hall := List.all_eq_true.mp h e he
    simp only [Bool.and_eq_true] at hall
    exact List.all_eq_true.mp hall.1.1 c hc
  short e he := by
    have hall := List.all_eq_true.mp h e he
    simp only [Bool.and_eq_true] at hall
    exact of_decide_eq_true hall.1.2
  no_return e he hm := by
    have hall := List.all_eq_true.mp h e he
    simp only [Bool.and_eq_true] at hall
    rw [List.contains_iff_mem.mpr hm] at hall
    cases hall.2

/-- The longest name that the text begins with: what it stands for, and its length. -/
def named (refs : NamedRefs) (t : Text) : Option (Text × ℕ) :=
  ((refs.table.filter fun e => e.1.isPrefixOf t).argmax fun e => e.1.length).map
    fun e => (e.2, e.1.length)

def isHex (c : Char) : Bool :=
  isDigit c || (0x41 ≤ c.toNat && c.toNat ≤ 0x46) || (0x61 ≤ c.toNat && c.toNat ≤ 0x66)

def digitValue (c : Char) : ℕ :=
  if isDigit c then c.toNat - 0x30 else if c.toNat ≤ 0x46 then c.toNat - 0x37 else c.toNat - 0x57

/-- Numbers of control characters that stand for the characters of windows-1252. -/
def windows1252 : List (ℕ × ℕ) :=
  [(0x80, 0x20AC), (0x82, 0x201A), (0x83, 0x0192), (0x84, 0x201E), (0x85, 0x2026), (0x86, 0x2020),
    (0x87, 0x2021), (0x88, 0x02C6), (0x89, 0x2030), (0x8A, 0x0160), (0x8B, 0x2039), (0x8C, 0x0152),
    (0x8E, 0x017D), (0x91, 0x2018), (0x92, 0x2019), (0x93, 0x201C), (0x94, 0x201D), (0x95, 0x2022),
    (0x96, 0x2013), (0x97, 0x2014), (0x98, 0x02DC), (0x99, 0x2122), (0x9A, 0x0161), (0x9B, 0x203A),
    (0x9C, 0x0153), (0x9E, 0x017E), (0x9F, 0x0178)]

def numericChar (n : ℕ) : Char :=
  if n = 0 ∨ 0x10FFFF < n ∨ (0xD800 ≤ n ∧ n ≤ 0xDFFF) then '\uFFFD'
  else Char.ofNat ((windows1252.lookup n).getD n)

/-- The character of the number that the text begins with, and what is read for it. -/
def number (base : ℕ) (p : Char → Bool) (t : Text) : Option (Char × ℕ) :=
  let ds := t.takeWhile p
  if ds = [] then none
  else some (numericChar (ds.foldl (fun n c => base * n + digitValue c) 0),
    ds.length + if (t.drop ds.length).head? = some ';' then 1 else 0)

/-- After `&#`. -/
def numeric : Text → Option (Char × ℕ)
  | [] => none
  | c :: t =>
    if c = 'x' ∨ c = 'X' then (number 16 isHex t).map fun r => (r.1, r.2 + 1)
    else number 10 isDigit (c :: t)

/-- After `&`: the characters of a reference and the length of its text. -/
def reference (refs : NamedRefs) : Text → Option (Text × ℕ)
  | '#' :: t => (numeric t).map fun r => ([r.1], r.2 + 1)
  | t => named refs t

/-! ## The reader -/

/-- After `<`: what is read, and how much of the text that follows belongs to it. -/
def tag : Text → Option (List Item × ℕ)
  | [] => some ([.char '<'], 0)
  | '/' :: t =>
    if t = [] then some ([.char '<'], 0)
    else if ['b', '>'].isPrefixOf t then some ([.closeTag ['b']], 3)
    else none
  | c :: t =>
    if ['b', '>'].isPrefixOf (c :: t) then some ([.openTag ['b']], 2)
    else if isLetter c || c == '!' || c == '?' then none
    else some ([.char '<'], 0)

/-- A character, in front of the text `t`. -/
def readOne (refs : NamedRefs) (c : Char) (t : Text) : Option (List Item × ℕ) :=
  if c = '\x00' then some ([], 0)
  -- newlines are normalized
  else if c = '\r' then some (if t.head? = some '\n' then [] else [.char '\n'], 0)
  else if c = '<' then tag t
  else if c = '&' then
    match reference refs t with
    | some (s, n) => some (s.map .char, n)
    | none => some ([.char '&'], 0)
  else some ([.char c], 0)

/-- What is left of the text once `n` characters are passed over. -/
def read (refs : NamedRefs) : ℕ → Text → Option (List Item)
  | _, [] => some []
  | n + 1, _ :: t => read refs n t
  | 0, c :: t => (readOne refs c t).bind fun r => (read refs r.2 t).map fun items => r.1 ++ items

/-- `element.innerHTML = html`. -/
def parse (refs : NamedRefs) (html : Text) : Option (List Item) := read refs 0 html

/-- `textContent`. -/
def textOf (items : List Item) : Text :=
  items.filterMap fun
    | .char c => some c
    | _ => none

def tagsOf (items : List Item) : List Item :=
  items.filter fun
    | .char _ => false
    | _ => true

theorem textOf_append (a b : List Item) : textOf (a ++ b) = textOf a ++ textOf b :=
  List.filterMap_append

theorem tagsOf_append (a b : List Item) : tagsOf (a ++ b) = tagsOf a ++ tagsOf b :=
  List.filter_append a b

@[simp] theorem textOf_map_char (t : Text) : textOf (t.map .char) = t := by
  unfold textOf
  rw [List.filterMap_map]
  exact List.filterMap_some

@[simp] theorem tagsOf_map_char (t : Text) : tagsOf (t.map .char) = [] := by
  unfold tagsOf
  rw [List.filter_eq_nil_iff]
  intro i hi
  obtain ⟨c, -, rfl⟩ := List.mem_map.mp hi
  exact Bool.false_ne_true

/-! ## Texts that stand for themselves -/

/-- A `<` in front of `t` that starts no markup; `last` tells that the document ends after `t`. -/
def StaysLess (last : Bool) (t : Text) : Prop :=
  (∀ d ∈ t.head?, (isLetter d || d == '/' || d == '!' || d == '?') = false) ∨
    (last = true ∧ t = ['/'])

/-- The character stands for itself in front of `t`. -/
structure Stands (refs : NamedRefs) (last : Bool) (c : Char) (t : Text) : Prop where
  not_nul : c ≠ '\x00'
  not_return : c ≠ '\r'
  less : c = '<' → StaysLess last t
  ampersand : c = '&' → reference refs t = none

/-- Every character of the text stands for itself. -/
def Inert (refs : NamedRefs) (last : Bool) : Text → Prop
  | [] => True
  | c :: t => Stands refs last c t ∧ Inert refs last t

/-- Where a text ends: at the end of the document, or in front of a tag or a newline. -/
def Ends (last : Bool) (rest : Text) : Prop :=
  if last then rest = [] else ∃ c u, rest = c :: u ∧ (c = '<' ∨ c = '\n')

/-- A carriage return counts twice: what becomes of it counts once. -/
def weight (t : Text) : ℕ := t.length + t.count '\r'

theorem weight_append (a b : Text) : weight (a ++ b) = weight a + weight b := by
  unfold weight
  rw [List.length_append, List.count_append]
  omega

section Ends

variable {last : Bool} {rest : Text}

theorem Ends.cases (h : Ends last rest) :
    rest = [] ∨ (∃ u, rest = '<' :: u) ∨ ∃ u, rest = '\n' :: u := by
  cases last with
  | true => exact .inl h
  | false =>
    obtain ⟨c, u, rfl, rfl | rfl⟩ := h
    · exact .inr (.inl ⟨u, rfl⟩)
    · exact .inr (.inr ⟨u, rfl⟩)

/-- What neither `<` nor a newline is a part of does not go beyond the end. -/
theorem Ends.prefix_iff (h : Ends last rest) {p t : Text} (hp : ∀ c ∈ p, c ≠ '<' ∧ c ≠ '\n') :
    p <+: t ++ rest ↔ p <+: t := by
  refine ⟨fun hpre => ?_, fun hpre => hpre.trans (List.prefix_append t rest)⟩
  by_cases hle : p.length ≤ t.length
  · exact List.prefix_of_prefix_length_le hpre (List.prefix_append t rest) hle
  · -- a longer prefix has the character that ends the text
    have hmem : ∀ {c : Char} {u : Text}, p <+: t ++ c :: u → c ∈ p := by
      intro c u hpre
      have hcut : t ++ [c] <+: p := by
        refine List.prefix_of_prefix_length_le ⟨u, ?_⟩ hpre ?_
        · rw [List.append_assoc, List.singleton_append]
        · rw [List.length_append, List.length_singleton]
          omega
      exact hcut.subset (List.mem_append_right t List.mem_cons_self)
    obtain rfl | ⟨u, rfl⟩ | ⟨u, rfl⟩ := h.cases
    · rw [List.append_nil] at hpre
      exact hpre
    · exact absurd rfl (hp _ (hmem hpre)).1
    · exact absurd rfl (hp _ (hmem hpre)).2

theorem Ends.isPrefixOf (h : Ends last rest) {p : Text} (hp : ∀ c ∈ p, c ≠ '<' ∧ c ≠ '\n')
    (t : Text) : p.isPrefixOf (t ++ rest) = p.isPrefixOf t :=
  Bool.eq_iff_iff.mpr (by
    rw [List.isPrefixOf_iff_prefix, List.isPrefixOf_iff_prefix]
    exact h.prefix_iff hp)

theorem Ends.takeWhile (h : Ends last rest) {p : Char → Bool} (h1 : p '<' = false)
    (h2 : p '\n' = false) : ∀ t : Text, (t ++ rest).takeWhile p = t.takeWhile p
  | [] => by
    obtain rfl | ⟨u, rfl⟩ | ⟨u, rfl⟩ := h.cases
    · rfl
    · exact List.takeWhile_cons_of_neg (by simp [h1])
    · exact List.takeWhile_cons_of_neg (by simp [h2])
  | c :: t => by
    rw [List.cons_append]
    by_cases hc : p c = true
    · rw [List.takeWhile_cons_of_pos hc, List.takeWhile_cons_of_pos hc, h.takeWhile h1 h2 t]
    · rw [List.takeWhile_cons_of_neg hc, List.takeWhile_cons_of_neg hc]

theorem Ends.head_semicolon (h : Ends last rest) (t : Text) :
    (t ++ rest).head? = some ';' ↔ t.head? = some ';' := by
  cases t with
  | cons c t => exact Iff.rfl
  | nil => obtain rfl | ⟨u, rfl⟩ | ⟨u, rfl⟩ := h.cases <;> simp

theorem Ends.number (h : Ends last rest) {base : ℕ} {p : Char → Bool} (h1 : p '<' = false)
    (h2 : p '\n' = false) (t : Text) : number base p (t ++ rest) = number base p t := by
  have hlen : (t.takeWhile p).length ≤ t.length := (List.takeWhile_sublist p).length_le
  unfold Html.number
  simp only [h.takeWhile h1 h2, List.drop_append_of_le_length hlen, h.head_semicolon]

theorem Ends.numeric (h : Ends last rest) (t : Text) : numeric (t ++ rest) = numeric t := by
  cases t with
  | nil => obtain rfl | ⟨u, rfl⟩ | ⟨u, rfl⟩ := h.cases <;> rfl
  | cons c t =>
    show (if c = 'x' ∨ c = 'X' then (Html.number 16 isHex (t ++ rest)).map _ else
      Html.number 10 isDigit (c :: t ++ rest)) = _
    rw [h.number (by decide) (by decide) t, h.number (by decide) (by decide) (c :: t)]
    rfl

theorem named_char (refs : NamedRefs) {e : Text × Text} (he : e ∈ refs.table) :
    ∀ c ∈ e.1, c ≠ '<' ∧ c ≠ '\n' := by
  intro c hc
  have hchar := refs.name_char e he c hc
  constructor
  · rintro rfl
    cases hchar
  · rintro rfl
    cases hchar

/-- **A reference does not go beyond the end.** -/
theorem Ends.reference (h : Ends last rest) (refs : NamedRefs) (t : Text) :
    reference refs (t ++ rest) = reference refs t := by
  have hnamed : ∀ u : Text, named refs (u ++ rest) = named refs u := by
    intro u
    unfold named
    rw [List.filter_congr fun e he => h.isPrefixOf (named_char refs he) u]
  cases t with
  | nil =>
    have hnil : Html.reference refs rest = named refs rest := by
      obtain rfl | ⟨u, rfl⟩ | ⟨u, rfl⟩ := h.cases <;> rfl
    exact hnil.trans (hnamed [])
  | cons c t =>
    by_cases hc : c = '#'
    · subst hc
      show (Html.numeric (t ++ rest)).map _ = (Html.numeric t).map _
      rw [h.numeric]
    · have hother : ∀ u : Text, Html.reference refs (c :: u) = named refs (c :: u) := by
        intro u
        unfold Html.reference
        split
        · rename_i heq
          exact absurd (List.cons.inj heq).1 hc
        · rfl
      rw [List.cons_append, hother, hother]
      exact hnamed (c :: t)

end Ends

/-! ## What does not stand for itself comes to less -/

theorem weight_take {t : Text} {n : ℕ} (h : n ≤ t.length) : n ≤ weight (t.take n) := by
  have hlen : (t.take n).length = n := List.length_take_of_le h
  unfold weight
  omega

theorem weight_singleton_le (c : Char) : weight [c] ≤ 2 := by
  have hle : [c].count '\r' ≤ [c].length := List.count_le_length
  unfold weight
  simp only [List.length_singleton] at hle ⊢
  omega

theorem number_le {base : ℕ} {p : Char → Bool} {t : Text} {r : Char × ℕ}
    (h : number base p t = some r) : 0 < r.2 ∧ r.2 ≤ t.length := by
  have hlen : (t.takeWhile p).length ≤ t.length := (List.takeWhile_sublist p).length_le
  unfold number at h
  by_cases hds : t.takeWhile p = []
  · rw [if_pos hds] at h
    cases h
  · rw [if_neg hds] at h
    cases h
    have hpos : 0 < (t.takeWhile p).length := List.length_pos_of_ne_nil hds
    show 0 < _ + _ ∧ _ + _ ≤ t.length
    split_ifs with hsemi
    · -- the semicolon is one more character of the text
      have hdrop : 0 < (t.drop (t.takeWhile p).length).length := by
        refine List.length_pos_of_ne_nil fun he => ?_
        rw [he] at hsemi
        cases hsemi
      rw [List.length_drop] at hdrop
      omega
    · omega

theorem numeric_le {t : Text} {r : Char × ℕ} (h : numeric t = some r) :
    0 < r.2 ∧ r.2 ≤ t.length := by
  cases t with
  | nil => cases h
  | cons c t =>
    simp only [numeric] at h
    split_ifs at h
    · obtain ⟨r', hr, rfl⟩ := Option.map_eq_some_iff.mp h
      have hle := number_le hr
      simp only [List.length_cons]
      omega
    · exact number_le h

theorem named_lost {refs : NamedRefs} {t : Text} {r : Text × ℕ} (h : named refs t = some r) :
    r.2 ≤ t.length ∧ weight r.1 ≤ weight (t.take r.2) := by
  obtain ⟨e, he, rfl⟩ := Option.map_eq_some_iff.mp h
  obtain ⟨hmem, hpre⟩ := List.mem_filter.mp (List.argmax_mem he)
  have hle : e.1.length ≤ t.length := (List.isPrefixOf_iff_prefix.mp hpre).length_le
  refine ⟨hle, ?_⟩
  have hshort := refs.short e hmem
  have hreturn : e.2.count '\r' = 0 := List.count_eq_zero.mpr (refs.no_return e hmem)
  have htake := weight_take hle
  show weight e.2 ≤ weight (t.take e.1.length)
  unfold weight at htake ⊢
  omega

/-- **What a reference stands for is less than its text.** -/
theorem reference_lost {refs : NamedRefs} {t : Text} {r : Text × ℕ} (h : reference refs t = some r) :
    r.2 ≤ t.length ∧ weight r.1 ≤ weight (t.take r.2) := by
  unfold reference at h
  split at h
  · rename_i u
    obtain ⟨r', hr, rfl⟩ := Option.map_eq_some_iff.mp h
    obtain ⟨hpos, hle⟩ := numeric_le hr
    have hlen : r'.2 + 1 ≤ ('#' :: u).length := Nat.succ_le_succ hle
    have htake := weight_take hlen
    have hone := weight_singleton_le r'.1
    refine ⟨hlen, ?_⟩
    show weight [r'.1] ≤ weight (('#' :: u).take (r'.2 + 1))
    omega
  · exact named_lost h

/-- A character that stands for itself is read as itself. -/
theorem readOne_of_stands {refs : NamedRefs} {last : Bool} {rest : Text} (hrest : Ends last rest)
    {c : Char} {t : Text} (h : Stands refs last c t) :
    readOne refs c (t ++ rest) = some ([.char c], 0) := by
  unfold readOne
  rw [if_neg h.not_nul, if_neg h.not_return]
  by_cases hless : c = '<'
  · rw [if_pos hless]
    subst hless
    rcases h.less rfl with hno | ⟨rfl, rfl⟩
    · cases t with
      | nil => obtain rfl | ⟨u, rfl⟩ | ⟨u, rfl⟩ := hrest.cases <;> rfl
      | cons d t =>
        have hd := hno d rfl
        simp only [Bool.or_eq_false_iff, beq_eq_false_iff_ne] at hd
        obtain ⟨⟨⟨h1, h2⟩, h3⟩, h4⟩ := hd
        have hb : d ≠ 'b' := by
          rintro rfl
          cases h1
        have hpre : ['b', '>'].isPrefixOf (d :: (t ++ rest)) = false := by
          rw [List.isPrefixOf_cons_cons, beq_eq_false_iff_ne.mpr hb.symm, Bool.false_and]
        have hletter : ¬(isLetter d || d == '!' || d == '?') = true := by simp [h1, h3, h4]
        show tag (d :: (t ++ rest)) = _
        unfold tag
        split
        · rename_i heq
          cases heq
        · rename_i heq
          exact absurd (List.cons.inj heq).1 h2
        · rename_i heq
          obtain ⟨rfl, rfl⟩ := List.cons.inj heq
          rw [hpre, if_neg Bool.false_ne_true, if_neg hletter]
    · -- `</` at the end of the document
      rw [show rest = [] from hrest]
      rfl
  · rw [if_neg hless]
    by_cases hamp : c = '&'
    · rw [if_pos hamp, hrest.reference, h.ampersand hamp, hamp]
    · rw [if_neg hamp]

theorem weight_cons (c : Char) (t : Text) : weight (c :: t) = weight [c] + weight t :=
  weight_append [c] t

theorem weight_singleton_pos (c : Char) : 0 < weight [c] := Nat.lt_of_lt_of_le Nat.zero_lt_one
  (Nat.le_add_right _ _)

theorem tagName_char : ∀ c ∈ ['b', '>'], c ≠ '<' ∧ c ≠ '\n' := by
  intro c hc
  simp only [List.mem_cons, List.not_mem_nil, or_false] at hc
  rcases hc with rfl | rfl
  · exact ⟨by decide, by decide⟩
  · exact ⟨by decide, by decide⟩

/-- What a `<` comes to, if it is not markup that is given up at. -/
theorem tag_lost (refs : NamedRefs) {last : Bool} {rest : Text} (hrest : Ends last rest) {t : Text}
    {r : List Item × ℕ} (h : tag (t ++ rest) = some r) :
    (Stands refs last '<' t ∧ r = ([.char '<'], 0)) ∨ (r.2 ≤ t.length ∧ textOf r.1 = []) := by
  have hstands : StaysLess last t → Stands refs last '<' t := fun hs =>
    ⟨by decide, by decide, fun _ => hs, fun h => by cases h⟩
  cases t with
  | nil =>
    have htag : tag rest = some ([.char '<'], 0) := by
      obtain rfl | ⟨u, rfl⟩ | ⟨u, rfl⟩ := hrest.cases <;> rfl
    cases htag.symm.trans h
    exact .inl ⟨hstands (.inl fun d hd => by cases hd), rfl⟩
  | cons d t =>
    rw [List.cons_append] at h
    unfold tag at h
    split at h
    · rename_i heq
      cases heq
    · rename_i u heq
      obtain ⟨rfl, rfl⟩ := List.cons.inj heq
      split_ifs at h with hnil hb
      · -- `</` at the end of the document
        cases h
        obtain ⟨rfl, rfl⟩ := List.append_eq_nil_iff.mp hnil
        have hlast : last = true := by
          cases last with
          | true => rfl
          | false =>
            obtain ⟨c, u, hu, -⟩ := hrest
            cases hu
        exact .inl ⟨hstands (.inr ⟨hlast, rfl⟩), rfl⟩
      · cases h
        rw [hrest.isPrefixOf tagName_char] at hb
        have hle := (List.isPrefixOf_iff_prefix.mp hb).length_le
        exact .inr ⟨Nat.succ_le_succ hle, rfl⟩
    · rename_i u hslash heq
      obtain ⟨rfl, rfl⟩ := List.cons.inj heq
      split_ifs at h with hb hletter
      · cases h
        rw [← List.cons_append, hrest.isPrefixOf tagName_char] at hb
        exact .inr ⟨(List.isPrefixOf_iff_prefix.mp hb).length_le, rfl⟩
      · cases h
        have hd : d ≠ '/' := hslash
        refine .inl ⟨hstands (.inl ?_), rfl⟩
        rintro _ ⟨⟩
        simp only [Bool.or_eq_true, not_or, Bool.not_eq_true] at hletter
        rw [hletter.1.1, hletter.1.2, hletter.2, beq_eq_false_iff_ne.mpr hd]
        rfl

/-- **A character stands for itself or comes to less.** -/
theorem readOne_lost {refs : NamedRefs} {last : Bool} {rest : Text} (hrest : Ends last rest)
    {c : Char} {t : Text} {r : List Item × ℕ} (h : readOne refs c (t ++ rest) = some r) :
    (Stands refs last c t ∧ r = ([.char c], 0)) ∨
      (r.2 ≤ t.length ∧ weight (textOf r.1) < weight (c :: t.take r.2)) := by
  have hpos := weight_singleton_pos c
  unfold readOne at h
  split_ifs at h with hnul hreturn hnl hless hamp
  · cases h
    exact .inr ⟨Nat.zero_le _, by rw [weight_cons]; exact Nat.lt_add_right _ hpos⟩
  · cases h
    exact .inr ⟨Nat.zero_le _, by rw [weight_cons]; exact Nat.lt_add_right _ hpos⟩
  · cases h
    subst hreturn
    exact .inr ⟨Nat.zero_le _, (by decide : 1 < weight ['\r'])⟩
  · subst hless
    rcases tag_lost refs hrest h with h | ⟨hle, htext⟩
    · exact .inl h
    · refine .inr ⟨hle, ?_⟩
      rw [htext, weight_cons]
      exact Nat.lt_add_right _ hpos
  · subst hamp
    rw [hrest.reference] at h
    cases href : reference refs t with
    | some s =>
      rw [href] at h
      cases h
      obtain ⟨hle, hlost⟩ := reference_lost href
      refine .inr ⟨hle, ?_⟩
      rw [weight_cons]
      rw [textOf_map_char]
      show weight s.1 < weight ['&'] + weight (t.take s.2)
      omega
    | none =>
      rw [href] at h
      cases h
      exact .inl ⟨⟨hnul, hreturn, fun h => absurd h hless, fun _ => href⟩, rfl⟩
  · cases h
    exact .inl ⟨⟨hnul, hreturn, fun h => absurd h hless, fun h => absurd h hamp⟩, rfl⟩

/-! ## Reading piece by piece -/

section Read

variable {refs : NamedRefs} {last : Bool} {rest : Text}

/-- **A text comes to no more than itself**, and to as much only if it is inert. -/
theorem read_lost (hrest : Ends last rest) : ∀ {t : Text} {n : ℕ} {items : List Item},
    n ≤ t.length → read refs n (t ++ rest) = some items →
      ∃ its its', read refs 0 rest = some its' ∧ items = its ++ its' ∧
        weight (textOf its) ≤ weight (t.drop n) ∧
        (weight (textOf its) = weight (t.drop n) → Inert refs last (t.drop n))
  | [], n, items, hn, h => by
    obtain rfl : n = 0 := Nat.le_zero.mp hn
    exact ⟨[], items, h, rfl, le_rfl, fun _ => trivial⟩
  | c :: t, n + 1, items, hn, h =>
    read_lost (t := t) (n := n) hrest (Nat.le_of_succ_le_succ hn) h
  | c :: t, 0, items, _, h => by
    obtain ⟨r, hr, h⟩ := Option.bind_eq_some_iff.mp h
    obtain ⟨items', hitems, rfl⟩ := Option.map_eq_some_iff.mp h
    show ∃ its its', _ ∧ _ ∧ _ ≤ weight (c :: t) ∧ (_ = weight (c :: t) → Inert refs last (c :: t))
    rcases readOne_lost hrest hr with ⟨hstands, rfl⟩ | ⟨hle, hlost⟩
    · obtain ⟨its, its', hrest', rfl, hw, hinert⟩ := read_lost hrest (Nat.zero_le _) hitems
      have htext : textOf (.char c :: its) = c :: textOf its := rfl
      rw [List.drop_zero] at hw hinert
      refine ⟨.char c :: its, its', hrest', rfl, ?_, fun heq => ⟨hstands, hinert ?_⟩⟩
      · rw [htext, weight_cons, weight_cons c t]
        omega
      · rw [htext, weight_cons, weight_cons c t] at heq
        omega
    · obtain ⟨its, its', hrest', rfl, hw, -⟩ := read_lost hrest hle hitems
      have hsplit : weight (c :: t.take r.2) + weight (t.drop r.2) = weight (c :: t) := by
        rw [← weight_append, List.cons_append, List.take_append_drop]
      refine ⟨r.1 ++ its, its', hrest', (List.append_assoc _ _ _).symm, ?_, fun heq => ?_⟩
      · rw [textOf_append, weight_append]
        omega
      · rw [textOf_append, weight_append] at heq
        omega

/-- **An inert text is read as itself.** -/
theorem read_inert (hrest : Ends last rest) : ∀ {t : Text}, Inert refs last t →
    read refs 0 (t ++ rest) = (read refs 0 rest).map fun items => t.map .char ++ items
  | [], _ => by simp
  | c :: t, h => by
    rw [List.cons_append, read, readOne_of_stands hrest h.1, Option.bind_some, read_inert hrest h.2,
      Option.map_map]
    rfl

/-- Characters that are text in front of whatever follows. -/
def isText (c : Char) : Bool := c ≠ '\x00' && c ≠ '\r' && c ≠ '<' && c ≠ '&'

theorem read_text : ∀ {t : Text}, (t.all isText) = true →
    read refs 0 (t ++ rest) = (read refs 0 rest).map fun items => t.map .char ++ items
  | [], _ => by simp
  | c :: t, h => by
    rw [List.all_cons, Bool.and_eq_true] at h
    obtain ⟨hc, ht⟩ := h
    simp only [isText, Bool.and_eq_true, decide_eq_true_eq] at hc
    obtain ⟨⟨⟨h1, h2⟩, h3⟩, h4⟩ := hc
    have hone : readOne refs c (t ++ rest) = some ([.char c], 0) := by
      unfold readOne
      rw [if_neg h1, if_neg h2, if_neg h3, if_neg h4]
    rw [List.cons_append, read, hone, Option.bind_some, read_text ht, Option.map_map]
    rfl

theorem read_openTag (rest : Text) : read refs 0 ("<b>".toList ++ rest) =
    (read refs 0 rest).map fun items => .openTag ['b'] :: items := rfl

theorem read_closeTag (rest : Text) : read refs 0 ("</b>".toList ++ rest) =
    (read refs 0 rest).map fun items => .closeTag ['b'] :: items := rfl

end Read

/-! ## Documents made of pieces -/

/-- In front of `rest`, the piece `html` comes to no more than `text`, and to as much only if `P`. -/
def Bounded (refs : NamedRefs) (rest html text : Text) (P : Prop) : Prop :=
  ∀ items, read refs 0 (html ++ rest) = some items →
    ∃ its its', read refs 0 rest = some its' ∧ items = its ++ its' ∧
      weight (textOf its) ≤ weight text ∧ (weight (textOf its) = weight text → P)

/-- In front of `rest`, the piece `html` shows `text` and has the tags `tags`. -/
def Shown (refs : NamedRefs) (rest html text : Text) (tags : List Item) : Prop :=
  ∃ its, read refs 0 (html ++ rest) = (read refs 0 rest).map (fun items => its ++ items) ∧
    textOf its = text ∧ tagsOf its = tags

section Pieces

variable {refs : NamedRefs} {rest html html' text text' : Text} {tags tags' : List Item} {P P' : Prop}

/-- What is shown for certain is bounded by what it shows. -/
theorem Shown.bounded (h : Shown refs rest html text tags) : Bounded refs rest html text True := by
  obtain ⟨its, hread, rfl, -⟩ := h
  intro items hitems
  rw [hread] at hitems
  obtain ⟨its', hrest, rfl⟩ := Option.map_eq_some_iff.mp hitems
  exact ⟨its, its', hrest, rfl, le_rfl, fun _ => trivial⟩

theorem Bounded.append (h : Bounded refs (html' ++ rest) html text P)
    (h' : Bounded refs rest html' text' P') :
    Bounded refs rest (html ++ html') (text ++ text') (P ∧ P') := by
  intro items hitems
  rw [List.append_assoc] at hitems
  obtain ⟨its, its', hrest, rfl, hle, hP⟩ := h items hitems
  obtain ⟨its₁, its₂, hrest', rfl, hle', hP'⟩ := h' its' hrest
  refine ⟨its ++ its₁, its₂, hrest', (List.append_assoc _ _ _).symm, ?_, fun heq => ⟨hP ?_, hP' ?_⟩⟩
  · rw [textOf_append, weight_append, weight_append]
    omega
  · rw [textOf_append, weight_append, weight_append] at heq
    omega
  · rw [textOf_append, weight_append, weight_append] at heq
    omega

theorem Bounded.imp (h : Bounded refs rest html text P) (hP : P → P') :
    Bounded refs rest html text P' := by
  intro items hitems
  obtain ⟨its, its', hrest, hits, hle, himp⟩ := h items hitems
  exact ⟨its, its', hrest, hits, hle, fun heq => hP (himp heq)⟩

theorem Shown.append (h : Shown refs (html' ++ rest) html text tags)
    (h' : Shown refs rest html' text' tags') :
    Shown refs rest (html ++ html') (text ++ text') (tags ++ tags') := by
  obtain ⟨its, hread, rfl, rfl⟩ := h
  obtain ⟨its', hread', rfl, rfl⟩ := h'
  refine ⟨its ++ its', ?_, textOf_append its its', tagsOf_append its its'⟩
  rw [List.append_assoc, hread, hread', Option.map_map]
  congr 1
  funext items
  exact (List.append_assoc _ _ _).symm

theorem shown_text {t : Text} (h : (t.all isText) = true) : Shown refs rest t t [] :=
  ⟨t.map .char, read_text h, textOf_map_char t, tagsOf_map_char t⟩

theorem shown_openTag : Shown refs rest "<b>".toList [] [.openTag ['b']] :=
  ⟨[.openTag ['b']], read_openTag rest, rfl, rfl⟩

theorem shown_closeTag : Shown refs rest "</b>".toList [] [.closeTag ['b']] :=
  ⟨[.closeTag ['b']], read_closeTag rest, rfl, rfl⟩

variable {last : Bool}

theorem bounded_data (hrest : Ends last rest) (t : Text) :
    Bounded refs rest t t (Inert refs last t) := fun _ h => read_lost hrest (Nat.zero_le _) h

theorem shown_data (hrest : Ends last rest) {t : Text} (h : Inert refs last t) :
    Shown refs rest t t [] :=
  ⟨t.map .char, read_inert hrest h, textOf_map_char t, tagsOf_map_char t⟩

end Pieces

end Lib.Html
