import HeadlessAndroid.Lib.JsText
import Mathlib.Data.Int.Log
import Mathlib.Data.List.TakeWhile
import Mathlib.Data.Rat.Floor
import Mathlib.Tactic.FieldSimp
import Mathlib.Tactic.Linarith
import Mathlib.Algebra.Order.Field.Power

/-!
# Lib.JsNumber — JavaScript numbers, their texts and rounding

A number is NaN, an infinity or a rational (`-0` is `0`).  `Format.round` is IEEE 754 rounding to
nearest, ties to even, so that a finite double is a rational that it keeps.  `Number.ofText` is
`Number(string)` and `Number.toText` is `String(number)`.
-/

namespace Lib.Js

inductive Number where
  | nan
  | inf (neg : Bool)
  | fin (q : ℚ)
  deriving DecidableEq

/-- A binary format: significant bits, exponent of the least subnormal, exponent of overflow. -/
structure Format where
  prec : ℕ
  minExp : ℤ
  maxExp : ℕ

def binary64 : Format := ⟨53, -1074, 1024⟩

def binary32 : Format := ⟨24, -149, 128⟩

/-- The nearest integer, of two the even one. -/
def roundHalfEven (x : ℚ) : ℤ :=
  let d := x - ⌊x⌋
  if d < 1 / 2 then ⌊x⌋
  else if 1 / 2 < d then ⌊x⌋ + 1
  else if ⌊x⌋ % 2 = 0 then ⌊x⌋ else ⌊x⌋ + 1

/-- The distance of neighbouring values of the format around `q`. -/
def Format.unit (F : Format) (q : ℚ) : ℚ := 2 ^ max (Int.log 2 |q| - (F.prec - 1)) F.minExp

def Format.round (F : Format) (q : ℚ) : Number :=
  let r := roundHalfEven (q / F.unit q) * F.unit q
  if 2 ^ F.maxExp ≤ |r| then .inf (q < 0) else .fin r

theorem roundHalfEven_intCast (k : ℤ) : roundHalfEven k = k := by
  simp [roundHalfEven]

theorem Format.unit_pos (F : Format) (q : ℚ) : 0 < F.unit q := zpow_pos (by norm_num) _

/-- A multiple of the unit is kept. -/
theorem Format.round_of_multiple {F : Format} {q : ℚ} {k : ℤ} (hk : q = k * F.unit q)
    (hmax : |q| < 2 ^ F.maxExp) : F.round q = .fin q := by
  have hu := (F.unit_pos q).ne'
  have hr : roundHalfEven (q / F.unit q) * F.unit q = q := by
    have hq : q / F.unit q = k := by rw [eq_comm, eq_div_iff hu]; exact hk.symm
    rw [hq, roundHalfEven_intCast]
    exact hk.symm
  unfold Format.round
  simp only [hr]
  rw [if_neg (not_le.mpr hmax)]

/-- **Integers of up to `prec` bits are values of the format.** -/
theorem Format.round_intCast {F : Format} (hprec : 1 ≤ F.prec) (hmin : F.minExp ≤ 0)
    (hmax : F.prec < F.maxExp) {n : ℤ} (hn : |n| ≤ 2 ^ F.prec) : F.round n = .fin n := by
  have hlt : |(n : ℚ)| < 2 ^ F.maxExp := by
    have h1 : |(n : ℚ)| ≤ 2 ^ F.prec := by exact_mod_cast hn
    exact h1.trans_lt (pow_lt_pow_right₀ (by norm_num) hmax)
  by_cases hs : |n| < 2 ^ F.prec
  · -- below `2 ^ prec` the unit is a power of two that divides one
    have hE : max (Int.log 2 |(n : ℚ)| - (F.prec - 1)) F.minExp ≤ 0 := by
      refine max_le ?_ hmin
      by_cases h0 : n = 0
      · subst h0
        simp
        omega
      · have hpos : 0 < |(n : ℚ)| := abs_pos.mpr (by exact_mod_cast h0)
        have hq : |(n : ℚ)| < ((2 : ℕ) : ℚ) ^ (F.prec : ℤ) := by
          rw [zpow_natCast]
          exact_mod_cast hs
        have := (Int.lt_zpow_iff_log_lt (by norm_num) hpos).mp hq
        omega
    obtain ⟨m, hm⟩ := Int.eq_ofNat_of_zero_le (neg_nonneg.mpr hE)
    refine Format.round_of_multiple (k := n * 2 ^ m) ?_ hlt
    have hE' : max (Int.log 2 |(n : ℚ)| - (F.prec - 1)) F.minExp = -(m : ℤ) := by omega
    have hu : F.unit n = (2 ^ m)⁻¹ := by
      unfold Format.unit
      rw [hE', zpow_neg, zpow_natCast]
    rw [hu]
    push_cast
    field_simp
  · -- `2 ^ prec` itself is even, which is all that its unit asks
    have he : |n| = 2 ^ F.prec := le_antisymm hn (not_lt.mp hs)
    have hq : |(n : ℚ)| = ((2 : ℕ) : ℚ) ^ (F.prec : ℤ) := by
      rw [zpow_natCast]
      exact_mod_cast he
    have hu : F.unit n = 2 := by
      unfold Format.unit
      rw [hq, Int.log_zpow (by norm_num)]
      rw [max_eq_left (by omega)]
      have : ((F.prec : ℤ) - (F.prec - 1)) = 1 := by omega
      rw [this, zpow_one]
    have heven : (2 : ℤ) ∣ n := by
      rw [← dvd_abs, he]
      exact dvd_pow_self 2 (by omega)
    obtain ⟨k, hk⟩ := heven
    refine Format.round_of_multiple (k := k) ?_ hlt
    rw [hu, hk]
    push_cast
    ring

/-! ## Number(string) -/

def Number.neg : Number → Number
  | .nan => .nan
  | .inf b => .inf !b
  | .fin q => .fin (-q)

def digits (t : Text) : Option ℕ :=
  if t ≠ [] ∧ t.all isDigit then some (Nat.ofDigitChars 10 t 0) else none

def exponentPart : Text → Option ℤ
  | [] => some 0
  | c :: t =>
    if c = 'e' ∨ c = 'E' then
      match t with
      | '+' :: d => (digits d).map fun n => (n : ℤ)
      | '-' :: d => (digits d).map fun n => -(n : ℤ)
      | d => (digits d).map fun n => (n : ℤ)
    else none

/-- An unsigned decimal literal: digits with a point and an exponent, either of them optional. -/
def unsignedDecimal (t : Text) : Option ℚ :=
  let whole := t.takeWhile isDigit
  let rest := t.dropWhile isDigit
  let frac := match rest with
    | '.' :: r => r.takeWhile isDigit
    | _ => []
  let rest' := match rest with
    | '.' :: r => r.dropWhile isDigit
    | r => r
  if whole = [] ∧ frac = [] then none
  else (exponentPart rest').map fun e =>
    (Nat.ofDigitChars 10 (whole ++ frac) 0 : ℚ) * 10 ^ (e - (frac.length : ℤ))

def unsignedNumber (F : Format) (t : Text) : Number :=
  if t = "Infinity".toList then .inf false
  else
    match unsignedDecimal t with
    | some q => F.round q
    | none => .nan

/-- A decimal text with an optional sign, as a value of the format. -/
def decimalNumber (F : Format) : Text → Number
  | '+' :: t => unsignedNumber F t
  | '-' :: t => (unsignedNumber F t).neg
  | t => unsignedNumber F t

def hexDigit (c : Char) : Option ℕ :=
  if isDigit c then some (c.toNat - 48)
  else if 'a' ≤ c ∧ c ≤ 'f' then some (c.toNat - 87)
  else if 'A' ≤ c ∧ c ≤ 'F' then some (c.toNat - 55)
  else none

/-- Digits of a radix, at least one. -/
def radixNumber (radix : ℕ) (t : Text) : Number :=
  let value := t.foldlM (fun a c => (hexDigit c).bind fun d =>
    if d < radix then some (radix * a + d) else none) 0
  match t, value with
  | [], _ => .nan
  | _, some n => binary64.round n
  | _, none => .nan

/-- `Number(string)`. -/
def Number.ofText (t : Text) : Number :=
  match trim t with
  | [] => .fin 0
  | '0' :: 'x' :: d => radixNumber 16 d
  | '0' :: 'X' :: d => radixNumber 16 d
  | '0' :: 'o' :: d => radixNumber 8 d
  | '0' :: 'O' :: d => radixNumber 8 d
  | '0' :: 'b' :: d => radixNumber 2 d
  | '0' :: 'B' :: d => radixNumber 2 d
  | s => decimalNumber binary64 s

/-! ## String(number) -/

def natText (n : ℕ) : Text := Nat.toDigits 10 n

def intText (n : ℤ) : Text := if n < 0 then '-' :: natText n.natAbs else natText n.natAbs

/-- Of the two `k`-digit decimals around `q`, those that round to `q`; the closer one if both. -/
def digitsFor (q : ℚ) (n : ℤ) (k : ℕ) : Option ℕ :=
  let x := q * 10 ^ ((k : ℤ) - n)
  let lo := ⌊x⌋
  let ok := fun s : ℤ => binary64.round (s * 10 ^ (n - k)) = .fin q
  if ok lo then if ok (lo + 1) ∧ 1 / 2 < x - lo then some (lo + 1).toNat else some lo.toNat
  else if ok (lo + 1) then some (lo + 1).toNat
  else none

/-- The least number `k` of digits that round to `q`, these digits `s` and where the point stands:
`q` is `s * 10 ^ (n - k)` rounded. -/
def shortest (q : ℚ) : ℕ × ℕ × ℤ :=
  let n := Int.log 10 q + 1
  let (k, s) := ((List.range 17).findSome? fun i => (digitsFor q n (i + 1)).map fun s => (i + 1, s)).getD
    (17, ⌊q * 10 ^ (17 - n)⌋.toNat)
  -- the next power of ten may be what rounds to `q`
  if s = 10 ^ k then (1, 1, n + 1) else (k, s, n)

def zeros (k : ℕ) : Text := List.replicate k '0'

/-- A positive number: its integer digits if they are exact, otherwise the shortest digits, placed
by the exponent. -/
def posText (q : ℚ) : Text :=
  if q.den = 1 ∧ q.num ≤ 2 ^ 53 then natText q.num.toNat
  else
    let (k, s, n) := shortest q
    let ds := natText s
    if (k : ℤ) ≤ n ∧ n ≤ 21 then ds ++ zeros (n - k).toNat
    else if 0 < n ∧ n ≤ 21 then ds.take n.toNat ++ '.' :: ds.drop n.toNat
    else if -6 < n ∧ n ≤ 0 then '0' :: '.' :: (zeros (-n).toNat ++ ds)
    else
      let e := (if n - 1 < 0 then '-' else '+') :: natText (n - 1).natAbs
      if k = 1 then ds ++ 'e' :: e else ds.take 1 ++ '.' :: (ds.drop 1 ++ 'e' :: e)

/-- `String(number)`. -/
def Number.toText : Number → Text
  | .nan => "NaN".toList
  | .inf false => "Infinity".toList
  | .inf true => "-Infinity".toList
  | .fin q => if q < 0 then '-' :: posText (-q) else posText q

/-! ## Integers -/

theorem natText_ne_nil (n : ℕ) : natText n ≠ [] := Nat.toDigits_ne_nil

theorem natText_digit {n : ℕ} {c : Char} (h : c ∈ natText n) : isDigit c = true :=
  isDigit_iff.mpr (Nat.isDigit_of_mem_toDigits (by omega) (by omega) h)

theorem digits_natText (n : ℕ) : digits (natText n) = some n := by
  have hall : (natText n).all isDigit = true := List.all_eq_true.mpr fun c => natText_digit
  unfold digits
  rw [if_pos ⟨natText_ne_nil n, hall⟩]
  exact congrArg some Nat.ofDigitChars_ten_toDigits

theorem unsignedDecimal_natText (n : ℕ) : unsignedDecimal (natText n) = some n := by
  have htake : (natText n).takeWhile isDigit = natText n := by
    rw [List.takeWhile_eq_self_iff]; exact fun c hc => natText_digit hc
  have hdrop : (natText n).dropWhile isDigit = [] := by
    rw [List.dropWhile_eq_nil_iff]; exact fun c hc => natText_digit hc
  have hval : Nat.ofDigitChars 10 (natText n) 0 = n := Nat.ofDigitChars_ten_toDigits
  unfold unsignedDecimal
  simp [htake, hdrop, natText_ne_nil, exponentPart, hval]

theorem binary64_round_intCast {n : ℤ} (hn : |n| ≤ 2 ^ 53) : binary64.round n = .fin n :=
  Format.round_intCast (by decide) (by decide) (by decide) hn

theorem unsignedNumber_natText {n : ℕ} (hn : n ≤ 2 ^ 53) :
    unsignedNumber binary64 (natText n) = .fin n := by
  have hinf : natText n ≠ "Infinity".toList := by
    intro e
    have := natText_digit (n := n) (c := 'I') (by rw [e]; decide)
    revert this
    decide
  unfold unsignedNumber
  rw [if_neg hinf, unsignedDecimal_natText]
  exact binary64_round_intCast (n := n) (by rw [Nat.abs_cast]; exact_mod_cast hn)

theorem decimalNumber_natText {n : ℕ} (hn : n ≤ 2 ^ 53) :
    decimalNumber binary64 (natText n) = .fin n := by
  unfold decimalNumber
  split
  · rename_i t e
    have := natText_digit (n := n) (c := '+') (by rw [e]; exact List.mem_cons_self)
    cases this
  · rename_i t e
    have := natText_digit (n := n) (c := '-') (by rw [e]; exact List.mem_cons_self)
    cases this
  · exact unsignedNumber_natText hn

theorem intText_natCast (k : ℕ) : intText k = natText k := by
  unfold intText
  rw [if_neg (by omega)]
  rfl

theorem intText_neg {k : ℕ} (hk : 0 < k) : intText (-k) = '-' :: natText k := by
  unfold intText
  rw [if_pos (by omega), Int.natAbs_neg]
  rfl

/-- A nonnegative integer, or a sign and a positive one. -/
theorem int_cases (n : ℤ) : (∃ k : ℕ, n = k) ∨ ∃ k : ℕ, 0 < k ∧ n = -k := by
  rcases n.eq_nat_or_neg with ⟨k, rfl | rfl⟩
  · exact Or.inl ⟨k, rfl⟩
  · rcases Nat.eq_zero_or_pos k with rfl | hk
    · exact Or.inl ⟨0, rfl⟩
    · exact Or.inr ⟨k, hk, rfl⟩

theorem decimalNumber_intText {n : ℤ} (hn : |n| ≤ 2 ^ 53) :
    decimalNumber binary64 (intText n) = .fin n := by
  rcases int_cases n with ⟨k, rfl⟩ | ⟨k, hk, rfl⟩
  · rw [intText_natCast, decimalNumber_natText (by rw [Nat.abs_cast] at hn; exact_mod_cast hn)]
    rfl
  · rw [abs_neg, Nat.abs_cast] at hn
    rw [intText_neg hk]
    show (unsignedNumber binary64 (natText k)).neg = _
    rw [unsignedNumber_natText (by exact_mod_cast hn)]
    unfold Number.neg
    push_cast
    rfl

theorem intText_char {n : ℤ} {c : Char} (hc : c ∈ intText n) : c = '-' ∨ isDigit c = true := by
  rcases int_cases n with ⟨k, rfl⟩ | ⟨k, hk, rfl⟩
  · rw [intText_natCast] at hc
    exact Or.inr (natText_digit hc)
  · rw [intText_neg hk] at hc
    rcases List.mem_cons.mp hc with rfl | hc
    · exact Or.inl rfl
    · exact Or.inr (natText_digit hc)

theorem isSpace_intText {n : ℤ} {c : Char} (hc : c ∈ intText n) : isSpace c = false := by
  rcases intText_char hc with rfl | hd
  · decide
  · exact isSpace_of_isDigit hd

/-- **An integer of up to 53 bits is read back from its decimal text.** -/
theorem Number.ofText_intText {n : ℤ} (hn : |n| ≤ 2 ^ 53) : Number.ofText (intText n) = .fin n := by
  -- no letter stands in the text, so that it is none of the literals with a radix
  have hno : ∀ (r : Char) (d : Text), intText n = '0' :: r :: d → r = '-' ∨ isDigit r = true :=
    fun r d e => intText_char (by rw [e]; exact List.mem_cons_of_mem _ List.mem_cons_self)
  unfold Number.ofText
  rw [trim_of_clean fun c => isSpace_intText]
  split
  · rename_i e
    rcases int_cases n with ⟨k, rfl⟩ | ⟨k, hk, rfl⟩
    · rw [intText_natCast] at e
      exact absurd e (natText_ne_nil k)
    · rw [intText_neg hk] at e
      cases e
  · rename_i d e; rcases hno _ _ e with h | h <;> cases h
  · rename_i d e; rcases hno _ _ e with h | h <;> cases h
  · rename_i d e; rcases hno _ _ e with h | h <;> cases h
  · rename_i d e; rcases hno _ _ e with h | h <;> cases h
  · rename_i d e; rcases hno _ _ e with h | h <;> cases h
  · rename_i d e; rcases hno _ _ e with h | h <;> cases h
  · exact decimalNumber_intText hn

theorem posText_natCast {n : ℕ} (hn : n ≤ 2 ^ 53) : posText n = natText n := by
  unfold posText
  rw [if_pos ⟨Rat.den_natCast n, by rw [Rat.num_natCast]; exact_mod_cast hn⟩, Rat.num_natCast]
  rfl

/-- **The text of an integer of up to 53 bits is its decimal text.** -/
theorem Number.toText_intCast {n : ℤ} (hn : |n| ≤ 2 ^ 53) : (Number.fin n).toText = intText n := by
  rcases int_cases n with ⟨k, rfl⟩ | ⟨k, hk, rfl⟩
  · rw [Nat.abs_cast] at hn
    have h0 : ¬ ((k : ℤ) : ℚ) < 0 := by push_cast; exact not_lt.mpr (Nat.cast_nonneg k)
    show (if ((k : ℤ) : ℚ) < 0 then _ else posText ((k : ℤ) : ℚ)) = _
    rw [if_neg h0, intText_natCast]
    exact posText_natCast (by exact_mod_cast hn)
  · rw [abs_neg, Nat.abs_cast] at hn
    have h0 : ((-(k : ℤ) : ℤ) : ℚ) < 0 := by push_cast; simpa using hk
    show (if ((-(k : ℤ) : ℤ) : ℚ) < 0 then '-' :: posText (-((-(k : ℤ) : ℤ) : ℚ)) else _) = _
    have hneg : -((-(k : ℤ) : ℤ) : ℚ) = (k : ℚ) := by push_cast; ring
    rw [if_pos h0, hneg, posText_natCast (by exact_mod_cast hn), intText_neg hk]

/-! ## The shape of a number's text -/

/-- Digits, a point with digits, and an exponent with its sign; the last two are optional. -/
def Numeral (t : Text) : Prop :=
  ∃ w f e : Text, t = w ++ f ++ e ∧ w ≠ [] ∧ (∀ c ∈ w, isDigit c = true) ∧
    (f = [] ∨ ∃ d, f = '.' :: d ∧ ∀ c ∈ d, isDigit c = true) ∧
    (e = [] ∨ ∃ s d, e = 'e' :: s :: d ∧ (s = '+' ∨ s = '-') ∧ d ≠ [] ∧ ∀ c ∈ d, isDigit c = true)

theorem numeral_of_digits {t : Text} (hne : t ≠ []) (h : ∀ c ∈ t, isDigit c = true) : Numeral t :=
  ⟨t, [], [], by simp, hne, h, .inl rfl, .inl rfl⟩

theorem Numeral.head {t : Text} (h : Numeral t) : ∃ c u, t = c :: u ∧ isDigit c = true := by
  obtain ⟨w, f, e, rfl, hne, hw, -⟩ := h
  obtain ⟨c, w, rfl⟩ := List.exists_cons_of_ne_nil hne
  exact ⟨c, w ++ f ++ e, rfl, hw c List.mem_cons_self⟩

/-- Digits, the point, `e` and signs are all there is. -/
theorem Numeral.char {t : Text} (h : Numeral t) {c : Char} (hc : c ∈ t) :
    isDigit c = true ∨ c ∈ ['.', 'e', '+', '-'] := by
  obtain ⟨w, f, e, rfl, -, hw, hf, he⟩ := h
  rcases List.mem_append.mp hc with hc | hc
  · rcases List.mem_append.mp hc with hc | hc
    · exact .inl (hw c hc)
    · rcases hf with rfl | ⟨d, rfl, hd⟩
      · cases hc
      · rcases List.mem_cons.mp hc with rfl | hc
        · exact .inr (by decide)
        · exact .inl (hd c hc)
  · rcases he with rfl | ⟨s, d, rfl, hs, -, hd⟩
    · cases hc
    · rcases List.mem_cons.mp hc with rfl | hc
      · exact .inr (by decide)
      · rcases List.mem_cons.mp hc with rfl | hc
        · exact .inr (by rcases hs with rfl | rfl <;> decide)
        · exact .inl (hd c hc)

theorem zeros_digit {k : ℕ} {c : Char} (h : c ∈ zeros k) : isDigit c = true := by
  rw [List.eq_of_mem_replicate h]
  decide

theorem posText_numeral (q : ℚ) : Numeral (posText q) := by
  have hdig : ∀ (n : ℕ), ∀ c ∈ natText n, isDigit c = true := fun n c hc => natText_digit hc
  unfold posText
  split_ifs with hint
  · exact numeral_of_digits (natText_ne_nil _) (hdig _)
  · obtain ⟨k, s, n⟩ := shortest q
    show Numeral (if (k : ℤ) ≤ n ∧ n ≤ 21 then _ else _)
    have htake : ∀ i, ∀ c ∈ (natText s).take i, isDigit c = true :=
      fun i c hc => hdig s c (List.mem_of_mem_take hc)
    have hdrop : ∀ i, ∀ c ∈ (natText s).drop i, isDigit c = true :=
      fun i c hc => hdig s c (List.mem_of_mem_drop hc)
    have htake_ne : ∀ {i : ℕ}, 0 < i → (natText s).take i ≠ [] := by
      intro i hi h
      rcases List.take_eq_nil_iff.mp h with h | h
      · omega
      · exact natText_ne_nil s h
    by_cases h1 : (k : ℤ) ≤ n ∧ n ≤ 21
    · rw [if_pos h1]
      refine numeral_of_digits (List.append_ne_nil_of_left_ne_nil (natText_ne_nil s) _) ?_
      intro c hc
      exact (List.mem_append.mp hc).elim (hdig s c) zeros_digit
    rw [if_neg h1]
    by_cases h2 : 0 < n ∧ n ≤ 21
    · rw [if_pos h2]
      have hn : 0 < n.toNat := by omega
      exact ⟨_, '.' :: (natText s).drop n.toNat, [], by simp, htake_ne hn, htake _,
        .inr ⟨_, rfl, hdrop _⟩, .inl rfl⟩
    rw [if_neg h2]
    by_cases h3 : -6 < n ∧ n ≤ 0
    · rw [if_pos h3]
      refine ⟨['0'], '.' :: (zeros (-n).toNat ++ natText s), [], by simp, by simp,
        List.forall_mem_singleton.mpr rfl, .inr ⟨_, rfl, fun c hc => ?_⟩, .inl rfl⟩
      exact (List.mem_append.mp hc).elim zeros_digit (hdig s c)
    rw [if_neg h3]
    obtain ⟨e, he⟩ : ∃ e, e = (if n - 1 < 0 then '-' else '+') :: natText (n - 1).natAbs := ⟨_, rfl⟩
    show Numeral (if k = 1 then natText s ++ 'e' :: ((if n - 1 < 0 then '-' else '+') ::
      natText (n - 1).natAbs) else (natText s).take 1 ++ '.' :: ((natText s).drop 1 ++
        'e' :: ((if n - 1 < 0 then '-' else '+') :: natText (n - 1).natAbs)))
    rw [← he]
    have hexp : ∃ x d, 'e' :: e = 'e' :: x :: d ∧ (x = '+' ∨ x = '-') ∧ d ≠ [] ∧
        ∀ c ∈ d, isDigit c = true := by
      refine ⟨_, _, by rw [he], ?_, natText_ne_nil _, hdig _⟩
      split
      · exact .inr rfl
      · exact .inl rfl
    by_cases hk : k = 1
    · rw [if_pos hk]
      exact ⟨natText s, [], 'e' :: e, by rw [List.append_nil], natText_ne_nil s, hdig s, .inl rfl,
        .inr hexp⟩
    · rw [if_neg hk]
      exact ⟨(natText s).take 1, '.' :: (natText s).drop 1, 'e' :: e, by simp,
        htake_ne Nat.one_pos, htake 1, .inr ⟨_, rfl, hdrop 1⟩, .inr hexp⟩

end Lib.Js
