import Mathlib.Tactic.Ring
import Mathlib.Data.List.Basic

/-!
# Lib.Utf8 — decoding bytes to text, malformed input replaced

The UTF-8 decoder of the Encoding Standard as a machine that reads one byte at a time: a byte that
cannot continue the sequence begun before it ends that sequence as U+FFFD and is read again from
the start.  `decode` is what one buffer alone becomes.  An ASCII byte always stands for itself, so
a text decodes piece by piece when it is cut next to one (`decode_append_ascii`).
-/

namespace Lib

abbrev Bytes := List UInt8

abbrev Text := List Char

namespace Utf8

/-- U+FFFD. -/
def replacement : Char := Char.ofNat 0xFFFD

/-- `v` spells a scalar value beyond ASCII once `n` more continuation bytes have followed it,
whichever they are. -/
def Spells (n v : ℕ) : Prop :=
  0x80 ≤ v * 64 ^ n ∧ ((v + 1) * 64 ^ n ≤ 0xD800 ∨ 0xE000 ≤ v * 64 ^ n) ∧
    (v + 1) * 64 ^ n ≤ 0x110000

/-- Between characters, or `n + 1` bytes short of one.  `cp` is what the bytes so far spell, and
the next byte must lie in `lower .. upper`; whichever it is, a scalar value comes out. -/
inductive State where
  | start
  | more (n cp lower upper : ℕ) (hl : 0x80 ≤ lower)
      (hs : ∀ b, lower ≤ b → b ≤ upper → Spells n (cp * 64 + b % 64))

/-- A byte read between characters. -/
def lead (b : ℕ) : State × Text :=
  if b ≤ 0x7F then (.start, [Char.ofNat b])
  else if h : 0xC2 ≤ b ∧ b ≤ 0xDF then
    (.more 0 (b % 32) 0x80 0xBF (by omega) (by unfold Spells; omega), [])
  else if h : 0xE0 ≤ b ∧ b ≤ 0xEF then
    (.more 1 (b % 16) (if b = 0xE0 then 0xA0 else 0x80) (if b = 0xED then 0x9F else 0xBF)
      (by split_ifs <;> omega) (by unfold Spells; split_ifs <;> omega), [])
  else if h : 0xF0 ≤ b ∧ b ≤ 0xF4 then
    (.more 2 (b % 8) (if b = 0xF0 then 0x90 else 0x80) (if b = 0xF4 then 0x8F else 0xBF)
      (by split_ifs <;> omega) (by unfold Spells; split_ifs <;> omega), [])
  else (.start, [replacement])

/-- One more continuation byte leaves a narrower range, still of scalar values. -/
theorem Spells.next {n v : ℕ} (h : Spells (n + 1) v) :
    ∀ b, 0x80 ≤ b → b ≤ 0xBF → Spells n (v * 64 + b % 64) := by
  intro b _ _
  have elo : v * 64 ^ (n + 1) = v * 64 * 64 ^ n := by rw [pow_succ]; ring
  have ehi : (v + 1) * 64 ^ (n + 1) = (v * 64 + 64) * 64 ^ n := by rw [pow_succ]; ring
  have hlo : v * 64 * 64 ^ n ≤ (v * 64 + b % 64) * 64 ^ n := Nat.mul_le_mul_right _ (by omega)
  have hhi : (v * 64 + b % 64 + 1) * 64 ^ n ≤ (v * 64 + 64) * 64 ^ n :=
    Nat.mul_le_mul_right _ (by omega)
  unfold Spells at h ⊢
  omega

/-- One byte: the state after it and the characters that it completes. -/
def feed : State → UInt8 → State × Text
  | .start, b => lead b.toNat
  | .more 0 cp lower upper _ _, b =>
    if lower ≤ b.toNat ∧ b.toNat ≤ upper then (.start, [Char.ofNat (cp * 64 + b.toNat % 64)])
    else ((lead b.toNat).1, replacement :: (lead b.toNat).2)
  | .more (n + 1) cp lower upper _ hs, b =>
    if h : lower ≤ b.toNat ∧ b.toNat ≤ upper then
      (.more n (cp * 64 + b.toNat % 64) 0x80 0xBF (by omega) (hs b.toNat h.1 h.2).next, [])
    else ((lead b.toNat).1, replacement :: (lead b.toNat).2)

/-- What the end of the input makes of an unfinished sequence. -/
def flush : State → Text
  | .start => []
  | .more .. => [replacement]

def decodeFrom (s : State) : Bytes → Text
  | [] => flush s
  | b :: bs => (feed s b).2 ++ decodeFrom (feed s b).1 bs

/-- The text of a whole buffer. -/
def decode (bs : Bytes) : Text := decodeFrom .start bs

@[simp] theorem decode_nil : decode [] = [] := rfl

theorem lead_ascii {b : ℕ} (h : b < 0x80) : lead b = (.start, [Char.ofNat b]) := by
  unfold lead
  rw [if_pos (by omega)]

theorem feed_ascii (s : State) {b : UInt8} (hb : b.toNat < 0x80) :
    feed s b = (.start, flush s ++ [Char.ofNat b.toNat]) := by
  cases s with
  | start => simp [feed, lead_ascii hb, flush]
  | more n cp lower upper hl hs =>
    have hout : ¬ (lower ≤ b.toNat ∧ b.toNat ≤ upper) := by omega
    cases n with
    | zero => simp only [feed, if_neg hout, lead_ascii hb, flush, List.singleton_append]
    | succ n => simp only [feed, dif_neg hout, lead_ascii hb, flush, List.singleton_append]

theorem decodeFrom_append_ascii {b : UInt8} (hb : b.toNat < 0x80) (bs : Bytes) :
    ∀ (s : State) (as : Bytes),
      decodeFrom s (as ++ b :: bs) = decodeFrom s as ++ Char.ofNat b.toNat :: decode bs
  | s, [] => by simp [decodeFrom, feed_ascii s hb, decode]
  | s, a :: as => by
    simp only [List.cons_append, decodeFrom, List.append_assoc]
    rw [decodeFrom_append_ascii hb bs]

/-- **An ASCII byte decodes to itself wherever it stands**, and the bytes on its two sides decode
independently of each other. -/
theorem decode_append_ascii {b : UInt8} (hb : b.toNat < 0x80) (as bs : Bytes) :
    decode (as ++ b :: bs) = decode as ++ Char.ofNat b.toNat :: decode bs :=
  decodeFrom_append_ascii hb bs .start as

theorem decodeFrom_more_ne_nil : ∀ (bs : Bytes) (n cp lower upper : ℕ) (hl) (hs),
    decodeFrom (.more n cp lower upper hl hs) bs ≠ []
  | [], _, _, _, _, _, _ => by simp [decodeFrom, flush]
  | b :: bs, n, cp, lower, upper, hl, hs => by
    by_cases h : lower ≤ b.toNat ∧ b.toNat ≤ upper
    · cases n with
      | zero => simp [decodeFrom, feed, h]
      | succ n =>
        rw [decodeFrom, feed, dif_pos h]
        exact decodeFrom_more_ne_nil bs _ _ _ _ _ _
    · cases n with
      | zero => simp [decodeFrom, feed, h]
      | succ n => simp [decodeFrom, feed, h]

/-- A byte read between characters completes one or begins one. -/
theorem lead_cases (b : ℕ) :
    (b < 0x80 ∧ lead b = (.start, [Char.ofNat b])) ∨ lead b = (.start, [replacement]) ∨
      ∃ n cp lower upper hl hs, lead b = (.more n cp lower upper hl hs, []) := by
  by_cases h1 : b ≤ 0x7F
  · exact Or.inl ⟨by omega, lead_ascii (by omega)⟩
  right
  unfold lead
  rw [if_neg h1]
  by_cases h2 : 0xC2 ≤ b ∧ b ≤ 0xDF
  · rw [dif_pos h2]
    exact Or.inr ⟨_, _, _, _, _, _, rfl⟩
  rw [dif_neg h2]
  by_cases h3 : 0xE0 ≤ b ∧ b ≤ 0xEF
  · rw [dif_pos h3]
    exact Or.inr ⟨_, _, _, _, _, _, rfl⟩
  rw [dif_neg h3]
  by_cases h4 : 0xF0 ≤ b ∧ b ≤ 0xF4
  · rw [dif_pos h4]
    exact Or.inr ⟨_, _, _, _, _, _, rfl⟩
  · rw [dif_neg h4]
    exact Or.inl rfl

/-- Nothing is swallowed: some bytes give some text. -/
theorem decode_eq_nil {bs : Bytes} : decode bs = [] ↔ bs = [] := by
  refine ⟨fun h => ?_, fun h => by rw [h]; rfl⟩
  cases bs with
  | nil => rfl
  | cons b bs =>
    have e : decode (b :: bs) = (lead b.toNat).2 ++ decodeFrom (lead b.toNat).1 bs := rfl
    rw [e] at h
    rcases lead_cases b.toNat with ⟨-, hl⟩ | hl | ⟨n, cp, lower, upper, h1, h2, hl⟩
    · simp [hl] at h
    · simp [hl] at h
    · rw [hl] at h
      exact absurd h (decodeFrom_more_ne_nil bs n cp lower upper h1 h2)

theorem toNat_ofNat {n : ℕ} (h : n.isValidChar) : (Char.ofNat n).toNat = n := by
  unfold Char.ofNat
  rw [dif_pos h]
  rfl

/-- A byte between characters completes an ASCII character only if it is that character. -/
theorem lead_ascii_mem {b : ℕ} {c : Char} (hc : c ∈ (lead b).2) (ha : c.toNat < 0x80) :
    b = c.toNat := by
  rcases lead_cases b with ⟨hb, hl⟩ | hl | ⟨n, cp, lower, upper, h1, h2, hl⟩
  · rw [hl] at hc
    obtain rfl := List.mem_singleton.mp hc
    exact (toNat_ofNat (by unfold Nat.isValidChar; omega)).symm
  · rw [hl] at hc
    obtain rfl := List.mem_singleton.mp hc
    exact absurd ha (by decide)
  · rw [hl] at hc
    exact absurd hc List.not_mem_nil

theorem feed_ascii_mem {s : State} {b : UInt8} {c : Char} (hc : c ∈ (feed s b).2)
    (ha : c.toNat < 0x80) : b.toNat = c.toNat := by
  have hrestart : c ∈ replacement :: (lead b.toNat).2 → b.toNat = c.toNat := by
    intro hc
    rcases List.mem_cons.mp hc with rfl | hc
    · exact absurd ha (by decide)
    · exact lead_ascii_mem hc ha
  cases s with
  | start => exact lead_ascii_mem hc ha
  | more n cp lower upper hl hs =>
    by_cases h : lower ≤ b.toNat ∧ b.toNat ≤ upper
    · cases n with
      | zero =>
        -- the completed sequence spells a scalar value beyond ASCII
        have hsp := hs b.toNat h.1 h.2
        unfold Spells at hsp
        simp only [pow_zero, mul_one] at hsp
        rw [feed, if_pos h] at hc
        rw [List.mem_singleton.mp hc, toNat_ofNat (by unfold Nat.isValidChar; omega)] at ha
        omega
      | succ n =>
        rw [feed, dif_pos h] at hc
        exact absurd hc List.not_mem_nil
    · cases n with
      | zero => rw [feed, if_neg h] at hc; exact hrestart hc
      | succ n => rw [feed, dif_neg h] at hc; exact hrestart hc

/-- An ASCII character of the text is one of the bytes. -/
theorem ascii_mem_decodeFrom {c : Char} (ha : c.toNat < 0x80) : ∀ {s : State} {bs : Bytes},
    c ∈ decodeFrom s bs → ∃ b ∈ bs, b.toNat = c.toNat
  | s, [], hc => by
    cases s with
    | start => simp [decodeFrom, flush] at hc
    | more n cp lower upper hl hs =>
      obtain rfl : c = replacement := by simpa [decodeFrom, flush] using hc
      exact absurd ha (by decide)
  | s, b :: bs, hc => by
    rcases List.mem_append.mp hc with hc | hc
    · exact ⟨b, List.mem_cons_self, feed_ascii_mem hc ha⟩
    · obtain ⟨b', hb', e⟩ := ascii_mem_decodeFrom ha hc
      exact ⟨b', List.mem_cons_of_mem _ hb', e⟩

end Utf8

end Lib
