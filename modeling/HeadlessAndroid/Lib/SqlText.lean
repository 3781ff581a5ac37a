import HeadlessAndroid.Lib.JsNumber
import HeadlessAndroid.Lib.Lines
import Mathlib.Algebra.Order.BigOperators.Group.List

/-!
# Lib.SqlText — tokens and statements of SQL

The tokens of SQLite, read character by character: words, numbers, string literals, which double a
quote that they contain, operators, and comments, which are passed over.  Quoted names, blobs,
variables and whatever else starts with a character of another kind are not read (`none`).
-/

namespace Lib.SqlText

open Lib Lib.Js

inductive Token where
  /-- A keyword or a name. -/
  | word (t : Text)
  | number (t : Text)
  /-- A string literal with the value `t`. -/
  | string (t : Text)
  | symbol (c : Char)
  deriving DecidableEq

/-- What has been read of the token at hand. -/
inductive Mode where
  | blank
  | word (t : Text)
  | whole (t : Text)
  | fraction (t : Text)
  /-- After the `e` of a number. -/
  | exponent (t : Text)
  /-- After the sign of an exponent. -/
  | signed (t : Text)
  | power (t : Text)
  | string (t : Text)
  /-- After a quote in a string literal: its end, or the first of two. -/
  | quote (t : Text)
  | minus
  | slash
  | lineComment
  | blockComment
  /-- After a `*` in a block comment. -/
  | star
  deriving DecidableEq

def isBlank (c : Char) : Bool := c == ' ' || c == '\t' || c == '\n' || c == '\r'

def symbols : Text := "(),;=*+<>".toList

/-- The first character of a token. -/
def begin (c : Char) : Option (Mode × List Token) :=
  if isBlank c then some (.blank, [])
  else if isLetter c || c == '_' then some (.word [c], [])
  else if isDigit c then some (.whole [c], [])
  else if c = '\'' then some (.string [], [])
  else if c = '-' then some (.minus, [])
  else if c = '/' then some (.slash, [])
  else if symbols.contains c then some (.blank, [.symbol c])
  else none

/-- The token `tok` is complete when `c` comes. -/
def after (tok : Token) (c : Char) : Option (Mode × List Token) :=
  (begin c).map fun r => (r.1, tok :: r.2)

/-- No letter may follow a number. -/
def afterNumber (t : Text) (c : Char) : Option (Mode × List Token) :=
  if isWord c then none else after (.number t) c

def next : Mode → Char → Option (Mode × List Token)
  | .blank, c => begin c
  | .word t, c =>
    if isWord c then some (.word (t ++ [c]), [])
    -- `x'53'` is a blob
    else if c = '\'' then none
    else after (.word t) c
  | .whole t, c =>
    if isDigit c then some (.whole (t ++ [c]), [])
    else if c = '.' then some (.fraction (t ++ [c]), [])
    else if c = 'e' ∨ c = 'E' then some (.exponent (t ++ [c]), [])
    else afterNumber t c
  | .fraction t, c =>
    if isDigit c then some (.fraction (t ++ [c]), [])
    else if c = 'e' ∨ c = 'E' then some (.exponent (t ++ [c]), [])
    else afterNumber t c
  | .exponent t, c =>
    if isDigit c then some (.power (t ++ [c]), [])
    else if c = '+' ∨ c = '-' then some (.signed (t ++ [c]), [])
    else none
  | .signed t, c => if isDigit c then some (.power (t ++ [c]), []) else none
  | .power t, c => if isDigit c then some (.power (t ++ [c]), []) else afterNumber t c
  | .string t, c => if c = '\'' then some (.quote t, []) else some (.string (t ++ [c]), [])
  | .quote t, c => if c = '\'' then some (.string (t ++ [c]), []) else after (.string t) c
  | .minus, c => if c = '-' then some (.lineComment, []) else after (.symbol '-') c
  | .slash, c => if c = '*' then some (.blockComment, []) else after (.symbol '/') c
  | .lineComment, c => some (if c = '\n' then .blank else .lineComment, [])
  | .blockComment, c => some (if c = '*' then .star else .blockComment, [])
  | .star, c => some (if c = '/' then .blank else if c = '*' then .star else .blockComment, [])

/-- The tokens that the end of the text completes. -/
def close : Mode → Option (List Token)
  | .word t => some [.word t]
  | .whole t => some [.number t]
  | .fraction t => some [.number t]
  | .power t => some [.number t]
  | .quote t => some [.string t]
  | .minus => some [.symbol '-']
  | .slash => some [.symbol '/']
  | .exponent _ => none
  | .signed _ => none
  | .string _ => none
  | _ => some []

/-- Reads a piece of text: where it gets to and the tokens it completes. -/
def run : Mode → Text → Option (Mode × List Token)
  | m, [] => some (m, [])
  | m, c :: t => (next m c).bind fun r => (run r.1 t).map fun e => (e.1, r.2 ++ e.2)

def lex (t : Text) : Option (List Token) :=
  (run .blank t).bind fun e => (close e.1).map fun toks => e.2 ++ toks

/-- The statements of a text: what stands between its semicolons. -/
def statements (t : Text) : Option (List (List Token)) := (lex t).map (segments (.symbol ';'))

/-! ## Reading piece by piece -/

theorem run_append {m m' : Mode} {a b : Text} {toks : List Token}
    (h : run m a = some (m', toks)) :
    run m (a ++ b) = (run m' b).map fun e => (e.1, toks ++ e.2) := by
  induction a generalizing m toks with
  | nil =>
    cases h
    simp
  | cons c a ih =>
    obtain ⟨r, hr, h⟩ := Option.bind_eq_some_iff.mp h
    obtain ⟨e, he, h⟩ := Option.map_eq_some_iff.mp h
    cases h
    rw [List.cons_append, run, hr, Option.bind_some, ih he, Option.map_map]
    congr 1
    funext e'
    simp

/-- Pieces that are read one after the other. -/
theorem run_trans {m m₁ m₂ : Mode} {a b : Text} {ts us : List Token}
    (h : run m a = some (m₁, ts)) (h' : run m₁ b = some (m₂, us)) :
    run m (a ++ b) = some (m₂, ts ++ us) := by
  rw [run_append h, h']
  rfl

/-- Characters that only make the token at hand longer. -/
theorem run_grow (mode : Text → Mode) (p : Char → Prop)
    (hnext : ∀ t c, p c → next (mode t) c = some (mode (t ++ [c]), [])) :
    ∀ {w t : Text}, (∀ c ∈ w, p c) → run (mode t) w = some (mode (t ++ w), [])
  | [], t, _ => by
    rw [List.append_nil]
    rfl
  | c :: w, t, h => by
    obtain ⟨hc, hw⟩ := List.forall_mem_cons.mp h
    rw [run, hnext t c hc, Option.bind_some, run_grow mode p hnext hw]
    simp

theorem run_whole {w t : Text} (h : ∀ c ∈ w, isDigit c = true) :
    run (.whole t) w = some (.whole (t ++ w), []) :=
  run_grow .whole (fun c => isDigit c = true) (fun _ _ hc => if_pos hc) h

theorem run_fraction {w t : Text} (h : ∀ c ∈ w, isDigit c = true) :
    run (.fraction t) w = some (.fraction (t ++ w), []) :=
  run_grow .fraction (fun c => isDigit c = true) (fun _ _ hc => if_pos hc) h

theorem run_power {w t : Text} (h : ∀ c ∈ w, isDigit c = true) :
    run (.power t) w = some (.power (t ++ w), []) :=
  run_grow .power (fun c => isDigit c = true) (fun _ _ hc => if_pos hc) h

/-- **A text without a quote stays inside the literal.** -/
theorem run_string {w t : Text} (h : '\'' ∉ w) : run (.string t) w = some (.string (t ++ w), []) :=
  run_grow .string (fun c => c ≠ '\'') (fun _ _ hc => if_neg hc) fun _ hc e => h (e ▸ hc)

/-- A minus that does not start a comment is a token. -/
theorem run_minus {c : Char} (hc : c ≠ '-') (t : Text) :
    run .blank ('-' :: c :: t) =
      (run .blank (c :: t)).map fun e => (e.1, .symbol '-' :: e.2) := by
  have hnext : next .minus c = (begin c).map fun r => (r.1, .symbol '-' :: r.2) := if_neg hc
  rw [run, show next .blank '-' = some (.minus, []) from rfl, Option.bind_some, run, hnext, run]
  show ((_ : Option (Mode × List Token)).bind _).map _ = _
  rw [show next .blank c = begin c from rfl]
  cases begin c with
  | none => rfl
  | some r =>
    simp only [Option.map_some, Option.bind_some, Option.map_map]
    rfl

/-! ## Numbers -/

/-- A number that `t` may end in. -/
def Mode.Ending (t : Text) (m : Mode) : Prop := m = .whole t ∨ m = .fraction t ∨ m = .power t

/-- What is left once a character comes that no number goes on with. -/
theorem next_ending {m : Mode} {t : Text} {c : Char} (h : m.Ending t) (hw : isWord c = false)
    (hdot : c ≠ '.') : next m c = after (.number t) c := by
  have hd : ¬isDigit c = true := fun hd => by simp [isWord, hd] at hw
  have hl : ¬isLetter c = true := fun hl => by simp [isWord, hl] at hw
  have he : ¬(c = 'e' ∨ c = 'E') := by
    rintro (rfl | rfl)
    · exact hl (by decide)
    · exact hl (by decide)
  have hafter : afterNumber t c = after (.number t) c := by
    unfold afterNumber
    rw [hw]
    rfl
  rcases h with rfl | rfl | rfl
  · show (if isDigit c = true then _ else if c = '.' then _ else if c = 'e' ∨ c = 'E' then _
      else afterNumber t c) = _
    rw [if_neg hd, if_neg hdot, if_neg he, hafter]
  · show (if isDigit c = true then _ else if c = 'e' ∨ c = 'E' then _ else afterNumber t c) = _
    rw [if_neg hd, if_neg he, hafter]
  · show (if isDigit c = true then _ else afterNumber t c) = _
    rw [if_neg hd, hafter]

/-- **A numeral is one number.** -/
theorem run_numeral {t : Text} (h : Numeral t) : ∃ m : Mode, m.Ending t ∧ run .blank t = some (m, []) := by
  obtain ⟨w, f, e, rfl, hne, hw, hf, he⟩ := h
  obtain ⟨c, w, rfl⟩ := List.exists_cons_of_ne_nil hne
  obtain ⟨hc, hw⟩ := List.forall_mem_cons.mp hw
  have hbegin : begin c = some (.whole [c], []) := by
    have hs : isBlank c = false := by
      by_contra hb
      have hsp : isSpace c = true := by
        unfold isBlank at hb
        simp only [Bool.not_eq_false, Bool.or_eq_true, beq_iff_eq] at hb
        rcases hb with ((rfl | rfl) | rfl) | rfl <;> decide
      rw [isSpace_of_isDigit hc] at hsp
      cases hsp
    have hl : ¬(isLetter c || c == '_') = true := by
      intro hl
      unfold isDigit at hc
      unfold isLetter at hl
      simp only [Bool.or_eq_true, Bool.and_eq_true, decide_eq_true_eq, beq_iff_eq] at hc hl
      rcases hl with hl | rfl
      · omega
      · revert hc
        decide
    unfold begin
    rw [hs, if_neg (by decide), if_neg hl, if_pos hc]
  -- the digits before the point
  have h1 : run .blank (c :: w) = some (.whole (c :: w), []) := by
    rw [run, show next .blank c = some (.whole [c], []) from hbegin, Option.bind_some, run_whole hw]
    rfl
  -- the point and the digits after it
  have h2 : ∃ m : Mode, (m = .whole (c :: w ++ f) ∨ m = .fraction (c :: w ++ f)) ∧
      run .blank (c :: w ++ f) = some (m, []) := by
    rcases hf with rfl | ⟨d, rfl, hd⟩
    · exact ⟨_, .inl (by rw [List.append_nil]), by rw [List.append_nil]; exact h1⟩
    · refine ⟨_, .inr rfl, ?_⟩
      have hdot : run (.whole (c :: w)) ('.' :: d) = some (.fraction (c :: w ++ '.' :: d), []) := by
        rw [run, show next (.whole (c :: w)) '.' = some (.fraction (c :: w ++ ['.']), []) from rfl,
          Option.bind_some, run_fraction hd]
        simp
      exact run_trans h1 hdot
  obtain ⟨m, hm, h2⟩ := h2
  rcases he with rfl | ⟨s, d, rfl, hs, hdne, hd⟩
  · rw [List.append_nil]
    exact ⟨m, hm.elim .inl fun h => .inr (.inl h), h2⟩
  · refine ⟨.power (c :: w ++ f ++ 'e' :: s :: d), .inr (.inr rfl), ?_⟩
    obtain ⟨x, d, rfl⟩ := List.exists_cons_of_ne_nil hdne
    obtain ⟨hx, hd⟩ := List.forall_mem_cons.mp hd
    have hexp : next m 'e' = some (.exponent (c :: w ++ f ++ ['e']), []) := by
      rcases hm with rfl | rfl <;> rfl
    have hsign : next (.exponent (c :: w ++ f ++ ['e'])) s =
        some (.signed (c :: w ++ f ++ ['e'] ++ [s]), []) := by
      rcases hs with rfl | rfl <;> rfl
    have hpow : next (.signed (c :: w ++ f ++ ['e'] ++ [s])) x =
        some (.power (c :: w ++ f ++ ['e'] ++ [s] ++ [x]), []) := if_pos hx
    have h3 : run m ('e' :: s :: x :: d) =
        some (.power (c :: w ++ f ++ 'e' :: s :: x :: d), []) := by
      rw [run, hexp, Option.bind_some, run, hsign, Option.bind_some, run, hpow, Option.bind_some,
        run_power hd]
      simp
    exact run_trans h2 h3

/-! ## What the literals of a text hold -/

/-- A weight of the text of a literal, before and after the quote that may end it, that the
characters of the literal pay for. -/
structure Weight where
  inside : Text → ℕ
  atQuote : Text → ℕ
  cost : Char → ℕ
  opens : inside [] ≤ cost '\''
  grows : ∀ t c, c ≠ '\'' → inside (t ++ [c]) ≤ inside t + cost c
  ends : ∀ t, atQuote t ≤ inside t + cost '\''
  doubles : ∀ t, inside (t ++ ['\'']) ≤ atQuote t + cost '\''

namespace Weight

variable (W : Weight)

def mode : Mode → ℕ
  | .string t => W.inside t
  | .quote t => W.atQuote t
  | _ => 0

def token : Token → ℕ
  | .string t => W.atQuote t
  | _ => 0

def tokens (toks : List Token) : ℕ := (toks.map W.token).sum

def text (t : Text) : ℕ := (t.map W.cost).sum

theorem tokens_append (a b : List Token) : W.tokens (a ++ b) = W.tokens a + W.tokens b := by
  simp [tokens]

theorem begin_le {c : Char} {r : Mode × List Token} (h : begin c = some r) :
    W.mode r.1 + W.tokens r.2 ≤ W.cost c := by
  unfold begin at h
  split_ifs at h with h1 h2 h3 h4 <;> cases h
  · exact Nat.zero_le _
  · exact Nat.zero_le _
  · exact Nat.zero_le _
  · subst h4
    exact W.opens
  · exact Nat.zero_le _
  · exact Nat.zero_le _
  · exact Nat.zero_le _

theorem after_le {tok : Token} {c : Char} {r : Mode × List Token} (h : after tok c = some r) :
    W.mode r.1 + W.tokens r.2 ≤ W.token tok + W.cost c := by
  obtain ⟨r', hb, rfl⟩ := Option.map_eq_some_iff.mp h
  have hbegin := W.begin_le hb
  have htoks : W.tokens (tok :: r'.2) = W.token tok + W.tokens r'.2 := W.tokens_append [tok] r'.2
  show W.mode r'.1 + W.tokens (tok :: r'.2) ≤ _
  omega

theorem afterNumber_le {t : Text} {c : Char} {r : Mode × List Token}
    (h : afterNumber t c = some r) : W.mode r.1 + W.tokens r.2 ≤ W.cost c := by
  unfold afterNumber at h
  split_ifs at h
  simpa [token] using W.after_le h

/-- **A step brings in no more than its character costs.** -/
theorem next_le {m : Mode} {c : Char} {r : Mode × List Token} (h : next m c = some r) :
    W.mode r.1 + W.tokens r.2 ≤ W.mode m + W.cost c := by
  have hzero : ∀ {m' : Mode}, W.mode m' = 0 → W.mode m' + W.tokens [] ≤ W.mode m + W.cost c :=
    fun hm => by rw [hm]; exact Nat.zero_le _
  cases m with
  | blank => exact (W.begin_le h).trans (Nat.le_add_left _ _)
  | word t =>
    simp only [next] at h
    split_ifs at h
    · cases h
      exact hzero rfl
    · exact W.after_le h
  | whole t =>
    simp only [next] at h
    split_ifs at h
    · cases h
      exact hzero rfl
    · cases h
      exact hzero rfl
    · cases h
      exact hzero rfl
    · exact (W.afterNumber_le h).trans (Nat.le_add_left _ _)
  | fraction t =>
    simp only [next] at h
    split_ifs at h
    · cases h
      exact hzero rfl
    · cases h
      exact hzero rfl
    · exact (W.afterNumber_le h).trans (Nat.le_add_left _ _)
  | exponent t =>
    simp only [next] at h
    split_ifs at h <;> cases h <;> exact hzero rfl
  | signed t =>
    simp only [next] at h
    split_ifs at h
    cases h
    exact hzero rfl
  | power t =>
    simp only [next] at h
    split_ifs at h
    · cases h
      exact hzero rfl
    · exact (W.afterNumber_le h).trans (Nat.le_add_left _ _)
  | string t =>
    simp only [next] at h
    split_ifs at h with hc
    · cases h
      subst hc
      exact W.ends t
    · cases h
      exact W.grows t c hc
  | quote t =>
    simp only [next] at h
    split_ifs at h with hc
    · cases h
      subst hc
      exact W.doubles t
    · exact W.after_le h
  | minus =>
    simp only [next] at h
    split_ifs at h
    · cases h
      exact hzero rfl
    · exact W.after_le h
  | slash =>
    simp only [next] at h
    split_ifs at h
    · cases h
      exact hzero rfl
    · exact W.after_le h
  | lineComment =>
    cases h
    refine hzero ?_
    split <;> rfl
  | blockComment =>
    cases h
    refine hzero ?_
    split <;> rfl
  | star =>
    cases h
    refine hzero ?_
    split_ifs <;> rfl

theorem run_le : ∀ {t : Text} {m : Mode} {e : Mode × List Token}, run m t = some e →
    W.mode e.1 + W.tokens e.2 ≤ W.mode m + W.text t
  | [], m, e, h => by
    cases h
    exact le_rfl
  | c :: t, m, e, h => by
    obtain ⟨r, hr, h⟩ := Option.bind_eq_some_iff.mp h
    obtain ⟨e', he, rfl⟩ := Option.map_eq_some_iff.mp h
    have h1 := W.next_le hr
    have h2 := run_le he
    have hc : W.text (c :: t) = W.cost c + W.text t := rfl
    show W.mode e'.1 + W.tokens (r.2 ++ e'.2) ≤ _
    rw [W.tokens_append, hc]
    omega

theorem close_le {m : Mode} {toks : List Token} (h : close m = some toks) :
    W.tokens toks ≤ W.mode m := by
  cases m with
  | quote t =>
    cases h
    exact le_rfl
  | exponent t => cases h
  | signed t => cases h
  | string t => cases h
  | _ =>
    cases h
    exact Nat.zero_le _

theorem lex_le {t : Text} {toks : List Token} (h : lex t = some toks) : W.tokens toks ≤ W.text t := by
  obtain ⟨e, he, h⟩ := Option.bind_eq_some_iff.mp h
  obtain ⟨us, hu, rfl⟩ := Option.map_eq_some_iff.mp h
  have h1 := W.run_le he
  have h2 := W.close_le hu
  have hblank : W.mode .blank = 0 := rfl
  rw [W.tokens_append]
  omega

/-- **The text pays for each literal of its statements.** -/
theorem literal_le {t s : Text} {stmts : List (List Token)} {toks : List Token}
    (h : statements t = some stmts) (hmem : toks ∈ stmts) (hs : .string s ∈ toks) :
    W.atQuote s ≤ W.text t := by
  obtain ⟨all, hall, rfl⟩ := Option.map_eq_some_iff.mp h
  have hin : .string s ∈ all := (of_mem_segments hmem).2.2 hs
  have hle : W.token (.string s) ≤ W.tokens all :=
    List.le_sum_of_mem (List.mem_map_of_mem hin)
  exact hle.trans (W.lex_le hall)

end Weight

theorem sum_map_eq_countP (p : Char → Bool) (t : Text) :
    (t.map fun c => if p c then 1 else 0).sum = t.countP p := by
  induction t with
  | nil => rfl
  | cons c t ih =>
    rw [List.map_cons, List.sum_cons, List.countP_cons, ih, Nat.add_comm]

/-- How many characters of a literal satisfy `p`. -/
def countWeight (p : Char → Bool) : Weight where
  inside t := t.countP p
  atQuote t := t.countP p
  cost c := if p c then 1 else 0
  opens := Nat.zero_le _
  grows t c _ := by
    rw [List.countP_append, List.countP_singleton]
  ends t := Nat.le_add_right _ _
  doubles t := by
    rw [List.countP_append, List.countP_singleton]

/-- What is in a literal is in the text. -/
theorem countP_literal_le (p : Char → Bool) {t s : Text} {stmts : List (List Token)}
    {toks : List Token} (h : statements t = some stmts) (hmem : toks ∈ stmts)
    (hs : .string s ∈ toks) : s.countP p ≤ t.countP p := by
  have hle := (countWeight p).literal_le h hmem hs
  unfold Weight.text at hle
  rwa [show (countWeight p).cost = fun c => if p c then 1 else 0 from rfl, sum_map_eq_countP] at hle

/-- A quote in a literal is written twice, and two more stand around it. -/
def quoteWeight : Weight where
  inside t := 2 * t.count '\'' + 1
  atQuote t := 2 * t.count '\'' + 2
  cost c := if c == '\'' then 1 else 0
  opens := le_rfl
  grows t c hc := by
    rw [List.count_append, List.count_singleton, if_neg (by simpa using hc)]
    omega
  ends t := le_rfl
  doubles t := by
    rw [List.count_append, List.count_singleton_self, if_pos (by decide)]
    omega

/-- **A text has all the quotes that its literals need.** -/
theorem quotes_literal_le {t s : Text} {stmts : List (List Token)} {toks : List Token}
    (h : statements t = some stmts) (hmem : toks ∈ stmts) (hs : .string s ∈ toks) :
    2 * s.count '\'' + 2 ≤ t.count '\'' := by
  have hle := quoteWeight.literal_le h hmem hs
  unfold Weight.text at hle
  rwa [show quoteWeight.cost = fun c => if c == '\'' then 1 else 0 from rfl, sum_map_eq_countP] at hle

end Lib.SqlText
