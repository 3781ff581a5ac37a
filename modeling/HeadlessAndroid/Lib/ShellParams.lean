import HeadlessAndroid.Lib.Shell
import Mathlib.Data.List.Chain

/-!
# Lib.ShellParams — one simple command with parameters in double quotes

A reader of a command line that is one simple command, with `$name`, `${name}` and the special
parameters expanded within double quotes.  It gives up (`none`) at a command substitution, at an
operator and at the other forms of `${..}`.  In double quotes a shell leaves a text alone just when
nothing in it is special there (`Inert`): whatever else it reads loses one of the special characters
(`run_lost`), unless the values of the parameters bring it back.
-/

namespace Lib.Shell

open Lib Lib.Js

/-- Characters that name a parameter by themselves, besides the digits. -/
def specialParams : Text := "*@#?-$!".toList

/-- A word as far as it is read; an expansion stands in double quotes, after the text `t`. -/
inductive Part where
  | text (w : Word)
  /-- After `$`. -/
  | dollar (t : Text)
  /-- In `$name`. -/
  | name (t n : Text)
  /-- In `${name}`. -/
  | brace (t n : Text)
  deriving DecidableEq

def inDouble (t : Text) : Word := ⟨t, .double, true⟩

def isName : Text → Bool
  | [] => false
  | c :: n => if isDigit c then n.all isDigit else true

/-- The next character outside an expansion. -/
def Word.stepPart (w : Word) (c : Char) : Option Part :=
  if w.quote = .double ∧ c = '$' then some (.dollar w.text) else (w.step c).map .text

section Env

-- the values of the parameters
variable (env : Text → Text)

def Part.step : Part → Char → Option Part
  | .text w, c => w.stepPart c
  | .dollar t, c =>
    if isLetter c || c == '_' then some (.name t [c])
    else if isDigit c || specialParams.contains c then some (.text (inDouble (t ++ env [c])))
    else if c = '{' then some (.brace t [])
    else if c = '(' then none
    -- any other `$` stands for itself
    else (inDouble (t ++ ['$'])).stepPart c
  | .name t n, c =>
    if isWord c then some (.name t (n ++ [c])) else (inDouble (t ++ env n)).stepPart c
  | .brace t n, c =>
    if c = '}' then (if isName n then some (.text (inDouble (t ++ env n))) else none)
    else if isWord c then some (.brace t (n ++ [c]))
    else none

/-- The words that are read, and the one at hand. -/
structure Line where
  words : List Text := []
  part : Option Part := none
  deriving DecidableEq

def Line.step (l : Line) (c : Char) : Option Line :=
  match l.part with
  | none => if isBlank c then some l else (Word.stepPart {} c).map fun p => { l with part := some p }
  | some (.text w) =>
    if w.quote = .bare ∧ isBlank c then some { words := l.words ++ [w.text] }
    else (w.stepPart c).map fun p => { l with part := some p }
  | some p => (p.step env c).map fun p => { l with part := some p }

def Line.run (l : Line) (t : Text) : Option Line := t.foldlM (Line.step env) l

/-- The words of the command, at the end of the line. -/
def Line.finish (l : Line) : Option (List Text) :=
  match l.part with
  | none => some l.words
  | some (.text w) => if w.quote = .bare then some (l.words ++ [w.text]) else none
  | some _ => none

/-- The words of a command line that is one simple command. -/
def words (t : Text) : Option (List Text) := (Line.run env {} t).bind Line.finish

end Env

variable {env : Text → Text}

theorem Line.run_append {l l' : Line} {a : Text} (h : l.run env a = some l') (b : Text) :
    l.run env (a ++ b) = l'.run env b := by
  unfold run at h ⊢
  rw [List.foldlM_append, h]
  rfl

theorem Line.run_append_eq_some {l r : Line} {a b : Text} (h : l.run env (a ++ b) = some r) :
    ∃ l', l.run env a = some l' ∧ l'.run env b = some r := by
  unfold run at h ⊢
  rw [List.foldlM_append] at h
  exact Option.bind_eq_some_iff.mp h

theorem Line.run_cons {l l' : Line} {c : Char} (h : l.step env c = some l') (t : Text) :
    l.run env (c :: t) = l'.run env t := by
  unfold run
  rw [List.foldlM_cons, h]
  rfl

theorem Line.run_cons_eq_some {l r : Line} {c : Char} {t : Text} (h : l.run env (c :: t) = some r) :
    ∃ l', l.step env c = some l' ∧ l'.run env t = some r := by
  unfold run at h ⊢
  rw [List.foldlM_cons] at h
  exact Option.bind_eq_some_iff.mp h

/-- What a step of a line can do. -/
theorem Line.step_cases {l l' : Line} {c : Char} (h : l.step env c = some l') :
    (l.part = none ∧ l' = l) ∨
    (l.part = none ∧ ∃ p, Word.stepPart {} c = some p ∧ l' = ⟨l.words, some p⟩) ∨
    (∃ w, l.part = some (.text w) ∧ w.quote = .bare ∧ l' = ⟨l.words ++ [w.text], none⟩) ∨
    (∃ p p', l.part = some p ∧ p.step env c = some p' ∧ l' = ⟨l.words, some p'⟩) := by
  obtain ⟨ws, part⟩ := l
  unfold step at h
  match part with
  | none =>
    by_cases hb : isBlank c = true
    · simp only [if_pos hb] at h
      cases h
      exact .inl ⟨rfl, rfl⟩
    · simp only [if_neg hb] at h
      obtain ⟨p, hp, rfl⟩ := Option.map_eq_some_iff.mp h
      exact .inr (.inl ⟨rfl, p, hp, rfl⟩)
  | some (.text w) =>
    by_cases hb : w.quote = .bare ∧ isBlank c = true
    · simp only [if_pos hb] at h
      cases h
      exact .inr (.inr (.inl ⟨w, rfl, hb.1, rfl⟩))
    · simp only [if_neg hb] at h
      obtain ⟨p, hp, rfl⟩ := Option.map_eq_some_iff.mp h
      exact .inr (.inr (.inr ⟨.text w, p, rfl, hp, rfl⟩))
  | some (.dollar t) =>
    obtain ⟨p, hp, rfl⟩ := Option.map_eq_some_iff.mp h
    exact .inr (.inr (.inr ⟨_, p, rfl, hp, rfl⟩))
  | some (.name t n) =>
    obtain ⟨p, hp, rfl⟩ := Option.map_eq_some_iff.mp h
    exact .inr (.inr (.inr ⟨_, p, rfl, hp, rfl⟩))
  | some (.brace t n) =>
    obtain ⟨p, hp, rfl⟩ := Option.map_eq_some_iff.mp h
    exact .inr (.inr (.inr ⟨_, p, rfl, hp, rfl⟩))

/-! ## Texts that a shell leaves alone -/

/-- Special within double quotes. -/
def isSpecial (c : Char) : Bool := "$\u0060\"\\".toList.contains c

/-- After a backslash no character that it quotes, and after `$` nothing that it expands. -/
def Apart (c d : Char) : Prop :=
  (c = '\\' → isSpecial d = false ∧ d ≠ '\n') ∧
    (c = '$' → (isWord d || specialParams.contains d || d == '{' || d == '(') = false)

instance (c d : Char) : Decidable (Apart c d) := by unfold Apart; infer_instance

/-- Nothing in the text is special within double quotes. -/
structure Inert (t : Text) : Prop where
  quote : '"' ∉ t
  backquote : '\u0060' ∉ t
  apart : t.IsChain Apart

/-- In double quotes and in no expansion, with a character pending that may turn out special. -/
inductive Part.Literal : Part → Option Char → Text → Prop where
  | plain (w : Word) (h : w.quote = .double) : Literal (.text w) none w.text
  | escaped (w : Word) (h : w.quote = .escaped) : Literal (.text w) (some '\\') (w.text ++ ['\\'])
  | dollar (t : Text) : Literal (.dollar t) (some '$') (t ++ ['$'])

/-- The character that is pending after `c`. -/
def pendingOf (c : Char) : Option Char := if c = '\\' ∨ c = '$' then some c else none

/-- The next character stands for itself. -/
def Fits (p : Option Char) (c : Char) : Prop :=
  c ≠ '"' ∧ c ≠ '\u0060' ∧ ∀ b ∈ p, Apart b c

theorem stepPart_double {w : Word} (hq : w.quote = .double) {c : Char} (h1 : c ≠ '"')
    (h2 : c ≠ '\u0060') : ∃ p, w.stepPart c = some p ∧ p.Literal (pendingOf c) (w.text ++ [c]) := by
  unfold Word.stepPart pendingOf
  by_cases hd : c = '$'
  · subst hd
    rw [if_pos ⟨hq, rfl⟩, if_pos (.inr rfl)]
    exact ⟨_, rfl, .dollar w.text⟩
  · rw [if_neg fun h => hd h.2]
    unfold Word.step
    rw [hq]
    by_cases hb : c = '\\'
    · subst hb
      exact ⟨_, rfl, .escaped { w with quote := .escaped } rfl⟩
    · simp only [if_neg h1, if_neg hb, if_neg (not_or.mpr ⟨hd, h2⟩), if_neg (not_or.mpr ⟨hb, hd⟩)]
      exact ⟨_, rfl, .plain (w.push c) hq⟩

theorem special_iff {c : Char} :
    isSpecial c = true ↔ c = '$' ∨ c = '\u0060' ∨ c = '"' ∨ c = '\\' := by
  simp [isSpecial]

variable (env) in
/-- **A character that stands for itself is read as itself.** -/
theorem Part.Literal.step {p : Part} {b : Option Char} {t : Text} (hp : p.Literal b t) {c : Char}
    (hc : Fits b c) : ∃ p', p.step env c = some p' ∧ p'.Literal (pendingOf c) (t ++ [c]) := by
  obtain ⟨h1, h2, hapart⟩ := hc
  cases hp with
  | plain w hq => exact stepPart_double hq h1 h2
  | escaped w hq =>
    obtain ⟨hs, hn⟩ := (hapart '\\' rfl).1 rfl
    have hno : ¬(c = '\\' ∨ c = '$') := by
      rintro (rfl | rfl)
      · cases hs
      · cases hs
    have hstep : w.stepPart c = some (.text { w with text := w.text ++ ['\\', c], quote := .double }) := by
      have hq' : ¬(w.quote = .double ∧ c = '$') := fun h => by rw [hq] at h; cases h.1
      unfold Word.stepPart Word.step Word.unescape
      rw [if_neg hq', hq]
      simp only [beq_iff_eq, if_neg hn]
      rw [if_neg (by rw [show "$\u0060\"\\".toList.contains c = isSpecial c from rfl, hs]; exact
        Bool.false_ne_true)]
      rfl
    refine ⟨_, hstep, ?_⟩
    unfold pendingOf
    rw [if_neg hno, List.append_assoc]
    exact .plain { w with text := w.text ++ ['\\', c], quote := .double } rfl
  | dollar t =>
    have hno := (hapart '$' rfl).2 rfl
    simp only [isWord, Bool.or_eq_false_iff, beq_eq_false_iff_ne] at hno
    obtain ⟨⟨⟨⟨⟨hd, hl⟩, hu⟩, hs⟩, hb⟩, hp⟩ := hno
    obtain ⟨p', hp', hlit⟩ := stepPart_double (show (inDouble (t ++ ['$'])).quote = .double from rfl)
      h1 h2
    refine ⟨p', ?_, hlit⟩
    show (if isLetter c || c == '_' then _ else if isDigit c || specialParams.contains c then _ else
      if c = '{' then _ else if c = '(' then none else (inDouble (t ++ ['$'])).stepPart c) = _
    rw [if_neg (by simp [hl, hu]), if_neg (by simp only [hd, hs]; decide), if_neg hb, if_neg hp]
    exact hp'

/-- The characters of the text stand for themselves, after the one that is pending. -/
def AllFit (b : Option Char) : Text → Prop
  | [] => True
  | c :: t => Fits b c ∧ AllFit (pendingOf c) t

/-- What is pending after the text. -/
def pendingAfter (b : Option Char) : Text → Option Char
  | [] => b
  | c :: t => pendingAfter (pendingOf c) t

theorem Part.Literal.quoted {p : Part} {b : Option Char} {t : Text} (hp : p.Literal b t)
    (ws : List Text) (c : Char) :
    Line.step env ⟨ws, some p⟩ c = (p.step env c).map fun p => ⟨ws, some p⟩ := by
  cases hp with
  | plain w hq => exact if_neg fun h => by rw [hq] at h; cases h.1
  | escaped w hq => exact if_neg fun h => by rw [hq] at h; cases h.1
  | dollar t => rfl

variable (env) in
/-- **An inert text is read as itself.** -/
theorem Part.Literal.run : ∀ {t : Text} {p : Part} {b : Option Char} {v : Text}, p.Literal b v →
    AllFit b t → ∀ ws : List Text, ∃ p', Line.run env ⟨ws, some p⟩ t = some ⟨ws, some p'⟩ ∧
      p'.Literal (pendingAfter b t) (v ++ t)
  | [], p, b, v, hp, _, ws => ⟨p, rfl, by rw [List.append_nil]; exact hp⟩
  | c :: t, p, b, v, hp, hfit, ws => by
    obtain ⟨p₁, h₁, hp₁⟩ := hp.step env hfit.1
    obtain ⟨p₂, h₂, hp₂⟩ := hp₁.run hfit.2 ws
    refine ⟨p₂, ?_, ?_⟩
    · have hstep : Line.step env ⟨ws, some p⟩ c = some ⟨ws, some p₁⟩ := by
        rw [hp.quoted, h₁]
        rfl
      rw [Line.run_cons hstep, h₂]
    · rw [List.append_assoc] at hp₂
      exact hp₂

theorem pendingAfter_append_singleton (b : Option Char) (c : Char) : ∀ t : Text,
    pendingAfter b (t ++ [c]) = pendingOf c
  | [] => rfl
  | d :: t => pendingAfter_append_singleton (pendingOf d) c t

variable (env) in
/-- A text of which nothing is pending in the end leaves the word in its double quotes. -/
theorem run_inert {w : Word} (hq : w.quote = .double) {t : Text} {c : Char}
    (h : AllFit none (t ++ [c])) (hc : pendingOf c = none) (ws : List Text) :
    ∃ w' : Word, w'.quote = .double ∧ w'.text = w.text ++ (t ++ [c]) ∧
      Line.run env ⟨ws, some (.text w)⟩ (t ++ [c]) = some ⟨ws, some (.text w')⟩ := by
  obtain ⟨p, hrun, hp⟩ := (Part.Literal.plain w hq).run env h ws
  rw [pendingAfter_append_singleton, hc] at hp
  generalize ht : w.text ++ (t ++ [c]) = v at hp
  cases hp with
  | plain w' hq' => exact ⟨w', hq', rfl, hrun⟩

/-- A text without special characters is read as itself. -/
theorem run_clean (ws : List Text) : ∀ {t : Text} {w : Word}, w.quote = .double →
    (∀ c ∈ t, isSpecial c = false) →
      Line.run env ⟨ws, some (.text w)⟩ t = some ⟨ws, some (.text { w with text := w.text ++ t })⟩
  | [], w, _, _ => by
    rw [List.append_nil]
    rfl
  | c :: t, w, hq, h => by
    obtain ⟨hc, ht⟩ := List.forall_mem_cons.mp h
    have hne : ¬(c = '$' ∨ c = '\u0060' ∨ c = '"' ∨ c = '\\') := by
      rw [← special_iff, hc]
      exact Bool.false_ne_true
    simp only [not_or] at hne
    obtain ⟨h1, h2, h3, h4⟩ := hne
    have hword : w.step c = some (w.push c) := by
      unfold Word.step
      rw [hq]
      show (if c = '"' then _ else if c = '\\' then _ else if c = '$' ∨ c = '\u0060' then none
        else some (w.push c)) = _
      rw [if_neg h3, if_neg h4, if_neg (not_or.mpr ⟨h1, h2⟩)]
    have hstep : Line.step env ⟨ws, some (.text w)⟩ c = some ⟨ws, some (.text (w.push c))⟩ := by
      rw [(Part.Literal.plain w hq).quoted]
      show (w.stepPart c).map _ = _
      unfold Word.stepPart
      rw [if_neg fun h => h1 h.2, hword]
      rfl
    rw [Line.run_cons hstep, run_clean (w := w.push c) ws hq ht]
    simp [Word.push]

theorem run_name_chars (ws : List Text) (t : Text) : ∀ {n m : Text}, (∀ c ∈ n, isWord c = true) →
    Line.run env ⟨ws, some (.brace t m)⟩ n = some ⟨ws, some (.brace t (m ++ n))⟩
  | [], m, _ => by
    rw [List.append_nil]
    rfl
  | c :: n, m, h => by
    obtain ⟨hc, hn⟩ := List.forall_mem_cons.mp h
    have hne : c ≠ '}' := by
      rintro rfl
      cases hc
    have hstep : Line.step env ⟨ws, some (.brace t m)⟩ c = some ⟨ws, some (.brace t (m ++ [c]))⟩ := by
      show (if c = '}' then _ else if isWord c then some (Part.brace t (m ++ [c])) else none).map _ = _
      rw [if_neg hne, if_pos hc]
      rfl
    rw [Line.run_cons hstep, run_name_chars ws t hn]
    simp

/-- `${name}` is read as the value. -/
theorem run_brace {w : Word} (hq : w.quote = .double) (ws : List Text) {n : Text}
    (hn : isName n = true) (h : ∀ c ∈ n, isWord c = true) :
    Line.run env ⟨ws, some (.text w)⟩ (['$', '{'] ++ (n ++ ['}'])) =
      some ⟨ws, some (.text (inDouble (w.text ++ env n)))⟩ := by
  have hopen : Line.run env ⟨ws, some (.text w)⟩ ['$', '{'] = some ⟨ws, some (.brace w.text [])⟩ := by
    obtain ⟨text, quote, quoted⟩ := w
    cases hq
    rfl
  have hclose : Line.step env ⟨ws, some (.brace w.text n)⟩ '}' =
      some ⟨ws, some (.text (inDouble (w.text ++ env n)))⟩ := by
    have hstep : (Part.brace w.text n).step env '}' = some (.text (inDouble (w.text ++ env n))) := by
      simp only [Part.step, hn, if_true]
    show ((Part.brace w.text n).step env '}').map _ = _
    rw [hstep]
    rfl
  rw [Line.run_append hopen, Line.run_append (run_name_chars ws w.text h)]
  exact Line.run_cons hclose []

/-- A piece of a word in double quotes. -/
inductive Piece where
  /-- A text without special characters. -/
  | text (t : Text)
  /-- `${name}` -/
  | param (n : Text)

def Piece.Sound : Piece → Bool
  | .text t => t.all fun c => !isSpecial c
  | .param n => isName n && n.all isWord

def Piece.source : Piece → Text
  | .text t => t
  | .param n => ['$', '{'] ++ (n ++ ['}'])

def Piece.value (env : Text → Text) : Piece → Text
  | .text t => t
  | .param n => env n

/-- **The pieces of a word are read one after the other.** -/
theorem run_pieces (ws : List Text) : ∀ {ps : List Piece} {t : Text}, (ps.all Piece.Sound) = true →
    Line.run env ⟨ws, some (.text (inDouble t))⟩ (ps.flatMap Piece.source) =
      some ⟨ws, some (.text (inDouble (t ++ ps.flatMap (Piece.value env))))⟩
  | [], t, _ => by
    rw [List.flatMap_nil, List.flatMap_nil, List.append_nil]
    rfl
  | p :: ps, t, h => by
    rw [List.all_cons, Bool.and_eq_true] at h
    obtain ⟨hp, hps⟩ := h
    have hpiece : Line.run env ⟨ws, some (.text (inDouble t))⟩ p.source =
        some ⟨ws, some (.text (inDouble (t ++ p.value env)))⟩ := by
      cases p with
      | text u =>
        refine run_clean (w := inDouble t) ws rfl fun c hc => ?_
        simpa using List.all_eq_true.mp hp c hc
      | param n =>
        obtain ⟨hn, hw⟩ := Bool.and_eq_true_iff.mp hp
        exact run_brace (w := inDouble t) rfl ws hn (List.all_eq_true.mp hw)
    rw [List.flatMap_cons, List.flatMap_cons, Line.run_append hpiece, run_pieces ws hps,
      List.append_assoc]

/-! ## What is lost -/

/-- How many special characters a text has. -/
def specials (t : Text) : ℕ := t.countP isSpecial

theorem specials_append (a b : Text) : specials (a ++ b) = specials a + specials b := List.countP_append

/-- The text that is read, with the character that is pending. -/
def Part.seen : Part → Text
  | .text w => if w.quote = .escaped then w.text ++ ['\\'] else w.text
  | .dollar t => t ++ ['$']
  | .name t _ => t
  | .brace t _ => t

/-- Double quotes that are open. -/
def Part.opened : Part → ℕ
  | .text w => if w.quote = .double ∨ w.quote = .escaped then 1 else 0
  | _ => 1

/-- A step brings in no special character but the one that is read, and loses one where double
quotes are closed. -/
def Part.Lost (p p' : Part) (c : Char) : Prop :=
  specials p'.seen ≤ specials p.seen + specials [c] ∧
    specials p'.seen + p.opened ≤ specials p.seen + p'.opened + specials [c]

/-- From the texts before and after, and the double quotes that are open. -/
theorem Part.Lost.intro {p p' : Part} {c : Char} (t t' : Text) (o o' : ℕ) (ht : p.seen = t)
    (ht' : p'.seen = t') (ho : p.opened = o) (ho' : p'.opened = o')
    (h : specials t' ≤ specials t + specials [c] ∧
      specials t' + o ≤ specials t + o' + specials [c]) : p.Lost p' c := by
  subst ht ht' ho ho'
  exact h

theorem lost_stepPart {w : Word} {c : Char} {p : Part} (h : w.stepPart c = some p) :
    (Part.text w).Lost p c := by
  obtain ⟨t, quote, quoted⟩ := w
  have hdq : specials ['"'] = 1 := by decide
  unfold Word.stepPart at h
  cases quote with
  | bare =>
    rw [if_neg (fun h => by cases h.1)] at h
    obtain ⟨w', hw, rfl⟩ := Option.map_eq_some_iff.mp h
    simp only [Word.step] at hw
    split_ifs at hw with h1 h2 h3
    · cases hw
      exact .intro t t 0 0 rfl rfl rfl rfl (by omega)
    · cases hw
      exact .intro t t 0 1 rfl rfl rfl rfl (by omega)
    · cases hw
      refine .intro t (t ++ [c]) 0 0 rfl rfl rfl rfl ?_
      rw [specials_append]
      omega
  | single =>
    rw [if_neg (fun h => by cases h.1)] at h
    obtain ⟨w', hw, rfl⟩ := Option.map_eq_some_iff.mp h
    simp only [Word.step] at hw
    split_ifs at hw with h1
    · cases hw
      exact .intro t t 0 0 rfl rfl rfl rfl (by omega)
    · cases hw
      refine .intro t (t ++ [c]) 0 0 rfl rfl rfl rfl ?_
      rw [specials_append]
      omega
  | double =>
    by_cases hc : c = '$'
    · rw [if_pos ⟨rfl, hc⟩] at h
      cases h
      subst hc
      refine .intro t (t ++ ['$']) 1 1 rfl rfl rfl rfl ?_
      rw [specials_append]
      omega
    · rw [if_neg fun h => hc h.2] at h
      obtain ⟨w', hw, rfl⟩ := Option.map_eq_some_iff.mp h
      simp only [Word.step] at hw
      split_ifs at hw with h1 h2 h3
      · -- the closing quote pays for what was open
        cases hw
        subst h1
        refine .intro t t 1 0 rfl rfl rfl rfl ?_
        rw [hdq]
        omega
      · cases hw
        subst h2
        refine .intro t (t ++ ['\\']) 1 1 rfl rfl rfl rfl ?_
        rw [specials_append]
        omega
      · cases hw
        refine .intro t (t ++ [c]) 1 1 rfl rfl rfl rfl ?_
        rw [specials_append]
        omega
  | escaped =>
    rw [if_neg (fun h => by cases h.1)] at h
    obtain ⟨w', hw, rfl⟩ := Option.map_eq_some_iff.mp h
    simp only [Word.step, Option.some.injEq] at hw
    subst hw
    have hcons : specials ['\\', c] = specials ['\\'] + specials [c] := specials_append ['\\'] [c]
    unfold Word.unescape
    split_ifs with h1 h2
    · refine .intro (t ++ ['\\']) t 1 1 rfl rfl rfl rfl ?_
      rw [specials_append]
      omega
    · refine .intro (t ++ ['\\']) (t ++ [c]) 1 1 rfl rfl rfl rfl ?_
      rw [specials_append, specials_append]
      omega
    · refine .intro (t ++ ['\\']) (t ++ ['\\', c]) 1 1 rfl rfl rfl rfl ?_
      rw [specials_append, specials_append, hcons]
      omega

theorem specials_eq_zero {t : Text} (h : ∀ c ∈ t, isSpecial c = false) : specials t = 0 :=
  List.countP_eq_zero.mpr fun c hc => by rw [h c hc]; exact Bool.false_ne_true

/-- Parameters without special characters in their values. -/
def Plain (env : Text → Text) : Prop := ∀ n, specials (env n) = 0

theorem Part.Lost.of_value {p p' : Part} {c : Char} {t v : Text} (hv : specials v = 0)
    (h : (Part.text (inDouble (t ++ v))).Lost p' c) (hseen : specials t ≤ specials p.seen)
    (hopen : p.opened = 1) : p.Lost p' c := by
  obtain ⟨h1, h2⟩ := h
  have hvs : specials (Part.text (inDouble (t ++ v))).seen = specials t := by
    show specials (t ++ v) = _
    rw [specials_append, hv, Nat.add_zero]
  have ho : (Part.text (inDouble (t ++ v))).opened = 1 := rfl
  rw [hvs] at h1 h2
  rw [ho] at h2
  unfold Part.Lost
  rw [hopen]
  omega

theorem lost_step {env : Text → Text} (henv : Plain env) {p p' : Part} {c : Char}
    (h : p.step env c = some p') : p.Lost p' c := by
  have hvalue : ∀ t n, specials (t ++ env n) = specials t := fun t n => by
    rw [specials_append, henv, Nat.add_zero]
  cases p with
  | text w => exact lost_stepPart h
  | dollar t =>
    simp only [Part.step] at h
    split_ifs at h with h1 h2 h3 h4
    · cases h
      refine .intro (t ++ ['$']) t 1 1 rfl rfl rfl rfl ?_
      rw [specials_append]
      omega
    · cases h
      refine .intro (t ++ ['$']) (t ++ env [c]) 1 1 rfl rfl rfl rfl ?_
      rw [hvalue, specials_append]
      omega
    · cases h
      refine .intro (t ++ ['$']) t 1 1 rfl rfl rfl rfl ?_
      rw [specials_append]
      omega
    · exact lost_stepPart h
  | name t n =>
    simp only [Part.step] at h
    split_ifs at h with h1
    · cases h
      exact .intro t t 1 1 rfl rfl rfl rfl (by omega)
    · exact Part.Lost.of_value (henv n) (lost_stepPart h) le_rfl rfl
  | brace t n =>
    simp only [Part.step] at h
    split_ifs at h with h1 h2 h3
    · cases h
      refine .intro t (t ++ env n) 1 1 rfl rfl rfl rfl ?_
      rw [hvalue]
      omega
    · cases h
      exact .intro t t 1 1 rfl rfl rfl rfl (by omega)

/-! ### Lines -/

def Line.seen (l : Line) : Text := l.words.flatten ++ l.part.elim [] Part.seen

def Line.opened (l : Line) : ℕ := l.part.elim 0 Part.opened

/-- What the text `t` loses on the way from `l` to `l'`. -/
def Line.Lost (l l' : Line) (t : Text) : Prop :=
  specials l'.seen ≤ specials l.seen + specials t ∧
    specials l'.seen + l.opened ≤ specials l.seen + l'.opened + specials t

theorem Part.Lost.line {p p' : Part} {c : Char} (h : p.Lost p' c) (ws : List Text) :
    Line.Lost ⟨ws, some p⟩ ⟨ws, some p'⟩ [c] := by
  obtain ⟨h1, h2⟩ := h
  have hs : ∀ q : Part, specials (Line.seen ⟨ws, some q⟩) = specials ws.flatten + specials q.seen :=
    fun q => specials_append _ _
  have ho : ∀ q : Part, Line.opened ⟨ws, some q⟩ = q.opened := fun _ => rfl
  unfold Line.Lost
  rw [hs, hs, ho, ho]
  omega

theorem Line.lost_step {env : Text → Text} (henv : Plain env) {l l' : Line} {c : Char}
    (h : l.step env c = some l') : l.Lost l' [c] := by
  obtain ⟨ws, part⟩ := l
  rcases Line.step_cases h with ⟨-, rfl⟩ | ⟨hl, p, hp, rfl⟩ | ⟨w, hl, hq, rfl⟩ | ⟨p, p', hl, hp, rfl⟩
  · unfold Line.Lost
    omega
  · -- an empty word begins
    cases hl
    exact (lost_stepPart hp).line ws
  · cases hl
    have hseen : Line.seen ⟨ws ++ [w.text], none⟩ = Line.seen ⟨ws, some (.text w)⟩ := by
      simp [Line.seen, Part.seen, hq]
    have hopen : Line.opened ⟨ws, some (.text w)⟩ = 0 := by
      simp [Line.opened, Part.opened, hq]
    unfold Line.Lost
    rw [hseen, hopen]
    omega
  · cases hl
    exact (Shell.lost_step henv hp).line ws

/-- **No text brings in special characters but its own**, and it loses one where it closes double
quotes that are open. -/
theorem Line.run_lost {env : Text → Text} (henv : Plain env) : ∀ {t : Text} {l l' : Line},
    l.run env t = some l' → l.Lost l' t
  | [], l, l', h => by
    cases h
    exact ⟨Nat.le_add_right _ _, by omega⟩
  | c :: t, l, l', h => by
    obtain ⟨l₁, h₁, h₂⟩ := Line.run_cons_eq_some h
    obtain ⟨a₁, b₁⟩ := Line.lost_step henv h₁
    obtain ⟨a₂, b₂⟩ := Line.run_lost henv h₂
    have hc : specials (c :: t) = specials [c] + specials t := specials_append [c] t
    unfold Line.Lost
    rw [hc]
    omega

/-! ## Nothing is lost -/

theorem Part.Literal.seen {p : Part} {b : Option Char} {v : Text} (hp : p.Literal b v) : p.seen = v := by
  cases hp with
  | plain w hq => exact if_neg fun h => by rw [hq] at h; cases h
  | escaped w hq => exact if_pos hq
  | dollar t => rfl

/-- In double quotes a quote ends them and a backquote is not read. -/
theorem fits_of_stepPart {w : Word} (hq : w.quote = .double) {c : Char} {p : Part}
    (h : w.stepPart c = some p) (hl : specials w.text + specials [c] ≤ specials p.seen) :
    c ≠ '"' ∧ c ≠ '\u0060' := by
  unfold Word.stepPart Word.step at h
  rw [hq] at h
  constructor
  · rintro rfl
    cases h
    have hdq : specials ['"'] = 1 := by decide
    have hseen : (Part.text { w with quote := .bare }).seen = w.text := rfl
    rw [hdq, hseen] at hl
    omega
  · rintro rfl
    cases h

/-- **A character that is not lost stands for itself.** -/
theorem Part.Literal.fits {env : Text → Text} (henv : Plain env) {p p' : Part} {b : Option Char}
    {v : Text} (hp : p.Literal b v) {c : Char} (h : p.step env c = some p')
    (hl : specials v + specials [c] ≤ specials p'.seen) : Fits b c := by
  have hbs : specials ['\\'] = 1 := by decide
  have hds : specials ['$'] = 1 := by decide
  cases hp with
  | plain w hq =>
    obtain ⟨h1, h2⟩ := fits_of_stepPart hq h hl
    exact ⟨h1, h2, fun d hd => by cases hd⟩
  | escaped w hq =>
    have hq' : ¬(w.quote = .double ∧ c = '$') := fun h => by rw [hq] at h; cases h.1
    have hstep : w.stepPart c = some (.text (w.unescape c)) := by
      unfold Word.stepPart Word.step
      rw [if_neg hq', hq]
      rfl
    cases hstep.symm.trans h
    rw [specials_append, hbs] at hl
    have hspec : isSpecial c = false ∧ c ≠ '\n' := by
      unfold Word.unescape at hl
      split_ifs at hl with h1 h2
      · have hseen : (Part.text { w with quote := .double }).seen = w.text := rfl
        rw [hseen] at hl
        omega
      · have hseen : (Part.text { w with text := w.text ++ [c], quote := .double }).seen =
          w.text ++ [c] := rfl
        rw [hseen, specials_append] at hl
        omega
      · exact ⟨Bool.eq_false_of_not_eq_true h2, by simpa using h1⟩
    refine ⟨?_, ?_, ?_⟩
    · rintro rfl
      cases hspec.1
    · rintro rfl
      cases hspec.1
    · rintro _ ⟨⟩
      exact ⟨fun _ => hspec, fun h => by cases h⟩
  | dollar t =>
    rw [specials_append, hds] at hl
    simp only [Part.step] at h
    split_ifs at h with h1 h2 h3 h4
    · cases h
      have hseen : (Part.name t [c]).seen = t := rfl
      rw [hseen] at hl
      omega
    · cases h
      have hseen : (Part.text (inDouble (t ++ env [c]))).seen = t ++ env [c] := rfl
      rw [hseen, specials_append, henv] at hl
      omega
    · cases h
      have hseen : (Part.brace t []).seen = t := rfl
      rw [hseen] at hl
      omega
    · have hl' : specials (inDouble (t ++ ['$'])).text + specials [c] ≤ specials p'.seen := by
        show specials (t ++ ['$']) + _ ≤ _
        rw [specials_append, hds]
        exact hl
      obtain ⟨h5, h6⟩ := fits_of_stepPart rfl h hl'
      refine ⟨h5, h6, ?_⟩
      rintro _ ⟨⟩
      refine ⟨fun h => (by cases h), fun _ => ?_⟩
      simp only [Bool.or_eq_true, not_or, Bool.not_eq_true] at h1 h2
      rw [beq_eq_false_iff_ne.mpr h3, beq_eq_false_iff_ne.mpr h4, isWord, h1.1, h1.2, h2.1, h2.2]
      rfl

/-- **A text of which nothing is lost is inert.** -/
theorem Part.Literal.allFit {env : Text → Text} (henv : Plain env) : ∀ {t : Text} {p : Part}
    {b : Option Char} {v : Text} {ws : List Text} {l : Line}, p.Literal b v →
      Line.run env ⟨ws, some p⟩ t = some l →
        specials (Line.seen ⟨ws, some p⟩) + specials t ≤ specials l.seen → AllFit b t
  | [], _, _, _, _, _, _, _, _ => trivial
  | c :: t, p, b, v, ws, l, hp, hrun, hl => by
    obtain ⟨l₁, h₁, h₂⟩ := Line.run_cons_eq_some hrun
    have hstep := h₁
    rw [hp.quoted] at hstep
    obtain ⟨p₁, hp₁, rfl⟩ := Option.map_eq_some_iff.mp hstep
    obtain ⟨hle, -⟩ := Line.run_lost henv h₂
    have hc : specials (c :: t) = specials [c] + specials t := specials_append [c] t
    have hseen : ∀ q : Part, specials (Line.seen ⟨ws, some q⟩) =
        specials ws.flatten + specials q.seen := fun q => specials_append _ _
    have hfit : Fits b c := by
      refine hp.fits henv hp₁ ?_
      rw [hseen] at hl hle
      rw [hp.seen] at hl
      omega
    obtain ⟨p₂, h₃, hlit⟩ := hp.step env hfit
    cases hp₁.symm.trans h₃
    refine ⟨hfit, hlit.allFit henv h₂ ?_⟩
    obtain ⟨hle₁, -⟩ := Line.lost_step henv h₁
    omega

theorem isChain_pendingOf {c : Char} {t : Text} :
    (c :: t).IsChain Apart ↔ ((pendingOf c).toList ++ t).IsChain Apart := by
  unfold pendingOf
  by_cases hc : c = '\\' ∨ c = '$'
  · rw [if_pos hc]
    rfl
  · rw [if_neg hc]
    have hfree : ∀ d, Apart c d := fun d =>
      ⟨fun h => absurd (.inl h) hc, fun h => absurd (.inr h) hc⟩
    cases t with
    | nil => simp
    | cons d t => simp [hfree d]

theorem allFit_iff : ∀ {t : Text} {b : Option Char}, AllFit b t ↔
    '"' ∉ t ∧ '\u0060' ∉ t ∧ (b.toList ++ t).IsChain Apart
  | [], b => by cases b <;> simp [AllFit]
  | c :: t, b => by
    have hb : (b.toList ++ c :: t).IsChain Apart ↔ (∀ x ∈ b, Apart x c) ∧ (c :: t).IsChain Apart := by
      cases b with
      | none => simp
      | some x => simp
    unfold AllFit Fits
    rw [allFit_iff, hb, isChain_pendingOf, List.mem_cons, List.mem_cons, not_or, not_or, eq_comm,
      eq_comm (a := '\u0060')]
    constructor
    · rintro ⟨⟨h1, h2, h3⟩, h4, h5, h6⟩
      exact ⟨⟨h1, h4⟩, ⟨h2, h5⟩, h3, h6⟩
    · rintro ⟨⟨h1, h4⟩, ⟨h2, h5⟩, h3, h6⟩
      exact ⟨⟨h1, h2, h3⟩, h4, h5, h6⟩

theorem allFit_none_iff {t : Text} : AllFit none t ↔ Inert t :=
  allFit_iff.trans ⟨fun h => ⟨h.1, h.2.1, h.2.2⟩, fun h => ⟨h.quote, h.backquote, h.apart⟩⟩

theorem Inert.append_iff {a b : Text} : Inert (a ++ b) ↔
    Inert a ∧ Inert b ∧ ∀ c ∈ a.getLast?, ∀ d ∈ b.head?, Apart c d := by
  constructor
  · rintro ⟨hq, hb, hc⟩
    rw [List.mem_append, not_or] at hq hb
    rw [List.isChain_append] at hc
    exact ⟨⟨hq.1, hb.1, hc.1⟩, ⟨hq.2, hb.2, hc.2.1⟩, hc.2.2⟩
  · rintro ⟨ha, hb, hc⟩
    refine ⟨?_, ?_, List.isChain_append.mpr ⟨ha.apart, hb.apart, hc⟩⟩
    · rw [List.mem_append, not_or]
      exact ⟨ha.quote, hb.quote⟩
    · rw [List.mem_append, not_or]
      exact ⟨ha.backquote, hb.backquote⟩

theorem inert_of_clean {t : Text} (h : ∀ c ∈ t, isSpecial c = false) : Inert t := by
  refine ⟨fun hm => ?_, fun hm => ?_, List.Pairwise.isChain ?_⟩
  · cases h _ hm
  · cases h _ hm
  · refine List.pairwise_of_forall_mem_list fun c hc d _ => ⟨?_, ?_⟩
    · rintro rfl
      cases h _ hc
    · rintro rfl
      cases h _ hc

/-! ## The words that come out -/

/-- The text of a word before an expansion. -/
def Part.base : Part → Text
  | .text w => w.text
  | .dollar t => t
  | .name t _ => t
  | .brace t _ => t

theorem prefix_stepPart {w : Word} {c : Char} {p : Part} (h : w.stepPart c = some p) :
    w.text <+: p.base := by
  unfold Word.stepPart at h
  split_ifs at h
  · cases h
    exact List.prefix_rfl
  · obtain ⟨w', hw, rfl⟩ := Option.map_eq_some_iff.mp h
    show w.text <+: w'.text
    unfold Word.step Word.push Word.unescape at hw
    split at hw
    · split_ifs at hw <;> cases hw <;> simp
    · split_ifs at hw <;> cases hw <;> simp
    · split_ifs at hw <;> cases hw <;> simp
    · cases hw
      split_ifs <;> simp

theorem prefix_step {env : Text → Text} {p p' : Part} {c : Char} (h : p.step env c = some p') :
    p.base <+: p'.base := by
  cases p with
  | text w => exact prefix_stepPart h
  | dollar t =>
    simp only [Part.step] at h
    split_ifs at h
    · cases h
      exact List.prefix_rfl
    · cases h
      exact List.prefix_append t _
    · cases h
      exact List.prefix_rfl
    · exact (List.prefix_append t _).trans (prefix_stepPart h)
  | name t n =>
    simp only [Part.step] at h
    split_ifs at h
    · cases h
      exact List.prefix_rfl
    · exact (List.prefix_append t _).trans (prefix_stepPart h)
  | brace t n =>
    simp only [Part.step] at h
    split_ifs at h
    · cases h
      exact List.prefix_append t _
    · cases h
      exact List.prefix_rfl

/-- What is read so far stays: the words, and the beginning of the word at hand. -/
def Line.Begins (l : Line) (vs : List Text) : Prop :=
  match l.part with
  | none => l.words <+: vs
  | some p => ∃ x rest, vs = l.words ++ x :: rest ∧ p.base <+: x

theorem Line.begins_step {env : Text → Text} {l l' : Line} {c : Char} {vs : List Text}
    (h : l.step env c = some l') (hb : l'.Begins vs) : l.Begins vs := by
  obtain ⟨ws, part⟩ := l
  rcases Line.step_cases h with ⟨-, rfl⟩ | ⟨hl, p, -, rfl⟩ | ⟨w, hl, -, rfl⟩ | ⟨p, p', hl, hp, rfl⟩
  · exact hb
  · cases hl
    obtain ⟨x, rest, hvs, -⟩ := hb
    exact ⟨x :: rest, hvs.symm⟩
  · cases hl
    obtain ⟨rest, hvs⟩ := hb
    exact ⟨w.text, rest, by rw [← hvs]; simp, List.prefix_rfl⟩
  · cases hl
    obtain ⟨x, rest, hvs, hx⟩ := hb
    exact ⟨x, rest, hvs, (prefix_step hp).trans hx⟩

theorem Line.begins_finish {l : Line} {vs : List Text} (h : l.finish = some vs) : l.Begins vs := by
  obtain ⟨ws, part⟩ := l
  match part with
  | none =>
    cases h
    exact List.prefix_rfl
  | some (.text w) =>
    obtain ⟨-, h⟩ := Option.ite_none_right_eq_some.mp h
    cases h
    exact ⟨w.text, [], rfl, List.prefix_rfl⟩
  | some (.dollar t) => cases h
  | some (.name t n) => cases h
  | some (.brace t n) => cases h

theorem Line.begins_run {env : Text → Text} {vs : List Text} : ∀ {t : Text} {l l' : Line},
    l.run env t = some l' → l'.finish = some vs → l.Begins vs
  | [], l, l', h, hf => by
    cases h
    exact begins_finish hf
  | c :: t, l, l', h, hf => by
    obtain ⟨l₁, h₁, h₂⟩ := run_cons_eq_some h
    exact begins_step h₁ (begins_run h₂ hf)

/-! ## The end of the line -/

/-- At the end nothing is open, and what is read are the words. -/
theorem Line.seen_of_finish {l : Line} {vs : List Text} (h : l.finish = some vs) :
    l.seen = vs.flatten ∧ l.opened = 0 := by
  obtain ⟨ws, part⟩ := l
  match part with
  | none =>
    cases h
    exact ⟨List.append_nil _, rfl⟩
  | some (.text w) =>
    obtain ⟨hq, h⟩ := Option.ite_none_right_eq_some.mp h
    cases h
    have hseen : (Part.text w).seen = w.text := if_neg fun he => by rw [hq] at he; cases he
    have hopen : (Part.text w).opened = 0 :=
      if_neg fun ho => by rw [hq] at ho; rcases ho with ho | ho <;> cases ho
    refine ⟨?_, hopen⟩
    show ws.flatten ++ (Part.text w).seen = _
    rw [hseen]
    simp
  | some (.dollar t) => cases h
  | some (.name t n) => cases h
  | some (.brace t n) => cases h

/-- `\""` -/
def closing : Text := ['\\', '"', '"']

theorem run_closing {w : Word} (hq : w.quote = .double) (ws : List Text) :
    Line.run env ⟨ws, some (.text w)⟩ closing =
      some ⟨ws, some (.text ⟨w.text ++ ['"'], .bare, w.quoted⟩)⟩ := by
  obtain ⟨text, quote, quoted⟩ := w
  cases hq
  rfl

/-- Where `\""` ends a line, the first of the two quotes is all that it adds. -/
theorem Line.lost_closing {env : Text → Text} (henv : Plain env) {l l' : Line} {vs : List Text}
    (h : l.run env closing = some l') (hf : l'.finish = some vs) :
    specials l'.seen ≤ specials l.seen + 1 := by
  obtain ⟨ws, part⟩ := l
  have hseen : ∀ q : Part, specials (Line.seen ⟨ws, some q⟩) = specials ws.flatten + specials q.seen :=
    fun q => specials_append _ _
  -- in double quotes, after the text `t`
  have hdouble : ∀ {w : Word}, w.quote = .double →
      Line.run env ⟨ws, some (.text w)⟩ closing = some l' →
        specials l'.seen = specials ws.flatten + specials w.text + 1 := by
    intro w hq h
    rw [run_closing hq] at h
    cases h
    rw [hseen]
    show _ + specials (w.text ++ ['"']) = _
    rw [specials_append, ← Nat.add_assoc]
    rfl
  match part with
  | none => cases h
  | some (.text ⟨t, .bare, b⟩) => cases h
  | some (.text ⟨t, .single, b⟩) =>
    cases h
    cases hf
  | some (.text ⟨t, .double, b⟩) =>
    rw [hdouble rfl h, hseen]
    exact le_rfl
  | some (.text ⟨t, .escaped, b⟩) =>
    cases h
    cases hf
  | some (.dollar t) =>
    rw [hdouble (show (inDouble (t ++ ['$'])).quote = .double from rfl) h, hseen]
    exact le_rfl
  | some (.name t n) =>
    rw [hdouble (show (inDouble (t ++ env n)).quote = .double from rfl) h, hseen]
    show _ + specials (t ++ env n) + 1 ≤ _
    rw [specials_append, henv n]
    exact le_rfl
  | some (.brace t n) => cases h

end Lib.Shell
