import HeadlessAndroid.Lib.JsText

/-!
# Lib.Shell — simple commands of the POSIX shell, with quotes and here-documents

A reader of scripts that are simple commands, one a line: words with single and double quotes, and
here-documents after the line that asks for them.  It reads character by character, and it gives up
at anything else that means something to a shell (expansions, other operators, assignments,
comments, reserved words), so that what it reads is what a shell reads.
-/

namespace Lib.Shell

open Lib Lib.Js

/-! ## Words -/

inductive Quote where
  | bare
  | single
  | double
  /-- After a backslash in double quotes. -/
  | escaped
  deriving DecidableEq

/-- A word as far as it is read. -/
structure Word where
  text : Text := []
  quote : Quote := .bare
  /-- Some part of it was quoted. -/
  quoted : Bool := false
  deriving DecidableEq

def isBlank (c : Char) : Bool := c == ' ' || c == '\t'

/-- Characters that stand for themselves outside quotes. -/
def plain (c : Char) : Bool := isLetter c || isDigit c || "_-./:,+@%".toList.contains c

def Word.push (w : Word) (c : Char) : Word := { w with text := w.text ++ [c] }

/-- Within double quotes a backslash quotes these only. -/
def Word.unescape (w : Word) (c : Char) : Word :=
  if c == '\n' then { w with quote := .double }
  else if "$\u0060\"\\".toList.contains c then { w with text := w.text ++ [c], quote := .double }
  else { w with text := w.text ++ ['\\', c], quote := .double }

/-- The next character of a word. -/
def Word.step (w : Word) (c : Char) : Option Word :=
  match w.quote with
  | .bare =>
    if c = '\'' then some { w with quote := .single, quoted := true }
    else if c = '"' then some { w with quote := .double, quoted := true }
    else if plain c then some (w.push c)
    else none
  | .single => if c = '\'' then some { w with quote := .bare } else some (w.push c)
  | .double =>
    if c = '"' then some { w with quote := .bare }
    else if c = '\\' then some { w with quote := .escaped }
    else if c = '$' ∨ c = '\u0060' then none
    else some (w.push c)
  | .escaped => some (w.unescape c)

/-! ## Commands -/

structure HereDoc where
  /-- The delimiter is quoted, so that nothing is expanded in the body. -/
  quoted : Bool
  body : Text
  deriving DecidableEq

structure Command where
  words : List Text
  hereDocs : List HereDoc
  deriving DecidableEq

inductive Mode where
  | blank
  | word (w : Word)
  /-- After `<`. -/
  | less
  /-- After `<<`. -/
  | hereOp
  | delim (w : Word)
  /-- In a here-document, with the current line as far as it is read. -/
  | body (line : Text)
  deriving DecidableEq

structure Reader where
  mode : Mode := .blank
  words : List Text := []
  /-- Delimiters whose bodies are still to come, and whether they were quoted. -/
  pending : List (Text × Bool) := []
  /-- The lines of the current body. -/
  lines : Text := []
  hereDocs : List HereDoc := []
  done : List Command := []
  deriving DecidableEq

/-- The command is complete. -/
def Reader.endCommand (r : Reader) : Reader :=
  { mode := .blank
    done := if r.words = [] ∧ r.hereDocs = [] then r.done else r.done ++ [⟨r.words, r.hereDocs⟩] }

/-- At the end of a line the bodies follow that it asks for. -/
def Reader.endLine (r : Reader) : Reader :=
  if r.pending = [] then r.endCommand else { r with mode := .body [] }

/-- At the end of a line of a body. -/
def Reader.endBodyLine (r : Reader) (line : Text) : Reader :=
  match r.pending with
  | [] => r.endCommand
  | (delim, quoted) :: pending =>
    if line = delim then
      let r' := { r with
        mode := .body [], pending := pending, lines := [],
        hereDocs := r.hereDocs ++ [⟨quoted, r.lines⟩] }
      if pending = [] then r'.endCommand else r'
    else { r with mode := .body [], lines := r.lines ++ line ++ ['\n'] }

def Reader.step (r : Reader) (c : Char) : Option Reader :=
  match r.mode with
  | .blank =>
    if isBlank c then some r
    else if c = '\n' then some r.endLine
    else if c = '<' then some { r with mode := .less }
    else (Word.step {} c).map fun w => { r with mode := .word w }
  | .word w =>
    if w.quote = .bare ∧ isBlank c then
      some { r with mode := .blank, words := r.words ++ [w.text] }
    else if w.quote = .bare ∧ c = '\n' then
      some { r with mode := .blank, words := r.words ++ [w.text] }.endLine
    else (w.step c).map fun w => { r with mode := .word w }
  | .less => if c = '<' then some { r with mode := .hereOp } else none
  | .hereOp =>
    if isBlank c then some r
    -- `<<-` is another operator
    else if c = '-' then none
    else (Word.step {} c).map fun w => { r with mode := .delim w }
  | .delim w =>
    if w.quote = .bare ∧ isBlank c then
      some { r with mode := .blank, pending := r.pending ++ [(w.text, w.quoted)] }
    else if w.quote = .bare ∧ c = '\n' then
      some { r with mode := .blank, pending := r.pending ++ [(w.text, w.quoted)] }.endLine
    else (w.step c).map fun w => { r with mode := .delim w }
  | .body line =>
    if c = '\n' then some (r.endBodyLine line) else some { r with mode := .body (line ++ [c]) }

def Reader.run (r : Reader) (t : Text) : Option Reader := t.foldlM Reader.step r

def reserved : List Text :=
  ["case", "do", "done", "elif", "else", "esac", "fi", "for", "if", "in", "then", "until",
    "while"].map String.toList

/-- A command that starts with a word that the grammar keeps for itself. -/
def Command.isReserved (c : Command) : Bool :=
  match c.words with
  | [] => true
  | w :: _ => reserved.contains w

/-- The commands of a script, every line of which is ended. -/
def parse (script : Text) : Option (List Command) :=
  (Reader.run {} script).bind fun r =>
    if r.mode = .blank ∧ r.words = [] ∧ r.pending = [] ∧ !r.done.any Command.isReserved then
      some r.done
    else none

/-! ## Reading piece by piece -/

theorem Reader.run_append {r r' : Reader} {a : Text} (h : r.run a = some r') (b : Text) :
    r.run (a ++ b) = r'.run b := by
  unfold run at h ⊢
  rw [List.foldlM_append, h]
  rfl

theorem Reader.run_cons {r r' : Reader} {c : Char} (h : r.step c = some r') (t : Text) :
    r.run (c :: t) = r'.run t := by
  unfold run
  rw [List.foldlM_cons, h]
  rfl

/-- A line of a body is taken as it stands. -/
theorem Reader.run_body {r : Reader} : ∀ {t line : Text}, r.mode = .body line → '\n' ∉ t →
    r.run t = some { r with mode := .body (line ++ t) }
  | [], line, hm, _ => by
    rw [List.append_nil, ← hm]
    rfl
  | c :: t, line, hm, hn => by
    obtain ⟨hc, ht⟩ := not_or.mp (mt List.mem_cons.mpr hn)
    have hstep : r.step c = some { r with mode := .body (line ++ [c]) } := by
      unfold step
      rw [hm]
      exact if_neg (Ne.symm hc)
    rw [run_cons hstep, run_body (r := { r with mode := .body (line ++ [c]) }) rfl ht]
    simp

/-- Within double quotes a text without `"`, backslash, `$` and backquote is taken as it stands. -/
theorem Reader.run_double {r : Reader} : ∀ {t : Text} {w : Word}, r.mode = .word w →
    w.quote = .double → (∀ c ∈ t, c ∉ ['"', '\\', '$', '\u0060']) →
    r.run t = some { r with mode := .word { w with text := w.text ++ t } }
  | [], w, hm, _, _ => by
    rw [List.append_nil, ← hm]
    rfl
  | c :: t, w, hm, hq, hn => by
    obtain ⟨hc, ht⟩ := List.forall_mem_cons.mp hn
    simp only [List.mem_cons, List.not_mem_nil, or_false, not_or] at hc
    obtain ⟨h1, h2, h3, h4⟩ := hc
    have hword : w.step c = some (w.push c) := by
      unfold Word.step
      rw [hq]
      show (if c = '"' then _ else if c = '\\' then _ else if c = '$' ∨ c = '\u0060' then none
        else some (w.push c)) = _
      rw [if_neg h1, if_neg h2, if_neg (not_or.mpr ⟨h3, h4⟩)]
    have hstep : r.step c = some { r with mode := .word (w.push c) } := by
      have hb : ¬(w.quote = .bare ∧ isBlank c = true) := fun h => by rw [hq] at h; cases h.1
      have hl : ¬(w.quote = .bare ∧ c = '\n') := fun h => by rw [hq] at h; cases h.1
      unfold step
      rw [hm]
      show (if w.quote = .bare ∧ isBlank c = true then _ else if w.quote = .bare ∧ c = '\n' then _
        else (w.step c).map fun w => { r with mode := .word w }) = _
      rw [if_neg hb, if_neg hl, hword]
      rfl
    rw [run_cons hstep, run_double (r := { r with mode := .word (w.push c) }) rfl hq ht]
    simp [Word.push]

end Lib.Shell
