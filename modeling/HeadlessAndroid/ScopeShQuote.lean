import HeadlessAndroid.Lib.ShellParams
import HeadlessAndroid.ScopeSh

/-!
# HeadlessAndroid.ScopeShQuote — the argument of scripts/scope.sh on its way to sqlite3

The argument passes through the script, the shell of the device, the shell of `su` and the tokens of
SQLite.  It is the value of its literal in the end, and nothing else is run, just when it has no
quote and nothing in it is special within double quotes (`handled_iff`).
-/

namespace HeadlessAndroid.Scope

open Lib Lib.Js Lib.SqlText

/-- What a program can be passed. -/
structure Argument where
  text : Text
  no_nul : '\x00' ∉ text

inductive ShRequest where
  /-- `cmd_add`, where the lookup gives `mid`. -/
  | add (mid : ℤ)
  /-- `cmd_remove`. -/
  | remove

/-! ## On the host -/

/-- Variables by name; one that is not set is empty. -/
def vars (l : List (Text × Text)) (n : Text) : Text := (l.lookup n).getD []

/-- The line that calls `sql`, without its redirection.  The braces of `${mid}` are written as
escapes. -/
def ShRequest.line : ShRequest → Text
  | .add _ => ("sql \"INSERT OR IGNORE INTO scope (mid, app_pkg_name, user_id) " ++
      "VALUES ($\x7bmid\x7d, '$\x7btarget\x7d', $\x7bUSER_ID\x7d);\"").toList
  | .remove =>
    "sql \"DELETE FROM scope WHERE app_pkg_name='$\x7btarget\x7d' AND user_id=$\x7bUSER_ID\x7d;\"".toList

def ShRequest.vars (target : Text) : ShRequest → Text → Text
  | .add mid => Scope.vars [("mid".toList, intText mid), ("target".toList, target),
      ("USER_ID".toList, intText userId)]
  | .remove => Scope.vars [("target".toList, target), ("USER_ID".toList, intText userId)]

/-- The line of `sql`: `"$ADB" -s "$ADB_SERIAL" shell "su -c \"sqlite3 $DB \\\"$1\\\"\""`. -/
def sqlLine : Text :=
  "\"$ADB\" -s \"$ADB_SERIAL\" shell \"su -c \\\"sqlite3 $DB \\\\\\\"$1\\\\\\\"\\\"\"".toList

/-- `ADB`, with the variables that are not set, for the home directory. -/
def adbPath (home : Text) : Text := home ++ "/Library/Android/sdk/platform-tools/adb".toList

def adbSerial : Text := "emulator-5554".toList

def sqlVars (home stmt : Text) : Text → Text :=
  Scope.vars [("ADB".toList, adbPath home), ("ADB_SERIAL".toList, adbSerial), ("DB".toList, dbPath),
    (['1'], stmt)]

/-- The argument of a call of `sql`. -/
def sqlArgument : List Text → Option Text
  | [f, stmt] => if f = "sql".toList then some stmt else none
  | _ => none

/-- What adb sends to the shell of the device: the words after `shell`, joined by blanks. -/
def adbShell : List Text → Option Text
  | _ :: s :: _ :: shell :: args =>
    if s = "-s".toList ∧ shell = "shell".toList then some ([' '].intercalate args) else none
  | _ => none

/-- The command that the device is sent. -/
def sent (home : Text) (r : ShRequest) (target : Text) : Option Text :=
  ((Shell.words (r.vars target) r.line).bind sqlArgument).bind fun stmt =>
    (Shell.words (sqlVars home stmt) sqlLine).bind adbShell

/-! ## On the device -/

/-- An integer in a statement. -/
def intTokens : ℤ → List Token
  | .ofNat n => [.number (natText n)]
  | .negSucc n => [.symbol '-', .number (natText (n + 1))]

/-- The statement that is meant. -/
def ShRequest.tokens (target : Text) : ShRequest → List Token
  | .add mid => insertWith (intTokens mid) target
  | .remove => deleteTokens target ++ [word "AND", word "user_id", .symbol '=', .number ['0']]

/-- The shell of the device runs `su` and no other command, the shell of `su` runs sqlite3 and no
other command, and sqlite3 reads one statement, of these tokens. -/
def DeviceRuns (env env' : Text → Text) (cmd : Text) (toks : List Token) : Prop :=
  ∃ inner stmt, Shell.words env cmd = some ["su".toList, "-c".toList, inner] ∧
    Shell.words env' inner = some ["sqlite3".toList, dbPath, stmt] ∧ statements stmt = some [toks]

/-- The script refuses an empty argument; otherwise the statement that is meant arrives, whatever
the parameters of the two shells hold. -/
def Handled (home : Text) (r : ShRequest) (target : Argument) : Prop :=
  target.text = [] ∨ ∃ cmd, sent home r target.text = some cmd ∧
    ∀ env env', DeviceRuns env env' cmd (r.tokens target.text)

/-! ## What is sent -/

def ShRequest.sql (target : Text) : ShRequest → ShSql
  | .add mid => .insert (intText mid) target
  | .remove => .delete target

/-- The characters that `inDoubleQuotes` lists are the special ones. -/
theorem isSpecial_of_clean {t : Text} (h : ∀ c ∈ t, c ∉ inDoubleQuotes) :
    ∀ c ∈ t, Shell.isSpecial c = false := by
  intro c hc
  by_contra hs
  rcases Shell.special_iff.mp (Bool.eq_true_of_not_eq_false hs) with rfl | rfl | rfl | rfl
  · exact h _ hc (by decide)
  · exact h _ hc (by decide)
  · exact h _ hc (by decide)
  · exact h _ hc (by decide)

theorem special_of_all {t : Text} (h : (t.all fun c => !inDoubleQuotes.contains c) = true) :
    ∀ c ∈ t, Shell.isSpecial c = false := isSpecial_of_clean (clean_of_all h)

/-- In the double quotes of a word of the script, after the text `t`. -/
abbrev inWord (ws : List Text) (t : Text) : Shell.Line := ⟨ws, some (.text (Shell.inDouble t))⟩

/-- The string in the line, piece by piece. -/
def ShRequest.pieces : ShRequest → List Shell.Piece
  | .add _ =>
    [.text "INSERT OR IGNORE INTO scope (mid, app_pkg_name, user_id) VALUES (".toList,
      .param "mid".toList, .text ", '".toList, .param "target".toList, .text "', ".toList,
      .param "USER_ID".toList, .text ");".toList]
  | .remove =>
    [.text "DELETE FROM scope WHERE app_pkg_name='".toList, .param "target".toList,
      .text "' AND user_id=".toList, .param "USER_ID".toList, .text ";".toList]

theorem line_eq (r : ShRequest) :
    r.line = "sql \"".toList ++ (r.pieces.flatMap Shell.Piece.source ++ ['"']) := by
  cases r with
  | add mid =>
    show String.toList _ = "sql \"".toList ++ (List.flatMap _ [_, _, _, _, _, _, _] ++ ['"'])
    decide +kernel
  | remove => decide +kernel

theorem pieces_sound (r : ShRequest) : (r.pieces.all Shell.Piece.Sound) = true := by
  cases r with
  | add mid =>
    show List.all [_, _, _, _, _, _, _] _ = true
    decide +kernel
  | remove => decide +kernel

theorem pieces_value (r : ShRequest) (target : Text) :
    r.pieces.flatMap (Shell.Piece.value (r.vars target)) = (r.sql target).text := by
  cases r with
  | add mid =>
    show _ ++ (intText mid ++ (_ ++ (target ++ (_ ++ (intText userId ++ (_ ++ [])))))) =
      _ ++ intText mid ++ _ ++ target ++ _ ++ intText userId ++ _
    simp only [List.append_assoc, List.append_nil]
    rfl
  | remove =>
    show _ ++ (target ++ (_ ++ (intText userId ++ (_ ++ [])))) =
      _ ++ target ++ _ ++ intText userId ++ _
    simp only [List.append_assoc, List.append_nil]
    rfl

/-- The line reads as the call of `sql` with the statement of the script. -/
theorem words_line (r : ShRequest) (target : Text) :
    Shell.words (r.vars target) r.line = some ["sql".toList, (r.sql target).text] := by
  have hopen : ∀ env, Shell.Line.run env {} "sql \"".toList = some (inWord ["sql".toList] []) :=
    fun _ => rfl
  unfold Shell.words
  rw [line_eq, Shell.Line.run_append (hopen _),
    Shell.Line.run_append (Shell.run_pieces (t := []) _ (pieces_sound r)), pieces_value]
  rfl

/-- **The line of `sql` hands adb the command with the statement as it is.** -/
theorem words_sqlLine (home stmt : Text) : Shell.words (sqlVars home stmt) sqlLine =
    some [adbPath home, "-s".toList, adbSerial, "shell".toList, shCommand stmt] := by
  have hline : sqlLine = "\"$ADB\" -s \"$ADB_SERIAL\" shell \"".toList ++
      ("su -c ".toList ++ (['\\', '"'] ++ ("sqlite3 ".toList ++ ("$DB ".toList ++
        (['\\', '\\', '\\', '"'] ++ ("$1".toList ++ (['\\', '\\', '\\', '"', '\\', '"'] ++
          ['"']))))))) := by
    decide +kernel
  generalize henv : sqlVars home stmt = env
  have hdb : env "DB".toList = dbPath := by rw [← henv]; rfl
  have hstmt : env ['1'] = stmt := by rw [← henv]; rfl
  let ws := [adbPath home, "-s".toList, adbSerial, "shell".toList]
  have hopen : Shell.Line.run env {} "\"$ADB\" -s \"$ADB_SERIAL\" shell \"".toList =
      some (inWord ws []) := by
    rw [← henv]
    rfl
  have hfixed : ∀ {u : Text} (t : Text), (u.all fun c => !inDoubleQuotes.contains c) = true →
      Shell.Line.run env (inWord ws t) u = some (inWord ws (t ++ u)) := fun t hu =>
    Shell.run_clean (w := Shell.inDouble t) ws rfl (special_of_all hu)
  have hquote : ∀ t : Text, Shell.Line.run env (inWord ws t) ['\\', '"'] =
      some (inWord ws (t ++ ['"'])) := fun _ => rfl
  have hname : ∀ t : Text, Shell.Line.run env (inWord ws t) "$DB ".toList =
      some (inWord ws (t ++ env "DB".toList ++ [' '])) := fun _ => rfl
  have hescape : ∀ t : Text, Shell.Line.run env (inWord ws t) ['\\', '\\', '\\', '"'] =
      some (inWord ws (t ++ ['\\'] ++ ['"'])) := fun _ => rfl
  have hfirst : ∀ t : Text, Shell.Line.run env (inWord ws t) "$1".toList =
      some (inWord ws (t ++ env ['1'])) := fun _ => rfl
  have hend : ∀ t : Text, Shell.Line.run env (inWord ws t) ['\\', '\\', '\\', '"', '\\', '"'] =
      some (inWord ws (t ++ ['\\'] ++ ['"'] ++ ['"'])) := fun _ => rfl
  unfold Shell.words
  rw [hline, Shell.Line.run_append hopen, Shell.Line.run_append (hfixed _ (by decide)),
    Shell.Line.run_append (hquote _), Shell.Line.run_append (hfixed _ (by decide)),
    Shell.Line.run_append (hname _), Shell.Line.run_append (hescape _),
    Shell.Line.run_append (hfirst _), Shell.Line.run_append (hend _), hdb, hstmt]
  show some (ws ++ [_]) = some (ws ++ [_])
  unfold shCommand
  congr 3
  simp only [List.append_assoc]
  rfl

theorem adbShell_one (adb serial cmd : Text) :
    adbShell [adb, "-s".toList, serial, "shell".toList, cmd] = some cmd := by
  show some ([' '].intercalate [cmd]) = some cmd
  simp

theorem sent_eq (home : Text) (r : ShRequest) (target : Text) :
    sent home r target = some (shCommand (r.sql target).text) := by
  have hsql : sqlArgument ["sql".toList, (r.sql target).text] = some (r.sql target).text := rfl
  unfold sent
  rw [words_line, Option.bind_some, hsql, Option.bind_some, words_sqlLine, Option.bind_some,
    adbShell_one]

/-! ## What the two shells make of it -/

/-- The command of the shell of `su`, up to the statement. -/
def suOpening : Text := "sqlite3 ".toList ++ dbPath ++ " \"".toList

section Shells

variable (env : Text → Text)

set_option maxRecDepth 2000 in
theorem run_suOpening : Shell.Line.run env {} suOpening =
    some (inWord ["sqlite3".toList, dbPath] []) := rfl

set_option maxRecDepth 2000 in
theorem run_shOpening : Shell.Line.run env {} ("su -c \"sqlite3 ".toList ++ dbPath ++ " \\\"".toList) =
    some (inWord ["su".toList, "-c".toList] suOpening) := rfl

/-- A statement in which nothing is special reaches sqlite3 as it is. -/
theorem words_of_inert {t : Text} {c : Char} (h : Shell.Inert (t ++ [c]))
    (hc : Shell.pendingOf c = none) :
    Shell.words env (shCommand (t ++ [c])) =
        some ["su".toList, "-c".toList, suOpening ++ (t ++ [c]) ++ ['"']] ∧
      Shell.words env (suOpening ++ (t ++ [c]) ++ ['"']) =
        some ["sqlite3".toList, dbPath, t ++ [c]] := by
  have hfit := Shell.allFit_none_iff.mpr h
  constructor
  · obtain ⟨w, hq, ht, hrun⟩ := Shell.run_inert env (w := Shell.inDouble suOpening) rfl hfit hc
      ["su".toList, "-c".toList]
    have hend : "\\\"\"".toList = Shell.closing := rfl
    unfold Shell.words shCommand
    rw [Shell.Line.run_append (run_shOpening env), Shell.Line.run_append hrun, hend,
      Shell.run_closing hq, ht]
    rfl
  · obtain ⟨w, hq, ht, hrun⟩ := Shell.run_inert env (w := Shell.inDouble []) rfl hfit hc
      ["sqlite3".toList, dbPath]
    have hclose : Shell.Line.run env ⟨["sqlite3".toList, dbPath], some (.text w)⟩ ['"'] =
        some ⟨["sqlite3".toList, dbPath], some (.text { w with quote := .bare })⟩ := by
      obtain ⟨text, quote, quoted⟩ := w
      cases hq
      rfl
    unfold Shell.words
    rw [List.append_assoc, Shell.Line.run_append (run_suOpening env), Shell.Line.run_append hrun,
      hclose]
    show some (["sqlite3".toList, dbPath] ++ [w.text]) = _
    rw [ht]
    rfl

/-- **If no special character gets lost on the way then none is special there.** -/
theorem inert_of_words {env env' : Text → Text} (henv : Shell.Plain env) (henv' : Shell.Plain env')
    {stmt inner stmt' : Text}
    (h : Shell.words env (shCommand stmt) = some ["su".toList, "-c".toList, inner])
    (h' : Shell.words env' inner = some ["sqlite3".toList, dbPath, stmt'])
    (hle : Shell.specials stmt ≤ Shell.specials stmt') : Shell.Inert stmt := by
  -- the shell of the device after the statement and at the end
  obtain ⟨l, hl, hf⟩ := Option.bind_eq_some_iff.mp h
  unfold shCommand at hl
  rw [Shell.Line.run_append (run_shOpening env)] at hl
  obtain ⟨l₁, h₁, h₂⟩ := Shell.Line.run_append_eq_some hl
  have hclosing : Shell.specials inner ≤ Shell.specials l₁.seen + 1 := by
    have hseen : l.seen = "su-c".toList ++ (inner ++ []) := (Shell.Line.seen_of_finish hf).1
    have hlost := Shell.Line.lost_closing henv h₂ hf
    rw [hseen, Shell.specials_append, List.append_nil] at hlost
    exact le_trans (Nat.le_add_left _ _) hlost
  -- what it passes on begins with the opening, which the shell of `su` reads first
  obtain ⟨x, rest, hvs, u, hx⟩ := Shell.Line.begins_run hl hf
  obtain rfl : inner = x := by
    injection hvs with _ hvs
    injection hvs with _ hvs
    injection hvs
  have hu : suOpening ++ u = inner := hx
  obtain ⟨l', hl', hf'⟩ := Option.bind_eq_some_iff.mp h'
  rw [← hu, Shell.Line.run_append (run_suOpening env')] at hl'
  obtain ⟨-, hlost'⟩ := Shell.Line.run_lost henv' hl'
  have hopen : (inWord ["sqlite3".toList, dbPath] []).opened = 1 := rfl
  have hbefore : Shell.specials (inWord ["sqlite3".toList, dbPath] []).seen = 0 := by decide +kernel
  have hafter : Shell.specials stmt' ≤ Shell.specials l'.seen := by
    have hseen : l'.seen = ("sqlite3".toList ++ dbPath) ++ stmt' := by
      rw [(Shell.Line.seen_of_finish hf').1]
      simp
    rw [hseen, Shell.specials_append]
    exact Nat.le_add_left _ _
  rw [hopen, hbefore, (Shell.Line.seen_of_finish hf').2] at hlost'
  have hinner : Shell.specials inner = 1 + Shell.specials u := by
    have hone : Shell.specials suOpening = 1 := by decide +kernel
    rw [← hu, Shell.specials_append, hone]
  -- so the first of them has lost nothing
  have hstart : Shell.specials (inWord ["su".toList, "-c".toList] suOpening).seen = 1 := by
    decide +kernel
  refine Shell.allFit_none_iff.mp ((Shell.Part.Literal.plain (Shell.inDouble suOpening) rfl).allFit
    henv h₁ ?_)
  show Shell.specials (inWord ["su".toList, "-c".toList] suOpening).seen + _ ≤ _
  omega

end Shells

/-! ## The statement -/

/-- What stands in front of the literal with the argument. -/
def ShRequest.before : ShRequest → Text
  | .add mid => "INSERT OR IGNORE INTO scope (mid, app_pkg_name, user_id) VALUES (".toList ++
      (intText mid ++ ", ".toList)
  | .remove => "DELETE FROM scope WHERE app_pkg_name=".toList

def ShRequest.after : ShRequest → Text
  | .add _ => ", 0)".toList
  | .remove => " AND user_id=0".toList

theorem sql_text (r : ShRequest) (target : Text) :
    (r.sql target).text = (r.before ++ (['\''] ++ (target ++ (['\''] ++ r.after)))) ++ [';'] := by
  cases r with
  | add mid =>
    have h1 : ", '".toList = ", ".toList ++ ['\''] := rfl
    have h2 : "', ".toList = ['\''] ++ ", ".toList := rfl
    have h3 : ", 0)".toList = ", ".toList ++ (intText userId ++ [')']) := rfl
    have h4 : ");".toList = [')'] ++ [';'] := rfl
    show _ ++ intText mid ++ ", '".toList ++ target ++ "', ".toList ++ intText userId ++ ");".toList =
      ((_ ++ (intText mid ++ ", ".toList)) ++ (['\''] ++ (target ++ (['\''] ++ ", 0)".toList)))) ++ [';']
    rw [h1, h2, h3, h4]
    simp only [List.append_assoc]
  | remove =>
    have h1 : "DELETE FROM scope WHERE app_pkg_name='".toList =
        "DELETE FROM scope WHERE app_pkg_name=".toList ++ ['\''] := by decide +kernel
    have h2 : "' AND user_id=".toList = ['\''] ++ " AND user_id=".toList := rfl
    have h3 : " AND user_id=0".toList = " AND user_id=".toList ++ intText userId := rfl
    have h4 : ";".toList = [';'] := rfl
    show "DELETE FROM scope WHERE app_pkg_name='".toList ++ target ++ "' AND user_id=".toList ++
      intText userId ++ ";".toList =
        ("DELETE FROM scope WHERE app_pkg_name=".toList ++ (['\''] ++ (target ++ (['\''] ++
          " AND user_id=0".toList)))) ++ [';']
    rw [h1, h2, h3, h4]
    simp only [List.append_assoc]

theorem clean_before (r : ShRequest) : ∀ c ∈ r.before, Shell.isSpecial c = false := by
  cases r with
  | add mid =>
    refine isSpecial_of_clean (clean_append (clean_of_all (by decide +kernel))
      (clean_append (clean_intText mid) (clean_of_all (by decide))))
  | remove => exact special_of_all (by decide +kernel)

theorem clean_after (r : ShRequest) : ∀ c ∈ r.after, Shell.isSpecial c = false := by
  cases r with
  | add mid => exact special_of_all (show (", 0)".toList.all _) = true by decide)
  | remove => exact special_of_all (by decide)

theorem specials_sql (r : ShRequest) (target : Text) :
    Shell.specials (r.sql target).text = Shell.specials target := by
  have hquote : Shell.specials ['\''] = 0 := by decide
  have hend : Shell.specials [';'] = 0 := by decide
  simp only [sql_text, Shell.specials_append, hquote, hend,
    Shell.specials_eq_zero (clean_before r), Shell.specials_eq_zero (clean_after r)]
  omega

/-- Quotes on both sides keep the argument apart from the rest of the statement. -/
theorem inert_sql {r : ShRequest} {target : Text} :
    Shell.Inert (r.sql target).text ↔ Shell.Inert target := by
  have hbefore : Shell.Inert (r.before ++ ['\'']) := Shell.inert_of_clean fun c hc =>
    (List.mem_append.mp hc).elim (clean_before r c) fun h => by rw [List.mem_singleton.mp h]; rfl
  have hafter : Shell.Inert (['\''] ++ r.after ++ [';']) := by
    refine Shell.inert_of_clean fun c hc => ?_
    rw [List.mem_append, List.mem_append, List.mem_singleton, List.mem_singleton] at hc
    rcases hc with (rfl | hc) | rfl
    · rfl
    · exact clean_after r c hc
    · rfl
  have hopens : ∀ d, Shell.Apart '\'' d := fun d => ⟨fun h => (by cases h), fun h => (by cases h)⟩
  have hcloses : ∀ c, Shell.Apart c '\'' := fun c => ⟨fun _ => (by decide), fun _ => (by decide)⟩
  have htext : (r.sql target).text =
      (r.before ++ ['\'']) ++ (target ++ (['\''] ++ r.after ++ [';'])) := by
    rw [sql_text]
    simp only [List.append_assoc]
  rw [htext, Shell.Inert.append_iff (a := r.before ++ ['\'']), Shell.Inert.append_iff (a := target)]
  constructor
  · exact fun h => h.2.1.1
  · intro h
    refine ⟨hbefore, ⟨h, hafter, fun c _ d hd => ?_⟩, fun c hc d _ => ?_⟩
    · cases hd
      exact hcloses c
    · rw [List.getLast?_concat] at hc
      cases hc
      exact hopens d

theorem run_intText (n : ℤ) :
    SqlText.run .blank (intText n ++ [',']) = some (.blank, intTokens n ++ [.symbol ',']) := by
  have hnumeral : ∀ k : ℕ, Numeral (natText k) := fun k =>
    numeral_of_digits (natText_ne_nil k) fun c hc => natText_digit hc
  cases n with
  | ofNat k => exact run_numeral_comma (hnumeral k)
  | negSucc k =>
    have hneg : intText (Int.negSucc k) = '-' :: natText (k + 1) := intText_neg (Nat.succ_pos k)
    rw [hneg]
    exact run_negative_comma (hnumeral (k + 1))

/-- **Without a quote in the argument the statement is the one that is meant.** -/
theorem statements_sql {target : Text} (h : '\'' ∉ target) (r : ShRequest) :
    statements (r.sql target).text = some [r.tokens target] := by
  cases r with
  | add mid =>
    have htext : ((ShRequest.add mid).sql target).text = (Sql.insertScope (intText mid) target).text := by
      have h1 : "', 0);".toList = "', ".toList ++ (intText userId ++ ");".toList) := rfl
      show _ ++ intText mid ++ ", '".toList ++ target ++ "', ".toList ++ intText userId ++ ");".toList =
        _ ++ (intText mid ++ (", '".toList ++ (target ++ "', 0);".toList)))
      rw [h1]
      simp only [List.append_assoc]
    rw [htext]
    refine statements_of_run (run_insert h (run_intText mid)) (by simp [ShRequest.tokens, insertWith]) ?_
    have hmid : Token.symbol ';' ∉ intTokens mid := by cases mid <;> simp [intTokens]
    simp [ShRequest.tokens, insertWith, hmid, word]
  | remove =>
    have htail : SqlText.run (.string target) (['\''] ++ ShRequest.remove.after ++ [';']) =
        some (.blank, [.string target, word "AND", word "user_id", .symbol '=', .number ['0'],
          .symbol ';']) := rfl
    have hrun := run_trans run_deleteHead (run_trans (run_literal h) htail)
    have htext : (ShRequest.remove.sql target).text =
        ShRequest.remove.before ++ ('\'' :: target ++ (['\''] ++ ShRequest.remove.after ++ [';'])) := by
      rw [sql_text]
      simp only [List.append_assoc, List.cons_append, List.nil_append]
    refine statements_of_run (htext ▸ hrun) (by simp [ShRequest.tokens, deleteTokens]) ?_
    simp [ShRequest.tokens, deleteTokens, word]

theorem target_mem_tokens (r : ShRequest) (target : Text) : .string target ∈ r.tokens target := by
  cases r <;> simp [ShRequest.tokens, insertWith, deleteTokens]

theorem quote_not_mem_intText (n : ℤ) : '\'' ∉ intText n := by
  intro h
  rcases intText_char h with h | h
  · cases h
  · cases h

/-- A quote in the argument ends its literal. -/
theorem no_quote_of_statements {r : ShRequest} {target : Text}
    (h : statements (r.sql target).text = some [r.tokens target]) : '\'' ∉ target := by
  have hle := quotes_literal_le h List.mem_cons_self (target_mem_tokens r target)
  have hbefore : r.before.count '\'' = 0 := by
    cases r with
    | add mid =>
      refine List.count_eq_zero.mpr fun hm => ?_
      rcases List.mem_append.mp hm with hm | hm
      · revert hm
        decide +kernel
      · rcases List.mem_append.mp hm with hm | hm
        · exact quote_not_mem_intText mid hm
        · revert hm
          decide
    | remove => decide +kernel
  have hafter : r.after.count '\'' = 0 := by
    cases r with
    | add mid =>
      show ", 0)".toList.count '\'' = 0
      decide
    | remove => decide
  have hone : ['\''].count '\'' = 1 := rfl
  have hend : [';'].count '\'' = 0 := rfl
  simp only [sql_text, List.count_append, hbefore, hafter, hone, hend] at hle
  exact List.count_eq_zero.mp (by omega)

/-! ## The whole way -/

/-- A shell that has just started. -/
def fresh (n : Text) : Text := if n = ['#'] ∨ n = ['?'] then ['0'] else []

theorem plain_fresh : Shell.Plain fresh := by
  intro n
  unfold fresh
  split
  · rfl
  · rfl

theorem pendingOf_semicolon : Shell.pendingOf ';' = none := rfl

/-- With an argument in which nothing is special the statement arrives as it was written. -/
theorem deviceRuns_of_inert {r : ShRequest} {target : Text} (h : Shell.Inert target)
    {toks : List Token} (hs : statements (r.sql target).text = some [toks]) (env env' : Text → Text) :
    DeviceRuns env env' (shCommand (r.sql target).text) toks := by
  have hinert := inert_sql (r := r).mpr h
  rw [sql_text] at hinert
  obtain ⟨houter, -⟩ := words_of_inert env hinert pendingOf_semicolon
  obtain ⟨-, hinner⟩ := words_of_inert env' hinert pendingOf_semicolon
  rw [← sql_text] at houter hinner
  exact ⟨_, _, houter, hinner, hs⟩

/-- What arrives is what is meant only if nothing in the argument is special and no quote ends the
literal. -/
theorem of_deviceRuns {env env' : Text → Text} (henv : Shell.Plain env) (henv' : Shell.Plain env')
    {r : ShRequest} {target : Text}
    (h : DeviceRuns env env' (shCommand (r.sql target).text) (r.tokens target)) :
    '\'' ∉ target ∧ Shell.Inert target := by
  obtain ⟨inner, stmt, houter, hinner, hs⟩ := h
  have hle : Shell.specials target ≤ Shell.specials stmt :=
    countP_literal_le Shell.isSpecial hs List.mem_cons_self (target_mem_tokens r target)
  have hinert := inert_of_words henv henv' houter hinner (by rw [specials_sql]; exact hle)
  -- so the statement that arrives is the one that was written
  have htext := sql_text r target
  have hinert' := hinert
  rw [htext] at houter hinert'
  obtain ⟨houter', -⟩ := words_of_inert env hinert' pendingOf_semicolon
  obtain ⟨-, hinner'⟩ := words_of_inert env' hinert' pendingOf_semicolon
  rw [houter'] at houter
  cases houter
  rw [hinner'] at hinner
  cases hinner
  rw [← htext] at hs
  exact ⟨no_quote_of_statements hs, inert_sql.mp hinert⟩

/-- **An argument arrives as itself just when it has no quote and nothing in it is special within
double quotes.** -/
theorem handled_iff (home : Text) (r : ShRequest) (target : Argument) :
    Handled home r target ↔ target.text = [] ∨ '\'' ∉ target.text ∧ Shell.Inert target.text := by
  unfold Handled
  rw [sent_eq]
  refine or_congr_right ⟨?_, ?_⟩
  · rintro ⟨cmd, hcmd, hruns⟩
    cases hcmd
    exact of_deviceRuns plain_fresh plain_fresh (hruns fresh fresh)
  · rintro ⟨hquote, hinert⟩
    exact ⟨_, rfl, deviceRuns_of_inert hinert (statements_sql hquote r)⟩

/-- `x' OR '1'='1` -/
def everyApp : Argument := ⟨"x' OR '1'='1".toList, by decide⟩

/-- `scope.sh remove` takes every app of the user out of the scope, not the one that it is given. -/
theorem remove_every_app : (∀ env env', DeviceRuns env env'
      (shCommand (ShRequest.remove.sql everyApp.text).text)
      [word "DELETE", word "FROM", word "scope", word "WHERE", word "app_pkg_name", .symbol '=',
        .string ['x'], word "OR", .string ['1'], .symbol '=', .string ['1'], word "AND",
        word "user_id", .symbol '=', .number ['0']]) ∧
    ¬∀ home r target, Handled home r target := by
  refine ⟨deviceRuns_of_inert (Shell.inert_of_clean (special_of_all (by decide)))
    (by decide +kernel), fun hall => ?_⟩
  obtain h | ⟨cmd, hcmd, hruns⟩ := hall [] .remove everyApp
  · cases h
  · rw [sent_eq] at hcmd
    cases hcmd
    exact absurd (of_deviceRuns plain_fresh plain_fresh (hruns fresh fresh)).1 (by decide)

end HeadlessAndroid.Scope
