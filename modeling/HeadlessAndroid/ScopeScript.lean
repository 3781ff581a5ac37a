import HeadlessAndroid.Lib.Shell
import HeadlessAndroid.Lib.SqlText
import HeadlessAndroid.ScopeRoutes

/-!
# HeadlessAndroid.ScopeScript — the script that `dbExec` writes to `adb shell`

A statement travels as text: in a here-document of a script that the shell of the device reads, and
from there to sqlite3.  A package name that `PKG_NAME_RE` accepts stays inside its literal on the
whole way (`scope_scripts`).
-/

namespace HeadlessAndroid.Scope

open Lib Lib.Js Lib.SqlText

/-- The statement as the template literals give it. -/
def Sql.text : Sql → Text
  | .selectModule =>
    "SELECT mid, enabled FROM modules WHERE module_pkg_name='".toList ++ modulePkg ++ "';".toList
  | .selectScope mid => "SELECT app_pkg_name FROM scope WHERE mid=".toList ++ mid ++ ";".toList
  | .insertScope mid pkg =>
    "INSERT OR IGNORE INTO scope (mid, app_pkg_name, user_id) VALUES (".toList ++
      (mid ++ (", '".toList ++ (pkg ++ "', 0);".toList)))
  | .deleteScope pkg =>
    "DELETE FROM scope WHERE app_pkg_name='".toList ++ (pkg ++ "';".toList)
  | .updateEnabled enabled =>
    "UPDATE modules SET enabled=".toList ++ (if enabled then ['1'] else ['0']) ++
      " WHERE module_pkg_name='".toList ++ modulePkg ++ "';".toList

/-- `DB_PATH`. -/
def dbPath : Text := "/data/adb/lspd/config/modules_config.db".toList

/-- The script of `dbExec`. -/
def dbScript (sql : Text) : Text :=
  "su -c 'sqlite3 ".toList ++ dbPath ++ "' <<'__SQL__'\n".toList ++ (sql ++ "\n__SQL__\n".toList)

/-! ## What the shell makes of it -/

/-- The words of the one command. -/
def suSqlite : List Text := ["su".toList, "-c".toList, "sqlite3 ".toList ++ dbPath]

/-- Where the shell is when the statement begins. -/
def atStatement : Shell.Reader where
  mode := .body []
  words := suSqlite
  pending := [("__SQL__".toList, true)]

/-- **A statement of one line that is not the delimiter is the whole body.** -/
theorem parse_dbScript {sql : Text} (hn : '\n' ∉ sql) (hd : sql ≠ "__SQL__".toList) :
    Shell.parse (dbScript sql) = some [⟨suSqlite, [⟨true, sql ++ ['\n']⟩]⟩] := by
  have hprefix : Shell.Reader.run {}
      ("su -c 'sqlite3 ".toList ++ dbPath ++ "' <<'__SQL__'\n".toList) = some atStatement := by
    decide +kernel
  have hbody : atStatement.run sql = some { atStatement with mode := .body sql } :=
    Shell.Reader.run_body (show atStatement.mode = .body [] from rfl) hn
  -- the line that ends the statement is not the delimiter, and the next one is
  have hline : Shell.Reader.step { atStatement with mode := .body sql } '\n' =
      some { atStatement with mode := .body [], lines := sql ++ ['\n'] } := by
    show some (Shell.Reader.endBodyLine { atStatement with mode := .body sql } sql) = _
    unfold Shell.Reader.endBodyLine atStatement
    simp only [if_neg hd]
    rfl
  have hend : Shell.Reader.run { atStatement with mode := .body [], lines := sql ++ ['\n'] }
      "__SQL__\n".toList = some { done := [⟨suSqlite, [⟨true, sql ++ ['\n']⟩]⟩] } := rfl
  have hrun : Shell.Reader.run {} (dbScript sql) =
      some { done := [⟨suSqlite, [⟨true, sql ++ ['\n']⟩]⟩] } := by
    unfold dbScript
    rw [Shell.Reader.run_append hprefix, Shell.Reader.run_append hbody]
    exact (Shell.Reader.run_cons hline "__SQL__\n".toList).trans hend
  unfold Shell.parse
  rw [hrun]
  rfl

/-! ## What sqlite3 makes of the body -/

def word (t : String) : Token := .word t.toList

/-- The tokens of a `mid`. -/
def midTokens : Number → List Token
  | .nan => [word "NaN"]
  | .inf false => [word "Infinity"]
  | .inf true => [.symbol '-', word "Infinity"]
  | .fin q => if q < 0 then [.symbol '-', .number (posText (-q))] else [.number (posText q)]

def insertTokens (mid : Number) (pkg : Text) : List Token :=
  [word "INSERT", word "OR", word "IGNORE", word "INTO", word "scope", .symbol '(', word "mid",
    .symbol ',', word "app_pkg_name", .symbol ',', word "user_id", .symbol ')', word "VALUES",
    .symbol '('] ++ (midTokens mid ++ [.symbol ',', .string pkg, .symbol ',', .number ['0'],
      .symbol ')'])

def deleteTokens (pkg : Text) : List Token :=
  [word "DELETE", word "FROM", word "scope", word "WHERE", word "app_pkg_name", .symbol '=',
    .string pkg]

/-- The script of the statement is one `su -c` command with one quoted here-document, and the body
is one statement, of these tokens. -/
structure OneStatement (s : Sql) (toks : List Token) : Prop where
  command : ∃ body, Shell.parse (dbScript s.text) = some [⟨suSqlite, [⟨true, body⟩]⟩] ∧
    statements body = some [toks]

/-- A numeral in front of a comma. -/
theorem run_numeral_comma {t : Text} (h : Numeral t) :
    SqlText.run .blank (t ++ [',']) = some (.blank, [.number t, .symbol ',']) := by
  obtain ⟨m, hm, hrun⟩ := run_numeral h
  have hcomma : SqlText.run m [','] = some (.blank, [.number t, .symbol ',']) := by
    rw [SqlText.run, next_ending hm (by decide) (by decide)]
    rfl
  exact run_trans hrun hcomma

theorem run_negative_comma {t : Text} (h : Numeral t) :
    SqlText.run .blank ('-' :: t ++ [',']) =
      some (.blank, [.symbol '-', .number t, .symbol ',']) := by
  obtain ⟨c, u, rfl, hc⟩ := h.head
  -- the minus does not start a comment
  have hne : c ≠ '-' := by
    rintro rfl
    cases hc
  have hpos := run_numeral_comma h
  show SqlText.run .blank ('-' :: c :: (u ++ [','])) = _
  rw [run_minus hne]
  show (SqlText.run .blank (c :: u ++ [','])).map _ = _
  rw [hpos]
  rfl

theorem run_mid (mid : Number) :
    SqlText.run .blank (mid.toText ++ [',']) = some (.blank, midTokens mid ++ [.symbol ',']) := by
  match mid with
  | .nan => decide
  | .inf false => decide
  | .inf true => decide
  | .fin q =>
    show SqlText.run .blank ((if q < 0 then '-' :: posText (-q) else posText q) ++ [',']) =
      some (.blank, (if q < 0 then [.symbol '-', .number (posText (-q))] else
        [.number (posText q)]) ++ [.symbol ','])
    by_cases hq : q < 0
    · rw [if_pos hq, if_pos hq]
      exact run_negative_comma (posText_numeral (-q))
    · rw [if_neg hq, if_neg hq]
      exact run_numeral_comma (posText_numeral q)

/-- **A literal with a text free of quotes.** -/
theorem run_literal {pkg : Text} (h : '\'' ∉ pkg) :
    SqlText.run .blank ('\'' :: pkg) = some (.string pkg, []) := by
  have hopen : SqlText.run .blank ['\''] = some (.string [], []) := rfl
  have hpkg : SqlText.run (.string []) pkg = some (.string pkg, []) := run_string h
  exact run_trans hopen hpkg

/-- An `INSERT` whose mid has the tokens `ts`. -/
def insertWith (ts : List Token) (pkg : Text) : List Token :=
  [word "INSERT", word "OR", word "IGNORE", word "INTO", word "scope", .symbol '(', word "mid",
    .symbol ',', word "app_pkg_name", .symbol ',', word "user_id", .symbol ')', word "VALUES",
    .symbol '('] ++ (ts ++ [.symbol ',', .string pkg, .symbol ',', .number ['0'], .symbol ')'])

theorem run_insert {mid pkg : Text} {ts : List Token} (h : '\'' ∉ pkg)
    (hmid : SqlText.run .blank (mid ++ [',']) = some (.blank, ts ++ [.symbol ','])) :
    SqlText.run .blank (Sql.insertScope mid pkg).text =
      some (.blank, insertWith ts pkg ++ [.symbol ';']) := by
  have hhead : SqlText.run .blank
      "INSERT OR IGNORE INTO scope (mid, app_pkg_name, user_id) VALUES (".toList =
        some (.blank, (insertWith ts pkg).take 14) := by
    show _ = some (SqlText.Mode.blank, [word "INSERT", word "OR", word "IGNORE", word "INTO",
      word "scope", .symbol '(', word "mid", .symbol ',', word "app_pkg_name", .symbol ',',
      word "user_id", .symbol ')', word "VALUES", .symbol '('])
    decide +kernel
  have hspace : SqlText.run .blank [' '] = some (.blank, []) := rfl
  have htail : SqlText.run (.string pkg) "', 0);".toList =
      some (.blank, [.string pkg, .symbol ',', .number ['0'], .symbol ')', .symbol ';']) := rfl
  have hrun := run_trans hhead (run_trans hmid
    (run_trans hspace (run_trans (run_literal h) htail)))
  have htext : (Sql.insertScope mid pkg).text =
      "INSERT OR IGNORE INTO scope (mid, app_pkg_name, user_id) VALUES (".toList ++
        (mid ++ [','] ++ ([' '] ++ ('\'' :: pkg ++ "', 0);".toList))) := by
    have h1 : ", '".toList = [','] ++ ([' '] ++ ['\'']) := rfl
    unfold Sql.text
    rw [h1]
    simp only [List.append_assoc, List.cons_append, List.nil_append]
  rw [htext, hrun]
  simp [insertWith]

theorem run_deleteHead : SqlText.run .blank "DELETE FROM scope WHERE app_pkg_name=".toList =
    some (.blank, [word "DELETE", word "FROM", word "scope", word "WHERE", word "app_pkg_name",
      .symbol '=']) := by
  decide +kernel

theorem run_delete {pkg : Text} (h : '\'' ∉ pkg) :
    SqlText.run .blank (Sql.deleteScope pkg).text =
      some (.blank, deleteTokens pkg ++ [.symbol ';']) := by
  have htail : SqlText.run (.string pkg) "';".toList =
      some (.blank, [.string pkg, .symbol ';']) := rfl
  have hrun := run_trans run_deleteHead (run_trans (run_literal h) htail)
  have htext : (Sql.deleteScope pkg).text =
      "DELETE FROM scope WHERE app_pkg_name=".toList ++ ('\'' :: pkg ++ "';".toList) := by
    have h1 : "DELETE FROM scope WHERE app_pkg_name='".toList =
        "DELETE FROM scope WHERE app_pkg_name=".toList ++ ['\''] := by decide +kernel
    unfold Sql.text
    rw [h1]
    simp only [List.append_assoc, List.cons_append, List.nil_append]
  rw [htext, hrun]
  rfl

/-- The newline at the end of the body completes nothing. -/
theorem run_newline {t : Text} {toks : List Token}
    (h : SqlText.run .blank t = some (.blank, toks)) :
    SqlText.run .blank (t ++ ['\n']) = some (.blank, toks) := by
  have hline : SqlText.run .blank ['\n'] = some (.blank, []) := rfl
  rw [run_trans h hline, List.append_nil]

/-- What ends in the one semicolon is one statement. -/
theorem statements_of_run {t : Text} {toks : List Token}
    (h : SqlText.run .blank t = some (.blank, toks ++ [.symbol ';'])) (hne : toks ≠ [])
    (hsemi : Token.symbol ';' ∉ toks) : statements t = some [toks] := by
  unfold statements lex
  rw [h]
  show some (segments (.symbol ';') (toks ++ [.symbol ';'] ++ [])) = _
  rw [List.append_nil]
  unfold segments
  rw [List.splitOn_append_cons_self_of_not_mem hsemi]
  have hlast : ([] : List Token).splitOn (.symbol ';') = [[]] := rfl
  rw [hlast]
  simp [hne]

/-! ## What reaches sqlite3 -/

theorem pkgNameRe_char {pkg : Text} (h : pkgNameRe pkg = true) {c : Char} (hc : c ∈ pkg) :
    isLetter c = true ∨ isDigit c = true ∨ c = '.' ∨ c = '_' := by
  cases pkg with
  | nil => cases hc
  | cons d t =>
    unfold pkgNameRe at h
    simp only [Bool.and_eq_true, List.all_eq_true, Bool.or_eq_true, beq_iff_eq] at h
    obtain ⟨⟨hd, -⟩, ht⟩ := h
    rcases List.mem_cons.mp hc with rfl | hc
    · exact .inl hd
    · rcases ht c hc with ((h | h) | h) | h
      · exact .inl h
      · exact .inr (.inl h)
      · exact .inr (.inr (.inl h))
      · exact .inr (.inr (.inr h))

/-- What is no letter, no digit and neither of `.` and `_` does not occur. -/
theorem not_mem_pkg {pkg : Text} (h : pkgNameRe pkg = true) {c : Char}
    (hc : (isLetter c || isDigit c || c == '.' || c == '_') = false) : c ∉ pkg := by
  intro hmem
  have hin := pkgNameRe_char h hmem
  simp only [Bool.or_eq_false_iff, beq_eq_false_iff_ne] at hc
  obtain ⟨⟨⟨h1, h2⟩, h3⟩, h4⟩ := hc
  rcases hin with hin | hin | hin | hin
  · rw [h1] at hin
    cases hin
  · rw [h2] at hin
    cases hin
  · exact h3 hin
  · exact h4 hin

theorem newline_not_mem_posText (q : ℚ) : '\n' ∉ posText q := by
  intro h
  rcases (posText_numeral q).char h with h | h
  · revert h
    decide
  · revert h
    decide

theorem newline_not_mem_mid (mid : Number) : '\n' ∉ mid.toText := by
  match mid with
  | .nan => decide
  | .inf false => decide
  | .inf true => decide
  | .fin q =>
    show '\n' ∉ (if q < 0 then '-' :: posText (-q) else posText q)
    split
    · intro h
      rcases List.mem_cons.mp h with h | h
      · cases h
      · exact newline_not_mem_posText (-q) h
    · exact newline_not_mem_posText q

/-- A text that is read to one statement is sent as one. -/
theorem OneStatement.of_run {s : Sql} {toks : List Token} (hn : '\n' ∉ s.text)
    (hrun : SqlText.run .blank (s.text ++ ['\n']) = some (.blank, toks ++ [.symbol ';']))
    (hne : toks ≠ []) (hsemi : Token.symbol ';' ∉ toks) : OneStatement s toks := by
  refine ⟨s.text ++ ['\n'], parse_dbScript hn ?_, statements_of_run hrun hne hsemi⟩
  -- the delimiter would be a word, and no semicolon
  intro hd
  rw [hd] at hrun
  have hword : SqlText.run .blank ("__SQL__".toList ++ ['\n']) =
      some (.blank, [word "__SQL__"]) := by decide
  rw [hword] at hrun
  obtain ⟨-, htoks⟩ := Prod.mk.inj (Option.some.inj hrun)
  have hmem : Token.symbol ';' ∈ [word "__SQL__"] := by
    rw [htoks]
    exact List.mem_append_right _ List.mem_cons_self
  revert hmem
  decide

theorem semicolon_not_mem_mid (mid : Number) : Token.symbol ';' ∉ midTokens mid := by
  match mid with
  | .nan => decide
  | .inf false => decide
  | .inf true => decide
  | .fin q =>
    show _ ∉ (if q < 0 then _ else _)
    split <;> simp

theorem insert_oneStatement {pkg : Text} (h : pkgNameRe pkg = true) (mid : Number) :
    OneStatement (.insertScope mid.toText pkg) (insertTokens mid pkg) := by
  have hn : '\n' ∉ (Sql.insertScope mid.toText pkg).text := by
    unfold Sql.text
    have hpkg : '\n' ∉ pkg := not_mem_pkg h (by decide)
    have hmid := newline_not_mem_mid mid
    have hhead : '\n' ∉
        "INSERT OR IGNORE INTO scope (mid, app_pkg_name, user_id) VALUES (".toList := by
      decide +kernel
    have hcomma : '\n' ∉ ", '".toList := by decide
    have htail : '\n' ∉ "', 0);".toList := by decide
    simp only [List.mem_append, hhead, hmid, hcomma, hpkg, htail, or_self, not_false_eq_true]
  refine OneStatement.of_run hn
    (run_newline (run_insert (not_mem_pkg h (by decide)) (run_mid mid))) (by simp [insertTokens]) ?_
  have hmid := semicolon_not_mem_mid mid
  simp [insertTokens, hmid, word]

theorem delete_oneStatement {pkg : Text} (h : pkgNameRe pkg = true) :
    OneStatement (.deleteScope pkg) (deleteTokens pkg) := by
  have hn : '\n' ∉ (Sql.deleteScope pkg).text := by
    unfold Sql.text
    have hpkg : '\n' ∉ pkg := not_mem_pkg h (by decide)
    have hhead : '\n' ∉ "DELETE FROM scope WHERE app_pkg_name='".toList := by decide +kernel
    have htail : '\n' ∉ "';".toList := by decide
    simp only [List.mem_append, hhead, hpkg, htail, or_self, not_false_eq_true]
  refine OneStatement.of_run hn (run_newline (run_delete (not_mem_pkg h (by decide))))
    (by simp [deleteTokens]) ?_
  simp [deleteTokens, word]

/-- In whatever world: the request is answered 400 and nothing is sent to the device. -/
def Refuses (x : Handler Unit) : Prop :=
  ∀ {σ : Type} (world : Async.World Call.Answer σ) (s : σ),
    x.calls world s = [] ∧ (x.run world s).sent.map (·.status) = [400]

theorem refuses_error {E : Engine} {msg : String} : Refuses (resJson E 400 (errorBody msg)) := by
  intro σ world s
  have hd : (errorBody msg).depth ≤ E.jsonDepth := (depth_errorBody msg).trans E.shallow
  unfold resJson
  rw [if_pos hd]
  exact ⟨rfl, rfl⟩

/-- The mid that the lookup gives in a world, if it finds the module. -/
def midFound {σ : Type} (world : Async.World Call.Answer σ) (s : σ) : Option Number :=
  ((world (.dbExec .selectModule) s).1.bind modOfResult).map (·.mid)

theorem add_calls {E : Engine} {body : JsVal} {pkg : Text} (h : acceptedPkg E body = some pkg)
    {σ : Type} (world : Async.World Call.Answer σ) (s : σ) :
    (add E body).calls world s = .dbExec .selectModule ::
      (midFound world s).toList.map fun mid => .dbExec (.insertScope mid.toText pkg) := by
  rw [add_valid h, Async.calls_await]
  unfold midFound
  congr 1
  rcases hw : world (.dbExec .selectModule) s with ⟨answer, s'⟩
  cases answer with
  | none => rfl
  | some r =>
    simp only [Option.bind_some]
    cases modOfResult r with
    | none => exact calls_resJson
    | some mod =>
      rw [Async.calls_await]
      show _ = [Call.dbExec (.insertScope mod.mid.toText pkg)]
      congr 1
      split
      · exact calls_resJson
      · rfl

theorem remove_calls {E : Engine} {body : JsVal} {pkg : Text} (h : acceptedPkg E body = some pkg)
    {σ : Type} (world : Async.World Call.Answer σ) (s : σ) :
    (remove E body).calls world s = [.dbExec (.deleteScope pkg)] := by
  rw [remove_valid h, Async.calls_await]
  congr 1
  split
  · exact calls_resJson
  · rfl

/-- In whatever world: the two requests send their lookup and their statement and nothing else, and
each statement arrives as one, with `pkg` in its literal. -/
structure SendsLiteral (E : Engine) (body : JsVal) (pkg : Text) : Prop where
  remove : ∀ {σ : Type} (world : Async.World Call.Answer σ) (s : σ),
    (remove E body).calls world s = [.dbExec (.deleteScope pkg)]
  add : ∀ {σ : Type} (world : Async.World Call.Answer σ) (s : σ),
    (add E body).calls world s = .dbExec .selectModule ::
      (midFound world s).toList.map fun mid => .dbExec (.insertScope mid.toText pkg)
  delete : OneStatement (.deleteScope pkg) (deleteTokens pkg)
  insert : ∀ mid : Number, OneStatement (.insertScope mid.toText pkg) (insertTokens mid pkg)

/-- **No accepted package name gets out of its literal.**  A `pkg` with the text `t` is refused, or
`t` is the value of the literal of every statement that is sent for it. -/
theorem scope_scripts (E : Engine) (body : JsVal) (t : Text)
    (ht : (body.get "pkg").toStr E.joinDepth = some t) :
    Refuses (add E body) ∧ Refuses (remove E body) ∨ SendsLiteral E body t := by
  obtain ⟨u, hu⟩ : ∃ u, pkgText E body = some u := by
    unfold pkgText JsVal.or
    split
    · exact ⟨t, ht⟩
    · exact ⟨[], rfl⟩
  cases hre : pkgNameRe u with
  | false =>
    left
    rw [add_invalid hu hre, remove_invalid hu hre]
    exact ⟨refuses_error, refuses_error⟩
  | true =>
    right
    have hacc : acceptedPkg E body = some u := acceptedPkg_eq_some.mpr ⟨hu, hre⟩
    -- the text that was tested is the one that is sent
    have hut : u = t := Option.some.inj ((toStr_pkg hacc).symm.trans ht)
    subst hut
    exact ⟨remove_calls hacc, add_calls hacc, delete_oneStatement hre, insert_oneStatement hre⟩

/-- Arrays are accepted for their texts. -/
def nestedBody : JsVal := jsObj [("pkg", .arr [.arr [.str "com.app".toList]])]

theorem scope_scripts_nested : SendsLiteral ⟨2, 4, le_rfl⟩ nestedBody "com.app".toList := by
  refine (scope_scripts ⟨2, 4, le_rfl⟩ nestedBody _ rfl).resolve_left fun hno => ?_
  have hacc : acceptedPkg ⟨2, 4, le_rfl⟩ nestedBody = some "com.app".toList := by decide
  have hcalls := (hno.2 (fun _ s => (none, s)) ()).1
  rw [remove_calls hacc] at hcalls
  cases hcalls

end HeadlessAndroid.Scope
