import HeadlessAndroid.ScopeScript
import HeadlessAndroid.ScopeWrites

/-!
# HeadlessAndroid.ScopeSh — scripts/scope.sh beside /api/scope

The script writes to the same two tables with statements of its own.  Two databases that start alike
and take the same adds and removes, each from its own front end, stay alike just when no step is one
that the front ends take differently (`frontEnds_agree_iff`).
-/

namespace HeadlessAndroid.Scope

open Lib Lib.Js

/-! ## The script -/

/-- `USER_ID`, if it is not set. -/
def userId : ℤ := 0

/-- The statements of the script, with `MOD_PKG` as it is if it is not set. -/
inductive ShSql where
  /-- `SELECT mid FROM modules WHERE module_pkg_name='${MOD_PKG}';` -/
  | selectMid
  /-- `INSERT OR IGNORE INTO scope (mid, app_pkg_name, user_id) VALUES (${mid}, '${target}', ${USER_ID});` -/
  | insert (mid target : Text)
  /-- `DELETE FROM scope WHERE app_pkg_name='${target}' AND user_id=${USER_ID};` -/
  | delete (target : Text)

def ShSql.text : ShSql → Text
  | .selectMid => "SELECT mid FROM modules WHERE module_pkg_name='".toList ++ modulePkg ++ "';".toList
  | .insert mid target =>
    "INSERT OR IGNORE INTO scope (mid, app_pkg_name, user_id) VALUES (".toList ++ mid ++
      ", '".toList ++ target ++ "', ".toList ++ intText userId ++ ");".toList
  | .delete target =>
    "DELETE FROM scope WHERE app_pkg_name='".toList ++ target ++ "' AND user_id=".toList ++
      intText userId ++ ";".toList

def Db.deleteUser (db : Db) (pkg : Text) (user : ℤ) : Db where
  modules := db.modules
  scope := db.scope.filter fun row => ¬(row.pkg = pkg ∧ row.userId = user)
  mids_nodup := db.mids_nodup
  pkgs_nodup := db.pkgs_nodup
  scope_nodup := db.scope_nodup.filter _

def Db.afterSh (db : Db) : ShSql → Option Db
  | .selectMid => some db
  | .insert mid target => (sqlNumber mid).map fun q => db.insertRow ⟨q, target, userId⟩
  | .delete target => some (db.deleteUser target userId)

def Db.rowsSh (db : Db) : ShSql → List Text
  | .selectMid => db.moduleRow.toList.map fun row => intText row.mid
  | _ => []

/-- `$(... | tr -d '\r')`: no carriage returns, and no newlines at the end. -/
def substitution (t : Text) : Text :=
  ((t.filter (· ≠ '\r')).reverse.dropWhile (· = '\n')).reverse

/-- What `sql` has the shell of the device run. -/
def shCommand (stmt : Text) : Text :=
  "su -c \"sqlite3 ".toList ++ dbPath ++ " \\\"".toList ++ (stmt ++ "\\\"\"".toList)

/-- The statement that sqlite3 gets of a command line for the device: the shell of the device runs
`su -c`, and the shell of `su` runs sqlite3. -/
def reached (cmd : Text) : Option Text :=
  match Shell.parse (cmd ++ ['\n']) with
  | some [⟨[su, c, inner], []⟩] =>
    if su = "su".toList ∧ c = "-c".toList then
      match Shell.parse (inner ++ ['\n']) with
      | some [⟨[sqlite3, path, stmt], []⟩] =>
        if sqlite3 = "sqlite3".toList ∧ path = dbPath then some stmt else none
      | _ => none
    else none
  | _ => none

/-- `sql`, where the call of sqlite3 succeeds.  The statement is run if it gets there as it is; with
an accepted name it always does (`shSql_delivered`), and what others do is no part of this. -/
def Db.sql (db : Db) (stmt : ShSql) : Db × List Text :=
  if reached (shCommand stmt.text) = some stmt.text then
    ((db.afterSh stmt).getD db, db.rowsSh stmt)
  else (db, [])

/-- `cmd_add`, where the calls of sqlite3 succeed. -/
def cmdAdd (db : Db) (target : Text) : Db :=
  if target = [] then db
  else
    let mid := substitution (unlines (db.sql .selectMid).2)
    if mid = [] then db else (db.sql (.insert mid target)).1

/-- `cmd_remove`, likewise. -/
def cmdRemove (db : Db) (target : Text) : Db :=
  if target = [] then db else (db.sql (.delete target)).1

/-- Where the shell of the device is when the statement begins. -/
def inSuWord : Shell.Reader where
  mode := .word ⟨"sqlite3 ".toList ++ dbPath ++ " \"".toList, .double, true⟩
  words := ["su".toList, "-c".toList]

/-- Where the shell of `su` is when the statement begins. -/
def inStatement : Shell.Reader where
  mode := .word ⟨[], .double, true⟩
  words := ["sqlite3".toList, dbPath]

/-- Both shells leave the statement alone: the outer one runs `su -c` and the inner one sqlite3. -/
def Delivered (stmt : Text) : Prop :=
  ∃ inner, Shell.parse (shCommand stmt ++ ['\n']) =
      some [⟨["su".toList, "-c".toList, inner], []⟩] ∧
    Shell.parse (inner ++ ['\n']) = some [⟨["sqlite3".toList, dbPath, stmt], []⟩]

theorem Delivered.sql_eq {stmt : ShSql} (h : Delivered stmt.text) (db : Db) :
    db.sql stmt = ((db.afterSh stmt).getD db, db.rowsSh stmt) := by
  obtain ⟨inner, houter, hinner⟩ := h
  have hreached : reached (shCommand stmt.text) = some stmt.text := by
    simp [reached, houter, hinner]
  unfold Db.sql
  rw [if_pos hreached]

/-- What shells know in double quotes. -/
def inDoubleQuotes : Text := ['"', '\\', '$', '\u0060']

theorem delivered_of_clean {stmt : Text} (h : ∀ c ∈ stmt, c ∉ inDoubleQuotes) :
    Delivered stmt := by
  refine ⟨"sqlite3 ".toList ++ dbPath ++ " \"".toList ++ stmt ++ ['"'], ?_, ?_⟩
  · have hprefix : Shell.Reader.run {} ("su -c \"sqlite3 ".toList ++ dbPath ++ " \\\"".toList) =
        some inSuWord := by decide +kernel
    have hstmt := Shell.Reader.run_double (r := inSuWord) rfl rfl h
    unfold Shell.parse shCommand
    rw [List.append_assoc, Shell.Reader.run_append hprefix, List.append_assoc,
      Shell.Reader.run_append hstmt]
    rfl
  · have hprefix : Shell.Reader.run {} ("sqlite3 ".toList ++ dbPath ++ " \"".toList) =
        some inStatement := by decide +kernel
    have hstmt := Shell.Reader.run_double (r := inStatement) rfl rfl h
    unfold Shell.parse
    rw [List.append_assoc, List.append_assoc, Shell.Reader.run_append hprefix,
      Shell.Reader.run_append hstmt]
    rfl

theorem clean_of_all {t : Text} (h : (t.all fun c => !inDoubleQuotes.contains c) = true) :
    ∀ c ∈ t, c ∉ inDoubleQuotes := by
  intro c hc hd
  have hno := List.all_eq_true.mp h c hc
  rw [List.contains_iff_mem.mpr hd] at hno
  cases hno

theorem clean_append {a b : Text} (ha : ∀ c ∈ a, c ∉ inDoubleQuotes)
    (hb : ∀ c ∈ b, c ∉ inDoubleQuotes) : ∀ c ∈ a ++ b, c ∉ inDoubleQuotes :=
  fun c hc => (List.mem_append.mp hc).elim (ha c) (hb c)

theorem clean_pkg {pkg : Text} (h : pkgNameRe pkg = true) : ∀ c ∈ pkg, c ∉ inDoubleQuotes := by
  intro c hc hd
  have hno : ∀ d ∈ inDoubleQuotes, (isLetter d || isDigit d || d == '.' || d == '_') = false :=
    fun d hd => by simpa using List.all_eq_true.mp (show (inDoubleQuotes.all fun d =>
      !(isLetter d || isDigit d || d == '.' || d == '_')) = true by decide) d hd
  exact not_mem_pkg h (hno c hd) hc

theorem clean_intText (n : ℤ) : ∀ c ∈ intText n, c ∉ inDoubleQuotes := by
  intro c hc hd
  have hno : ∀ d ∈ inDoubleQuotes, d ≠ '-' ∧ isDigit d = false :=
    fun d hd => by simpa using List.all_eq_true.mp (show (inDoubleQuotes.all fun d =>
      d != '-' && !isDigit d) = true by decide) d hd
  obtain ⟨h1, h2⟩ := hno c hd
  rcases intText_char hc with h | h
  · exact h1 h
  · rw [h2] at h
    cases h

/-- **The statements of the script reach sqlite3 as they are**, of any accepted name and any mid. -/
theorem shSql_delivered {pkg : Text} (h : pkgNameRe pkg = true) (m : ℤ) :
    Delivered ShSql.selectMid.text ∧ Delivered (ShSql.insert (intText m) pkg).text ∧
      Delivered (ShSql.delete pkg).text := by
  have hpkg := clean_pkg h
  refine ⟨delivered_of_clean (clean_of_all (by decide)), delivered_of_clean ?_, delivered_of_clean ?_⟩
  · refine clean_append (clean_append (clean_append (clean_append (clean_append (clean_append
      ?_ (clean_intText m)) ?_) hpkg) ?_) (clean_intText userId)) ?_
    · exact clean_of_all (by decide +kernel)
    · exact clean_of_all (by decide)
    · exact clean_of_all (by decide)
    · exact clean_of_all (by decide)
  · refine clean_append (clean_append (clean_append (clean_append ?_ hpkg) ?_)
      (clean_intText userId)) ?_
    · exact clean_of_all (by decide +kernel)
    · exact clean_of_all (by decide +kernel)
    · exact clean_of_all (by decide)

/-! ## What an add and a remove do -/

/-- The row of `pkg` for a mid, if there is one, or nothing. -/
def Db.insertMid (db : Db) (pkg : Text) : Option ℚ → Db
  | some q => db.insertRow ⟨q, pkg, 0⟩
  | none => db

theorem Db.ext_tables {a b : Db} (hm : a.modules = b.modules) (hs : a.scope = b.scope) : a = b := by
  cases a
  cases b
  cases hm
  cases hs
  rfl

theorem insertMid_of_mem {db : Db} {pkg : Text} {o : Option ℚ}
    (h : ∀ q, o = some q → ⟨q, pkg, 0⟩ ∈ db.scope) : db.insertMid pkg o = db := by
  cases o with
  | none => rfl
  | some q =>
    refine Db.ext_tables rfl ?_
    show (if _ ∈ db.scope then db.scope else _) = db.scope
    rw [if_pos (h q rfl)]

theorem mem_insertMid {db : Db} {pkg : Text} {o : Option ℚ} {row : ScopeRow} :
    row ∈ (db.insertMid pkg o).scope ↔ row ∈ db.scope ∨ ∃ q, o = some q ∧ row = ⟨q, pkg, 0⟩ := by
  cases o with
  | none => simp [Db.insertMid]
  | some q => simp [Db.insertMid, mem_insertRow]

/-- Two mids give the same table just when they give the same new row. -/
theorem insertMid_eq_iff {db : Db} {pkg : Text} {o o' : Option ℚ} :
    db.insertMid pkg o = db.insertMid pkg o' ↔
      ∀ q, ⟨q, pkg, 0⟩ ∉ db.scope → (o = some q ↔ o' = some q) := by
  have hnew : ∀ {a b : Option ℚ} {q : ℚ}, db.insertMid pkg a = db.insertMid pkg b →
      ⟨q, pkg, 0⟩ ∉ db.scope → a = some q → b = some q := by
    intro a b q heq hq ha
    have hmem : ⟨q, pkg, 0⟩ ∈ (db.insertMid pkg a).scope := mem_insertMid.mpr (.inr ⟨q, ha, rfl⟩)
    rw [heq] at hmem
    rcases mem_insertMid.mp hmem with hmem | ⟨q', hb, hrow⟩
    · exact absurd hmem hq
    · obtain rfl : q = q' := congrArg ScopeRow.mid hrow
      exact hb
  constructor
  · exact fun heq q hq => ⟨hnew heq hq, hnew heq.symm hq⟩
  · intro h
    by_cases hex : ∃ q, ⟨q, pkg, 0⟩ ∉ db.scope ∧ o = some q
    · obtain ⟨q, hq, rfl⟩ := hex
      rw [(h q hq).mp rfl]
    · have ho : ∀ q, o = some q → ⟨q, pkg, 0⟩ ∈ db.scope := by
        intro q hq
        by_contra hmem
        exact hex ⟨q, hmem, hq⟩
      have ho' : ∀ q, o' = some q → ⟨q, pkg, 0⟩ ∈ db.scope := by
        intro q hq
        by_contra hmem
        exact hex ⟨q, hmem, (h q hmem).mpr hq⟩
      rw [insertMid_of_mem ho, insertMid_of_mem ho']

/-- The mid that `/add` writes: it has been a JavaScript number on its way. -/
def restMid (db : Db) : Option ℚ :=
  db.moduleMid.bind fun m => sqlNumber (Number.ofText (intText m)).toText

/-- The mid that the script writes. -/
def shMid (db : Db) : Option ℚ := db.moduleMid.bind fun m => sqlNumber (intText m)

/-- A name that `PKG_NAME_RE` accepts. -/
abbrev PkgName := { pkg : Text // pkgNameRe pkg = true }

theorem PkgName.ne_nil (p : PkgName) : p.1 ≠ [] := by
  obtain ⟨pkg, h⟩ := p
  rintro rfl
  cases h

def pkgJson (p : PkgName) : JsVal := jsObj [("pkg", .str p.1)]

theorem get_pkgJson (p : PkgName) : (pkgJson p).get "pkg" = .str p.1 := by
  show (List.lookup "pkg".toList [("pkg".toList, JsVal.str p.1)]).getD .undefined = _
  rw [List.lookup_cons]
  rfl

theorem acceptedPkg_json (E : Engine) (p : PkgName) : acceptedPkg E (pkgJson p) = some p.1 := by
  refine acceptedPkg_eq_some.mpr ⟨?_, p.2⟩
  have htruthy : (JsVal.str p.1).truthy = true := by
    show (!p.1.isEmpty) = true
    simp [p.ne_nil]
  unfold pkgText JsVal.or
  rw [get_pkgJson, if_pos htruthy]
  rfl

/-- `/add` and `/remove`, where every call succeeds. -/
def restAdd (E : Engine) (db : Db) (p : PkgName) : Db :=
  (serve E db { req := .add (pkgJson p) }).state

def restRemove (E : Engine) (db : Db) (p : PkgName) : Db :=
  (serve E db { req := .remove (pkgJson p) }).state

theorem restAdd_eq (E : Engine) (db : Db) (p : PkgName) :
    restAdd E db p = db.insertMid p.1 (restMid db) := by
  have hsent : sentSql E db { req := .add (pkgJson p) } =
      db.moduleMid.map fun m => .insertScope (Number.ofText (intText m)).toText p.1 := by
    show ((acceptedPkg E (pkgJson p)).bind fun q => (midRead db _).map fun t => Sql.insertScope t q) = _
    rw [acceptedPkg_json, Option.bind_some, midRead_eq rfl, Option.map_map]
    rfl
  unfold restAdd restMid
  cases hm : db.moduleMid with
  | none =>
    rw [hm] at hsent
    rw [(serve_of_none hsent).1]
    rfl
  | some m =>
    rw [hm] at hsent
    rw [(serve_of_some hsent).1, sqlite_state]
    show ((sqlNumber _).map fun q => db.insertRow ⟨q, p.1, 0⟩).getD db = _
    rw [Option.bind_some]
    cases sqlNumber (Number.ofText (intText m)).toText with
    | none => rfl
    | some q => rfl

theorem restRemove_eq (E : Engine) (db : Db) (p : PkgName) :
    restRemove E db p = db.deletePkg p.1 := by
  have hsent : sentSql E db { req := .remove (pkgJson p) } = some (.deleteScope p.1) := by
    show (acceptedPkg E (pkgJson p)).map Sql.deleteScope = _
    rw [acceptedPkg_json]
    rfl
  unfold restRemove
  rw [(serve_of_some hsent).1, sqlite_state]
  rfl

theorem substitution_line {t : Text} (h : ∀ c ∈ t, isSpace c = false) :
    substitution (t ++ ['\n']) = t := by
  have hcr : ∀ c ∈ t, c ≠ '\r' ∧ c ≠ '\n' := by
    intro c hc
    constructor
    · rintro rfl
      have := h '\r' hc
      revert this
      decide
    · rintro rfl
      have := h '\n' hc
      revert this
      decide
  have hfilter : (t ++ ['\n']).filter (· ≠ '\r') = t ++ ['\n'] := by
    refine List.filter_eq_self.mpr fun c hc => ?_
    rcases List.mem_append.mp hc with hc | hc
    · simpa using (hcr c hc).1
    · rw [List.mem_singleton.mp hc]
      decide
  have hdrop : (t.reverse).dropWhile (· = '\n') = t.reverse := by
    cases hr : t.reverse with
    | nil => rfl
    | cons c u =>
      have hc : c ∈ t := by
        rw [← List.mem_reverse, hr]
        exact List.mem_cons_self
      rw [List.dropWhile_cons_of_neg (by simpa using (hcr c hc).2)]
  unfold substitution
  rw [hfilter, List.reverse_append, List.reverse_singleton, List.singleton_append,
    List.dropWhile_cons_of_pos (by decide), hdrop, List.reverse_reverse]

theorem cmdAdd_eq (db : Db) (p : PkgName) : cmdAdd db p.1 = db.insertMid p.1 (shMid db) := by
  unfold cmdAdd
  rw [if_neg p.ne_nil, (shSql_delivered p.2 0).1.sql_eq]
  unfold shMid Db.rowsSh Db.moduleMid
  cases hrow : db.moduleRow with
  | none => rfl
  | some row =>
    have hmid : substitution (unlines ((some row).toList.map fun row => intText row.mid)) =
        intText row.mid := by
      show substitution ((intText row.mid ++ ['\n']) ++ []) = _
      rw [List.append_nil]
      exact substitution_line fun c hc => isSpace_intText hc
    have hne : intText row.mid ≠ [] := by
      rcases int_cases row.mid with ⟨k, hk⟩ | ⟨k, hpos, hk⟩
      · rw [hk, intText_natCast]
        exact natText_ne_nil k
      · rw [hk, intText_neg hpos]
        exact List.cons_ne_nil _ _
    show (if substitution _ = [] then db else _) = _
    rw [hmid, if_neg hne, (shSql_delivered p.2 row.mid).2.1.sql_eq]
    show ((sqlNumber (intText row.mid)).map fun q => db.insertRow ⟨q, p.1, userId⟩).getD db =
      db.insertMid p.1 (sqlNumber (intText row.mid))
    cases sqlNumber (intText row.mid) with
    | none => rfl
    | some q => rfl

theorem cmdRemove_eq (db : Db) (p : PkgName) : cmdRemove db p.1 = db.deleteUser p.1 userId := by
  unfold cmdRemove
  rw [if_neg p.ne_nil, (shSql_delivered p.2 0).2.2.sql_eq]
  rfl

/-- The two `DELETE`s do the same just when every row of the package is one of user 0. -/
theorem delete_eq_iff {db : Db} {pkg : Text} :
    db.deletePkg pkg = db.deleteUser pkg userId ↔
      ∀ row ∈ db.scope, row.pkg = pkg → row.userId = userId := by
  constructor
  · intro heq row hrow hp
    by_contra hu
    have hin : row ∈ (db.deleteUser pkg userId).scope :=
      List.mem_filter.mpr ⟨hrow, by simp [hu]⟩
    rw [← heq] at hin
    have hout := (List.mem_filter.mp hin).2
    simp [hp] at hout
  · intro h
    refine Db.ext_tables rfl (List.filter_congr fun row hrow => ?_)
    by_cases hp : row.pkg = pkg
    · simp [hp, h row hrow hp]
    · simp [hp]

/-! ## Two databases side by side -/

inductive FrontEnd where
  | rest
  | script
  deriving DecidableEq

inductive ScopeOp where
  | add
  | remove
  deriving DecidableEq

/-- A step, and the front ends that perform it on the two databases. -/
structure TwinStep where
  op : ScopeOp
  pkg : PkgName
  fst : FrontEnd
  snd : FrontEnd

def perform (E : Engine) (db : Db) (p : PkgName) : ScopeOp → FrontEnd → Db
  | .add, .rest => restAdd E db p
  | .add, .script => cmdAdd db p.1
  | .remove, .rest => restRemove E db p
  | .remove, .script => cmdRemove db p.1

def twins (E : Engine) : StepSystem (Db × Db) TwinStep where
  step s e := some (perform E s.1 e.pkg e.op e.fst, perform E s.2 e.pkg e.op e.snd)

def Same (s : Db × Db) : Prop := s.1 = s.2

/-- What the step does to a database does not depend on the front end: every row of the package that
is removed is one of user 0; a row that is added has the same mid either way. -/
def EitherWay (db : Db) (p : PkgName) : ScopeOp → Prop
  | .add => ∀ q, ⟨q, p.1, 0⟩ ∉ db.scope → (restMid db = some q ↔ shMid db = some q)
  | .remove => ∀ row ∈ db.scope, row.pkg = p.1 → row.userId = userId

theorem perform_eq_iff (E : Engine) (db : Db) (p : PkgName) (op : ScopeOp) :
    perform E db p op .rest = perform E db p op .script ↔ EitherWay db p op := by
  cases op with
  | add =>
    show restAdd E db p = cmdAdd db p.1 ↔ _
    rw [restAdd_eq, cmdAdd_eq]
    exact insertMid_eq_iff
  | remove =>
    show restRemove E db p = cmdRemove db p.1 ↔ _
    rw [restRemove_eq, cmdRemove_eq]
    exact delete_eq_iff

/-- The step is performed by one front end, or it does not matter by which. -/
def Alike (s : Db × Db) (e : TwinStep) : Prop := e.fst = e.snd ∨ EitherWay s.1 e.pkg e.op

theorem twins_step {E : Engine} {s s' : Db × Db} {e : TwinStep} (hs : Same s)
    (h : (twins E).step s e = some s') : Same s' ↔ Alike s e := by
  obtain ⟨db, db'⟩ := s
  obtain rfl : db = db' := hs
  obtain ⟨op, p, fst, snd⟩ := e
  cases h
  show perform E db p op fst = perform E db p op snd ↔ fst = snd ∨ EitherWay db p op
  by_cases hf : fst = snd
  · subst hf
    exact iff_of_true rfl (.inl rfl)
  · rw [or_iff_right hf, ← perform_eq_iff E]
    cases fst with
    | rest =>
      cases snd with
      | rest => exact absurd rfl hf
      | script => exact Iff.rfl
    | script =>
      cases snd with
      | rest => exact eq_comm
      | script => exact absurd rfl hf

/-- An add is alike where the mid fits 53 bits. -/
theorem eitherWay_add {db : Db} {m : ℤ} (hm : db.moduleMid = some m) (hbits : |m| ≤ 2 ^ 53)
    (p : PkgName) : EitherWay db p .add := by
  have hmid : restMid db = shMid db := by
    unfold restMid shMid
    rw [hm, Option.bind_some, Option.bind_some, Number.ofText_intText hbits,
      Number.toText_intCast hbits]
  intro q _
  rw [hmid]

/-- **The front ends of any sequence of adds and removes can be exchanged just when each step is
alike.**  An add is, where the mid fits 53 bits. -/
theorem frontEnds_agree_iff (E : Engine) (db : Db) (evs : List TwinStep) :
    ((twins E).Always Same (db, db) evs ↔ (twins E).EachStep Alike (db, db) evs) ∧
    ∀ (s : Db × Db) (e : TwinStep) (m : ℤ), e.op = .add → s.1.moduleMid = some m →
      |m| ≤ 2 ^ 53 → Alike s e :=
  ⟨StepSystem.always_iff_eachStep (I := fun _ => True) (fun _ _ _ _ _ => trivial)
    (fun _ _ _ _ hs h => twins_step hs h) trivial rfl,
    fun _ e _ ha hm hbits => Or.inr (ha ▸ eitherWay_add hm hbits e.pkg)⟩

/-- An app in the scope of two users. -/
def twoUsers : Db where
  __ := oneModule
  scope := [⟨1, "com.app".toList, 0⟩, ⟨1, "com.app".toList, 10⟩]
  scope_nodup := by decide

/-- `/remove` takes the app from both users, the script from the first. -/
theorem remove_differs : twoUsers.moduleMid = some 1 ∧
    ¬(twins flatEngine).Always Same (twoUsers, twoUsers)
      [⟨.remove, ⟨"com.app".toList, by decide⟩, .rest, .script⟩] := by
  refine ⟨by decide +kernel, fun h => ?_⟩
  have hstep : (twins flatEngine).step (twoUsers, twoUsers)
      ⟨.remove, ⟨"com.app".toList, by decide⟩, .rest, .script⟩ =
        some (perform flatEngine twoUsers ⟨"com.app".toList, by decide⟩ .remove .rest,
          perform flatEngine twoUsers ⟨"com.app".toList, by decide⟩ .remove .script) := rfl
  have hsame : Same (twoUsers, twoUsers) := rfl
  rcases (twins_step hsame hstep).mp (h.2 _ hstep).head with hfront | huser
  · cases hfront
  · cases huser ⟨1, "com.app".toList, 10⟩ (by decide) rfl

end HeadlessAndroid.Scope
