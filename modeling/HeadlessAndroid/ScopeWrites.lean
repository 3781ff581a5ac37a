import HeadlessAndroid.Lib.StepSystem
import HeadlessAndroid.ScopeRoutes

/-!
# HeadlessAndroid.ScopeWrites — what the POST handlers of /api/scope do to the database

Requests come one after the other, each with the outcome of the calls it makes.  The handlers ignore
the result of the statement that writes (`scope_truthful_iff`), and `/remove` deletes the rows of
every module (`scope_frame_iff`).
-/

namespace HeadlessAndroid.Scope

open Lib Lib.Js

/-- How a call of `dbExec` ends. -/
inductive SqlOutcome where
  /-- sqlite3 gets the statement and exits. -/
  | ran
  /-- adb, su or sqlite3 end without having applied anything. -/
  | exited (code : ℤ) (stdout stderr : Text)
  /-- The timer kills adb, before or after the statement was applied. -/
  | killed (applied : Bool) (stdout stderr : Text)

def SqlOutcome.applies : SqlOutcome → Bool
  | .ran => true
  | .exited _ _ _ => false
  | .killed applied _ _ => applied

def unlines (ls : List Text) : Text := ls.flatMap fun l => l ++ ['\n']

/-- The result of `dbExec` and the database after it. -/
def sqlite (o : SqlOutcome) (db : Db) (s : Sql) : AdbResult × Db :=
  match o with
  | .ran =>
    match db.after s with
    | some db' => (adbClose (some 0) false (unlines (db.rows s)) [], db')
    | none => (adbClose (some 1) false [] "no such column".toList, db)
  | .exited code stdout stderr => (adbClose (some code) false stdout stderr, db)
  | .killed applied stdout stderr =>
    (adbClose none true stdout stderr, if applied then (db.after s).getD db else db)

inductive ScopeRequest where
  | add (body : JsVal)
  | remove (body : JsVal)
  | enable (body : JsVal)

def handler (E : Engine) : ScopeRequest → Handler Unit
  | .add body => add E body
  | .remove body => remove E body
  | .enable body => enable E body

/-- A request, how its module lookup ends and how its statement ends. -/
structure ScopeEvent where
  req : ScopeRequest
  lookup : SqlOutcome := .ran
  stmt : SqlOutcome := .ran

/-- The device as the request finds it: only the database is asked. -/
def scopeWorld (e : ScopeEvent) : Async.World Call.Answer Db
  | .dbExec .selectModule, db => ((sqlite e.lookup db .selectModule).1, (sqlite e.lookup db .selectModule).2)
  | .dbExec s, db => ((sqlite e.stmt db s).1, (sqlite e.stmt db s).2)
  | .adb _, db => (none, db)
  | .emuCommand _, db => (none, db)

def serve (E : Engine) (db : Db) (e : ScopeEvent) : Async.Ended Db Response Unit :=
  (handler E e.req).run (scopeWorld e) db

def scopeSystem (E : Engine) : StepSystem Db ScopeEvent where
  step db e := some (serve E db e).state

/-! ## The statement of a request -/

/-- The mid that `/add` puts into its statement, if the lookup gives one. -/
def midRead (db : Db) (e : ScopeEvent) : Option Text :=
  (modOfResult (sqlite e.lookup db .selectModule).1).map fun mod => mod.mid.toText

/-- The statement that a request sends to change the database, if it gets that far. -/
def sentSql (E : Engine) (db : Db) (e : ScopeEvent) : Option Sql :=
  match e.req with
  | .add body => (acceptedPkg E body).bind fun p => (midRead db e).map fun t => .insertScope t p
  | .remove body => (acceptedPkg E body).map .deleteScope
  | .enable body => some (.updateEnabled (body.get "enabled").truthy)

/-- What a request is answered after its statement. -/
def okBody : ScopeRequest → JsVal
  | .add body => okPkg body
  | .remove body => okPkg body
  | .enable body => jsObj [("ok", .bool true), ("enabled", .bool (body.get "enabled").truthy)]

/-- The answer does not nest too deep to be written as JSON. -/
def Echoes (E : Engine) (req : ScopeRequest) : Prop := (okBody req).depth ≤ E.jsonDepth

def AnswersOk (e : Async.Ended Db Response Unit) : Prop :=
  ∃ r ∈ e.sent, r.body.get "ok" = .bool true

theorem sqlite_state (o : SqlOutcome) (db : Db) (s : Sql) :
    (sqlite o db s).2 = if o.applies then (db.after s).getD db else db := by
  cases o with
  | ran =>
    unfold sqlite SqlOutcome.applies
    cases h : db.after s with
    | none => simp
    | some db' => simp
  | exited code out err => simp [sqlite, SqlOutcome.applies]
  | killed applied out err => cases applied <;> simp [sqlite, SqlOutcome.applies]

theorem sqlite_lookup_state (o : SqlOutcome) (db : Db) : (sqlite o db .selectModule).2 = db := by
  rw [sqlite_state]
  simp [Db.after]

theorem sqlite_read_state (o : SqlOutcome) (db : Db) (t : Text) :
    (sqlite o db (.selectScope t)).2 = db := by
  rw [sqlite_state]
  cases h : sqlNumber t <;> simp [Db.after, h]

theorem not_answersOk_error {status : ℕ} {msg : String} {db : Db} :
    ¬ AnswersOk ⟨some (), [⟨status, errorBody msg⟩], db⟩ := by
  rintro ⟨r, hr, hok⟩
  rw [List.mem_singleton] at hr
  subst hr
  have hget : (errorBody msg).get "ok" = .bool false := rfl
  rw [hget] at hok
  cases hok

theorem okBody_get (req : ScopeRequest) : (okBody req).get "ok" = .bool true := by
  cases req <;> rfl

/-- A request that sends no statement is not answered ok:true and changes nothing. -/
theorem serve_of_none {E : Engine} {db : Db} {e : ScopeEvent} (h : sentSql E db e = none) :
    (serve E db e).state = db ∧ ¬ AnswersOk (serve E db e) := by
  have hthrow : ¬ AnswersOk (⟨none, [], db⟩ : Async.Ended Db Response Unit) := by
    rintro ⟨r, hr, -⟩
    cases hr
  unfold sentSql at h
  unfold serve handler
  cases hreq : e.req with
  | enable body => simp [hreq] at h
  | remove body =>
    simp only [hreq, Option.map_eq_none_iff] at h
    cases ht : pkgText E body with
    | none => simp [remove_throw ht, hthrow]
    | some t =>
      have hre : pkgNameRe t = false := by
        by_contra hre
        have := acceptedPkg_eq_some.mpr ⟨ht, Bool.eq_true_of_not_eq_false hre⟩
        rw [h] at this
        cases this
      simp [remove_invalid ht hre, error_sends, not_answersOk_error]
  | add body =>
    simp only [hreq] at h
    cases ht : pkgText E body with
    | none => simp [add_throw ht, hthrow]
    | some t =>
      cases hre : pkgNameRe t with
      | false => simp [add_invalid ht hre, error_sends, not_answersOk_error]
      | true =>
        have hp := acceptedPkg_eq_some.mpr ⟨ht, hre⟩
        rw [hp, Option.bind_some, Option.map_eq_none_iff] at h
        unfold midRead at h
        rw [Option.map_eq_none_iff] at h
        simp [add_valid hp, Async.run, scopeWorld, h, error_sends, not_answersOk_error,
          sqlite_lookup_state]

/-- A request that sends its statement has the statement's effect, and is answered ok:true
whatever became of it. -/
theorem serve_of_some {E : Engine} {db : Db} {e : ScopeEvent} {s : Sql}
    (h : sentSql E db e = some s) :
    (serve E db e).state = (sqlite e.stmt db s).2 ∧ (AnswersOk (serve E db e) ↔ Echoes E e.req) := by
  have hend : ∀ db' : Db, ((resJson E 200 (okBody e.req)).run (scopeWorld e) db').state = db' ∧
      (AnswersOk ((resJson E 200 (okBody e.req)).run (scopeWorld e) db') ↔ Echoes E e.req) := by
    intro db'
    unfold resJson
    by_cases hd : (okBody e.req).depth ≤ E.jsonDepth
    · rw [if_pos hd]
      exact ⟨rfl, fun _ => hd, fun _ => ⟨_, List.mem_singleton.mpr rfl, okBody_get e.req⟩⟩
    · rw [if_neg hd]
      refine ⟨rfl, ?_, fun hd' => absurd hd' hd⟩
      rintro ⟨r, hr, -⟩
      cases hr
  unfold sentSql at h
  cases hreq : e.req with
  | enable body =>
    simp only [hreq, Option.some.injEq] at h
    subst h
    rw [hreq] at hend
    unfold serve handler
    simp only [hreq, enable_eq]
    exact hend _
  | remove body =>
    simp only [hreq, Option.map_eq_some_iff] at h
    obtain ⟨p, hp, rfl⟩ := h
    rw [hreq] at hend
    unfold serve handler
    simp only [hreq, remove_valid hp]
    exact hend _
  | add body =>
    simp only [hreq, Option.bind_eq_some_iff, Option.map_eq_some_iff] at h
    obtain ⟨p, hp, t, hm, rfl⟩ := h
    obtain ⟨mod, hmod, rfl⟩ := Option.map_eq_some_iff.mp hm
    rw [hreq] at hend
    unfold serve handler
    simp only [hreq, add_valid hp, Async.run, scopeWorld, hmod, sqlite_lookup_state]
    exact hend _

/-! ## Rows of other modules -/

/-- Is this the mid of `com.headless.mockloc`? -/
def Db.isOwn (db : Db) (mid : ℚ) : Bool := db.moduleMid.any fun m => mid = m

/-- The rows that are not those of `com.headless.mockloc` in `db₀` are the same in `db`. -/
structure Frame (db₀ db : Db) : Prop where
  scope : (db.scope.filter fun row => !db₀.isOwn row.mid) =
    db₀.scope.filter fun row => !db₀.isOwn row.mid
  modules : (db.modules.filter fun row => row.pkg ≠ modulePkg) =
    db₀.modules.filter fun row => row.pkg ≠ modulePkg

/-- The statement meets no row of another module: no such row has the package of a `DELETE`, and an
`INSERT` that makes a new row has the module's mid. -/
def MeetsOwn (db : Db) : Sql → Prop
  | .deleteScope p => ∀ row ∈ db.scope, row.pkg = p → db.isOwn row.mid = true
  | .insertScope t p => ∀ q, sqlNumber t = some q → ⟨q, p, 0⟩ ∉ db.scope → db.isOwn q = true
  | _ => True

/-- The statement of the request, if it is applied, meets no row of another module. -/
def OwnRowsOnly (E : Engine) (db : Db) (e : ScopeEvent) : Prop :=
  ∀ s, sentSql E db e = some s → e.stmt.applies = true → MeetsOwn db s

theorem moduleMid_setEnabled (db : Db) (flag : Bool) : (db.setEnabled flag).moduleMid = db.moduleMid := by
  unfold Db.moduleMid Db.moduleRow Db.setEnabled
  rw [List.find?_map, Option.map_map]
  have hp : ((fun row : ModuleRow => decide (row.pkg = modulePkg)) ∘ ModuleRow.setEnabled flag) =
      fun row => decide (row.pkg = modulePkg) := by
    funext row
    simp
  have hm : (fun row : ModuleRow => row.mid) ∘ ModuleRow.setEnabled flag = fun row => row.mid := by
    funext row
    simp
  rw [hp, hm]

theorem moduleMid_after {db db' : Db} {s : Sql} (h : db.after s = some db') :
    db'.moduleMid = db.moduleMid := by
  cases s with
  | selectModule => cases h; rfl
  | selectScope mid =>
    obtain ⟨q, -, rfl⟩ := Option.map_eq_some_iff.mp h
    rfl
  | insertScope mid p =>
    obtain ⟨q, -, rfl⟩ := Option.map_eq_some_iff.mp h
    rfl
  | deleteScope p => cases h; rfl
  | updateEnabled flag => cases h; exact moduleMid_setEnabled db flag

theorem moduleMid_serve (E : Engine) (db : Db) (e : ScopeEvent) :
    (serve E db e).state.moduleMid = db.moduleMid := by
  cases hs : sentSql E db e with
  | none => rw [(serve_of_none hs).1]
  | some s =>
    rw [(serve_of_some hs).1, sqlite_state]
    split
    · cases ha : db.after s with
      | none => rfl
      | some db' => exact moduleMid_after ha
    · rfl

theorem modules_setEnabled (db : Db) (flag : Bool) :
    ((db.setEnabled flag).modules.filter fun row => row.pkg ≠ modulePkg) =
      db.modules.filter fun row => row.pkg ≠ modulePkg := by
  unfold Db.setEnabled
  rw [List.filter_map]
  have hp : ((fun row : ModuleRow => decide (row.pkg ≠ modulePkg)) ∘ ModuleRow.setEnabled flag) =
      fun row => decide (row.pkg ≠ modulePkg) := by
    funext row
    simp
  rw [hp]
  refine (List.map_congr_left fun row hrow => ?_).trans (List.map_id _)
  have hne : row.pkg ≠ modulePkg := by simpa using (List.mem_filter.mp hrow).2
  unfold ModuleRow.setEnabled
  rw [if_neg hne]
  rfl

/-- A `DELETE` leaves the other rows just when none of them has its package. -/
theorem filter_deletePkg (db : Db) (other : ScopeRow → Bool) (p : Text) :
    (db.deletePkg p).scope.filter other = db.scope.filter other ↔
      ∀ row ∈ db.scope, row.pkg = p → other row = false := by
  have hcomm : (db.deletePkg p).scope.filter other =
      (db.scope.filter other).filter fun row => row.pkg ≠ p := by
    unfold Db.deletePkg
    rw [List.filter_filter, List.filter_filter]
    exact List.filter_congr fun row _ => Bool.and_comm _ _
  rw [hcomm, List.filter_eq_self]
  constructor
  · intro h row hrow hp
    by_contra ho
    have := h row (List.mem_filter.mpr ⟨hrow, Bool.eq_true_of_not_eq_false ho⟩)
    simp [hp] at this
  · intro h row hrow
    obtain ⟨hrow, ho⟩ := List.mem_filter.mp hrow
    by_contra hp
    rw [h row hrow (by simpa using hp)] at ho
    cases ho

/-- An `INSERT` leaves the other rows just when it makes none of them. -/
theorem filter_insertRow (db : Db) (other : ScopeRow → Bool) (row : ScopeRow) :
    (db.insertRow row).scope.filter other = db.scope.filter other ↔
      (row ∉ db.scope → other row = false) := by
  unfold Db.insertRow
  by_cases hm : row ∈ db.scope
  · simp [hm]
  · cases ho : other row <;> simp [hm, ho]

/-- **One request leaves the rows of other modules alone just when its statement meets none.** -/
theorem frame_step {E : Engine} {db₀ db : Db} {e : ScopeEvent} (hmid : db.moduleMid = db₀.moduleMid)
    (hF : Frame db₀ db) : Frame db₀ (serve E db e).state ↔ OwnRowsOnly E db e := by
  have hown : db.isOwn = db₀.isOwn := by
    unfold Db.isOwn
    rw [hmid]
  -- the frame against `db` is the frame against `db₀`
  have hrel : ∀ db' : Db, db'.modules.filter (fun row => row.pkg ≠ modulePkg) =
      db.modules.filter (fun row => row.pkg ≠ modulePkg) → (Frame db₀ db' ↔
        db'.scope.filter (fun row => !db₀.isOwn row.mid) =
          db.scope.filter (fun row => !db₀.isOwn row.mid)) := by
    intro db' hm
    exact ⟨fun h => h.scope.trans hF.scope.symm, fun h => ⟨h.trans hF.scope, hm.trans hF.modules⟩⟩
  unfold OwnRowsOnly
  cases hs : sentSql E db e with
  | none =>
    rw [(serve_of_none hs).1]
    exact ⟨fun _ s h => (Option.some_ne_none s h.symm).elim, fun _ => hF⟩
  | some s =>
    rw [(serve_of_some hs).1, sqlite_state]
    cases ha : e.stmt.applies with
    | false => simpa using hF
    | true =>
      simp only [if_true, Option.some.injEq, forall_eq']
      cases s with
      | selectModule => simpa [Db.after, MeetsOwn] using hF
      | selectScope t =>
        have hsame : (db.after (.selectScope t)).getD db = db := by
          cases hq : sqlNumber t <;> simp [Db.after, hq]
        simpa [hsame, MeetsOwn] using hF
      | updateEnabled flag =>
        simp only [Db.after, Option.getD_some, forall_const, MeetsOwn, iff_true]
        exact (hrel _ (modules_setEnabled db flag)).mpr rfl
      | deleteScope p =>
        simp only [Db.after, Option.getD_some, forall_const, MeetsOwn]
        rw [hrel (db.deletePkg p) rfl, filter_deletePkg, hown]
        simp
      | insertScope t p =>
        cases hq : sqlNumber t with
        | none => simpa [Db.after, hq, MeetsOwn] using hF
        | some q =>
          simp only [Db.after, hq, Option.map_some, Option.getD_some, forall_const, MeetsOwn,
            Option.some.injEq, forall_eq']
          rw [hrel (db.insertRow ⟨q, p, 0⟩) rfl, filter_insertRow, hown]
          simp

/-- The lookup that runs gives `/add` the mid of the module, as JavaScript reads and writes it. -/
theorem midRead_eq {db : Db} {e : ScopeEvent} (hl : e.lookup = .ran) :
    midRead db e = db.moduleMid.map fun m => (Number.ofText (intText m)).toText := by
  unfold Db.moduleMid
  cases hrow : db.moduleRow with
  | none =>
    unfold midRead modOfResult
    simp [hl, sqlite, Db.after, adbClose, Db.rows, hrow, unlines, trim]
  | some row =>
    have hclean : ∀ c ∈ moduleText row, isSpace c = false := by
      intro c hc
      unfold moduleText at hc
      rcases List.mem_append.mp hc with hc | hc
      · exact isSpace_intText hc
      · rcases List.mem_cons.mp hc with rfl | hc
        · decide
        · split at hc <;> (rw [List.mem_singleton] at hc; subst hc; decide)
    have hbar : '|' ∉ intText row.mid := fun hc => by rcases intText_char hc with h | h <;> cases h
    have hout : trim (unlines (db.rows .selectModule)) = moduleText row := by
      simp only [Db.rows, hrow, Option.toList_some, List.map_singleton, unlines,
        List.flatMap_singleton]
      exact trim_newline hclean
    have hne : (moduleText row).isEmpty = false := by simp [moduleText]
    have hparse : (parseModuleRow (moduleText row)).mid = Number.ofText (intText row.mid) := by
      unfold parseModuleRow moduleText
      rw [List.splitOn_append_cons_self_of_not_mem hbar]
      rfl
    unfold midRead modOfResult
    simp only [hl, sqlite, Db.after, adbClose, hout, hne, beq_self_eq_true, Bool.not_false,
      Bool.and_self, Bool.not_true, Bool.or_self, Bool.false_eq_true, if_false, Option.map_some,
      hparse]

/-- **The lookup gives `/add` the mid of the module**, if it runs and the mid fits 53 bits. -/
theorem midRead_ran {db : Db} {e : ScopeEvent} {m : ℤ} (hm : db.moduleMid = some m)
    (hbits : |m| ≤ 2 ^ 53) (hl : e.lookup = .ran) : midRead db e = some (intText m) := by
  rw [midRead_eq hl, hm, Option.map_some, Number.ofText_intText hbits, Number.toText_intCast hbits]

/-- So `/add` makes no row of another module. -/
theorem add_own {E : Engine} {db : Db} {e : ScopeEvent} {m : ℤ} {body : JsVal}
    (hm : db.moduleMid = some m) (hbits : |m| ≤ 2 ^ 53) (hl : e.lookup = .ran)
    (hreq : e.req = .add body) : OwnRowsOnly E db e := by
  intro s hs _
  unfold sentSql at hs
  rw [hreq, midRead_ran hm hbits hl] at hs
  obtain ⟨p, -, ht⟩ := Option.bind_eq_some_iff.mp hs
  cases ht
  intro q hq _
  rw [sqlNumber_intText (hbits.trans_lt (by norm_num))] at hq
  cases hq
  simp [Db.isOwn, hm]

/-- **Other modules' rows.**  Over any sequence of requests, with any bodies and however their calls
end: the rows of other modules stay as they were just when no statement that is applied meets one.
Only `/remove` can meet one that is there, and an `/add` whose lookup runs makes none where the mid
fits 53 bits. -/
theorem scope_frame_iff (E : Engine) (db : Db) (evs : List ScopeEvent) :
    ((scopeSystem E).Always (Frame db) db evs ↔ (scopeSystem E).EachStep (OwnRowsOnly E) db evs) ∧
    ∀ (s : Db) (e : ScopeEvent) (m : ℤ) (body : JsVal), e.req = .add body → e.lookup = .ran →
      s.moduleMid = some m → |m| ≤ 2 ^ 53 → OwnRowsOnly E s e := by
  refine ⟨StepSystem.always_iff_eachStep (I := fun s => s.moduleMid = db.moduleMid) ?_ ?_ rfl
    ⟨rfl, rfl⟩, fun s e m body hreq hl hm hbits => add_own hm hbits hl hreq⟩
  · intro s e s' hI hstep
    cases hstep
    exact (moduleMid_serve E s e).trans hI
  · intro s e s' hI hP hstep
    cases hstep
    exact frame_step hI hP

/-- An engine in which no array nests in one that is converted. -/
def flatEngine : Engine := ⟨0, 4, le_rfl⟩

def pkgBody (pkg : String) : JsVal := jsObj [("pkg", .str pkg.toList)]

/-- `com.headless.mockloc` with nothing in its scope. -/
def oneModule : Db where
  modules := [⟨1, modulePkg, true⟩]
  scope := []
  mids_nodup := by decide
  pkgs_nodup := by decide
  scope_nodup := by decide

/-- `com.headless.mockloc` and another module, which has an app in its scope. -/
def twoModules : Db where
  modules := [⟨1, modulePkg, true⟩, ⟨2, "org.other.module".toList, true⟩]
  scope := [⟨2, "com.app".toList, 0⟩]
  mids_nodup := by decide
  pkgs_nodup := by decide
  scope_nodup := by decide

/-- Removing the app from the scope of `com.headless.mockloc` takes it from the other module. -/
theorem remove_unscopes_other : twoModules.moduleMid = some 1 ∧
    ¬ (scopeSystem flatEngine).Always (Frame twoModules) twoModules
      [{ req := .remove (pkgBody "com.app") }] := by
  refine ⟨by decide +kernel, fun h => ?_⟩
  have hend := (h.2 _ rfl).head.scope
  revert hend
  decide +kernel

/-! ## ok:true and the database -/

/-- The statement of the request was applied. -/
def Applied (E : Engine) (db : Db) (e : ScopeEvent) : Prop :=
  ∃ s, sentSql E db e = some s ∧ e.stmt.applies = true ∧ (db.after s).isSome = true

/-- What the request asks for is in the database. -/
def Done (E : Engine) (db : Db) : ScopeRequest → Prop
  | .add body => ∃ p m, acceptedPkg E body = some p ∧ db.moduleMid = some m ∧ ⟨m, p, 0⟩ ∈ db.scope
  | .remove body => ∃ p, acceptedPkg E body = some p ∧
      ∀ row ∈ db.scope, db.isOwn row.mid = true → row.pkg ≠ p
  | .enable body =>
      ∃ row ∈ db.modules, row.pkg = modulePkg ∧ row.enabled = (body.get "enabled").truthy

/-- An answer ok:true is true, and a request whose statement was not applied does not get it and
leaves the database as it was. -/
structure Truthful (E : Engine) (db : Db) (e : ScopeEvent) : Prop where
  ok : AnswersOk (serve E db e) → Done E (serve E db e).state e.req
  failed : ¬ Applied E db e → ¬ AnswersOk (serve E db e) ∧ (serve E db e).state = db

/-- Applied to `db`, the statement does what its handler reports: an `INSERT` has the mid of the
module, or the module's row is there, and an `UPDATE` finds the module. -/
def Delivers (db : Db) : Sql → Prop
  | .insertScope t p => ∃ q m, sqlNumber t = some q ∧ db.moduleMid = some m ∧
      (q = m ∨ ⟨m, p, 0⟩ ∈ db.scope)
  | .deleteScope _ => True
  | .updateEnabled _ => db.moduleMid.isSome = true
  | .selectModule => False
  | .selectScope _ => False

/-- The statement of a request that will be answered is applied, and delivers. -/
def OkWhenDone (E : Engine) (db : Db) (e : ScopeEvent) : Prop :=
  ∀ s, sentSql E db e = some s → Echoes E e.req → e.stmt.applies = true ∧ Delivers db s

theorem Delivers.after_isSome {db : Db} {s : Sql} (h : Delivers db s) :
    (db.after s).isSome = true := by
  cases s with
  | insertScope t p =>
    obtain ⟨q, m, hq, -⟩ := h
    simp [Db.after, hq]
  | deleteScope p => rfl
  | updateEnabled flag => rfl
  | selectModule => cases h
  | selectScope t => cases h

theorem mem_insertRow {db : Db} {row row' : ScopeRow} :
    row' ∈ (db.insertRow row).scope ↔ row' ∈ db.scope ∨ row' = row := by
  unfold Db.insertRow
  by_cases hm : row ∈ db.scope
  · simp only [hm, if_true]
    exact ⟨Or.inl, fun h => h.elim id fun h => h ▸ hm⟩
  · simp [hm]

theorem exists_setEnabled {db : Db} {flag : Bool} :
    (∃ row ∈ (db.setEnabled flag).modules, row.pkg = modulePkg ∧ row.enabled = flag) ↔
      db.moduleMid.isSome = true := by
  unfold Db.moduleMid Db.moduleRow
  rw [Option.isSome_map, List.find?_isSome]
  constructor
  · rintro ⟨row, hrow, hp, -⟩
    obtain ⟨row₀, h₀, rfl⟩ := List.mem_map.mp hrow
    exact ⟨row₀, h₀, by simpa using hp⟩
  · rintro ⟨row, hrow, hp⟩
    have hp' : row.pkg = modulePkg := by simpa using hp
    refine ⟨row.setEnabled flag, List.mem_map_of_mem hrow, by simpa using hp', ?_⟩
    unfold ModuleRow.setEnabled
    rw [if_pos hp']

/-- What an applied statement has done for its request. -/
theorem done_after {E : Engine} {db db' : Db} {e : ScopeEvent} {s : Sql}
    (hs : sentSql E db e = some s) (ha : db.after s = some db') :
    Done E db' e.req ↔ Delivers db s := by
  have hmid := moduleMid_after ha
  unfold sentSql at hs
  cases hreq : e.req with
  | enable body =>
    simp only [hreq, Option.some.injEq] at hs
    subst hs
    cases ha
    exact exists_setEnabled
  | remove body =>
    simp only [hreq, Option.map_eq_some_iff] at hs
    obtain ⟨p, hp, rfl⟩ := hs
    cases ha
    simp only [Done, Delivers, iff_true]
    refine ⟨p, hp, fun row hrow _ => ?_⟩
    simpa using (List.mem_filter.mp hrow).2
  | add body =>
    simp only [hreq, Option.bind_eq_some_iff, Option.map_eq_some_iff] at hs
    obtain ⟨p, hp, t, -, rfl⟩ := hs
    obtain ⟨q, hq, rfl⟩ := Option.map_eq_some_iff.mp ha
    simp only [Done, Delivers, hp, hmid, mem_insertRow, Option.some.injEq, hq]
    constructor
    · rintro ⟨_, m, rfl, hm, h | h⟩
      · exact ⟨q, m, rfl, hm, Or.inr h⟩
      · exact ⟨q, m, rfl, hm, Or.inl (congrArg ScopeRow.mid h).symm⟩
    · rintro ⟨_, m, rfl, hm, rfl | h⟩
      · exact ⟨p, m, rfl, hm, Or.inr rfl⟩
      · exact ⟨p, m, rfl, hm, Or.inl h⟩

/-- **One request is answered truthfully just when its statement does what the answer will say.** -/
theorem truthful_iff {E : Engine} {db : Db} {e : ScopeEvent} :
    Truthful E db e ↔ OkWhenDone E db e := by
  cases hs : sentSql E db e with
  | none =>
    obtain ⟨hdb, hno⟩ := serve_of_none hs
    have hv : OkWhenDone E db e := fun s h => by rw [hs] at h; cases h
    exact ⟨fun _ => hv, fun _ => ⟨fun h => absurd h hno, fun _ => ⟨hno, hdb⟩⟩⟩
  | some s =>
    obtain ⟨hdb, hok⟩ := serve_of_some hs
    rw [sqlite_state] at hdb
    have happ : Applied E db e ↔ e.stmt.applies = true ∧ (db.after s).isSome = true := by
      unfold Applied
      rw [hs]
      simp
    have hcond : OkWhenDone E db e ↔
        (Echoes E e.req → e.stmt.applies = true ∧ Delivers db s) := by
      unfold OkWhenDone
      rw [hs]
      simp only [Option.some.injEq, forall_eq']
    rw [hcond]
    constructor
    · intro hT hecho
      have hA : Applied E db e := by
        by_contra hA
        exact (hT.failed hA).1 (hok.mpr hecho)
      obtain ⟨h1, h2⟩ := happ.mp hA
      obtain ⟨db', ha⟩ := Option.isSome_iff_exists.mp h2
      have hD := hT.ok (hok.mpr hecho)
      rw [hdb, h1, ha] at hD
      exact ⟨h1, (done_after hs ha).mp hD⟩
    · intro hC
      constructor
      · intro hans
        obtain ⟨h1, h2⟩ := hC (hok.mp hans)
        obtain ⟨db', ha⟩ := Option.isSome_iff_exists.mp h2.after_isSome
        rw [hdb, h1, ha]
        exact (done_after hs ha).mpr h2
      · intro hA
        have hsame : (serve E db e).state = db := by
          rw [hdb]
          split
          · rename_i h1
            cases ha : db.after s with
            | none => rfl
            | some db' => exact absurd (happ.mpr ⟨h1, by rw [ha]; rfl⟩) hA
          · rfl
        refine ⟨fun hans => ?_, hsame⟩
        obtain ⟨h1, h2⟩ := hC (hok.mp hans)
        exact hA (happ.mpr ⟨h1, h2.after_isSome⟩)

/-- **ok:true.**  Over any sequence of requests and outcomes: every answer is truthful just when the
statement of every request that gets answered is applied and delivers. -/
theorem scope_truthful_iff (E : Engine) (db : Db) (evs : List ScopeEvent) :
    (scopeSystem E).EachStep (Truthful E) db evs ↔ (scopeSystem E).EachStep (OkWhenDone E) db evs :=
  StepSystem.eachStep_congr fun _ _ => truthful_iff

/-- The database is locked: `/remove` answers ok:true all the same, and the row is still there. -/
theorem remove_ok_when_locked :
    ¬ (scopeSystem flatEngine).EachStep (Truthful flatEngine) (twoModules.insertRow ⟨1, "com.app".toList, 0⟩)
      [{ req := .remove (pkgBody "com.app"), stmt := .exited 1 [] "database is locked".toList }] := by
  intro h
  have hT := (h _ rfl).1
  obtain ⟨hno, -⟩ := hT.failed (by rintro ⟨s, -, ha, -⟩; cases ha)
  exact hno ⟨_, List.mem_singleton.mpr rfl, rfl⟩

end HeadlessAndroid.Scope
