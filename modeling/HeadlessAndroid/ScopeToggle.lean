import HeadlessAndroid.Lib.Slots
import HeadlessAndroid.ScopeWrites

/-!
# HeadlessAndroid.ScopeToggle — checkboxes, their requests and the scope

The scope list of the dashboard and the handlers behind it.  A checkbox is disabled while its request
is under way, but every refresh puts a fresh, enabled one in its place, so that requests for one
package can overlap; the last statement that is executed decides (`toggled_iff`).
-/

namespace HeadlessAndroid.Scope

open Lib Lib.Js

/-! ## A request between its awaits -/

/-- What the handler of a toggle does next. -/
inductive Stage where
  /-- `/add` before its lookup. -/
  | readMid
  /-- `/add` before its `INSERT`. -/
  | insert (mid : Text)
  /-- `/remove` before its `DELETE`. -/
  | delete
  /-- The response is on its way. -/
  | answered (reply : Response)

/-- The next call of the handler is one that changes rows. -/
def Stage.writes : Stage → Bool
  | .insert _ => true
  | .delete => true
  | _ => false

/-- `JSON.stringify({ pkg })`, parsed again. -/
def toggleBody (p : Text) : JsVal := jsObj [("pkg", .str p)]

def okReply (p : Text) : Response := ⟨200, okPkg (toggleBody p)⟩

/-- Where a request starts: a name that the handlers refuse is answered at once. -/
def firstStage (p : Text) (check : Bool) : Stage :=
  if pkgNameRe p then (if check then .readMid else .delete)
  else .answered ⟨400, errorBody "invalid package name"⟩

/-- One call of the handler, which ends with the outcome `o`: the database and the stage after it. -/
def exec (o : SqlOutcome) (db : Db) (p : Text) : Stage → Option (Db × Stage)
  | .readMid =>
    match modOfResult (sqlite o db .selectModule).1 with
    | some mod => some (db, .insert mod.mid.toText)
    | none => some (db, .answered ⟨500, errorBody "module not registered"⟩)
  | .insert t => some ((sqlite o db (.insertScope t p)).2, .answered (okReply p))
  | .delete => some ((sqlite o db (.deleteScope p)).2, .answered (okReply p))
  | .answered _ => none

/-- The handler of a request at a stage. -/
def residual (E : Engine) (p : Text) : Stage → Handler Unit
  | .readMid => add E (toggleBody p)
  | .insert t => Async.await (Call.dbExec (.insertScope t p)) fun _ =>
      resJson E 200 (okPkg (toggleBody p))
  | .delete => remove E (toggleBody p)
  | .answered reply => resJson E reply.status reply.body

theorem pkgText_toggle (E : Engine) (p : Text) : pkgText E (toggleBody p) = some p := by
  have hget : (toggleBody p).get "pkg" = .str p := by simp [toggleBody, jsObj, JsVal.get]
  unfold pkgText
  rw [hget]
  cases p with
  | nil => simp [JsVal.or, JsVal.truthy, JsVal.toStr]
  | cons c t => simp [JsVal.or, JsVal.truthy, JsVal.toStr]

theorem acceptedPkg_toggle (E : Engine) {p : Text} (hp : pkgNameRe p = true) :
    acceptedPkg E (toggleBody p) = some p :=
  acceptedPkg_eq_some.mpr ⟨pkgText_toggle E p, hp⟩

/-- The stages are those of the handlers: a name that is refused is answered by either of them. -/
theorem residual_first (E : Engine) (p : Text) (check : Bool) :
    residual E p (firstStage p check) =
      if check then add E (toggleBody p) else remove E (toggleBody p) := by
  unfold firstStage
  by_cases hp : pkgNameRe p = true
  · rw [if_pos hp]
    cases check <;> rfl
  · rw [if_neg hp]
    have hre : pkgNameRe p = false := Bool.eq_false_of_not_eq_true hp
    cases check
    · exact (remove_invalid (pkgText_toggle E p) hre).symm
    · exact (add_invalid (pkgText_toggle E p) hre).symm

/-- **One `exec` is one call of the handler.** -/
theorem residual_exec (E : Engine) {o : SqlOutcome} {db db' : Db} {p : Text} {st st' : Stage}
    (hp : pkgNameRe p = true) (h : exec o db p st = some (db', st')) :
    ∃ s k, residual E p st = Async.await (Call.dbExec s) k ∧ (sqlite o db s).2 = db' ∧
      k (sqlite o db s).1 = residual E p st' := by
  have hacc := acceptedPkg_toggle E hp
  cases st with
  | readMid =>
    refine ⟨.selectModule, _, add_valid hacc, ?_⟩
    unfold exec at h
    cases hm : modOfResult (sqlite o db .selectModule).1 with
    | none =>
      rw [hm] at h
      cases h
      exact ⟨sqlite_lookup_state o db, rfl⟩
    | some mod =>
      rw [hm] at h
      cases h
      exact ⟨sqlite_lookup_state o db, rfl⟩
  | insert t =>
    cases h
    exact ⟨_, _, rfl, rfl, rfl⟩
  | delete =>
    cases h
    exact ⟨_, _, remove_valid hacc, rfl, rfl⟩
  | answered reply => cases h

/-! ## What a refresh shows -/

/-- What `scopedPackages` makes of the result of its query. -/
def scopedOf (r : AdbResult) : List Text := if !r.ok then [] else trimmedLines r.stdout

/-- What `installedPackages` makes of the result of `pm list packages`. -/
def installedOf (r : AdbResult) : List Text :=
  if !r.ok then [] else
    jsSort (((r.stdout.splitOn '\n').map fun line => trim (dropPackage line)).filter
      fun s => !s.isEmpty)

/-- The rows that `GET /` answers with, none if the module is not registered; `apps` are the
installed packages. -/
def shown (db : Db) (apps : List Text) : List AppRow :=
  match modOfResult (sqlite .ran db .selectModule).1 with
  | none => []
  | some mod => mergeApps (scopedOf (sqlite .ran db (.selectScope mod.mid.toText)).1) apps

/-- The device as `GET /` finds it, with what `pm list packages` comes to. -/
def listWorld (pm : AdbResult) : Async.World Call.Answer Db
  | .dbExec s, db => (some (sqlite .ran db s).1, (sqlite .ran db s).2)
  | .adb _, db => (some pm, db)
  | .emuCommand _, db => (none, db)

theorem listBody_apps (mod : Mod) (scopedPkgs apps : List Text) (includeSystem : Bool) :
    (listBody mod scopedPkgs apps includeSystem).get "apps" =
      .arr ((mergeApps scopedPkgs apps).map AppRow.json) := by
  simp [listBody, jsObj, JsVal.get, List.lookup_cons]

/-- The options that the route gives `pm list packages`. -/
def pmOptions (includeSystem : Bool) : List Text := if includeSystem then [] else ["-3".toList]

/-- What `GET /` answers with, from the results of its three calls. -/
def listReply (query : JsVal) (lookup : AdbResult) (rows : Text → AdbResult)
    (pm : List Text → AdbResult) : JsVal :=
  match modOfResult lookup with
  | none => errorBody "stealth module not registered yet — run scripts/install-magisk-avd.sh"
  | some mod =>
    let includeSystem := isTrueText (query.get "system")
    listBody mod (scopedOf (rows mod.mid.toText)) (installedOf (pm (pmOptions includeSystem)))
      includeSystem

/-- **`GET /` in any world** whose answers leave it as it is. -/
theorem list_run (E : Engine) (query : JsVal) {σ : Type} {world : Async.World Call.Answer σ} {s : σ}
    {lookup : AdbResult} {rows : Text → AdbResult} {pm : List Text → AdbResult}
    (hlookup : world (.dbExec .selectModule) s = (some lookup, s))
    (hrows : ∀ t, world (.dbExec (.selectScope t)) s = (some (rows t), s))
    (hpm : ∀ options, world (.adb (["shell", "pm", "list", "packages"].map String.toList ++ options)) s =
      (some (pm options), s)) :
    (list E query).run world s = ⟨some (), [⟨200, listReply query lookup rows pm⟩], s⟩ := by
  unfold list moduleRow listReply
  cases hm : modOfResult lookup with
  | none => simp [dbExec, Async.run_await, hlookup, hm, error_sends]
  | some mod =>
    have hscoped : scopedPackages mod.mid =
        Async.await (Call.dbExec (.selectScope mod.mid.toText)) fun r => Async.pure (scopedOf r) := rfl
    have hinst : ∀ sys, installedPackages sys = Async.await (Call.adb (["shell", "pm", "list",
        "packages"].map String.toList ++ pmOptions sys)) fun r =>
          Async.pure (installedOf r) := fun _ => rfl
    have hd := fun S A sys => (depth_listBody mod S A sys).trans E.shallow
    simp [dbExec, Async.run_await, hlookup, hm, hscoped, hinst, hpm, hrows, resJson, hd, Async.emit]

/-- **`GET /` answers with the rows of `shown`.** -/
theorem list_shown (E : Engine) (query : JsVal) (pm : AdbResult) (db : Db) :
    ∃ body, (list E query).run (listWorld pm) db = ⟨some (), [⟨200, body⟩], db⟩ ∧
      (body.get "apps" = .arr ((shown db (installedOf pm)).map AppRow.json) ∨
        body.get "ok" = .bool false ∧ shown db (installedOf pm) = []) := by
  have hworld : ∀ s, (sqlite .ran db s).2 = db →
      listWorld pm (.dbExec s) db = (some (sqlite .ran db s).1, db) := by
    intro s hs
    show (some (sqlite .ran db s).1, (sqlite .ran db s).2) = _
    rw [hs]
  refine ⟨_, list_run E query (hworld _ (sqlite_lookup_state _ _))
    (fun t => hworld _ (sqlite_read_state _ _ t)) (fun _ => rfl), ?_⟩
  unfold shown listReply
  cases modOfResult (sqlite .ran db .selectModule).1 with
  | none => exact .inr ⟨rfl, rfl⟩
  | some mod => exact .inl (listBody_apps mod _ _ _)

/-! ## The page and the server -/

/-- A checkbox of the list. -/
structure Box where
  pkg : Text
  checked : Bool
  disabled : Bool

/-- A request of `onScopeToggle`, from a box of the rendering `epoch`. -/
structure Toggle where
  epoch : ℕ
  pkg : Text
  stage : Stage

/-- A request of `refreshScope`. -/
inductive Refresh where
  | asked
  | served (rows : List AppRow)

structure Page where
  db : Db
  /-- How often the list was rendered. -/
  epoch : ℕ
  boxes : List Box
  toggles : Slots Toggle
  refreshes : Slots Refresh
  /-- What the user last asked for, and at the start what was there. -/
  wanted : Text → Bool

/-- The package is in the scope of `com.headless.mockloc`. -/
def Db.inScope (db : Db) (p : Text) : Bool := db.scope.any fun row => db.isOwn row.mid && row.pkg == p

/-- The page before its first refresh. -/
def opened (db : Db) : Page where
  db := db
  epoch := 0
  boxes := []
  toggles := []
  refreshes := []
  wanted := db.inScope

inductive PageEvent where
  /-- The user checks or unchecks an enabled box. -/
  | toggle (p : Text) (check : Bool)
  /-- A call of the request's handler is executed. -/
  | exec (i : ℕ)
  /-- The response arrives. -/
  | reply (i : ℕ)
  /-- The timer, the filter and the checkbox for system apps. -/
  | refresh
  | serve (i : ℕ) (apps : List Text)
  | render (i : ℕ)

def AppRow.box (a : AppRow) : Box := ⟨a.pkg, a.isScoped, false⟩

/-- The box of a package, set by a click or when its request ends. -/
def setBox (boxes : List Box) (p : Text) (f : Box → Box) : List Box :=
  boxes.map fun b => if b.pkg = p then f b else b

def pageStep (s : Page) : PageEvent → Option Page
  | .toggle p check =>
    if s.boxes.any fun b => b.pkg == p && b.checked == !check && !b.disabled then
      some { s with
        boxes := setBox s.boxes p fun b => { b with checked := check, disabled := true }
        toggles := s.toggles.add ⟨s.epoch, p, firstStage p check⟩
        wanted := fun p' => if p' = p then check else s.wanted p' }
    else none
  | .exec i =>
    match s.toggles.get i with
    | none => none
    | some t =>
      match exec .ran s.db t.pkg t.stage with
      | none => none
      | some (db, stage) =>
        some { s with db := db, toggles := s.toggles.put i (some { t with stage := stage }) }
  | .reply i =>
    match s.toggles.get i with
    | some ⟨epoch, p, .answered _⟩ =>
      some { s with
        -- a box of an earlier rendering is no longer in the list
        boxes := if epoch = s.epoch then setBox s.boxes p fun b => { b with disabled := false }
          else s.boxes
        toggles := s.toggles.put i none }
    | _ => none
  | .refresh => some { s with refreshes := s.refreshes.add .asked }
  | .serve i apps =>
    match s.refreshes.get i with
    | some .asked => some { s with refreshes := s.refreshes.put i (some (.served (shown s.db apps))) }
    | _ => none
  | .render i =>
    match s.refreshes.get i with
    | some (.served rows) =>
      some { s with
        epoch := s.epoch + 1
        boxes := rows.map AppRow.box
        refreshes := s.refreshes.put i none }
    | _ => none

def pageSystem : StepSystem Page PageEvent where
  step := pageStep

/-- Nothing is in flight. -/
def Page.quiet (s : Page) : Prop := s.toggles.quiet = true ∧ s.refreshes.quiet = true

/-- Once no request is in flight, every package is in the scope just when the user last asked for
it. -/
def AsWanted (s : Page) : Prop := s.quiet → ∀ p, s.db.inScope p = s.wanted p

/-! ## The statement that counts -/

/-- What the statement of a stage makes of its package. -/
def Stage.makes : Stage → Option Bool
  | .insert _ => some true
  | .delete => some false
  | _ => none

/-- The request has a call to make. -/
def Stage.isOpen : Stage → Bool
  | .answered _ => false
  | _ => true

/-- No request for the package has a call to make. -/
def Idle (ts : Slots Toggle) (p : Text) : Prop :=
  ∀ j t, ts.get j = some t → t.pkg = p → t.stage.isOpen = false

/-- No request for the package has a call to make, the request `i` apart. -/
def IdleBut (ts : Slots Toggle) (i : ℕ) (p : Text) : Prop :=
  ∀ j t, j ≠ i → ts.get j = some t → t.pkg = p → t.stage.isOpen = false

/-- Package by package: where no request has a call to make, the scope is as wanted. -/
def Settled (s : Page) : Prop := ∀ p, Idle s.toggles p → s.db.inScope p = s.wanted p

/-- The module is registered, with a mid that a double holds. -/
def MidFits (db : Db) : Prop := ∃ m, db.moduleMid = some m ∧ |m| ≤ 2 ^ 53

/-- A lookup of `/add` finds the module's mid. -/
def MidRead (s : Page) : PageEvent → Prop
  | .exec i => ∀ t, s.toggles.get i = some t → t.stage = .readMid → MidFits s.db
  | _ => True

/-- The last statement for a package, of requests that overlap, is the one that the last toggle asked
for; and a toggle of a name that the handlers refuse asks for nothing new. -/
def LastCounts (s : Page) : PageEvent → Prop
  | .toggle p check => pkgNameRe p = false → check = s.wanted p
  | .exec i => ∀ t b, s.toggles.get i = some t → t.stage.makes = some b → IdleBut s.toggles i t.pkg →
      b = s.wanted t.pkg
  | _ => True

structure InOrder (s : Page) (e : PageEvent) : Prop where
  mid : MidRead s e
  last : LastCounts s e

structure ToggleInv (s : Page) : Prop where
  /-- An `INSERT` has the module's mid. -/
  mid : ∀ i t m, s.toggles.get i = some t → t.stage = .insert m →
    ∃ n, s.db.moduleMid = some n ∧ |n| ≤ 2 ^ 53 ∧ m = intText n
  /-- A request that has a call to make has passed the test on the name. -/
  name : ∀ i t, s.toggles.get i = some t → t.stage.isOpen = true → pkgNameRe t.pkg = true

theorem isOwn_congr {db db' : Db} (h : db'.moduleMid = db.moduleMid) (q : ℚ) :
    db'.isOwn q = db.isOwn q := by
  unfold Db.isOwn
  rw [h]

theorem inScope_insertRow {db : Db} {n : ℤ} (hn : db.moduleMid = some n) (p p' : Text) :
    (db.insertRow ⟨n, p, 0⟩).inScope p' = if p' = p then true else db.inScope p' := by
  have hown : ∀ q, (db.insertRow ⟨n, p, 0⟩).isOwn q = db.isOwn q := isOwn_congr rfl
  rw [Bool.eq_iff_iff]
  unfold Db.inScope
  simp only [List.any_eq_true, mem_insertRow, hown, Bool.and_eq_true, beq_iff_eq]
  split_ifs with hp
  · simp only [iff_true]
    exact ⟨⟨n, p, 0⟩, Or.inr rfl, by simp [Db.isOwn, hn], hp.symm⟩
  · rw [List.any_eq_true]
    constructor
    · rintro ⟨row, h | rfl, ho, hr⟩
      · exact ⟨row, h, by simp [ho, hr]⟩
      · exact absurd hr.symm hp
    · rintro ⟨row, h, hr⟩
      rw [Bool.and_eq_true, beq_iff_eq] at hr
      exact ⟨row, Or.inl h, hr⟩

theorem inScope_deletePkg (db : Db) (p p' : Text) :
    (db.deletePkg p).inScope p' = if p' = p then false else db.inScope p' := by
  have hown : ∀ q, (db.deletePkg p).isOwn q = db.isOwn q := isOwn_congr rfl
  unfold Db.inScope
  simp only [hown]
  unfold Db.deletePkg
  rw [Bool.eq_iff_iff]
  simp only [List.any_filter, List.any_eq_true, Bool.and_eq_true, beq_iff_eq, decide_eq_true_eq]
  split_ifs with hp
  · simp only [iff_false]
    rintro ⟨row, -, hne, -, hr⟩
    exact hne (hr.trans hp)
  · rw [List.any_eq_true]
    constructor
    · rintro ⟨row, h, -, hr⟩
      exact ⟨row, h, by simp [hr.1, hr.2]⟩
    · rintro ⟨row, h, hr⟩
      rw [Bool.and_eq_true, beq_iff_eq] at hr
      exact ⟨row, h, fun he => hp (hr.2.symm.trans he), hr⟩

theorem moduleMid_exec {o : SqlOutcome} {db db' : Db} {p : Text} {st st' : Stage}
    (h : exec o db p st = some (db', st')) : db'.moduleMid = db.moduleMid := by
  have hsql : ∀ sql, (sqlite o db sql).2.moduleMid = db.moduleMid := by
    intro sql
    rw [sqlite_state]
    split
    · cases ha : db.after sql with
      | none => rfl
      | some db' => exact moduleMid_after ha
    · rfl
  cases st with
  | readMid =>
    unfold exec at h
    cases hm : modOfResult (sqlite o db .selectModule).1 <;> (rw [hm] at h; cases h; rfl)
  | insert t => cases h; exact hsql _
  | delete => cases h; exact hsql _
  | answered reply => cases h

theorem firstStage_isOpen (p : Text) (check : Bool) :
    (firstStage p check).isOpen = pkgNameRe p := by
  unfold firstStage
  by_cases hp : pkgNameRe p = true
  · rw [if_pos hp, hp]
    cases check <;> rfl
  · rw [if_neg hp, Bool.eq_false_of_not_eq_true hp]
    rfl

theorem firstStage_ne_insert (p : Text) (check : Bool) (m : Text) : firstStage p check ≠ .insert m := by
  intro h
  unfold firstStage at h
  split_ifs at h

/-- Only a request that has a call to make goes on. -/
theorem exec_isOpen {o : SqlOutcome} {db : Db} {p : Text} {st : Stage} {r : Db × Stage}
    (h : exec o db p st = some r) : st.isOpen = true := by
  cases st with
  | answered reply => cases h
  | _ => rfl

/-- Only the lookup of `/add` leads to an `INSERT`. -/
theorem exec_insert {o : SqlOutcome} {db db' : Db} {p m : Text} {st : Stage}
    (h : exec o db p st = some (db', .insert m)) : st = .readMid := by
  cases st with
  | readMid => rfl
  | _ => cases h

/-- What has a call to make and no statement is the lookup of `/add`. -/
theorem eq_readMid {st : Stage} (ho : st.isOpen = true) (hb : st.makes = none) : st = .readMid := by
  cases st with
  | readMid => rfl
  | answered reply => cases ho
  | _ => cases hb

/-- The lookup of `/add`. -/
theorem exec_readMid {db db' : Db} {p : Text} {st' : Stage} {n : ℤ} (hn : db.moduleMid = some n)
    (hbits : |n| ≤ 2 ^ 53) (h : exec .ran db p .readMid = some (db', st')) :
    db' = db ∧ st' = .insert (intText n) := by
  have hmid := midRead_ran (e := ⟨.add (toggleBody p), .ran, .ran⟩) hn hbits rfl
  obtain ⟨mod, hmod, ht⟩ := Option.map_eq_some_iff.mp hmid
  have hmod' : modOfResult (sqlite .ran db .selectModule).1 = some mod := hmod
  unfold exec at h
  rw [hmod'] at h
  cases h
  exact ⟨rfl, by rw [← ht]⟩

/-- **A statement decides about its package and leaves the others.** -/
theorem exec_makes {db db' : Db} {p : Text} {st st' : Stage} {b : Bool}
    (h : exec .ran db p st = some (db', st')) (hb : st.makes = some b)
    (hmid : ∀ m, st = .insert m → ∃ n, db.moduleMid = some n ∧ |n| ≤ 2 ^ 53 ∧ m = intText n) :
    (∃ reply, st' = .answered reply) ∧
      ∀ p', db'.inScope p' = if p' = p then b else db.inScope p' := by
  cases st with
  | readMid => cases hb
  | insert m =>
    cases hb
    cases h
    obtain ⟨n, hn, hbits, rfl⟩ := hmid m rfl
    have hnum := sqlNumber_intText (hbits.trans_lt (by norm_num))
    refine ⟨⟨_, rfl⟩, fun p' => ?_⟩
    rw [sqlite_state]
    simp only [SqlOutcome.applies, if_true, Db.after, hnum, Option.map_some, Option.getD_some]
    exact inScope_insertRow hn p p'
  | delete =>
    cases hb
    cases h
    exact ⟨⟨_, rfl⟩, inScope_deletePkg db p⟩
  | answered reply => cases hb

/-! ## Steps -/

theorem idle_iff {ts : Slots Toggle} {i : ℕ} {t : Toggle} (h : ts.get i = some t) (p : Text) :
    Idle ts p ↔ IdleBut ts i p ∧ (t.pkg = p → t.stage.isOpen = false) := by
  constructor
  · exact fun hid => ⟨fun j t' _ => hid j t', hid i t h⟩
  · rintro ⟨hbut, hi⟩ j t' hj
    by_cases hji : j = i
    · subst hji
      rw [h] at hj
      cases hj
      exact hi
    · exact hbut j t' hji hj

theorem idle_put_iff {ts : Slots Toggle} {i : ℕ} {t : Toggle} (h : ts.get i = some t)
    (o : Option Toggle) (p : Text) : Idle (ts.put i o) p ↔
      IdleBut ts i p ∧ ∀ t', o = some t' → t'.pkg = p → t'.stage.isOpen = false := by
  constructor
  · refine fun hid => ⟨fun j t' hji hj => hid j t' ?_, fun t' ho => hid i t' ?_⟩
    · rw [Slots.get_put h, if_neg hji]
      exact hj
    · rw [Slots.get_put h, if_pos rfl]
      exact ho
  · rintro ⟨hbut, ho⟩ j t' hj
    rw [Slots.get_put h] at hj
    split_ifs at hj with hji
    · exact ho t' hj
    · exact hbut j t' hji hj

theorem idle_add_iff (ts : Slots Toggle) (t : Toggle) (p : Text) : Idle (ts.add t) p ↔
    Idle ts p ∧ (t.pkg = p → t.stage.isOpen = false) := by
  constructor
  · refine fun hid => ⟨fun j t' hj => hid j t' ?_, hid ts.length t ?_⟩
    · rw [Slots.get_add, if_neg (Nat.ne_of_lt (Slots.lt_length_of_get hj))]
      exact hj
    · rw [Slots.get_add, if_pos rfl]
  · rintro ⟨hid, ht⟩ j t' hj
    rw [Slots.get_add] at hj
    split_ifs at hj
    · cases hj
      exact ht
    · exact hid j t' hj

theorem pageStep_toggle {s s' : Page} {p : Text} {check : Bool}
    (h : pageStep s (.toggle p check) = some s') : ∃ boxes, s' = { s with
      boxes := boxes
      toggles := s.toggles.add ⟨s.epoch, p, firstStage p check⟩
      wanted := fun p' => if p' = p then check else s.wanted p' } := by
  simp only [pageStep] at h
  split_ifs at h
  cases h
  exact ⟨_, rfl⟩

theorem pageStep_exec {s s' : Page} {i : ℕ} (h : pageStep s (.exec i) = some s') :
    ∃ t db stage, s.toggles.get i = some t ∧ exec .ran s.db t.pkg t.stage = some (db, stage) ∧
      s' = { s with db := db, toggles := s.toggles.put i (some { t with stage := stage }) } := by
  simp only [pageStep] at h
  cases ht : s.toggles.get i with
  | none => simp [ht] at h
  | some t =>
    cases hx : exec .ran s.db t.pkg t.stage with
    | none => simp [ht, hx] at h
    | some r =>
      simp only [ht, hx, Option.some.injEq] at h
      exact ⟨t, r.1, r.2, rfl, hx, h.symm⟩

theorem pageStep_reply {s s' : Page} {i : ℕ} (h : pageStep s (.reply i) = some s') :
    ∃ t reply boxes, s.toggles.get i = some t ∧ t.stage = .answered reply ∧
      s' = { s with boxes := boxes, toggles := s.toggles.put i none } := by
  simp only [pageStep] at h
  split at h
  · rename_i epoch p reply ht
    cases h
    exact ⟨_, reply, _, ht, rfl, rfl⟩
  · cases h

/-- The event is one of a refresh. -/
def PageEvent.ofRefresh : PageEvent → Bool
  | .refresh => true
  | .serve _ _ => true
  | .render _ => true
  | _ => false

/-- A refresh leaves the requests, the database and what is wanted as they are. -/
theorem pageStep_refresh {s s' : Page} {e : PageEvent} (h : pageStep s e = some s')
    (he : e.ofRefresh = true) :
    s'.toggles = s.toggles ∧ s'.db = s.db ∧ s'.wanted = s.wanted := by
  cases e with
  | refresh =>
    cases h
    exact ⟨rfl, rfl, rfl⟩
  | serve i apps =>
    simp only [pageStep] at h
    split at h
    · cases h
      exact ⟨rfl, rfl, rfl⟩
    · cases h
  | render i =>
    simp only [pageStep] at h
    split at h
    · cases h
      exact ⟨rfl, rfl, rfl⟩
    · cases h
  | _ => cases he

theorem toggleInv_step {s s' : Page} {e : PageEvent} (hI : ToggleInv s) (hm : MidRead s e)
    (h : pageStep s e = some s') : ToggleInv s' := by
  have hlist : s'.toggles = s.toggles ∧ s'.db = s.db ∧ s'.wanted = s.wanted → ToggleInv s' := by
    rintro ⟨ht, hdb, -⟩
    exact ⟨by rw [ht, hdb]; exact hI.mid, by rw [ht]; exact hI.name⟩
  cases e with
  | refresh => exact hlist (pageStep_refresh h rfl)
  | serve i apps => exact hlist (pageStep_refresh h rfl)
  | render i => exact hlist (pageStep_refresh h rfl)
  | toggle p check =>
    obtain ⟨boxes, rfl⟩ := pageStep_toggle h
    constructor
    · intro j t m hj ht
      rw [Slots.get_add] at hj
      split_ifs at hj
      · cases hj
        exact absurd ht (firstStage_ne_insert p check m)
      · exact hI.mid j t m hj ht
    · intro j t hj ht
      rw [Slots.get_add] at hj
      split_ifs at hj
      · cases hj
        rwa [firstStage_isOpen] at ht
      · exact hI.name j t hj ht
  | reply i =>
    obtain ⟨t, reply, boxes, ht, -, rfl⟩ := pageStep_reply h
    constructor
    · intro j t' m hj
      rw [Slots.get_put ht] at hj
      split_ifs at hj
      exact hI.mid j t' m hj
    · intro j t' hj
      rw [Slots.get_put ht] at hj
      split_ifs at hj
      exact hI.name j t' hj
  | exec i =>
    obtain ⟨t, db, stage, ht, hx, rfl⟩ := pageStep_exec h
    have hmid : db.moduleMid = s.db.moduleMid := moduleMid_exec hx
    constructor
    · intro j t' m hj hins
      rw [Slots.get_put ht] at hj
      split_ifs at hj with hji
      · cases hj
        have hins' : stage = .insert m := hins
        subst hins'
        have hst : t.stage = .readMid := exec_insert hx
        obtain ⟨n, hn, hbits⟩ := hm t ht hst
        rw [hst] at hx
        obtain ⟨rfl, hstage⟩ := exec_readMid hn hbits hx
        exact ⟨n, hn, hbits, Stage.insert.inj hstage⟩
      · rw [hmid]
        exact hI.mid j t' m hj hins
    · intro j t' hj hopen
      rw [Slots.get_put ht] at hj
      split_ifs at hj with hji
      · cases hj
        exact hI.name i t ht (exec_isOpen hx)
      · exact hI.name j t' hj hopen

/-- A name that the handlers refuse has no request with a call to make. -/
theorem ToggleInv.idle {s : Page} (hI : ToggleInv s) {p : Text} (hp : pkgNameRe p = false) :
    Idle s.toggles p := by
  intro j t hj hpkg
  by_contra ho
  have hname := hI.name j t hj (Bool.eq_true_of_not_eq_false ho)
  rw [hpkg, hp] at hname
  cases hname

theorem settled_toggle {s s' : Page} {p : Text} {check : Bool} (hI : ToggleInv s) (hP : Settled s)
    (h : pageStep s (.toggle p check) = some s') :
    Settled s' ↔ (pkgNameRe p = false → check = s.wanted p) := by
  obtain ⟨boxes, rfl⟩ := pageStep_toggle h
  simp only [Settled, idle_add_iff, firstStage_isOpen]
  constructor
  · intro hS hp
    have hidle : Idle s.toggles p := hI.idle hp
    have hnew := hS p ⟨hidle, fun _ => hp⟩
    rw [if_pos rfl] at hnew
    exact hnew.symm.trans (hP p hidle)
  · rintro hC p' ⟨hidle, hp⟩
    split_ifs with hpp
    · subst hpp
      exact (hP p' hidle).trans (hC (hp rfl)).symm
    · exact hP p' hidle

theorem settled_exec {s s' : Page} {i : ℕ} (hI : ToggleInv s) (hm : MidRead s (.exec i))
    (hP : Settled s) (h : pageStep s (.exec i) = some s') : Settled s' ↔ LastCounts s (.exec i) := by
  obtain ⟨t, db, stage, ht, hx, rfl⟩ := pageStep_exec h
  -- what the condition says, of the request that is executed
  have hcond : LastCounts s (.exec i) ↔
      ∀ b, t.stage.makes = some b → IdleBut s.toggles i t.pkg → b = s.wanted t.pkg := by
    constructor
    · exact fun hC b => hC t b ht
    · rintro hC t' b ht'
      rw [ht] at ht'
      cases ht'
      exact hC b
  rw [hcond]
  cases hb : t.stage.makes with
  | none =>
    -- the lookup of `/add`, which leaves its request open
    have hst : t.stage = .readMid := eq_readMid (exec_isOpen hx) hb
    obtain ⟨n, hn, hbits⟩ := hm t ht hst
    rw [hst] at hx
    obtain ⟨rfl, rfl⟩ := exec_readMid hn hbits hx
    refine iff_of_true (fun p hid => ?_) (fun b hb' => by cases hb')
    obtain ⟨hbut, hself⟩ := (idle_put_iff ht _ p).mp hid
    exact hP p ((idle_iff ht p).mpr ⟨hbut, fun hp => by cases hself _ rfl hp⟩)
  | some b =>
    obtain ⟨⟨reply, rfl⟩, hscope⟩ := exec_makes hx hb fun m => hI.mid i t m ht
    have hidle : ∀ p, Idle (s.toggles.put i (some { t with stage := .answered reply })) p ↔
        IdleBut s.toggles i p := by
      intro p
      rw [idle_put_iff ht]
      refine and_iff_left fun t' ht' _ => ?_
      cases ht'
      rfl
    simp only [Settled, hidle, hscope, Option.some.injEq, forall_eq']
    constructor
    · intro hS hbut
      have hnew := hS t.pkg hbut
      rwa [if_pos rfl] at hnew
    · intro hC p hbut
      split_ifs with hp
      · subst hp
        exact hC hbut
      · exact hP p ((idle_iff ht p).mpr ⟨hbut, fun hp' => absurd hp'.symm hp⟩)

/-- **One step keeps the scope settled just when the last statement counts.** -/
theorem settled_step {s s' : Page} {e : PageEvent} (hI : ToggleInv s) (hm : MidRead s e)
    (hP : Settled s) (h : pageStep s e = some s') : Settled s' ↔ LastCounts s e := by
  have hlist : s'.toggles = s.toggles ∧ s'.db = s.db ∧ s'.wanted = s.wanted → Settled s' := by
    rintro ⟨ht, hdb, hw⟩ p hid
    rw [ht] at hid
    rw [hdb, hw]
    exact hP p hid
  cases e with
  | toggle p check => exact settled_toggle hI hP h
  | exec i => exact settled_exec hI hm hP h
  | reply i =>
    obtain ⟨t, reply, boxes, ht, hst, rfl⟩ := pageStep_reply h
    refine iff_of_true (fun p hid => hP p ?_) trivial
    rw [idle_iff ht, hst]
    exact ⟨((idle_put_iff ht none p).mp hid).1, fun _ => rfl⟩
  | refresh => exact iff_of_true (hlist (pageStep_refresh h rfl)) trivial
  | serve i apps => exact iff_of_true (hlist (pageStep_refresh h rfl)) trivial
  | render i => exact iff_of_true (hlist (pageStep_refresh h rfl)) trivial

theorem moduleMid_step {s s' : Page} {e : PageEvent} (h : pageStep s e = some s') :
    s'.db.moduleMid = s.db.moduleMid := by
  cases e with
  | toggle p check =>
    obtain ⟨boxes, rfl⟩ := pageStep_toggle h
    rfl
  | exec i =>
    obtain ⟨t, db, stage, ht, hx, rfl⟩ := pageStep_exec h
    exact moduleMid_exec hx
  | reply i =>
    obtain ⟨t, reply, boxes, ht, -, rfl⟩ := pageStep_reply h
    rfl
  | refresh => rw [(pageStep_refresh h rfl).2.1]
  | serve i apps => rw [(pageStep_refresh h rfl).2.1]
  | render i => rw [(pageStep_refresh h rfl).2.1]

theorem MidFits.midRead {s : Page} (h : MidFits s.db) (e : PageEvent) : MidRead s e := by
  cases e with
  | exec i => exact fun _ _ _ => h
  | _ => trivial

theorem toggleInv_opened (db : Db) : ToggleInv (opened db) where
  mid := fun i t m h => by simp [opened, Slots.get] at h
  name := fun i t h => by simp [opened, Slots.get] at h

theorem Settled.asWanted {s : Page} (h : Settled s) : AsWanted s := by
  intro hq p
  refine h p fun j t hj => ?_
  rw [Slots.quiet_iff.mp hq.1 j] at hj
  cases hj

/-- **Toggles that overlap.**  In every run of a page and its server whose statements are in order,
the scope is as wanted once nothing is in flight.  If the module is registered with a mid that fits,
the order is also needed: the scope stays settled, package by package, just when it is kept. -/
theorem toggled_iff (db : Db) (evs : List PageEvent) :
    (pageSystem.EachStep InOrder (opened db) evs → pageSystem.Always AsWanted (opened db) evs) ∧
      (MidFits db →
        (pageSystem.Always Settled (opened db) evs ↔ pageSystem.EachStep InOrder (opened db) evs)) := by
  have hinit : ToggleInv (opened db) ∧ Settled (opened db) := ⟨toggleInv_opened db, fun _ _ => rfl⟩
  constructor
  · intro hC
    have hall : pageSystem.Always (fun s => ToggleInv s ∧ Settled s) (opened db) evs :=
      StepSystem.always_of_inv (fun s e s' hI hC h =>
        ⟨toggleInv_step hI.1 hC.mid h, (settled_step hI.1 hC.mid hI.2 h).mpr hC.last⟩) hinit hC
    exact hall.mono fun s h => h.2.asWanted
  · intro hfit
    refine StepSystem.always_iff_eachStep (I := fun s => ToggleInv s ∧ MidFits s.db) ?_ ?_
      ⟨hinit.1, hfit⟩ hinit.2
    · rintro s e s' ⟨hI, hfit⟩ h
      refine ⟨toggleInv_step hI (hfit.midRead e) h, ?_⟩
      unfold MidFits
      rw [moduleMid_step h]
      exact hfit
    · rintro s e s' ⟨hI, hfit⟩ hP h
      rw [settled_step hI (hfit.midRead e) hP h]
      exact ⟨fun hl => ⟨hfit.midRead e, hl⟩, InOrder.last⟩

def comApp : Text := "com.app".toList

/-- The list is refreshed and shows `com.app`. -/
def refreshed (i : ℕ) : List PageEvent := [.refresh, .serve i [comApp], .render i]

/-- Checked, checked again in a fresh box and unchecked: the `INSERT` of the first request comes
last. -/
def threeToggles : List PageEvent :=
  refreshed 0 ++ [.toggle comApp true, .exec 0] ++
  refreshed 1 ++ [.toggle comApp true, .exec 1, .exec 1] ++
  refreshed 2 ++ [.toggle comApp false, .exec 2, .exec 0, .reply 0, .reply 1, .reply 2]

/-- The package is in the scope although the last toggle took it out. -/
theorem toggle_lost : ¬ pageSystem.Always AsWanted (opened oneModule) threeToggles := by
  intro h
  have hend : (pageSystem.run (opened oneModule) threeToggles).map (fun s =>
      (s.toggles.quiet, s.refreshes.quiet, s.db.inScope comApp, s.wanted comApp)) =
      some (true, true, true, false) := by decide +kernel
  obtain ⟨s, hs, hobs⟩ := Option.map_eq_some_iff.mp hend
  simp only [Prod.mk.injEq] at hobs
  obtain ⟨ht, hr, hin, hw⟩ := hobs
  have := h.last hs ⟨ht, hr⟩ comApp
  rw [hin, hw] at this
  cases this

end HeadlessAndroid.Scope
