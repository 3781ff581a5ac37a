import HeadlessAndroid.Lib.JsNumber
import Mathlib.Data.List.Nodup

/-!
# HeadlessAndroid.ScopeDb — LSPosed's modules_config.db and the statements sent to it

The two tables that `/api/scope` uses and the five statements of the source, with what sqlite3 does
for them.  A statement holds the texts that the source puts into it.
-/

namespace HeadlessAndroid.Scope

open Lib Lib.Js

/-- `MODULE_PKG`. -/
def modulePkg : Text := "com.headless.mockloc".toList

inductive Sql where
  /-- ``SELECT mid, enabled FROM modules WHERE module_pkg_name='${MODULE_PKG}';`` -/
  | selectModule
  /-- ``SELECT app_pkg_name FROM scope WHERE mid=${mid};`` -/
  | selectScope (mid : Text)
  /-- ``INSERT OR IGNORE INTO scope (mid, app_pkg_name, user_id) VALUES (${mid}, '${pkg}', 0);`` -/
  | insertScope (mid pkg : Text)
  /-- ``DELETE FROM scope WHERE app_pkg_name='${pkg}';`` -/
  | deleteScope (pkg : Text)
  /-- ``UPDATE modules SET enabled=${enabled} WHERE module_pkg_name='${MODULE_PKG}';`` -/
  | updateEnabled (enabled : Bool)
  deriving DecidableEq

structure ModuleRow where
  mid : ℤ
  pkg : Text
  enabled : Bool
  deriving DecidableEq

/-- `mid` is a number that sqlite3 was given, so that it need not be one of a module. -/
structure ScopeRow where
  mid : ℚ
  pkg : Text
  userId : ℤ
  deriving DecidableEq

structure Db where
  modules : List ModuleRow
  scope : List ScopeRow
  mids_nodup : (modules.map (·.mid)).Nodup
  pkgs_nodup : (modules.map (·.pkg)).Nodup
  scope_nodup : scope.Nodup

/-! ## What sqlite3 does -/

/-- An integer literal is exact where it fits 64 bits; every other number is read as a double. -/
def sqlUnsigned (t : Text) : Option ℚ :=
  match digits t with
  | some n =>
    if n < 2 ^ 63 then some n
    else match binary64.round n with
      | .fin q => some q
      | _ => none
  | none =>
    match unsignedDecimal t with
    | none => none
    | some q =>
      match binary64.round q with
      | .fin q => some q
      | _ => none

/-- The value of a number in a statement.  `NaN` and `Infinity` are no numbers but the names of
columns that do not exist. -/
def sqlNumber : Text → Option ℚ
  | '-' :: t => (sqlUnsigned t).map fun q => -q
  | t => sqlUnsigned t

/-- An integer that fits 64 bits is read from its decimal text. -/
theorem sqlNumber_intText {n : ℤ} (hn : |n| < 2 ^ 63) : sqlNumber (intText n) = some (n : ℚ) := by
  have hu : ∀ k : ℕ, k < 2 ^ 63 → sqlUnsigned (natText k) = some (k : ℚ) := by
    intro k hk
    unfold sqlUnsigned
    rw [digits_natText]
    simp only [if_pos hk]
  rcases int_cases n with ⟨k, rfl⟩ | ⟨k, hk, rfl⟩
  · rw [Nat.abs_cast] at hn
    rw [intText_natCast]
    unfold sqlNumber
    split
    · rename_i t e
      have := natText_digit (n := k) (c := '-') (by rw [e]; exact List.mem_cons_self)
      cases this
    · rw [hu k (by exact_mod_cast hn)]
      rfl
  · rw [abs_neg, Nat.abs_cast] at hn
    rw [intText_neg hk]
    show (sqlUnsigned (natText k)).map (fun q => -q) = _
    rw [hu k (by exact_mod_cast hn), Option.map_some]
    push_cast
    rfl

def Db.insertRow (db : Db) (row : ScopeRow) : Db where
  modules := db.modules
  scope := if row ∈ db.scope then db.scope else db.scope ++ [row]
  mids_nodup := db.mids_nodup
  pkgs_nodup := db.pkgs_nodup
  scope_nodup := by
    split
    · exact db.scope_nodup
    · rename_i h
      rw [← List.concat_eq_append]
      exact List.Nodup.concat h db.scope_nodup

def Db.deletePkg (db : Db) (pkg : Text) : Db where
  modules := db.modules
  scope := db.scope.filter fun row => row.pkg ≠ pkg
  mids_nodup := db.mids_nodup
  pkgs_nodup := db.pkgs_nodup
  scope_nodup := db.scope_nodup.filter _

def ModuleRow.setEnabled (flag : Bool) (row : ModuleRow) : ModuleRow :=
  if row.pkg = modulePkg then { row with enabled := flag } else row

@[simp] theorem ModuleRow.setEnabled_mid (flag : Bool) (row : ModuleRow) :
    (row.setEnabled flag).mid = row.mid := by
  unfold setEnabled; split <;> rfl

@[simp] theorem ModuleRow.setEnabled_pkg (flag : Bool) (row : ModuleRow) :
    (row.setEnabled flag).pkg = row.pkg := by
  unfold setEnabled; split <;> rfl

def Db.setEnabled (db : Db) (flag : Bool) : Db where
  modules := db.modules.map (ModuleRow.setEnabled flag)
  scope := db.scope
  mids_nodup := by
    rw [List.map_map]
    exact (List.map_congr_left fun row _ => ModuleRow.setEnabled_mid flag row) ▸ db.mids_nodup
  pkgs_nodup := by
    rw [List.map_map]
    exact (List.map_congr_left fun row _ => ModuleRow.setEnabled_pkg flag row) ▸ db.pkgs_nodup
  scope_nodup := db.scope_nodup

def Db.moduleRow (db : Db) : Option ModuleRow := db.modules.find? fun row => row.pkg = modulePkg

/-- The mid of `com.headless.mockloc`, if it is registered. -/
def Db.moduleMid (db : Db) : Option ℤ := db.moduleRow.map (·.mid)

def moduleText (row : ModuleRow) : Text :=
  intText row.mid ++ '|' :: (if row.enabled then ['1'] else ['0'])

/-- The tables after a statement; `none` where sqlite3 reports an error. -/
def Db.after (db : Db) : Sql → Option Db
  | .selectModule => some db
  | .selectScope mid => (sqlNumber mid).map fun _ => db
  | .insertScope mid pkg => (sqlNumber mid).map fun q => db.insertRow ⟨q, pkg, 0⟩
  | .deleteScope pkg => some (db.deletePkg pkg)
  | .updateEnabled flag => some (db.setEnabled flag)

/-- The rows that a statement prints, one a line. -/
def Db.rows (db : Db) : Sql → List Text
  | .selectModule => db.moduleRow.toList.map moduleText
  | .selectScope mid => (db.scope.filter fun row => sqlNumber mid = some row.mid).map (·.pkg)
  | _ => []

end HeadlessAndroid.Scope
