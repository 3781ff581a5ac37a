import HeadlessAndroid.Adb

/-!
# HeadlessAndroid.ScopeRoutes — the handlers of /api/scope

`GET /`, `POST /add`, `POST /remove` and `POST /enable` as the source writes them.
-/

namespace HeadlessAndroid.Scope

open Lib Lib.Js

/-- `PKG_NAME_RE.test(t)`. -/
def pkgNameRe : Text → Bool
  | [] => false
  | c :: t => isLetter c && decide (t.length ≤ 254) &&
      t.all fun c => isLetter c || isDigit c || c == '.' || c == '_'

/-- What `moduleRow` makes of the line that the lookup prints. -/
structure Mod where
  mid : Number
  enabled : Bool

/-- `const [mid, enabled] = stdout.split("|")`. -/
def parseModuleRow (stdout : Text) : Mod :=
  let fields := stdout.splitOn '|'
  { mid := Number.ofText (fields.head?.getD [])
    enabled := fields[1]? == some ['1'] }

/-- `moduleRow` on the result of its query. -/
def modOfResult (r : AdbResult) : Option Mod :=
  if !r.ok || r.stdout.isEmpty then none else some (parseModuleRow r.stdout)

def moduleRow : Handler (Option Mod) := do
  let r ← dbExec .selectModule
  return modOfResult r

/-- The non-empty lines of a text, trimmed. -/
def trimmedLines (t : Text) : List Text :=
  ((t.splitOn '\n').map trim).filter fun s => !s.isEmpty

def scopedPackages (mid : Number) : Handler (List Text) := do
  let r ← dbExec (.selectScope mid.toText)
  return if !r.ok then [] else trimmedLines r.stdout

/-- `line.replace(/^package:/, "")`. -/
def dropPackage (line : Text) : Text :=
  if "package:".toList.isPrefixOf line then line.drop 8 else line

/-- The code units by which JavaScript orders strings. -/
def utf16 (t : Text) : List ℕ := t.flatMap fun c =>
  if c.toNat < 0x10000 then [c.toNat]
  else [0xD800 + (c.toNat - 0x10000) / 0x400, 0xDC00 + (c.toNat - 0x10000) % 0x400]

/-- The lexicographic order of code units. -/
def unitsLe : List ℕ → List ℕ → Bool
  | [], _ => true
  | _ :: _, [] => false
  | a :: as, b :: bs => decide (a < b) || (a == b && unitsLe as bs)

/-- `sort()`. -/
def jsSort (ts : List Text) : List Text := ts.mergeSort fun a b => unitsLe (utf16 a) (utf16 b)

def installedPackages (includeSystem : Bool) : Handler (List Text) := do
  let r ← adb (["shell", "pm", "list", "packages"].map String.toList ++
    if includeSystem then [] else ["-3".toList])
  return if !r.ok then [] else
    jsSort (((r.stdout.splitOn '\n').map fun line => trim (dropPackage line)).filter
      fun s => !s.isEmpty)

/-- An entry `{ pkg, scoped, installed }` of the answer. -/
structure AppRow where
  pkg : Text
  isScoped : Bool
  isInstalled : Bool

/-- One turn of the two loops that fill `merged`. -/
def mergeOne (scopedSet : List Text) (installed : Bool) (merged : List AppRow) (pkg : Text) :
    List AppRow :=
  if merged.any fun a => a.pkg == pkg then merged
  else merged ++ [⟨pkg, !installed || scopedSet.contains pkg, installed⟩]

def mergeApps (scopedPkgs apps : List Text) : List AppRow :=
  scopedPkgs.foldl (mergeOne scopedPkgs false) (apps.foldl (mergeOne scopedPkgs true) [])

def jsNat (n : ℕ) : JsVal := .num (.fin n)

def AppRow.json (a : AppRow) : JsVal :=
  jsObj [("pkg", .str a.pkg), ("scoped", .bool a.isScoped), ("installed", .bool a.isInstalled)]

def listBody (mod : Mod) (scopedPkgs apps : List Text) (includeSystem : Bool) : JsVal :=
  jsObj [("ok", .bool true),
    ("module", jsObj [("mid", .num mod.mid), ("enabled", .bool mod.enabled), ("pkg", .str modulePkg)]),
    ("apps", .arr ((mergeApps scopedPkgs apps).map AppRow.json)),
    ("counts", jsObj [("installed", jsNat apps.length), ("scoped", jsNat scopedPkgs.length)]),
    ("includeSystem", .bool includeSystem)]

/-- `v === "true"`. -/
def isTrueText : JsVal → Bool
  | .str t => t == "true".toList
  | _ => false

/-- `GET /`.  The two lists are asked for at the same time; they do not depend on each other. -/
def list (E : Engine) (query : JsVal) : Handler Unit := do
  let includeSystem := isTrueText (query.get "system")
  match ← moduleRow with
  | none =>
    resJson E 200
      (errorBody "stealth module not registered yet — run scripts/install-magisk-avd.sh")
  | some mod =>
    let scopedPkgs ← scopedPackages mod.mid
    let apps ← installedPackages includeSystem
    resJson E 200 (listBody mod scopedPkgs apps includeSystem)

/-- `POST /add`. -/
def add (E : Engine) (body : JsVal) : Handler Unit := do
  let pkg := body.get "pkg"
  if !pkgNameRe (← toStr E (pkg.or (.str []))) then
    resJson E 400 (errorBody "invalid package name")
  else
    match ← moduleRow with
    | none => resJson E 500 (errorBody "module not registered")
    | some mod =>
      let _ ← dbExec (.insertScope mod.mid.toText (← toStr E pkg))
      resJson E 200 (jsObj [("ok", .bool true), ("pkg", pkg)])

/-- `POST /remove`. -/
def remove (E : Engine) (body : JsVal) : Handler Unit := do
  let pkg := body.get "pkg"
  if !pkgNameRe (← toStr E (pkg.or (.str []))) then
    resJson E 400 (errorBody "invalid package name")
  else
    let _ ← dbExec (.deleteScope (← toStr E pkg))
    resJson E 200 (jsObj [("ok", .bool true), ("pkg", pkg)])

/-- `POST /enable`. -/
def enable (E : Engine) (body : JsVal) : Handler Unit := do
  let enabled := (body.get "enabled").truthy
  let _ ← dbExec (.updateEnabled enabled)
  resJson E 200 (jsObj [("ok", .bool true), ("enabled", .bool enabled)])

/-! ## The handlers call by call -/

/-- What the handlers test: the text of `pkg || ""`, if it has one. -/
def pkgText (E : Engine) (body : JsVal) : Option Text :=
  ((body.get "pkg").or (.str [])).toStr E.joinDepth

/-- The package name that a body is accepted for. -/
def acceptedPkg (E : Engine) (body : JsVal) : Option Text := (pkgText E body).filter pkgNameRe

def okPkg (body : JsVal) : JsVal := jsObj [("ok", .bool true), ("pkg", body.get "pkg")]

section Equations

variable {E : Engine} {body : JsVal}

theorem acceptedPkg_eq_some {p : Text} :
    acceptedPkg E body = some p ↔ pkgText E body = some p ∧ pkgNameRe p = true := by
  simp [acceptedPkg, Option.filter_eq_some_iff]

/-- The text that is tested is the one that goes into the statement. -/
theorem toStr_pkg {p : Text} (h : acceptedPkg E body = some p) :
    (body.get "pkg").toStr E.joinDepth = some p := by
  obtain ⟨ht, hre⟩ := acceptedPkg_eq_some.mp h
  unfold pkgText JsVal.or at ht
  split at ht
  · exact ht
  · simp only [JsVal.toStr, Option.some.injEq] at ht
    subst ht
    cases hre

theorem add_throw (h : pkgText E body = none) : add E body = Async.throw := by
  unfold pkgText at h
  simp [add, toStr, h]

theorem add_invalid {t : Text} (h : pkgText E body = some t) (hre : pkgNameRe t = false) :
    add E body = resJson E 400 (errorBody "invalid package name") := by
  unfold pkgText at h
  simp [add, toStr, h, hre]

theorem add_valid {p : Text} (h : acceptedPkg E body = some p) :
    add E body = Async.await (Call.dbExec .selectModule) fun r =>
      match modOfResult r with
      | none => resJson E 500 (errorBody "module not registered")
      | some mod => Async.await (Call.dbExec (.insertScope mod.mid.toText p)) fun _ =>
          resJson E 200 (okPkg body) := by
  obtain ⟨ht, hre⟩ := acceptedPkg_eq_some.mp h
  unfold pkgText at ht
  simp only [add, toStr, ht, hre, toStr_pkg h, moduleRow, dbExec, okPkg, Async.ofOption_some,
    Async.pure_bind', Async.call_bind, Async.await_bind, Async.pure_eq, Bool.not_true,
    Bool.false_eq_true, if_false]

theorem remove_throw (h : pkgText E body = none) : remove E body = Async.throw := by
  unfold pkgText at h
  simp [remove, toStr, h]

theorem remove_invalid {t : Text} (h : pkgText E body = some t) (hre : pkgNameRe t = false) :
    remove E body = resJson E 400 (errorBody "invalid package name") := by
  unfold pkgText at h
  simp [remove, toStr, h, hre]

theorem remove_valid {p : Text} (h : acceptedPkg E body = some p) :
    remove E body = Async.await (Call.dbExec (.deleteScope p)) fun _ =>
      resJson E 200 (okPkg body) := by
  obtain ⟨ht, hre⟩ := acceptedPkg_eq_some.mp h
  unfold pkgText at ht
  simp only [remove, toStr, ht, hre, toStr_pkg h, dbExec, okPkg, Async.ofOption_some,
    Async.pure_bind', Async.call_bind, Bool.not_true, Bool.false_eq_true, if_false]

theorem enable_eq : enable E body =
    Async.await (Call.dbExec (.updateEnabled (body.get "enabled").truthy)) fun _ =>
      resJson E 200 (jsObj [("ok", .bool true), ("enabled", .bool (body.get "enabled").truthy)]) :=
  rfl

end Equations

theorem depthItems_rows (rows : List AppRow) :
    JsVal.depthItems (rows.map AppRow.json) ≤ 1 := by
  induction rows with
  | nil => exact Nat.zero_le 1
  | cons a rows ih =>
    have ha : (AppRow.json a).depth ≤ 1 := by
      simp [AppRow.json, jsObj, JsVal.depth, JsVal.depthFields]
    rw [List.map_cons]
    exact max_le ha ih

theorem depth_listBody (mod : Mod) (scopedPkgs apps : List Text) (sys : Bool) :
    (listBody mod scopedPkgs apps sys).depth ≤ 4 := by
  have h := depthItems_rows (mergeApps scopedPkgs apps)
  simp [listBody, jsNat, jsObj, JsVal.depth, JsVal.depthFields]
  omega

end HeadlessAndroid.Scope
