import HeadlessAndroid.Lib.Async
import HeadlessAndroid.Lib.JsValue
import HeadlessAndroid.Emu
import HeadlessAndroid.ScopeDb

/-!
# HeadlessAndroid.Adb — what route handlers await and what they send

A route handler is an async function that awaits `adb`, `dbExec` and `emuCommand` and sends JSON
responses.
-/

namespace HeadlessAndroid

open Lib Lib.Js

/-- What `adb` resolves with. -/
structure AdbResult where
  ok : Bool
  code : Option ℤ
  stdout : Text
  stderr : Text
  timedOut : Bool

/-- The `close` handler of `adb`: the exit code, if there is one, all that was printed, and whether
the timer has killed the process. -/
def adbClose (code : Option ℤ) (killed : Bool) (stdout stderr : Text) : AdbResult where
  ok := code == some 0 && !killed
  code := code
  stdout := trim stdout
  stderr := trim stderr
  timedOut := killed

inductive Call where
  /-- `adb(extra)`, and `shell(cmd)` as `adb(["shell", cmd])`. -/
  | adb (extra : List Text)
  /-- `dbExec(sql)`. -/
  | dbExec (sql : Scope.Sql)
  /-- `emuCommand(cmd)`. -/
  | emuCommand (cmd : Text)

abbrev Call.Answer : Call → Type
  | .adb _ => AdbResult
  | .dbExec _ => AdbResult
  | .emuCommand _ => Emu.EmuResult

structure Response where
  status : ℕ
  body : JsVal

abbrev Handler := Async Call.Answer Response

def adb (extra : List Text) : Handler AdbResult := Async.call (Call.adb extra)

def shell (cmd : Text) : Handler AdbResult := adb ["shell".toList, cmd]

def dbExec (sql : Scope.Sql) : Handler AdbResult := Async.call (Call.dbExec sql)

def emuCommand (cmd : Text) : Handler Emu.EmuResult := Async.call (Call.emuCommand cmd)

/-- `String(v)`. -/
def toStr (E : Engine) (v : JsVal) : Handler Text := Async.ofOption (v.toStr E.joinDepth)

/-- `Number(v)`. -/
def toNum (E : Engine) (v : JsVal) : Handler Number := Async.ofOption (v.toNum E.joinDepth)

/-- `res.status(status).json(body)`. -/
def resJson (E : Engine) (status : ℕ) (body : JsVal) : Handler Unit :=
  if body.depth ≤ E.jsonDepth then Async.emit ⟨status, body⟩ else Async.throw

/-- An object with the given fields. -/
def jsObj (fields : List (String × JsVal)) : JsVal := .obj (fields.map fun f => (f.1.toList, f.2))

def errorBody (msg : String) : JsVal :=
  jsObj [("ok", .bool false), ("error", .str msg.toList)]

/-- A response of a few levels is sent. -/
theorem sends_resJson {E : Engine} {status : ℕ} {body : JsVal} (h : body.depth ≤ 4) :
    Async.Sends 1 (resJson E status body) := by
  unfold resJson
  rw [if_pos (h.trans E.shallow)]
  exact ⟨0, rfl, rfl⟩

theorem depth_errorBody (msg : String) : (errorBody msg).depth ≤ 4 := by
  simp [errorBody, jsObj, JsVal.depth, JsVal.depthFields]

theorem sends_error {E : Engine} {status : ℕ} {msg : String} :
    Async.Sends 1 (resJson E status (errorBody msg)) :=
  sends_resJson (depth_errorBody msg)

theorem error_sends {E : Engine} {status : ℕ} {msg : String} {σ : Type} {s : σ}
    {world : Async.World Call.Answer σ} :
    (resJson E status (errorBody msg)).run world s = ⟨some (), [⟨status, errorBody msg⟩], s⟩ := by
  have hd : (errorBody msg).depth ≤ E.jsonDepth :=
    (depth_errorBody msg).trans E.shallow
  unfold resJson
  rw [if_pos hd]
  rfl

/-- A response is no call. -/
theorem calls_resJson {E : Engine} {status : ℕ} {reply : JsVal} {σ : Type} {s : σ}
    {world : Async.World Call.Answer σ} : (resJson E status reply).calls world s = [] := by
  unfold resJson
  split <;> rfl

end HeadlessAndroid
