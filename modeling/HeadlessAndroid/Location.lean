import HeadlessAndroid.Adb

/-!
# HeadlessAndroid.Location — POST /api/location on the server's side

The route, its two backends and `setLocation` between them.
-/

namespace HeadlessAndroid.Location

open Lib Lib.Js

/-- What the handlers read of the server's `config`. -/
structure Config where
  backendType : Text
  adbSerial : Text

/-- `HELPER_PKG`. -/
def helperPkg : Text := "com.headless.mockloc".toList

/-- `HELPER_ACTION`. -/
def helperAction : Text := helperPkg ++ ".SET_LOCATION".toList

/-- `HELPER_RECEIVER`. -/
def helperReceiver : Text := helperPkg ++ "/.LocationReceiver".toList

structure Coords where
  lat : Number
  lng : Number
  alt : Option Number
  accuracy : Option Number

/-- The result of a backend, as the route shows it in `detail`. -/
structure Detail where
  ok : Bool
  output : Text
  error : Option Text

/-- `parts.join(" ")`. -/
def joinNums (parts : List Number) : Text := [' '].intercalate (parts.map Number.toText)

/-- `geoFix(lng, lat, alt)`. -/
def geoFix (lng lat : Number) (alt : Option Number) : Handler Emu.EmuResult :=
  emuCommand ("geo fix ".toList ++ joinNums ([lng, lat] ++ alt.toList))

/-- The console expects longitude, latitude, altitude. -/
def setLocationAvd (c : Coords) : Handler Detail := do
  let r ← geoFix c.lng c.lat c.alt
  return { ok := r.ok, output := r.output, error := r.error }

def appopsCmd : Text :=
  "cmd appops set ".toList ++ helperPkg ++ " android:mock_location allow".toList

/-- Its result is not looked at. -/
def ensureMockLocationAllowed : Handler Unit := do
  let _ ← shell appopsCmd

/-- `--ef name value`. -/
def floatExtra (name : String) (n : Number) : List Text := ["--ef".toList, name.toList, n.toText]

def broadcastArgs (c : Coords) : List Text :=
  ["shell".toList, "am".toList, "broadcast".toList, "-a".toList, helperAction, "-n".toList,
    helperReceiver] ++ floatExtra "lat" c.lat ++ floatExtra "lng" c.lng ++
    floatExtra "alt" (c.alt.getD (.fin 0)) ++ floatExtra "accuracy" (c.accuracy.getD (.fin 5))

/-- `/Broadcast completed: result=0/.test(stdout)`. -/
def broadcastDone (stdout : Text) : Bool :=
  includes stdout "Broadcast completed: result=0".toList

def setLocationRedroid (c : Coords) : Handler Detail := do
  ensureMockLocationAllowed
  let r ← adb (broadcastArgs c)
  return { ok := r.ok && broadcastDone r.stdout, output := r.stdout, error := some r.stderr }

structure LocationResult where
  ok : Bool
  via : String
  detail : Detail

def setLocation (cfg : Config) (c : Coords) : Handler LocationResult := do
  if cfg.backendType = "avd".toList then
    let r ← setLocationAvd c
    return { ok := r.ok, via := "emu geo fix", detail := r }
  else
    let r ← setLocationRedroid c
    return { ok := r.ok, via := "MockLocationHelper broadcast", detail := r }

def textOrNull : Option Text → JsVal
  | none => .null
  | some t => .str t

def Detail.json (d : Detail) : JsVal :=
  jsObj [("ok", .bool d.ok), ("output", .str d.output), ("error", textOrNull d.error)]

def LocationResult.json (r : LocationResult) : JsVal :=
  jsObj [("ok", .bool r.ok), ("via", .str r.via.toList), ("detail", r.detail.json)]

/-- `v == null ? undefined : Number(v)`. -/
def optionalNum (E : Engine) (v : JsVal) : Handler (Option Number) :=
  if v.isNullish then pure none else do
    let n ← toNum E v
    return some n

/-- `POST /`. -/
def post (E : Engine) (cfg : Config) (body : JsVal) : Handler Unit := do
  let fLat ← toNum E (body.get "lat")
  let fLng ← toNum E (body.get "lng")
  match fLat, fLng with
  | .fin lat, .fin lng =>
    if lat < -90 ∨ 90 < lat ∨ lng < -180 ∨ 180 < lng then
      resJson E 400 (errorBody "lat/lng out of range")
    else
      let alt ← optionalNum E (body.get "alt")
      let accuracy ← optionalNum E (body.get "accuracy")
      let result ← setLocation cfg { lat := fLat, lng := fLng, alt := alt, accuracy := accuracy }
      resJson E 200 result.json
  | _, _ => resJson E 400 (errorBody "lat and lng required")

end HeadlessAndroid.Location
