import HeadlessAndroid.Location

/-!
# HeadlessAndroid.Receiver — the location helper on a Redroid device

The broadcast receiver of `com.headless.mockloc`, the `am broadcast` that starts it, and what
`setLocation` reports of it.  The receiver catches every exception and never sets a result code, so
that the report does not depend on what its calls did.
-/

namespace HeadlessAndroid.Location

open Lib Lib.Js

/-- `TARGETS`. -/
inductive Provider where
  | gps
  | network
  | fused
  deriving DecidableEq

def targets : List Provider := [.gps, .network, .fused]

/-- The fields of a `Location` that the helper sets from the request. -/
structure Fix where
  lat : Number
  lng : Number
  alt : Number
  acc : Number
  deriving DecidableEq

/-- One provider: is it a test provider, is it enabled, and what was last set on it. -/
structure ProviderState where
  test : Bool
  enabled : Bool
  location : Option Fix
  deriving DecidableEq

abbrev Device := Provider → ProviderState

/-- How a call of the LocationManager ends. -/
inductive LmOutcome where
  | ok
  | illegalArgument
  | exception
  deriving DecidableEq

/-- How the calls for one provider end. -/
structure LmCalls where
  addTestProvider : LmOutcome := .ok
  setTestProviderEnabled : LmOutcome := .ok
  setTestProviderLocation : LmOutcome := .ok
  removeTestProvider : LmOutcome := .ok

/-- A call takes effect or throws; a thrown exception is caught and leaves things as they were. -/
def attempt (o : LmOutcome) (effect : ProviderState → ProviderState) (s : ProviderState) :
    ProviderState :=
  if o = .ok then effect s else s

/-- `ensureProvider`: two calls, each with a `try` of its own. -/
def ensureProvider (calls : LmCalls) (s : ProviderState) : ProviderState :=
  attempt calls.setTestProviderEnabled (fun s => { s with enabled := true })
    (attempt calls.addTestProvider (fun s => { s with test := true }) s)

/-- One turn of the loop of `setLocation` over the targets. -/
def mockProvider (calls : Provider → LmCalls) (fix : Fix) (d : Device) (p : Provider) : Device :=
  Function.update d p
    (attempt (calls p).setTestProviderLocation (fun s => { s with location := some fix })
      (ensureProvider (calls p) (d p)))

/-- One turn of `stopAllProviders`: the second call is in the same `try` as the first. -/
def stopProvider (calls : Provider → LmCalls) (d : Device) (p : Provider) : Device :=
  Function.update d p
    (attempt (calls p).setTestProviderEnabled
      (fun s => attempt (calls p).removeTestProvider (fun s => { s with test := false })
        { s with enabled := false }) (d p))

structure Intent where
  action : Text := []
  component : Text := []
  floats : List (Text × Number) := []

/-- `getFloatExtra(name, default)`. -/
def Intent.getFloatExtra (i : Intent) (name : String) (default : Number) : Number :=
  (i.floats.lookup name.toList).getD default

def Intent.fix (i : Intent) : Fix where
  lat := i.getFloatExtra "lat" .nan
  lng := i.getFloatExtra "lng" .nan
  alt := i.getFloatExtra "alt" (.fin 0)
  acc := i.getFloatExtra "accuracy" (.fin 5)

/-- `setLocation(lm, intent)` of the receiver. -/
def receiverSet (calls : Provider → LmCalls) (i : Intent) (d : Device) : Device :=
  if i.fix.lat = .nan ∨ i.fix.lng = .nan then d
  else targets.foldl (mockProvider calls i.fix) d

def actionStop : Text := helperPkg ++ ".STOP".toList

/-- `onReceive`. -/
def onReceive (calls : Provider → LmCalls) (i : Intent) (d : Device) : Device :=
  if i.action = actionStop then targets.foldl (stopProvider calls) d
  else if i.action = helperAction then receiverSet calls i d
  else d

/-! ## adb shell am broadcast -/

/-- The options of `am broadcast`; `--ef` reads its value as a float. -/
def parseOptions : List Text → Intent → Option Intent
  | [], i => some i
  | o :: v :: rest, i =>
    if o = "-a".toList then parseOptions rest { i with action := v }
    else if o = "-n".toList then parseOptions rest { i with component := v }
    else if o = "--ef".toList then
      match rest with
      | w :: rest => parseOptions rest { i with floats := i.floats ++ [(v, decimalNumber binary32 w)] }
      | [] => none
    else none
  | [_], _ => none

def parseBroadcast (extra : List Text) : Option Intent :=
  if ["shell".toList, "am".toList, "broadcast".toList] <+: extra then parseOptions (extra.drop 3) {}
  else none

/-- How a request goes on the device: the appops command, the broadcast command, whether the
broadcast reaches the receiver, and the receiver's calls. -/
structure Course where
  grant : AdbResult
  am : AdbResult
  delivered : Bool
  calls : Provider → LmCalls

/-- The two commands that the location route runs. -/
def runAdb (k : Course) (extra : List Text) (d : Device) : Option AdbResult × Device :=
  if extra = ["shell".toList, appopsCmd] then (some k.grant, d)
  else match parseBroadcast extra with
    | some i =>
      (some k.am, if k.delivered ∧ i.component = helperReceiver then onReceive k.calls i d else d)
    | none => (none, d)

def locationWorld (k : Course) : Async.World Call.Answer Device
  | .adb extra, d => runAdb k extra d
  | .dbExec _, d => (none, d)
  | .emuCommand _, d => (none, d)

/-! ## What a request does -/

/-- The request's coordinates, with the defaults of `setLocationRedroid`. -/
def Coords.fix (c : Coords) : Fix where
  lat := c.lat
  lng := c.lng
  alt := c.alt.getD (.fin 0)
  acc := c.accuracy.getD (.fin 5)

/-- The coordinates as they come out of `--ef`. -/
def floatFix (f : Fix) : Fix where
  lat := decimalNumber binary32 f.lat.toText
  lng := decimalNumber binary32 f.lng.toText
  alt := decimalNumber binary32 f.alt.toText
  acc := decimalNumber binary32 f.acc.toText

/-- The intent that the server's command makes. -/
def Coords.intent (c : Coords) : Intent where
  action := helperAction
  component := helperReceiver
  floats := [("lat".toList, (floatFix c.fix).lat), ("lng".toList, (floatFix c.fix).lng),
    ("alt".toList, (floatFix c.fix).alt), ("accuracy".toList, (floatFix c.fix).acc)]

theorem intent_fix (c : Coords) : c.intent.fix = floatFix c.fix := rfl

theorem parseBroadcast_args (c : Coords) : parseBroadcast (broadcastArgs c) = some c.intent := rfl

/-- After a `SET`, each provider is what its own calls have made of it. -/
theorem mocked_apply (calls : Provider → LmCalls) (fix : Fix) (d : Device) (p : Provider) :
    targets.foldl (mockProvider calls fix) d p =
      attempt (calls p).setTestProviderLocation (fun s => { s with location := some fix })
        (ensureProvider (calls p) (d p)) := by
  cases p <;> simp [targets, mockProvider, Function.update]

theorem ensureProvider_location (calls : LmCalls) (s : ProviderState) :
    (ensureProvider calls s).location = s.location := by
  unfold ensureProvider attempt
  split <;> split <;> rfl

theorem mocked_location (calls : Provider → LmCalls) (fix : Fix) (d : Device) (p : Provider) :
    (targets.foldl (mockProvider calls fix) d p).location =
      if (calls p).setTestProviderLocation = .ok then some fix else (d p).location := by
  rw [mocked_apply]
  unfold attempt
  split
  · rfl
  · exact ensureProvider_location _ _

/-- The call that sets the location of the provider is made, with readable coordinates, and takes
effect. -/
def Sets (k : Course) (c : Coords) (p : Provider) : Prop :=
  k.delivered = true ∧ (floatFix c.fix).lat ≠ .nan ∧ (floatFix c.fix).lng ≠ .nan ∧
    (k.calls p).setTestProviderLocation = .ok

instance (k : Course) (c : Coords) (p : Provider) : Decidable (Sets k c p) := by
  unfold Sets; infer_instance

theorem receiverSet_location (k : Course) (c : Coords) (d : Device) (p : Provider)
    (hd : k.delivered = true) : (receiverSet k.calls c.intent d p).location =
      if Sets k c p then some (floatFix c.fix) else (d p).location := by
  unfold receiverSet
  rw [intent_fix]
  by_cases hn : (floatFix c.fix).lat = .nan ∨ (floatFix c.fix).lng = .nan
  · have hno : ¬ Sets k c p := fun h => hn.elim h.2.1 h.2.2.1
    rw [if_pos hn, if_neg hno]
  · rw [if_neg hn, mocked_location]
    rw [not_or] at hn
    by_cases hs : (k.calls p).setTestProviderLocation = .ok
    · have hyes : Sets k c p := ⟨hd, hn.1, hn.2, hs⟩
      rw [if_pos hs, if_pos hyes]
    · have hno : ¬ Sets k c p := fun h => hs h.2.2.2
      rw [if_neg hs, if_neg hno]

/-- The device after the broadcast. -/
def afterBroadcast (k : Course) (c : Coords) (d : Device) : Device :=
  if k.delivered = true then receiverSet k.calls c.intent d else d

theorem afterBroadcast_location (k : Course) (c : Coords) (d : Device) (p : Provider) :
    (afterBroadcast k c d p).location =
      if Sets k c p then some (floatFix c.fix) else (d p).location := by
  unfold afterBroadcast
  by_cases hd : k.delivered = true
  · rw [if_pos hd, receiverSet_location k c d p hd]
  · have hno : ¬ Sets k c p := fun h => hd h.1
    rw [if_neg hd, if_neg hno]

theorem runAdb_appops (k : Course) (d : Device) :
    runAdb k ["shell".toList, appopsCmd] d = (some k.grant, d) :=
  if_pos rfl

theorem runAdb_broadcast (k : Course) (c : Coords) (d : Device) :
    runAdb k (broadcastArgs c) d = (some k.am, afterBroadcast k c d) := by
  have hne : broadcastArgs c ≠ ["shell".toList, appopsCmd] := fun h => by
    have hlen : (19 : ℕ) = 2 := congrArg List.length h
    omega
  have hact : c.intent.action ≠ actionStop := by
    show helperAction ≠ actionStop
    decide +kernel
  unfold runAdb
  rw [if_neg hne, parseBroadcast_args]
  simp only
  unfold afterBroadcast onReceive
  rw [if_neg hact, if_pos (show c.intent.action = helperAction from rfl)]
  simp only [show c.intent.component = helperReceiver from rfl, and_true]

/-- **The report on a Redroid device** is made of the result of `am` alone. -/
theorem run_setLocationRedroid (k : Course) (c : Coords) (d : Device) :
    (setLocationRedroid c).run (locationWorld k) d =
      ⟨some { ok := k.am.ok && broadcastDone k.am.stdout, output := k.am.stdout,
              error := some k.am.stderr }, [], afterBroadcast k c d⟩ := by
  have h : setLocationRedroid c = Async.await (.adb ["shell".toList, appopsCmd]) fun _ =>
      Async.await (.adb (broadcastArgs c)) fun r => Async.pure
        { ok := r.ok && broadcastDone r.stdout, output := r.stdout, error := some r.stderr } := rfl
  have h1 : locationWorld k (.adb ["shell".toList, appopsCmd]) d = (some k.grant, d) :=
    runAdb_appops k d
  have h2 : locationWorld k (.adb (broadcastArgs c)) d = (some k.am, afterBroadcast k c d) :=
    runAdb_broadcast k c d
  rw [h, Async.run_await, h1]
  simp only
  rw [Async.run_await, h2]
  rfl

/-! ## ok:true and the providers -/

/-- `setLocation` reports success. -/
def ReportsOk (cfg : Config) (k : Course) (c : Coords) (d : Device) : Prop :=
  ∃ r, ((setLocation cfg c).run (locationWorld k) d).value = some r ∧ r.ok = true

/-- Every provider carries the requested location. -/
def Carries (d : Device) (c : Coords) : Prop := ∀ p, (d p).location = some c.fix

/-- `am` succeeds and prints that the broadcast completed. -/
def AmCompletes (k : Course) : Prop := k.am.ok = true ∧ broadcastDone k.am.stdout = true

variable {cfg : Config}

theorem run_setLocation (hb : cfg.backendType ≠ "avd".toList) (k : Course) (c : Coords)
    (d : Device) : (ReportsOk cfg k c d ↔ AmCompletes k) ∧
      ((setLocation cfg c).run (locationWorld k) d).state = afterBroadcast k c d := by
  have hrun : (setLocation cfg c).run (locationWorld k) d =
      ⟨some { ok := k.am.ok && broadcastDone k.am.stdout, via := "MockLocationHelper broadcast",
              detail := { ok := k.am.ok && broadcastDone k.am.stdout, output := k.am.stdout,
                          error := some k.am.stderr } }, [], afterBroadcast k c d⟩ := by
    unfold setLocation
    rw [if_neg hb]
    exact Async.run_bind_of _ (run_setLocationRedroid k c d)
  unfold ReportsOk AmCompletes
  rw [hrun]
  refine ⟨?_, rfl⟩
  constructor
  · rintro ⟨r, hr, hok⟩
    cases hr
    simpa using hok
  · rintro ⟨h1, h2⟩
    exact ⟨_, rfl, by simp [h1, h2]⟩

/-- **Redroid.**  Success means that all three providers carry the requested location just when,
for each of them: its location was set, and the coordinates are floats, or it was not set, and the
provider carried the requested location before. -/
theorem location_truthful_iff (hb : cfg.backendType ≠ "avd".toList) (k : Course) (c : Coords)
    (d : Device) :
    (ReportsOk cfg k c d → Carries ((setLocation cfg c).run (locationWorld k) d).state c) ↔
      (AmCompletes k → ∀ p, if Sets k c p then floatFix c.fix = c.fix
        else (d p).location = some c.fix) := by
  rw [(run_setLocation hb k c d).1, (run_setLocation hb k c d).2]
  refine imp_congr_right fun _ => forall_congr' fun p => ?_
  rw [afterBroadcast_location]
  split
  · exact Option.some_inj
  · exact Iff.rfl

/-- A command that exits with 0. -/
def exitsZero (stdout : String) : AdbResult := adbClose (some 0) false stdout.toList []

def amDone : AdbResult := exitsZero
  "Broadcasting: Intent \x7b act=com.headless.mockloc.SET_LOCATION \x7d\nBroadcast completed: result=0\n"

/-- Nothing mocked yet. -/
def unmocked : Device := fun _ => ⟨false, false, none⟩

def quarterDegrees : Coords where
  lat := .fin (17 / 2)
  lng := .fin (189 / 4)
  alt := none
  accuracy := none

def redroid : Config := ⟨"redroid".toList, []⟩

theorem redroid_backendType : redroid.backendType ≠ "avd".toList := by decide

/-- The appop is granted and every call of the receiver takes effect. -/
def allWorks : Course := ⟨exitsZero "", amDone, true, fun _ => {}⟩

/-- The appop is not granted and every call of the receiver throws. -/
def allThrows : Course :=
  ⟨adbClose (some 1) false [] [], amDone, true, fun _ => ⟨.exception, .exception, .exception, .exception⟩⟩

theorem amCompletes_amDone {k : Course} (h : k.am = amDone) : AmCompletes k := by
  unfold AmCompletes
  rw [h]
  exact ⟨by decide +kernel, by decide +kernel⟩

/-- All calls take effect, and the coordinates are floats. -/
theorem location_truthful_quarter : ReportsOk redroid allWorks quarterDegrees unmocked ∧
    Carries ((setLocation redroid quarterDegrees).run (locationWorld allWorks) unmocked).state
      quarterDegrees := by
  have hok : ReportsOk redroid allWorks quarterDegrees unmocked :=
    (run_setLocation redroid_backendType _ _ _).1.mpr (amCompletes_amDone rfl)
  have hset : AmCompletes allWorks → ∀ p, if Sets allWorks quarterDegrees p then
      floatFix quarterDegrees.fix = quarterDegrees.fix
        else (unmocked p).location = some quarterDegrees.fix := by
    intro _ p
    have hf : floatFix quarterDegrees.fix = quarterDegrees.fix := by decide +kernel
    have hs : Sets allWorks quarterDegrees p := by
      unfold Sets
      rw [hf]
      exact ⟨rfl, by decide, by decide, rfl⟩
    rw [if_pos hs]
    exact hf
  exact ⟨hok, (location_truthful_iff redroid_backendType _ _ _).mpr hset hok⟩

/-- The appop was not granted, every call of the receiver throws, and the answer is ok:true. -/
theorem location_ok_unmocked : ReportsOk redroid allThrows quarterDegrees unmocked ∧
    ¬ Carries ((setLocation redroid quarterDegrees).run (locationWorld allThrows) unmocked).state
      quarterDegrees := by
  obtain ⟨hok, hstate⟩ := run_setLocation redroid_backendType allThrows quarterDegrees unmocked
  refine ⟨hok.mpr (amCompletes_amDone rfl), fun hC => ?_⟩
  have hgps := hC .gps
  rw [hstate, afterBroadcast_location, if_neg (by rintro ⟨-, -, -, h⟩; cases h)] at hgps
  cases hgps

end HeadlessAndroid.Location
