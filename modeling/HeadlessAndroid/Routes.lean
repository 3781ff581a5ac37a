import HeadlessAndroid.ScopeRoutes
import HeadlessAndroid.Location

/-!
# HeadlessAndroid.Routes — the async route handlers and their answers

`POST /api/shell`, `GET /api/logcat` and, with the handlers of the other modules, which requests
are answered.  A handler that throws is never answered: the error middleware sees only what
synchronous handlers throw.
-/

namespace HeadlessAndroid.Routes

open Lib Lib.Js

def codeOrNull : Option ℤ → JsVal
  | none => .null
  | some n => .num (.fin n)

/-- `POST /api/shell`. -/
def shellPost (E : Engine) (body : JsVal) : Handler Unit :=
  match body.get "cmd" with
  | .str cmd =>
    if (trim cmd).isEmpty then resJson E 400 (errorBody "cmd required")
    else do
      let r ← shell cmd
      resJson E 200 (jsObj [("ok", .bool r.ok), ("code", codeOrNull r.code),
        ("stdout", .str r.stdout), ("stderr", .str r.stderr), ("timedOut", .bool r.timedOut)])
  | _ => resJson E 400 (errorBody "cmd required")

/-- `Number(lines) || 200`. -/
def linesOr200 : Number → Number
  | .nan => .fin 200
  | .fin q => if q = 0 then .fin 200 else .fin q
  | n => n

def numTruthy : Number → Bool
  | .nan => false
  | .fin q => q ≠ 0
  | .inf _ => true

/-- `buildLogcatArgs({ tag, level = "V", lines })`. -/
def buildLogcatArgs (E : Engine) (adbSerial : Text) (tag level : JsVal) (lines : Number) :
    Handler (List Text) := do
  let args := (if adbSerial = [] then [] else ["-s".toList, adbSerial]) ++ ["logcat".toList] ++
    (if numTruthy lines then ["-t".toList, lines.toText] else [])
  if tag.truthy then
    return args ++ [(← toStr E tag) ++ ':' :: (← toStr E level), "*:S".toList]
  else
    return args

/-- `args.slice(args.indexOf("logcat"))`. -/
def fromLogcat (args : List Text) : List Text := args.drop (args.idxOf "logcat".toList)

/-- `GET /api/logcat`. -/
def logcatGet (E : Engine) (cfg : Location.Config) (query : JsVal) : Handler Unit := do
  let lines := query.getOr "lines" (.num (.fin 200))
  let n ← toNum E lines
  let args ← buildLogcatArgs E cfg.adbSerial (query.get "tag")
    (query.getOr "level" (.str "V".toList)) (linesOr200 n)
  let r ← adb (fromLogcat args)
  resJson E 200 (jsObj [("ok", .bool r.ok),
    ("lines", .arr (if r.stdout.isEmpty then [] else (r.stdout.splitOn '\n').map .str)),
    ("stderr", .str r.stderr)])

inductive Request where
  | location (body : JsVal)
  | shell (body : JsVal)
  | logcat (query : JsVal)
  | scopeList (query : JsVal)
  | scopeAdd (body : JsVal)
  | scopeRemove (body : JsVal)
  | scopeEnable (body : JsVal)

def handle (E : Engine) (cfg : Location.Config) : Request → Handler Unit
  | .location body => Location.post E cfg body
  | .shell body => shellPost E body
  | .logcat query => logcatGet E cfg query
  | .scopeList query => Scope.list E query
  | .scopeAdd body => Scope.add E body
  | .scopeRemove body => Scope.remove E body
  | .scopeEnable body => Scope.enable E body

/-! ## Which requests are answered -/

/-- How the calls of one request end: what the `n`-th of them gives, if anything. -/
abbrev Device := ℕ → (c : Call) → Option c.Answer

/-- An argument with a null character, which `spawn` does not take. -/
def hasNul : Call → Bool
  | .adb extra => extra.any fun a => a.contains (Char.ofNat 0)
  | _ => false

/-- `spawn` throws on such an argument; otherwise the device decides. -/
def deviceWorld (dev : Device) : Async.World Call.Answer ℕ := fun c n =>
  (if hasNul c then none else dev n c, n + 1)

/-- The promise of the handler is fulfilled, after exactly one response. -/
def AnsweredOnce (E : Engine) (cfg : Location.Config) (dev : Device) (rq : Request) : Prop :=
  ((handle E cfg rq).run (deviceWorld dev) 0).One

/-- Each call that the handler makes ends with a result. -/
def CallsEnd (E : Engine) (cfg : Location.Config) (dev : Device) (rq : Request) : Prop :=
  (handle E cfg rq).Answered (deviceWorld dev) 0

/-- The value converts to a string, and so to a number: it is no object with a key `toString` and no
array that has one in it or nests too deep. -/
def Converts (E : Engine) (v : JsVal) : Prop := (v.toStr E.joinDepth).isSome

/-- `lat` and `lng` pass the tests of the location route. -/
def InRange (E : Engine) (body : JsVal) : Prop :=
  ∃ lat lng, (body.get "lat").toNum E.joinDepth = some (.fin lat) ∧
    (body.get "lng").toNum E.joinDepth = some (.fin lng) ∧
    -90 ≤ lat ∧ lat ≤ 90 ∧ -180 ≤ lng ∧ lng ≤ 180

/-- What the server reads of an optional field; `none` if it throws. -/
def optionalNumber (E : Engine) (v : JsVal) : Option (Option Number) :=
  if v.isNullish then some none else (v.toNum E.joinDepth).map some

/-- The body is accepted, with the coordinates `c`. -/
structure Requests (E : Engine) (body : JsVal) (c : Location.Coords) : Prop where
  inRange : InRange E body
  lat : (body.get "lat").toNum E.joinDepth = some c.lat
  lng : (body.get "lng").toNum E.joinDepth = some c.lng
  alt : optionalNumber E (body.get "alt") = some c.alt
  accuracy : optionalNumber E (body.get "accuracy") = some c.accuracy

/-- The answer with the package in it can be written as JSON. -/
def EchoesPkg (E : Engine) (body : JsVal) : Prop := (Scope.okPkg body).depth ≤ E.jsonDepth

/-- Nothing that the handler converts or echoes makes it throw. -/
def NoThrow (E : Engine) (dev : Device) : Request → Prop
  | .location body => Converts E (body.get "lat") ∧ Converts E (body.get "lng") ∧
      (InRange E body → Converts E (body.get "alt") ∧ Converts E (body.get "accuracy"))
  | .shell _ => True
  | .logcat query => Converts E (query.getOr "lines" (.num (.fin 200))) ∧
      ((query.get "tag").truthy = true → Converts E (query.get "tag") ∧
        Converts E (query.getOr "level" (.str "V".toList)))
  | .scopeList _ => True
  | .scopeAdd body => Converts E (body.get "pkg") ∧ ∀ p r mod, Scope.acceptedPkg E body = some p →
      dev 0 (.dbExec .selectModule) = some r → Scope.modOfResult r = some mod → EchoesPkg E body
  | .scopeRemove body => Converts E (body.get "pkg") ∧
      ∀ p, Scope.acceptedPkg E body = some p → EchoesPkg E body
  | .scopeEnable _ => True

/-! ### Answers that are not too deep -/

theorem depthItems_str (ts : List Text) : JsVal.depthItems (ts.map .str) = 0 := by
  induction ts with
  | nil => rfl
  | cons t ts ih => simp [JsVal.depthItems, JsVal.depth, ih]

theorem depth_location (r : Location.LocationResult) : r.json.depth ≤ 4 := by
  have he : (Location.textOrNull r.detail.error).depth = 0 := by
    cases r.detail.error <;> rfl
  simp [Location.LocationResult.json, Location.Detail.json, jsObj, JsVal.depth,
    JsVal.depthFields, he]

theorem depth_codeOrNull (code : Option ℤ) : (codeOrNull code).depth = 0 := by
  cases code <;> rfl

/-! ### Handler by handler -/

section Handlers

variable {E : Engine} {cfg : Location.Config} {dev : Device}

theorem sends_setLocation (c : Location.Coords) : Async.Sends 0 (Location.setLocation cfg c) := by
  unfold Location.setLocation
  split
  · exact fun _ => rfl
  · exact fun _ _ => rfl

theorem converts_iff_toNum {v : JsVal} : Converts E v ↔ (v.toNum E.joinDepth).isSome :=
  JsVal.toNum_isSome_iff.symm

theorem not_converts {v : JsVal} (h : ¬ Converts E v) :
    v.toStr E.joinDepth = none ∧ v.toNum E.joinDepth = none :=
  ⟨by simpa [Converts] using h, by simpa [converts_iff_toNum] using h⟩

theorem optionalNum_eq (v : JsVal) : Location.optionalNum E v = Async.ofOption (optionalNumber E v) := by
  unfold Location.optionalNum optionalNumber toNum
  split
  · rfl
  · cases v.toNum E.joinDepth <;> rfl

theorem optionalNumber_isSome {v : JsVal} : (optionalNumber E v).isSome ↔ Converts E v := by
  rw [converts_iff_toNum]
  unfold optionalNumber
  cases v <;> simp [JsVal.isNullish, JsVal.toNum]

/-- A body with coordinates in range gets to the device. -/
theorem post_inRange (cfg : Location.Config) {body : JsVal} (h : InRange E body) : ∃ lat lng,
    (body.get "lat").toNum E.joinDepth = some (.fin lat) ∧
    (body.get "lng").toNum E.joinDepth = some (.fin lng) ∧
    Location.post E cfg body = (do
      let alt ← Location.optionalNum E (body.get "alt")
      let accuracy ← Location.optionalNum E (body.get "accuracy")
      let result ← Location.setLocation cfg
        { lat := .fin lat, lng := .fin lng, alt := alt, accuracy := accuracy }
      resJson E 200 result.json) := by
  obtain ⟨lat, lng, h1, h2, h3, h4, h5, h6⟩ := h
  have hin : ¬ (lat < -90 ∨ 90 < lat ∨ lng < -180 ∨ 180 < lng) := by
    rw [not_or, not_or, not_or, not_lt, not_lt, not_lt, not_lt]
    exact ⟨h3, h4, h5, h6⟩
  refine ⟨lat, lng, h1, h2, ?_⟩
  unfold Location.post toNum
  rw [h1, h2]
  simp only [Async.ofOption_some, Async.pure_bind', if_neg hin]

/-- **In range, the route contacts the device** if the other two fields convert, and throws if
not. -/
theorem post_inRange_cases (cfg : Location.Config) {body : JsVal} (h : InRange E body) :
    (Converts E (body.get "alt") ∧ Converts E (body.get "accuracy") ∧
      ∃ c, Requests E body c ∧
        Location.post E cfg body = Location.setLocation cfg c >>= fun r => resJson E 200 r.json) ∨
    (¬(Converts E (body.get "alt") ∧ Converts E (body.get "accuracy")) ∧
      Location.post E cfg body = Async.throw) := by
  obtain ⟨lat, lng, hlat, hlng, hpost⟩ := post_inRange cfg h
  rw [hpost, optionalNum_eq, optionalNum_eq, ← optionalNumber_isSome, ← optionalNumber_isSome]
  cases ha : optionalNumber E (body.get "alt") with
  | none => exact .inr ⟨fun hc => Bool.false_ne_true hc.1, rfl⟩
  | some a =>
    cases hb : optionalNumber E (body.get "accuracy") with
    | none => exact .inr ⟨fun hc => Bool.false_ne_true hc.2, rfl⟩
    | some b => exact .inl ⟨rfl, rfl, ⟨.fin lat, .fin lng, a, b⟩, ⟨h, hlat, hlng, ha, hb⟩, rfl⟩

/-- A body with other coordinates that convert is refused. -/
theorem post_notInRange (cfg : Location.Config) {body : JsVal} (hlat : Converts E (body.get "lat"))
    (hlng : Converts E (body.get "lng")) (h : ¬ InRange E body) :
    ∃ msg, Location.post E cfg body = resJson E 400 (errorBody msg) := by
  obtain ⟨nlat, h1⟩ := Option.isSome_iff_exists.mp (converts_iff_toNum.mp hlat)
  obtain ⟨nlng, h2⟩ := Option.isSome_iff_exists.mp (converts_iff_toNum.mp hlng)
  unfold Location.post toNum
  rw [h1, h2]
  simp only [Async.ofOption_some, Async.pure_bind']
  cases nlat with
  | fin lat =>
    cases nlng with
    | fin lng =>
      by_cases hout : lat < -90 ∨ 90 < lat ∨ lng < -180 ∨ 180 < lng
      · exact ⟨_, if_pos hout⟩
      · rw [not_or, not_or, not_or, not_lt, not_lt, not_lt, not_lt] at hout
        exact absurd ⟨lat, lng, h1, h2, hout⟩ h
    | nan => exact ⟨_, rfl⟩
    | inf b => exact ⟨_, rfl⟩
  | nan => exact ⟨_, rfl⟩
  | inf b => exact ⟨_, rfl⟩

/-- Coordinates that do not convert make the handler throw. -/
theorem not_converts_throws {body : JsVal}
    (h : ¬(Converts E (body.get "lat") ∧ Converts E (body.get "lng"))) :
    Location.post E cfg body = Async.throw := by
  by_cases hlat : Converts E (body.get "lat")
  · have hlng : ¬Converts E (body.get "lng") := fun hlng => h ⟨hlat, hlng⟩
    obtain ⟨n, hn⟩ := Option.isSome_iff_exists.mp (converts_iff_toNum.mp hlat)
    simp only [Location.post, toNum, hn, (not_converts hlng).2, Async.ofOption_some, Async.ofOption_none,
      Async.pure_bind', Async.throw_bind]
  · simp only [Location.post, toNum, (not_converts hlat).2, Async.ofOption_none, Async.throw_bind]

/-- A handler that throws at once is not answered. -/
theorem throws_iff {x : Handler Unit} {P Q : Prop} (hx : x = Async.throw) (hP : ¬ P) :
    (x.run (deviceWorld dev) 0).One ↔ P ∧ Q := by
  rw [hx]
  exact ⟨fun h => absurd h (Async.not_one_throw _ 0), fun h => absurd h.1 hP⟩

theorem location_answered (body : JsVal) : AnsweredOnce E cfg dev (.location body) ↔
    NoThrow E dev (.location body) ∧ CallsEnd E cfg dev (.location body) := by
  unfold AnsweredOnce NoThrow CallsEnd handle
  simp only
  by_cases hconv : Converts E (body.get "lat") ∧ Converts E (body.get "lng")
  · by_cases hr : InRange E body
    · rcases post_inRange_cases cfg hr with ⟨halt, hacc, c, -, hpost⟩ | ⟨hno, hpost⟩
      · rw [hpost]
        simp only [hconv.1, hconv.2, hr, halt, hacc, and_self, forall_const, true_and]
        exact Async.one_iff_answered _
          (Async.Sends.bind (sends_setLocation _) fun r => sends_resJson (depth_location r)) 0
      · exact throws_iff hpost fun h => hno (h.2.2 hr)
    · obtain ⟨msg, hpost⟩ := post_notInRange cfg hconv.1 hconv.2 hr
      rw [hpost]
      simp only [hconv.1, hconv.2, hr, false_implies, and_self, true_and]
      exact Async.one_iff_answered _ sends_error 0
  · exact throws_iff (not_converts_throws hconv) fun h => hconv ⟨h.1, h.2.1⟩

theorem shell_answered (body : JsVal) : AnsweredOnce E cfg dev (.shell body) ↔
    CallsEnd E cfg dev (.shell body) := by
  refine Async.one_iff_answered _ ?_ 0
  unfold handle shellPost
  simp only
  split
  · split
    · exact sends_error
    · refine fun r => sends_resJson ?_
      simp [jsObj, JsVal.depth, JsVal.depthFields, depth_codeOrNull]
  · exact sends_error

theorem logcat_answered (query : JsVal) : AnsweredOnce E cfg dev (.logcat query) ↔
    NoThrow E dev (.logcat query) ∧ CallsEnd E cfg dev (.logcat query) := by
  have hsend : ∀ args, Async.Sends 1 (do
      let r ← adb (fromLogcat args)
      resJson E 200 (jsObj [("ok", .bool r.ok),
        ("lines", .arr (if r.stdout.isEmpty then [] else (r.stdout.splitOn '\n').map .str)),
        ("stderr", .str r.stderr)])) := by
    refine fun args r => sends_resJson ?_
    split
    · simp [jsObj, JsVal.depth, JsVal.depthFields, JsVal.depthItems]
    · simp [jsObj, JsVal.depth, JsVal.depthFields, depthItems_str]
  unfold AnsweredOnce NoThrow CallsEnd handle
  simp only
  by_cases hl : Converts E (query.getOr "lines" (.num (.fin 200)))
  · obtain ⟨n, hn⟩ := Option.isSome_iff_exists.mp (converts_iff_toNum.mp hl)
    by_cases htag : (query.get "tag").truthy = true
    · by_cases ht : Converts E (query.get "tag")
      · obtain ⟨t, ht'⟩ := Option.isSome_iff_exists.mp ht
        by_cases hlev : Converts E (query.getOr "level" (.str "V".toList))
        · obtain ⟨v, hv⟩ := Option.isSome_iff_exists.mp hlev
          simp only [hl, htag, ht, hlev, and_self, forall_const, true_and, logcatGet, toNum, hn,
            Async.ofOption_some, Async.pure_bind', buildLogcatArgs, toStr, ht', hv, if_true,
            Async.pure_eq]
          exact Async.one_iff_answered _ (hsend _) 0
        · refine throws_iff ?_ fun h => hlev (h.2 htag).2
          simp only [logcatGet, toNum, hn, buildLogcatArgs, htag, if_true, toStr, ht',
            (not_converts hlev).1, Async.ofOption_some, Async.ofOption_none, Async.pure_bind',
            Async.throw_bind]
      · refine throws_iff ?_ fun h => ht (h.2 htag).1
        simp only [logcatGet, toNum, hn, buildLogcatArgs, htag, if_true, toStr,
          (not_converts ht).1, Async.ofOption_some, Async.ofOption_none, Async.pure_bind',
          Async.throw_bind]
    · simp only [hl, htag, false_implies, and_self, true_and, logcatGet, toNum, hn,
        Async.ofOption_some, Async.pure_bind', buildLogcatArgs, if_false, Async.pure_eq,
        Bool.false_eq_true]
      exact Async.one_iff_answered _ (hsend _) 0
  · refine throws_iff ?_ fun h => hl h.1
    simp only [logcatGet, toNum, (not_converts hl).2, Async.ofOption_none, Async.throw_bind]

theorem scopeList_answered (query : JsVal) : AnsweredOnce E cfg dev (.scopeList query) ↔
    CallsEnd E cfg dev (.scopeList query) := by
  refine Async.one_iff_answered _ ?_ 0
  unfold handle Scope.list Scope.moduleRow dbExec
  simp only [Async.call_bind, Async.await_bind, Async.pure_eq, Async.pure_bind']
  intro r
  beta_reduce
  cases Scope.modOfResult r with
  | none => exact sends_error
  | some mod => exact fun r1 r2 => sends_resJson (Scope.depth_listBody mod _ _ _)

/-- Whether `pkg || ""` converts is the question for `pkg`: the values it replaces convert. -/
theorem converts_pkg {body : JsVal} :
    Converts E (body.get "pkg") ↔ (Scope.pkgText E body).isSome = true := by
  unfold Converts Scope.pkgText JsVal.or
  split
  · rfl
  · rename_i h
    exact iff_of_true (JsVal.toStr_isSome_of_falsy (Bool.eq_false_of_not_eq_true h)) rfl

/-- A package that is not accepted although it converts is refused. -/
theorem add_refused {body : JsVal} (h : Converts E (body.get "pkg"))
    (hno : Scope.acceptedPkg E body = none) :
    Scope.add E body = resJson E 400 (errorBody "invalid package name") ∧
      Scope.remove E body = resJson E 400 (errorBody "invalid package name") := by
  obtain ⟨t, ht⟩ := Option.isSome_iff_exists.mp (converts_pkg.mp h)
  have hre : Scope.pkgNameRe t = false := by
    by_contra hre
    have := Scope.acceptedPkg_eq_some.mpr ⟨ht, Bool.eq_true_of_not_eq_false hre⟩
    rw [hno] at this
    cases this
  exact ⟨Scope.add_invalid ht hre, Scope.remove_invalid ht hre⟩

theorem pkgText_eq_none {body : JsVal} (h : ¬ Converts E (body.get "pkg")) :
    Scope.pkgText E body = none := by
  rw [converts_pkg] at h
  simpa using h

theorem sends_echo {body : JsVal} (h : EchoesPkg E body) :
    Async.Sends 1 (resJson E 200 (Scope.okPkg body)) := by
  unfold EchoesPkg at h
  unfold resJson
  rw [if_pos h]
  exact ⟨0, rfl, rfl⟩

theorem echo_throws {body : JsVal} (h : ¬ EchoesPkg E body) :
    resJson E 200 (Scope.okPkg body) = Async.throw := by
  unfold EchoesPkg at h
  unfold resJson
  rw [if_neg h]

/-- A handler that throws after its call is not answered. -/
theorem not_one_call_throw {c : Call} {n : ℕ} :
    ¬ ((Async.await c fun _ => Async.throw : Handler Unit).run (deviceWorld dev) n).One := by
  rw [Async.one_await_iff]
  rintro ⟨a, s', -, h⟩
  exact Async.not_one_throw _ s' h

theorem scopeRemove_answered (body : JsVal) : AnsweredOnce E cfg dev (.scopeRemove body) ↔
    NoThrow E dev (.scopeRemove body) ∧ CallsEnd E cfg dev (.scopeRemove body) := by
  unfold AnsweredOnce NoThrow CallsEnd handle
  simp only
  by_cases hc : Converts E (body.get "pkg")
  · cases hp : Scope.acceptedPkg E body with
    | none =>
      rw [(add_refused hc hp).2]
      simp only [hc, true_and, false_implies, implies_true, reduceCtorEq]
      exact Async.one_iff_answered _ sends_error 0
    | some p =>
      rw [Scope.remove_valid hp]
      simp only [hc, true_and, Option.some.injEq, forall_eq']
      by_cases he : EchoesPkg E body
      · simp only [he, true_and]
        refine Async.one_iff_answered _ ?_ 0
        exact fun _ => sends_echo he
      · simp only [echo_throws he, he, false_and, iff_false]
        exact not_one_call_throw
  · exact throws_iff (Scope.remove_throw (pkgText_eq_none hc)) fun h => hc h.1

theorem scopeAdd_answered (body : JsVal) : AnsweredOnce E cfg dev (.scopeAdd body) ↔
    NoThrow E dev (.scopeAdd body) ∧ CallsEnd E cfg dev (.scopeAdd body) := by
  unfold AnsweredOnce NoThrow CallsEnd handle
  simp only
  by_cases hc : Converts E (body.get "pkg")
  · cases hp : Scope.acceptedPkg E body with
    | none =>
      rw [(add_refused hc hp).1]
      simp only [hc, true_and, false_implies, implies_true, reduceCtorEq]
      exact Async.one_iff_answered _ sends_error 0
    | some p =>
      rw [Scope.add_valid hp]
      by_cases he : EchoesPkg E body
      · simp only [hc, he, implies_true, true_and]
        refine Async.one_iff_answered _ ?_ 0
        intro r
        beta_reduce
        cases Scope.modOfResult r with
        | none => exact sends_error
        | some mod => exact fun _ => sends_echo he
      · -- only a lookup that finds no module leads to a response
        constructor
        · intro hone
          obtain ⟨r, s', hw, h⟩ := (Async.one_await_iff _).mp hone
          have hl : dev 0 (.dbExec .selectModule) = some r := congrArg Prod.fst hw
          cases hm : Scope.modOfResult r with
          | some mod =>
            simp only [hm, echo_throws he] at h
            exact absurd h not_one_call_throw
          | none =>
            refine ⟨⟨hc, fun _ r' mod _ hl' hm' => ?_⟩, Async.answered_of_value _ hone.1⟩
            rw [hl, Option.some.injEq] at hl'
            rw [← hl', hm] at hm'
            cases hm'
        · rintro ⟨⟨-, hno⟩, hans⟩
          unfold Async.Answered at hans
          split at hans
          · rename_i r s' hw
            have hl : dev 0 (.dbExec .selectModule) = some r := congrArg Prod.fst hw
            refine (Async.one_await_iff _).mpr ⟨r, s', hw, ?_⟩
            beta_reduce at hans ⊢
            cases hm : Scope.modOfResult r with
            | some mod => exact absurd (hno p r mod rfl hl hm) he
            | none => exact (Async.one_iff_answered _ sends_error s').mpr (by rwa [hm] at hans)
          · cases hans
  · exact throws_iff (Scope.add_throw (pkgText_eq_none hc)) fun h => hc h.1

theorem scopeEnable_answered (body : JsVal) : AnsweredOnce E cfg dev (.scopeEnable body) ↔
    CallsEnd E cfg dev (.scopeEnable body) := by
  refine Async.one_iff_answered _ ?_ 0
  simp only [handle, Scope.enable_eq]
  refine fun _ => sends_resJson ?_
  simp [jsObj, JsVal.depth, JsVal.depthFields]

end Handlers

/-- **Which requests are answered.**  Whatever the body or query and however the calls end: the
promise of a handler is fulfilled, with exactly one response sent, just when no conversion that the
handler makes throws and every call that it awaits ends with a result. -/
theorem answered_once_iff (E : Engine) (cfg : Location.Config) (dev : Device) (rq : Request) :
    AnsweredOnce E cfg dev rq ↔ NoThrow E dev rq ∧ CallsEnd E cfg dev rq := by
  cases rq with
  | location body => exact location_answered body
  | shell body => exact (shell_answered body).trans (and_iff_right trivial).symm
  | logcat query => exact logcat_answered query
  | scopeList query => exact (scopeList_answered query).trans (and_iff_right trivial).symm
  | scopeAdd body => exact scopeAdd_answered body
  | scopeRemove body => exact scopeRemove_answered body
  | scopeEnable body => exact (scopeEnable_answered body).trans (and_iff_right trivial).symm

/-- A device on which every call succeeds and prints nothing. -/
def quietDevice : Device := fun _ c =>
  match c with
  | .adb _ => some (adbClose (some 0) false [] [])
  | .dbExec _ => some (adbClose (some 0) false [] [])
  | .emuCommand _ => some ⟨true, [], none⟩

/-- `POST /api/scope/remove` with `{"pkg": {"toString": 1}}`: the handler throws. -/
theorem remove_not_answered : ¬ AnsweredOnce ⟨1000, 1000, by decide⟩ ⟨"redroid".toList, []⟩ quietDevice
    (.scopeRemove (jsObj [("pkg", jsObj [("toString", .num (.fin 1))])])) := by
  intro h
  have hc := ((scopeRemove_answered _).mp h).1.1
  revert hc
  simp [Converts, jsObj, JsVal.get, JsVal.toStr]

end HeadlessAndroid.Routes
