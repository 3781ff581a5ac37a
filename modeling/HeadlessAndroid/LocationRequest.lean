import HeadlessAndroid.Receiver
import HeadlessAndroid.Routes

/-!
# HeadlessAndroid.LocationRequest — what POST /api/location makes of a body

The guard of the route tests what `Number` makes of `lat` and `lng`, and `Number` makes ordinary
numbers of `null`, of booleans, of blank strings and of arrays.  What passes goes to the device as
text, in one form for each backend; `alt` and `accuracy` are not tested.
-/

namespace HeadlessAndroid.Location

open Lib Lib.Js Routes

/-! ## The guard -/

/-- A number, or a string that is not blank. -/
def IsNumeric : JsVal → Prop
  | .num _ => True
  | .str t => trim t ≠ []
  | _ => False

/-- The value is the finite number `q`, or a string that is not blank and denotes it. -/
def Denotes (v : JsVal) (q : ℚ) : Prop :=
  v = .num (.fin q) ∨ ∃ t, v = .str t ∧ trim t ≠ [] ∧ Number.ofText t = .fin q

/-- The body gives a point on the earth. -/
def ValidBody (body : JsVal) : Prop :=
  ∃ lat lng, Denotes (body.get "lat") lat ∧ Denotes (body.get "lng") lng ∧
    -90 ≤ lat ∧ lat ≤ 90 ∧ -180 ≤ lng ∧ lng ≤ 180

/-- The route contacts the device just for the valid bodies; it answers the others with 400 and
leaves the device as it is. -/
structure Guarded {σ : Type} (E : Engine) (cfg : Config) (body : JsVal)
    (world : Async.World Call.Answer σ) (s : σ) : Prop where
  contacts : (post E cfg body).calls world s ≠ [] ↔ ValidBody body
  refuses : ¬ValidBody body →
    ∃ msg, (post E cfg body).run world s = ⟨some (), [⟨400, errorBody msg⟩], s⟩

/-- What the guard does not make sure of: `lat` and `lng` convert, and where they come to numbers in
range they are numeric and the rest converts, too. -/
structure NumericOnly (E : Engine) (body : JsVal) : Prop where
  lat : Converts E (body.get "lat")
  lng : Converts E (body.get "lng")
  inRange : InRange E body → IsNumeric (body.get "lat") ∧ IsNumeric (body.get "lng") ∧
    Converts E (body.get "alt") ∧ Converts E (body.get "accuracy")

section Guard

variable {E : Engine} {cfg : Config} {body : JsVal}

theorem denotes_iff {v : JsVal} {q : ℚ} :
    Denotes v q ↔ IsNumeric v ∧ v.toNum E.joinDepth = some (.fin q) := by
  constructor
  · rintro (rfl | ⟨t, rfl, hne, ht⟩)
    · exact ⟨trivial, rfl⟩
    · refine ⟨hne, ?_⟩
      simp only [JsVal.toNum, JsVal.toStr, Option.map_some, ht]
  · rintro ⟨hv, hq⟩
    cases v with
    | num n =>
      simp only [JsVal.toNum, Option.some.injEq] at hq
      exact .inl (by rw [hq])
    | str t =>
      simp only [JsVal.toNum, JsVal.toStr, Option.map_some, Option.some.injEq] at hq
      exact .inr ⟨t, rfl, hv, hq⟩
    | _ => exact absurd hv id

/-- **A body is valid** just when it passes the tests of the route with numeric values. -/
theorem validBody_iff : ValidBody body ↔
    InRange E body ∧ IsNumeric (body.get "lat") ∧ IsNumeric (body.get "lng") := by
  constructor
  · rintro ⟨lat, lng, hlat, hlng, h⟩
    rw [denotes_iff (E := E)] at hlat hlng
    exact ⟨⟨lat, lng, hlat.2, hlng.2, h⟩, hlat.1, hlng.1⟩
  · rintro ⟨⟨lat, lng, hlat, hlng, h⟩, hnlat, hnlng⟩
    exact ⟨lat, lng, denotes_iff.mpr ⟨hnlat, hlat⟩, denotes_iff.mpr ⟨hnlng, hlng⟩, h⟩

theorem converts_of_inRange (h : InRange E body) :
    Converts E (body.get "lat") ∧ Converts E (body.get "lng") := by
  obtain ⟨lat, lng, hlat, hlng, -⟩ := h
  rw [converts_iff_toNum, converts_iff_toNum, hlat, hlng]
  exact ⟨rfl, rfl⟩

variable {σ : Type} {world : Async.World Call.Answer σ} {s : σ}

theorem calls_setLocation (c : Coords) (k : LocationResult → Handler Unit) :
    (setLocation cfg c >>= k).calls world s ≠ [] := by
  unfold setLocation
  split
  · show (Async.await (Call.emuCommand _) _).calls world s ≠ []
    rw [Async.calls_await]
    exact List.cons_ne_nil _ _
  · show (Async.await (Call.adb _) _).calls world s ≠ []
    rw [Async.calls_await]
    exact List.cons_ne_nil _ _

end Guard

/-- **The guard of `POST /api/location`.**  For every body, and whatever the device is and answers:
the route contacts it just for a valid body, and answers every other with 400 and leaves it alone,
just when the body is one that the guard reads as it is meant. -/
theorem guarded_iff {σ : Type} (E : Engine) (cfg : Config) (body : JsVal)
    (world : Async.World Call.Answer σ) (s : σ) :
    Guarded E cfg body world s ↔ NumericOnly E body := by
  have hthrow : post E cfg body = Async.throw → ¬ValidBody body → ¬Guarded E cfg body world s := by
    intro hp hv hG
    obtain ⟨msg, hrun⟩ := hG.refuses hv
    rw [hp] at hrun
    cases hrun
  by_cases hconv : Converts E (body.get "lat") ∧ Converts E (body.get "lng")
  · by_cases hr : InRange E body
    · have hvalid : ValidBody body ↔ IsNumeric (body.get "lat") ∧ IsNumeric (body.get "lng") := by
        rw [validBody_iff (E := E)]
        exact and_iff_right hr
      rcases post_inRange_cases cfg hr with ⟨halt, hacc, c, -, hpost⟩ | ⟨hno, hpost⟩
      · have hcalls : (post E cfg body).calls world s ≠ [] := by
          rw [hpost]
          exact calls_setLocation c _
        constructor
        · intro hG
          obtain ⟨hlat, hlng⟩ := hvalid.mp (hG.contacts.mp hcalls)
          exact ⟨hconv.1, hconv.2, fun _ => ⟨hlat, hlng, halt, hacc⟩⟩
        · intro hN
          obtain ⟨hlat, hlng, -⟩ := hN.inRange hr
          have hv := hvalid.mpr ⟨hlat, hlng⟩
          exact ⟨iff_of_true hcalls hv, fun h => absurd hv h⟩
      · refine iff_of_false (fun hG => ?_) fun hN => hno (hN.inRange hr).2.2
        by_cases hv : ValidBody body
        · have hcalls := hG.contacts.mpr hv
          rw [hpost] at hcalls
          exact hcalls rfl
        · exact hthrow hpost hv hG
    · obtain ⟨msg, hpost⟩ := post_notInRange cfg hconv.1 hconv.2 hr
      have hv : ¬ValidBody body := fun hv => hr (validBody_iff.mp hv).1
      refine iff_of_true ⟨?_, fun _ => ⟨msg, ?_⟩⟩ ⟨hconv.1, hconv.2, fun h => absurd h hr⟩
      · rw [hpost, calls_resJson]
        exact iff_of_false (fun h => h rfl) hv
      · rw [hpost]
        exact error_sends
  · have hv : ¬ValidBody body := fun hv => hconv (converts_of_inRange (validBody_iff.mp hv).1)
    exact iff_of_false (hthrow (not_converts_throws hconv) hv) fun hN => hconv ⟨hN.lat, hN.lng⟩

def plainEngine : Engine := ⟨100, 100, by omega⟩

/-- `{"lat": null, "lng": null}`. -/
def nullBody : JsVal := jsObj [("lat", .null), ("lng", .null)]

theorem nullBody_inRange : InRange plainEngine nullBody :=
  ⟨0, 0, rfl, rfl, by norm_num, by norm_num, by norm_num, by norm_num⟩

/-- The body without coordinates places the device at 0, 0. -/
theorem null_contacts : ¬Guarded plainEngine redroid nullBody (locationWorld allWorks) unmocked := by
  intro h
  have hcalls : (post plainEngine redroid nullBody).calls (locationWorld allWorks) unmocked ≠ [] := by
    rcases post_inRange_cases redroid nullBody_inRange with ⟨-, -, c, -, hpost⟩ | ⟨hno, -⟩
    · rw [hpost]
      exact calls_setLocation c _
    · exact absurd ⟨rfl, rfl⟩ hno
  obtain ⟨lat, -, hlat | ⟨t, ht, -⟩, -⟩ := h.contacts.mp hcalls
  · cases hlat
  · cases ht

/-! ## What is sent -/

/-- Where a call asks the device to be placed. -/
structure Place where
  lat : Number
  lng : Number
  alt : Option Number
  accuracy : Option Number

/-- The console reads the words of `geo fix <lng> <lat> [alt]`. -/
def readGeoFix (parse : Text → Number) (cmd : Text) : Option Place :=
  match cmd.splitOn ' ' with
  | [geo, fix, lng, lat] =>
    if geo = "geo".toList ∧ fix = "fix".toList then some ⟨parse lat, parse lng, none, none⟩ else none
  | [geo, fix, lng, lat, alt] =>
    if geo = "geo".toList ∧ fix = "fix".toList then
      some ⟨parse lat, parse lng, some (parse alt), none⟩
    else none
  | _ => none

/-- `parseOptions` with any parser for the values of `--ef`. -/
def parseOptionsWith (parse : Text → Number) : List Text → Intent → Option Intent
  | [], i => some i
  | o :: v :: rest, i =>
    if o = "-a".toList then parseOptionsWith parse rest { i with action := v }
    else if o = "-n".toList then parseOptionsWith parse rest { i with component := v }
    else if o = "--ef".toList then
      match rest with
      | w :: rest => parseOptionsWith parse rest { i with floats := i.floats ++ [(v, parse w)] }
      | [] => none
    else none
  | [_], _ => none

theorem parseOptions_eq : ∀ (l : List Text) (i : Intent),
    parseOptions l i = parseOptionsWith (decimalNumber binary32) l i
  | [], _ => rfl
  | [_], _ => rfl
  | o :: v :: rest, i => by
    unfold parseOptions parseOptionsWith
    by_cases ha : o = "-a".toList
    · rw [if_pos ha, if_pos ha]
      exact parseOptions_eq rest _
    · rw [if_neg ha, if_neg ha]
      by_cases hn : o = "-n".toList
      · rw [if_pos hn, if_pos hn]
        exact parseOptions_eq rest _
      · rw [if_neg hn, if_neg hn]
        by_cases hef : o = "--ef".toList
        · rw [if_pos hef, if_pos hef]
          cases rest with
          | nil => rfl
          | cons w rest => exact parseOptions_eq rest _
        · rw [if_neg hef, if_neg hef]

/-- What the receiver reads of the extras. -/
def readBroadcast (parse : Text → Number) (extra : List Text) : Option Place :=
  if ["shell".toList, "am".toList, "broadcast".toList] <+: extra then
    (parseOptionsWith parse (extra.drop 3) {}).map fun i =>
      ⟨i.fix.lat, i.fix.lng, some i.fix.alt, some i.fix.acc⟩
  else none

def Call.place (console am : Text → Number) : Call → Option Place
  | .emuCommand cmd => readGeoFix console cmd
  | .adb extra => readBroadcast am extra
  | .dbExec _ => none

/-- The places that the calls of the route ask for, one after the other. -/
def placesSent (console am : Text → Number) (E : Engine) (cfg : Config) (body : JsVal)
    (answers : (c : Call) → c.Answer) : List Place :=
  ((post E cfg body).calls (fun c _ => (some (answers c), ())) ()).filterMap (Call.place console am)

/-- The place is the requested one: its altitude is a finite number, if there is one. -/
structure Place.Is (p : Place) (c : Coords) : Prop where
  lat : p.lat = c.lat
  lng : p.lng = c.lng
  alt : ∃ q, c.alt.getD (.fin 0) = .fin q ∧ p.alt.getD (.fin 0) = .fin q

/-- Each backend sends the requested place, once. -/
structure SamePlace (console am : Text → Number) (E : Engine) (body : JsVal) (c : Coords) :
    Prop where
  avd : ∀ cfg answers, cfg.backendType = "avd".toList →
    ∃ p, placesSent console am E cfg body answers = [p] ∧ p.Is c
  redroid : ∀ cfg answers, cfg.backendType ≠ "avd".toList →
    ∃ p, placesSent console am E cfg body answers = [p] ∧ p.Is c ∧ ∃ q, p.accuracy = some (.fin q)

/-- The parser inverts `String` on the number if it is finite, and reads nothing finite if not. -/
def Reads (parse : Text → Number) (n : Number) : Prop := ∀ q, parse n.toText = .fin q ↔ n = .fin q

/-- The numbers that are sent. -/
def Coords.numbers (c : Coords) : List Number :=
  [c.lat, c.lng, c.alt.getD (.fin 0), c.accuracy.getD (.fin 5)]

/-- The field is absent, null or comes to a finite number. -/
def FiniteOrAbsent (E : Engine) (v : JsVal) : Prop :=
  v.isNullish = true ∨ ∃ q, v.toNum E.joinDepth = some (.fin q)

theorem no_space_toText (n : Number) : ' ' ∉ n.toText := by
  have hpos : ∀ q, ' ' ∉ posText q := by
    intro q hmem
    rcases (posText_numeral q).char hmem with h | h
    · exact absurd h (by decide)
    · exact absurd h (by decide)
  cases n with
  | nan => decide
  | inf neg => cases neg <;> decide
  | fin q =>
    show ' ' ∉ if q < 0 then '-' :: posText (-q) else posText q
    split
    · rw [List.mem_cons, not_or]
      exact ⟨by decide, hpos _⟩
    · exact hpos q

/-- **The console reads the numbers of the line in their roles.** -/
theorem readGeoFix_line (parse : Text → Number) (lng lat : Number) (alt : Option Number) :
    readGeoFix parse ("geo fix ".toList ++ joinNums ([lng, lat] ++ alt.toList)) =
      some ⟨parse lat.toText, parse lng.toText, alt.map fun a => parse a.toText, none⟩ := by
  have hwords : ("geo fix ".toList ++ joinNums ([lng, lat] ++ alt.toList)).splitOn ' ' =
      "geo".toList :: "fix".toList :: ([lng, lat] ++ alt.toList).map Number.toText := by
    have hline : "geo fix ".toList ++ joinNums ([lng, lat] ++ alt.toList) =
        [' '].intercalate ("geo".toList :: "fix".toList ::
          ([lng, lat] ++ alt.toList).map Number.toText) := by
      cases alt <;> rfl
    rw [hline, List.splitOn_intercalate ' ' ?_ (List.cons_ne_nil _ _)]
    intro l hl
    rcases List.mem_cons.mp hl with rfl | hl
    · decide
    rcases List.mem_cons.mp hl with rfl | hl
    · decide
    obtain ⟨n, -, rfl⟩ := List.mem_map.mp hl
    exact no_space_toText n
  unfold readGeoFix
  rw [hwords]
  cases alt <;> rfl

/-- **The receiver reads the extras in their roles.** -/
theorem readBroadcast_args (parse : Text → Number) (c : Coords) :
    readBroadcast parse (broadcastArgs c) =
      some ⟨parse c.lat.toText, parse c.lng.toText, some (parse (c.alt.getD (.fin 0)).toText),
        some (parse (c.accuracy.getD (.fin 5)).toText)⟩ := rfl

section Sent

variable {E : Engine} {body : JsVal} {c : Coords} {console am : Text → Number}

theorem requests_unique {c' : Coords} (h : Requests E body c) (h' : Requests E body c') : c = c' := by
  have hlat := h.lat.symm.trans h'.lat
  have hlng := h.lng.symm.trans h'.lng
  have halt := h.alt.symm.trans h'.alt
  have hacc := h.accuracy.symm.trans h'.accuracy
  cases c
  cases c'
  simp only [Option.some.injEq] at hlat hlng halt hacc
  rw [hlat, hlng, halt, hacc]

/-- An accepted body gets to `setLocation` with its coordinates. -/
theorem post_of_requests (h : Requests E body c) (cfg : Config) :
    post E cfg body = setLocation cfg c >>= fun r => resJson E 200 r.json := by
  rcases post_inRange_cases cfg h.inRange with ⟨-, -, c', hc', hpost⟩ | ⟨hno, -⟩
  · rw [hpost, requests_unique h hc']
  · refine absurd ⟨?_, ?_⟩ hno
    · rw [← optionalNumber_isSome, h.alt]
      rfl
    · rw [← optionalNumber_isSome, h.accuracy]
      rfl

theorem placesSent_avd (h : Requests E body c) {cfg : Config} (hb : cfg.backendType = "avd".toList)
    (answers : (c : Call) → c.Answer) : placesSent console am E cfg body answers =
      [⟨console c.lat.toText, console c.lng.toText, c.alt.map fun a => console a.toText, none⟩] := by
  have hcalls : (post E cfg body).calls (fun c _ => (some (answers c), ())) () =
      [.emuCommand ("geo fix ".toList ++ joinNums ([c.lng, c.lat] ++ c.alt.toList))] := by
    rw [post_of_requests h]
    unfold setLocation
    rw [if_pos hb]
    show (Async.await (Call.emuCommand _) _).calls _ () = _
    rw [Async.calls_await]
    show _ :: (resJson E 200 _).calls _ () = _
    rw [calls_resJson]
  unfold placesSent
  rw [hcalls]
  show ([readGeoFix console _].filterMap id) = _
  rw [readGeoFix_line]
  rfl

theorem placesSent_redroid (h : Requests E body c) {cfg : Config}
    (hb : cfg.backendType ≠ "avd".toList) (answers : (c : Call) → c.Answer) :
    placesSent console am E cfg body answers =
      [⟨am c.lat.toText, am c.lng.toText, some (am (c.alt.getD (.fin 0)).toText),
        some (am (c.accuracy.getD (.fin 5)).toText)⟩] := by
  have hcalls : (post E cfg body).calls (fun c _ => (some (answers c), ())) () =
      [.adb ["shell".toList, appopsCmd], .adb (broadcastArgs c)] := by
    rw [post_of_requests h]
    unfold setLocation
    rw [if_neg hb]
    show (Async.await (Call.adb _) _).calls _ () = _
    rw [Async.calls_await]
    show _ :: (Async.await (Call.adb _) _).calls _ () = _
    rw [Async.calls_await]
    show _ :: _ :: (resJson E 200 _).calls _ () = _
    rw [calls_resJson]
  unfold placesSent
  rw [hcalls]
  show ([readBroadcast am ["shell".toList, appopsCmd], readBroadcast am (broadcastArgs c)].filterMap
    id) = _
  rw [readBroadcast_args]
  rfl

theorem finiteOrAbsent_iff {v : JsVal} {o : Option Number} (h : optionalNumber E v = some o) :
    FiniteOrAbsent E v ↔ ∀ n, o = some n → ∃ q, n = .fin q := by
  unfold FiniteOrAbsent
  unfold optionalNumber at h
  split at h
  · rename_i hn
    cases h
    exact iff_of_true (.inl hn) fun n hn => by cases hn
  · rename_i hn
    obtain ⟨n, hv, rfl⟩ := Option.map_eq_some_iff.mp h
    simp [hn, hv]

theorem getD_finite {o : Option Number} (h : ∀ n, o = some n → ∃ q, n = .fin q) (d : ℚ) :
    ∃ q, o.getD (.fin d) = .fin q := by
  cases o with
  | none => exact ⟨d, rfl⟩
  | some n => exact h n rfl

/-- A finite number is read back. -/
theorem Reads.of_fin {parse : Text → Number} {n : Number} {x : ℚ} (h : Reads parse n)
    (hn : n = .fin x) : parse n.toText = n := by
  rw [(h x).mpr hn, hn]

/-- Every call fails. -/
def noDevice : (c : Call) → c.Answer
  | .adb _ => adbClose (some 1) false [] []
  | .dbExec _ => adbClose (some 1) false [] []
  | .emuCommand _ => ⟨false, [], none⟩

/-- **Both backends place the device where the request says**, with parsers that invert `String` on
finite numbers, just when altitude and accuracy are finite numbers or absent. -/
theorem samePlace_iff (h : Requests E body c) (hconsole : ∀ n ∈ c.numbers, Reads console n)
    (ham : ∀ n ∈ c.numbers, Reads am n) : SamePlace console am E body c ↔
      FiniteOrAbsent E (body.get "alt") ∧ FiniteOrAbsent E (body.get "accuracy") := by
  obtain ⟨lat, lng, hlat, hlng, -⟩ := h.inRange
  have hlat' : c.lat = .fin lat := Option.some.inj (h.lat.symm.trans hlat)
  have hlng' : c.lng = .fin lng := Option.some.inj (h.lng.symm.trans hlng)
  rw [finiteOrAbsent_iff h.alt, finiteOrAbsent_iff h.accuracy]
  constructor
  · intro hS
    obtain ⟨p, hp, hpc, q, hq⟩ := hS.redroid redroid noDevice redroid_backendType
    rw [placesSent_redroid h redroid_backendType, List.cons.injEq] at hp
    obtain ⟨rfl, -⟩ := hp
    constructor
    · intro n hn
      obtain ⟨a, ha, -⟩ := hpc.alt
      rw [hn] at ha
      exact ⟨a, ha⟩
    · intro n hn
      have hr := (ham _ (by simp [Coords.numbers]) q).mp (Option.some.inj hq)
      rw [hn] at hr
      exact ⟨q, hr⟩
  · rintro ⟨halt, hacc⟩
    obtain ⟨a, ha⟩ := getD_finite halt 0
    obtain ⟨q, hq⟩ := getD_finite hacc 5
    constructor
    · intro cfg answers hb
      refine ⟨_, placesSent_avd h hb answers, ?_, ?_, a, ha, ?_⟩
      · exact (hconsole _ (by simp [Coords.numbers])).of_fin hlat'
      · exact (hconsole _ (by simp [Coords.numbers])).of_fin hlng'
      · cases hc : c.alt with
        | none =>
          rw [hc] at ha
          exact ha
        | some n =>
          rw [hc] at ha
          have hn := hconsole n (by simp [Coords.numbers, hc])
          exact (hn a).mpr ha
    · intro cfg answers hb
      refine ⟨_, placesSent_redroid h hb answers, ⟨?_, ?_, a, ha, ?_⟩, q, ?_⟩
      · exact (ham _ (by simp [Coords.numbers])).of_fin hlat'
      · exact (ham _ (by simp [Coords.numbers])).of_fin hlng'
      · exact (ham _ (by simp [Coords.numbers]) a).mpr ha
      · exact congrArg some ((ham _ (by simp [Coords.numbers]) q).mpr hq)

end Sent

/-- Inverting `String` is enough for a parser that reads nothing else as a number. -/
theorem reads_of_eq {parse : Text → Number} {n : Number} (h : parse n.toText = n) :
    Reads parse n := fun q => by rw [h]

/-- `{"lat": 8.5, "lng": 47.25}`. -/
def quarterBody : JsVal := jsObj [("lat", .num (.fin (17 / 2))), ("lng", .num (.fin (189 / 4)))]

theorem quarterBody_inRange : InRange plainEngine quarterBody :=
  ⟨17 / 2, 189 / 4, rfl, rfl, by norm_num, by norm_num, by norm_num, by norm_num⟩

theorem same_place_quarter : SamePlace (decimalNumber binary64) (decimalNumber binary32) plainEngine
    quarterBody quarterDegrees := by
  have hconsole : ∀ n ∈ quarterDegrees.numbers, decimalNumber binary64 n.toText = n := by
    decide +kernel
  have ham : ∀ n ∈ quarterDegrees.numbers, decimalNumber binary32 n.toText = n := by
    decide +kernel
  exact (samePlace_iff ⟨quarterBody_inRange, rfl, rfl, rfl, rfl⟩
    (fun n hn => reads_of_eq (hconsole n hn)) fun n hn => reads_of_eq (ham n hn)).mpr
      ⟨.inl rfl, .inl rfl⟩

/-- The same point, with `"alt": "abc"`. -/
def abcBody : JsVal := jsObj [("lat", .num (.fin (17 / 2))), ("lng", .num (.fin (189 / 4))),
  ("alt", .str "abc".toList)]

/-- The body is accepted, and `NaN` is sent for its altitude. -/
theorem alt_not_finite :
    Requests plainEngine abcBody { quarterDegrees with alt := some .nan } ∧
      ¬SamePlace (decimalNumber binary64) (decimalNumber binary32) plainEngine abcBody
        { quarterDegrees with alt := some .nan } := by
  refine ⟨⟨?_, rfl, rfl, rfl, rfl⟩, fun hS => ?_⟩
  · exact ⟨17 / 2, 189 / 4, rfl, rfl, by norm_num, by norm_num, by norm_num, by norm_num⟩
  · obtain ⟨p, -, hp, -⟩ := hS.redroid redroid noDevice redroid_backendType
    obtain ⟨q, hq, -⟩ := hp.alt
    cases hq

end HeadlessAndroid.Location
