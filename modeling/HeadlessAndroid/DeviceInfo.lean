import HeadlessAndroid.Lib.TextLines
import HeadlessAndroid.Location

/-!
# HeadlessAndroid.DeviceInfo — GET /api/device and the device that it asks

`deviceInfo` takes an entry from the list of `adb devices -l` and then asks for its properties through
`adb`, which chooses a device for itself.  The adb server is a table of entries, each of which answers
shell commands; a command without `-s` goes to the only entry.
-/

namespace HeadlessAndroid.Device

open Lib Lib.Js
open Location (Config)

/-! ## The program -/

/-- `args(extra)`. -/
def args (cfg : Config) (extra : List Text) : List Text :=
  (if cfg.adbSerial = [] then [] else ["-s".toList, cfg.adbSerial]) ++ extra

/-- What `getProp` makes of the result of `getprop`. -/
def propOf (r : AdbResult) : Text := if r.ok then r.stdout else []

def getProp (name : Text) : Handler Text := do
  let r ← shell ("getprop ".toList ++ name)
  return propOf r

/-- What `isRooted` makes of the result of `id`. -/
def rootedOf (r : AdbResult) : Bool := r.ok && includes r.stdout "uid=0(root)".toList

def isRooted : Handler Bool := do
  let r ← shell "id".toList
  return rootedOf r

/-- An element `{ serial, state, info }` of the list; a line of one word has no state. -/
structure DeviceRow where
  serial : Text
  state : Option Text
  info : Text
  deriving DecidableEq

/-- `const [serial, state, ...rest] = words`. -/
def DeviceRow.ofWords (words : List Text) : DeviceRow where
  serial := words.head?.getD []
  state := words[1]?
  info := [' '].intercalate (words.drop 2)

/-- An element of the list from `line.split(/\s+/)`. -/
def parseDevice (line : Text) : DeviceRow := .ofWords (splitSpaces line)

/-- What `deviceList` makes of the result of `adb devices -l`. -/
def devicesOf (r : AdbResult) : List DeviceRow :=
  if !r.ok then []
  else ((((r.stdout.splitOn '\n').drop 1).map trim).filter fun line => !line.isEmpty).map parseDevice

def deviceList : Handler (List DeviceRow) := do
  let r ← adb ["devices".toList, "-l".toList]
  return devicesOf r

/-- A value or `undefined`. -/
def orUndefined : Option Text → JsVal
  | some t => .str t
  | none => .undefined

def DeviceRow.json (d : DeviceRow) : JsVal :=
  jsObj [("serial", .str d.serial), ("state", orUndefined d.state), ("info", .str d.info)]

/-- The entry that the report is about. -/
def targetOf (cfg : Config) (list : List DeviceRow) : Option DeviceRow :=
  if cfg.adbSerial ≠ [] then list.find? fun d => d.serial = cfg.adbSerial else list.head?

structure Properties where
  brand : Text
  model : Text
  release : Text
  sdk : Text
  abi : Text
  fingerprint : Text

def Properties.json (p : Properties) : JsVal :=
  jsObj [("brand", .str p.brand), ("model", .str p.model), ("androidVersion", .str p.release),
    -- `Number(sdk) || sdk`
    ("sdk", (JsVal.num (Number.ofText p.sdk)).or (.str p.sdk)), ("abi", .str p.abi),
    ("fingerprint", .str p.fingerprint)]

def connectedJson (cfg : Config) (target : DeviceRow) (rooted booted : Bool) (p : Properties) : JsVal :=
  jsObj [("connected", .bool true), ("backendType", .str cfg.backendType),
    ("serial", .str target.serial), ("state", orUndefined target.state), ("info", .str target.info),
    ("rooted", .bool rooted), ("bootCompleted", .bool booted), ("properties", p.json)]

def disconnectedJson (cfg : Config) (list : List DeviceRow) : JsVal :=
  jsObj [("connected", .bool false), ("backendType", .str cfg.backendType),
    ("devices", .arr (list.map DeviceRow.json))]

/-- `deviceInfo()`.  The six properties are asked for at the same time; they do not depend on each
other. -/
def deviceInfo (cfg : Config) : Handler JsVal := do
  let list ← deviceList
  match targetOf cfg list with
  | none => return disconnectedJson cfg list
  | some target =>
    if target.state ≠ some "device".toList then return disconnectedJson cfg list
    else
      let brand ← getProp "ro.product.brand".toList
      let model ← getProp "ro.product.model".toList
      let release ← getProp "ro.build.version.release".toList
      let sdk ← getProp "ro.build.version.sdk".toList
      let abi ← getProp "ro.product.cpu.abi".toList
      let fingerprint ← getProp "ro.build.fingerprint".toList
      let rooted ← isRooted
      let booted ← getProp "sys.boot_completed".toList
      return connectedJson cfg target rooted (booted = "1".toList)
        ⟨brand, model, release, sdk, abi, fingerprint⟩

/-- `GET /`. -/
def get (E : Engine) (cfg : Config) : Handler Unit := do
  resJson E 200 (← deviceInfo cfg)

/-! ## The adb server -/

/-- A line of `adb devices -l`.  `state` is the first word of the state, and `info` has the words
after it. -/
structure TableEntry where
  serial : Text
  state : Text
  info : List Text
  serial_one : '\n' ∉ serial
  state_token : IsToken state
  info_token : ∀ w ∈ info, IsToken w

/-- No two entries share a serial; any number of them may have none. -/
structure DeviceTable where
  entries : List TableEntry
  serials_nodup : ((entries.filter fun e => e.serial ≠ []).map (·.serial)).Nodup

/-- What stands for the serial of a device that has none. -/
def noSerial : Text := "(no serial number)".toList

def TableEntry.printedSerial (e : TableEntry) : Text := if e.serial = [] then noSerial else e.serial

/-- The words after the serial, with the white space before them: `%-22s %s`, and the details. -/
def TableEntry.words (e : TableEntry) : List (Text × Text) :=
  (List.replicate (22 - e.printedSerial.length) ' ' ++ [' '], e.state) ::
    e.info.map fun w => ([' '], w)

def TableEntry.line (e : TableEntry) : Text :=
  e.printedSerial ++ e.words.flatMap fun w => w.1 ++ w.2

def DeviceTable.printed (table : DeviceTable) : Text :=
  (("List of devices attached".toList :: table.entries.map TableEntry.line).flatMap
    fun l => l ++ ['\n']) ++ ['\n']

/-- What the entry is. -/
def TableEntry.row (e : TableEntry) : DeviceRow where
  serial := e.serial
  state := some e.state
  info := [' '].intercalate e.info

/-- What the entry is taken for when its line is cut at white space. -/
def TableEntry.read (e : TableEntry) : DeviceRow :=
  .ofWords (Js.words e.printedSerial ++ e.state :: e.info)

structure AdbServer where
  table : DeviceTable
  /-- What a shell command comes to on the device with a serial. -/
  answers : Text → Text → AdbResult
  /-- What a command that reaches no device prints. -/
  complaint : Text

/-- The serial after `-s`, and the command. -/
def serialOption : List Text → Option Text × List Text
  | o :: serial :: rest => if o = "-s".toList then (some serial, rest) else (none, o :: serial :: rest)
  | argv => (none, argv)

/-- The entry that a command goes to. -/
def DeviceTable.target (table : DeviceTable) : Option Text → Option TableEntry
  | some serial => table.entries.find? fun e => e.serial = serial
  | none =>
    match table.entries with
    | [e] => some e
    | _ => none

/-- A run of adb. -/
def AdbServer.run (server : AdbServer) (argv : List Text) : AdbResult :=
  let (serial, command) := serialOption argv
  if command = ["devices".toList, "-l".toList] then
    adbClose (some 0) false server.table.printed []
  else
    match command, server.table.target serial with
    | [verb, cmd], some e =>
      if verb = "shell".toList then server.answers e.serial cmd
      else adbClose (some 1) false [] server.complaint
    | _, _ => adbClose (some 1) false [] server.complaint

/-- What the commands of the backend come to. -/
def adbWorld (cfg : Config) (server : AdbServer) : Async.World Call.Answer Unit
  | .adb extra, s => (some (server.run (args cfg extra)), s)
  | .dbExec _, s => (none, s)
  | .emuCommand _, s => (none, s)

/-! ## The list is the table -/

theorem ascii_header : IsLine "List of devices attached".toList where
  ne_nil := by decide
  one := by decide
  trim_eq := by decide

theorem TableEntry.pad_eq (e : TableEntry) {w : Text × Text} (hw : w ∈ e.words) :
    w.1 ≠ [] ∧ ∀ c ∈ w.1, c = ' ' := by
  rcases List.mem_cons.mp hw with rfl | hw
  · refine ⟨List.append_ne_nil_of_right_ne_nil _ (List.cons_ne_nil _ _), fun c hc => ?_⟩
    rcases List.mem_append.mp hc with hc | hc
    · exact List.eq_of_mem_replicate hc
    · exact List.mem_singleton.mp hc
  · obtain ⟨v, -, rfl⟩ := List.mem_map.mp hw
    exact ⟨List.cons_ne_nil _ _, fun c hc => List.mem_singleton.mp hc⟩

theorem TableEntry.words_spec (e : TableEntry) :
    ∀ w ∈ e.words, IsBlank w.1 ∧ w.1 ≠ [] ∧ IsToken w.2 := by
  intro w hw
  obtain ⟨hne, hpad⟩ := e.pad_eq hw
  refine ⟨fun c hc => ?_, hne, ?_⟩
  · rw [hpad c hc]
    decide
  · rcases List.mem_cons.mp hw with rfl | hw
    · exact e.state_token
    · obtain ⟨v, hv, rfl⟩ := List.mem_map.mp hw
      exact e.info_token v hv

theorem TableEntry.words_snd (e : TableEntry) : e.words.map (·.2) = e.state :: e.info := by
  unfold TableEntry.words
  rw [List.map_cons, List.map_map]
  exact congrArg (e.state :: ·) (List.map_id'' (fun _ => rfl) e.info)

/-- The line is cut into the words of the serial, the state and the details. -/
theorem TableEntry.parse_line (e : TableEntry) : parseDevice (trim e.line) = e.read := by
  have hne : e.words ≠ [] := List.cons_ne_nil _ _
  unfold parseDevice TableEntry.line TableEntry.read
  rw [splitSpaces_trim_append _ hne e.words_spec, e.words_snd]

theorem isSpace_newline : isSpace '\n' = true := by decide

theorem newline_not_mem_token {w : Text} (h : IsToken w) : '\n' ∉ w := fun hm =>
  Bool.false_ne_true ((h.clean _ hm).symm.trans isSpace_newline)

theorem TableEntry.printedSerial_one (e : TableEntry) : '\n' ∉ e.printedSerial := by
  unfold TableEntry.printedSerial
  split_ifs
  · decide
  · exact e.serial_one

theorem TableEntry.line_one (e : TableEntry) : '\n' ∉ e.line := by
  intro hm
  rcases List.mem_append.mp hm with hm | hm
  · exact e.printedSerial_one hm
  · obtain ⟨w, hw, hm⟩ := List.mem_flatMap.mp hm
    rcases List.mem_append.mp hm with hm | hm
    · exact absurd ((e.pad_eq hw).2 _ hm) (by decide)
    · exact newline_not_mem_token (e.words_spec w hw).2.2 hm

/-- No line is blank: each has a state. -/
theorem TableEntry.trim_line_ne_nil (e : TableEntry) : trim e.line ≠ [] := by
  intro h
  have hblank : IsBlank e.line := isBlank_of_trim h
  obtain ⟨c, rest, hc⟩ := List.exists_cons_of_ne_nil e.state_token.ne_nil
  have hmem : c ∈ e.line := by
    refine List.mem_append_right _ (List.mem_flatMap.mpr ⟨_, List.mem_cons_self, ?_⟩)
    exact List.mem_append_right _ (by rw [hc]; exact List.mem_cons_self)
  have hclean := e.state_token.clean c (by rw [hc]; exact List.mem_cons_self)
  exact Bool.false_ne_true (hclean.symm.trans (hblank c hmem))

/-- **The list that the backend reads is the table**, each line cut at white space. -/
theorem devicesOf_printed (table : DeviceTable) :
    devicesOf (adbClose (some 0) false table.printed []) = table.entries.map TableEntry.read := by
  have hones : ∀ l ∈ table.entries.map TableEntry.line, '\n' ∉ l := by
    intro l hl
    obtain ⟨e, -, rfl⟩ := List.mem_map.mp hl
    exact e.line_one
  have hkeep : ((table.entries.map TableEntry.line).map trim).filter (fun line => !line.isEmpty) =
      (table.entries.map TableEntry.line).map trim := by
    refine List.filter_eq_self.mpr fun l hl => ?_
    obtain ⟨l', hl', rfl⟩ := List.mem_map.mp hl
    obtain ⟨e, -, rfl⟩ := List.mem_map.mp hl'
    simpa using e.trim_line_ne_nil
  have hprinted : table.printed = "List of devices attached".toList ++
      '\n' :: (((table.entries.map TableEntry.line).flatMap fun l => l ++ ['\n']) ++ ['\n']) := by
    unfold DeviceTable.printed
    rw [List.flatMap_cons, List.append_assoc, List.append_assoc, List.singleton_append]
  show (((((trim table.printed).splitOn '\n').drop 1).map trim).filter
    fun line => !line.isEmpty).map parseDevice = _
  have hread := readLines_tail ignoresEnd_trim ascii_header
    (((table.entries.map TableEntry.line).flatMap fun l => l ++ ['\n']) ++ ['\n'])
  rw [readLines_concat ignoresEnd_trim isSpace_newline, readLines_printed ignoresEnd_trim hones,
    hkeep] at hread
  rw [hprinted, hread, List.map_map, List.map_map]
  exact List.map_congr_left fun e _ => e.parse_line

theorem TableEntry.read_eq_row {e : TableEntry} (h : IsToken e.serial) : e.read = e.row := by
  unfold TableEntry.read TableEntry.printedSerial
  rw [if_neg h.ne_nil, words_token h]
  rfl

theorem words_noSerial : Js.words noSerial = ["(no".toList, "serial".toList, "number)".toList] := by
  decide

/-- A serial that is not one word is not read. -/
theorem TableEntry.token_of_read {e : TableEntry} (h : e.read.serial = e.serial) : IsToken e.serial := by
  unfold TableEntry.read DeviceRow.ofWords TableEntry.printedSerial at h
  by_cases hnil : e.serial = []
  · have hno : "(no".toList = e.serial := by
      rw [if_pos hnil, words_noSerial] at h
      exact h
    exact absurd (hno.trans hnil) (by decide)
  · rw [if_neg hnil] at h
    refine ⟨hnil, fun c hc => ?_⟩
    cases hw : Js.words e.serial with
    | nil =>
      rw [hw] at h
      rw [← h] at hc
      exact e.state_token.clean c hc
    | cons w ws =>
      rw [hw] at h
      rw [← h] at hc
      exact clean_of_mem_words (t := e.serial) (by rw [hw]; exact List.mem_cons_self) c hc

/-! ## The report -/

/-- The report on an entry whose commands come to `ask`. -/
def reportOf (cfg : Config) (target : DeviceRow) (ask : Text → AdbResult) : JsVal :=
  let prop (name : String) := propOf (ask ("getprop ".toList ++ name.toList))
  connectedJson cfg target (rootedOf (ask "id".toList)) (prop "sys.boot_completed" = "1".toList)
    ⟨prop "ro.product.brand", prop "ro.product.model", prop "ro.build.version.release",
      prop "ro.build.version.sdk", prop "ro.product.cpu.abi", prop "ro.build.fingerprint"⟩

/-- What `deviceInfo` comes to, from the list and the results of its commands. -/
def infoOf (cfg : Config) (list : List DeviceRow) (ask : Text → AdbResult) : JsVal :=
  match targetOf cfg list with
  | none => disconnectedJson cfg list
  | some target =>
    if target.state ≠ some "device".toList then disconnectedJson cfg list else reportOf cfg target ask

/-- **`deviceInfo` in any world** whose answers leave it as it is. -/
theorem run_deviceInfo (cfg : Config) {σ : Type} {world : Async.World Call.Answer σ} {s : σ}
    {listing : AdbResult} {ask : Text → AdbResult}
    (hlist : world (.adb ["devices".toList, "-l".toList]) s = (some listing, s))
    (hask : ∀ cmd, world (.adb ["shell".toList, cmd]) s = (some (ask cmd), s)) :
    (deviceInfo cfg).run world s = ⟨some (infoOf cfg (devicesOf listing) ask), [], s⟩ := by
  unfold deviceInfo infoOf deviceList adb
  simp only [Async.call_bind, Async.await_bind, Async.pure_eq, Async.pure_bind', Async.run_await, hlist]
  cases targetOf cfg (devicesOf listing) with
  | none => rfl
  | some target =>
    by_cases hs : target.state ≠ some "device".toList
    · simp only [if_pos hs, Async.run_pure]
    · simp only [if_neg hs, getProp, isRooted, shell, adb, Async.call_bind, Async.await_bind,
        Async.pure_eq, Async.pure_bind', Async.run_await, hask, Async.run_pure]
      rfl

/-- The report says connected:true for the serial. -/
def Reports (body : JsVal) (serial : Text) : Prop :=
  body.get "connected" = .bool true ∧ body.get "serial" = .str serial

theorem reports_reportOf (cfg : Config) (target : DeviceRow) (ask : Text → AdbResult) (t : Text) :
    Reports (reportOf cfg target ask) t ↔ target.serial = t := by
  unfold Reports reportOf connectedJson
  simp [jsObj, JsVal.get, List.lookup_cons]

theorem not_reports_disconnected (cfg : Config) (list : List DeviceRow) (t : Text) :
    ¬ Reports (disconnectedJson cfg list) t := by
  rintro ⟨h, -⟩
  simp [disconnectedJson, jsObj, JsVal.get] at h

/-! ## Two choices of a device -/

/-- The serial that `args` gives adb. -/
def selection (cfg : Config) : Option Text := if cfg.adbSerial = [] then none else some cfg.adbSerial

/-- The entry whose line `deviceInfo` takes. -/
def chosen (cfg : Config) (table : DeviceTable) : Option TableEntry :=
  if cfg.adbSerial = [] then table.entries.head?
  else table.entries.find? fun e => e.read.serial = cfg.adbSerial

theorem serialOption_args (cfg : Config) {verb : Text} (hv : verb ≠ "-s".toList) (rest : List Text) :
    serialOption (args cfg (verb :: rest)) = (selection cfg, verb :: rest) := by
  unfold args selection
  by_cases hs : cfg.adbSerial = []
  · rw [if_pos hs, if_pos hs, List.nil_append]
    cases rest with
    | nil => rfl
    | cons w rest => exact if_neg hv
  · rw [if_neg hs, if_neg hs]
    rfl

theorem run_devices (cfg : Config) (server : AdbServer) :
    server.run (args cfg ["devices".toList, "-l".toList]) =
      adbClose (some 0) false server.table.printed [] := by
  unfold AdbServer.run
  rw [serialOption_args cfg (by decide)]
  exact if_pos rfl

/-- A shell command is answered by the entry that adb takes. -/
theorem run_shell {cfg : Config} {server : AdbServer} {e : TableEntry}
    (h : server.table.target (selection cfg) = some e) (cmd : Text) :
    server.run (args cfg ["shell".toList, cmd]) = server.answers e.serial cmd := by
  have hne : ["shell".toList, cmd] ≠ ["devices".toList, "-l".toList] := fun he =>
    absurd (List.cons.inj he).1 (by decide)
  unfold AdbServer.run
  rw [serialOption_args cfg (by decide)]
  simp only [if_neg hne, h, if_true]

theorem targetOf_read (cfg : Config) (table : DeviceTable) :
    targetOf cfg (table.entries.map TableEntry.read) = (chosen cfg table).map TableEntry.read := by
  unfold targetOf chosen
  by_cases hs : cfg.adbSerial = []
  · rw [if_neg (not_not.mpr hs), if_pos hs, List.head?_map]
  · rw [if_pos hs, if_neg hs, List.find?_map]
    rfl

theorem DeviceTable.eq_of_serial (table : DeviceTable) {e e' : TableEntry} (he : e ∈ table.entries)
    (he' : e' ∈ table.entries) (h : e.serial = e'.serial) (hne : e.serial ≠ []) : e = e' :=
  List.inj_on_of_nodup_map table.serials_nodup
    (List.mem_filter.mpr ⟨he, decide_eq_true hne⟩)
    (List.mem_filter.mpr ⟨he', decide_eq_true (h ▸ hne)⟩) h

theorem DeviceTable.target_mem {table : DeviceTable} {serial : Option Text} {e : TableEntry}
    (h : table.target serial = some e) : e ∈ table.entries := by
  unfold DeviceTable.target at h
  split at h
  · exact List.mem_of_find?_eq_some h
  · split at h
    · rename_i e' he
      cases h
      rw [he]
      exact List.mem_singleton_self e
    · cases h

/-- No other entry has the serial of the one that the commands reach. -/
theorem target_unique {cfg : Config} {table : DeviceTable} {e e' : TableEntry}
    (ht : table.target (selection cfg) = some e) (he' : e' ∈ table.entries)
    (h : e.serial = e'.serial) : e = e' := by
  have he := DeviceTable.target_mem ht
  unfold selection at ht
  split_ifs at ht with hs
  · -- without `-s` there is no other entry
    unfold DeviceTable.target at ht
    dsimp only at ht
    split at ht
    · rename_i hone
      cases ht
      rw [hone] at he'
      exact (List.mem_singleton.mp he').symm
    · cases ht
  · have hserial : e.serial = cfg.adbSerial := by simpa using List.find?_some ht
    exact table.eq_of_serial he he' h (hserial ▸ hs)

theorem infoOf_device {cfg : Config} {table : DeviceTable} {f : TableEntry}
    (hc : chosen cfg table = some f) (hs : f.read.state = some "device".toList)
    (ask : Text → AdbResult) :
    infoOf cfg (table.entries.map TableEntry.read) ask = reportOf cfg f.read ask := by
  unfold infoOf
  rw [targetOf_read, hc]
  exact if_neg (not_not.mpr hs)

theorem infoOf_other {cfg : Config} {table : DeviceTable}
    (h : ∀ f, chosen cfg table = some f → f.read.state ≠ some "device".toList)
    (ask : Text → AdbResult) :
    infoOf cfg (table.entries.map TableEntry.read) ask =
      disconnectedJson cfg (table.entries.map TableEntry.read) := by
  unfold infoOf
  rw [targetOf_read]
  cases hc : chosen cfg table with
  | none => rfl
  | some f => exact if_pos fun hs => h f hc hs

/-- What `deviceInfo` reports on: the line that it takes, if that is read as in state `device`. -/
theorem reports_infoOf (cfg : Config) (table : DeviceTable) (ask : Text → AdbResult) (t : Text) :
    Reports (infoOf cfg (table.entries.map TableEntry.read) ask) t ↔
      ∃ f, chosen cfg table = some f ∧ f.read.state = some "device".toList ∧ f.read.serial = t := by
  by_cases h : ∃ f, chosen cfg table = some f ∧ f.read.state = some "device".toList
  · obtain ⟨f, hc, hs⟩ := h
    rw [infoOf_device hc hs, reports_reportOf]
    constructor
    · exact fun h => ⟨f, hc, hs, h⟩
    · rintro ⟨f', hf', -, h⟩
      rw [hc] at hf'
      cases hf'
      exact h
  · rw [infoOf_other fun f hc hs => h ⟨f, hc, hs⟩]
    refine iff_of_false (not_reports_disconnected cfg _ t) ?_
    rintro ⟨f, hc, hs, -⟩
    exact h ⟨f, hc, hs⟩

/-- The shell commands of the backend go to the device with this serial. -/
def Reaches (cfg : Config) (server : AdbServer) (t : Text) : Prop :=
  ∀ cmd, ∃ e, server.table.target (serialOption (args cfg ["shell".toList, cmd])).1 = some e ∧
    e.serial = t

theorem reaches_iff {cfg : Config} {server : AdbServer} {t : Text} : Reaches cfg server t ↔
    ∃ e, server.table.target (selection cfg) = some e ∧ e.serial = t := by
  unfold Reaches
  constructor
  · intro h
    have h := h []
    rwa [serialOption_args cfg (by decide)] at h
  · intro h cmd
    rwa [serialOption_args cfg (by decide)]

def InState (server : AdbServer) (t state : Text) : Prop :=
  ∃ e ∈ server.table.entries, e.serial = t ∧ e.state = state

/-- A serial is reported just when it is in state `device` and the commands reach it, and then the
report is made of what this device answers. -/
def Consistent (cfg : Config) (server : AdbServer) : Prop :=
  ∃ body, (deviceInfo cfg).run (adbWorld cfg server) () = ⟨some body, [], ()⟩ ∧
    (∀ t, Reports body t ↔ InState server t "device".toList ∧ Reaches cfg server t) ∧
    ∀ e ∈ server.table.entries, Reports body e.serial →
      body = reportOf cfg e.row (server.answers e.serial)

theorem run_adbWorld (cfg : Config) (server : AdbServer) :
    (deviceInfo cfg).run (adbWorld cfg server) () =
      ⟨some (infoOf cfg (server.table.entries.map TableEntry.read)
        fun cmd => server.run (args cfg ["shell".toList, cmd])), [], ()⟩ := by
  have hlist : adbWorld cfg server (.adb ["devices".toList, "-l".toList]) () =
      (some (adbClose (some 0) false server.table.printed []), ()) := by
    rw [← run_devices cfg server]
    rfl
  rw [run_deviceInfo cfg hlist fun _ => rfl, devicesOf_printed]

theorem get_info_reportOf (cfg : Config) (target : DeviceRow) (ask : Text → AdbResult) :
    (reportOf cfg target ask).get "info" = .str target.info := by
  simp [reportOf, connectedJson, jsObj, JsVal.get, List.lookup_cons]

/-- `deviceInfo` and adb choose alike: the line that is taken reads just as the entry that the
commands reach, or neither is in state `device`. -/
def SameChoice (cfg : Config) (table : DeviceTable) : Prop :=
  (∃ f e, chosen cfg table = some f ∧ table.target (selection cfg) = some e ∧ f.read = e.row) ∨
  (∀ f, chosen cfg table = some f → f.read.state ≠ some "device".toList) ∧
    ∀ e, table.target (selection cfg) = some e → e.state ≠ "device".toList

/-- A line that reads as the entry is reported as the entry. -/
theorem consistent_of_read {cfg : Config} {server : AdbServer} {f e : TableEntry}
    (hc : chosen cfg server.table = some f) (ht : server.table.target (selection cfg) = some e)
    (hread : f.read = e.row) : Consistent cfg server := by
  refine ⟨_, run_adbWorld cfg server, fun t => ?_, fun e' he' hr => ?_⟩
  · rw [reports_infoOf, reaches_iff]
    constructor
    · rintro ⟨f', hf', hs, rfl⟩
      rw [hc] at hf'
      cases hf'
      rw [hread] at hs ⊢
      exact ⟨⟨e, DeviceTable.target_mem ht, rfl, Option.some.inj hs⟩, e, ht, rfl⟩
    · rintro ⟨⟨e', he', rfl, hs⟩, e'', he'', hserial⟩
      rw [ht] at he''
      cases he''
      obtain rfl := target_unique ht he' hserial
      exact ⟨f, hc, by rw [hread]; exact congrArg some hs, by rw [hread]; rfl⟩
  · obtain ⟨f', hf', hs, hserial⟩ := (reports_infoOf _ _ _ _).mp hr
    rw [hc] at hf'
    cases hf'
    have hsame : e.serial = e'.serial := by rw [← hserial, hread]; rfl
    obtain rfl := target_unique ht he' hsame
    rw [infoOf_device hc hs, hread]
    congr 1
    funext cmd
    exact run_shell ht cmd

/-- **The report is right just when both choose alike.** -/
theorem consistent_iff_same (cfg : Config) (server : AdbServer) :
    Consistent cfg server ↔ SameChoice cfg server.table := by
  constructor
  · rintro ⟨body, hrun, hiff, hbody⟩
    rw [run_adbWorld] at hrun
    cases hrun
    by_cases h : ∃ f, chosen cfg server.table = some f ∧ f.read.state = some "device".toList
    · obtain ⟨f, hc, hs⟩ := h
      have hrep := (reports_infoOf cfg server.table
        (fun cmd => server.run (args cfg ["shell".toList, cmd])) _).mpr ⟨f, hc, hs, rfl⟩
      obtain ⟨⟨e, he, hserial, hstate⟩, hreach⟩ := (hiff f.read.serial).mp hrep
      obtain ⟨e', ht, hserial'⟩ := reaches_iff.mp hreach
      obtain rfl := (target_unique ht he (hserial'.trans hserial.symm)).symm
      rw [← hserial] at hrep
      have hinfo := congrArg (fun b => b.get "info") (hbody e he hrep)
      rw [infoOf_device hc hs] at hinfo
      simp only [get_info_reportOf, JsVal.str.injEq] at hinfo
      have hread : f.read = e.row := by
        cases hf : f.read with
        | mk serial state info =>
          rw [hf] at hserial hs hinfo
          simp only [TableEntry.row, DeviceRow.mk.injEq]
          exact ⟨hserial.symm, hs.trans (congrArg some hstate.symm), hinfo⟩
      exact .inl ⟨f, e, hc, ht, hread⟩
    · refine .inr ⟨fun f hc hs => h ⟨f, hc, hs⟩, fun e ht hstate => h ?_⟩
      obtain ⟨f, hc, hs, -⟩ := (reports_infoOf _ _ _ _).mp ((hiff e.serial).mpr
        ⟨⟨e, DeviceTable.target_mem ht, rfl, hstate⟩, reaches_iff.mpr ⟨e, ht, rfl⟩⟩)
      exact ⟨f, hc, hs⟩
  · rintro (⟨f, e, hc, ht, hread⟩ | ⟨hno, hstate⟩)
    · exact consistent_of_read hc ht hread
    · have hnot : ∀ t, ¬ Reports (infoOf cfg (server.table.entries.map TableEntry.read)
          fun cmd => server.run (args cfg ["shell".toList, cmd])) t := by
        intro t h
        obtain ⟨f, hc, hs, -⟩ := (reports_infoOf _ _ _ _).mp h
        exact hno f hc hs
      refine ⟨_, run_adbWorld cfg server, fun t => iff_of_false (hnot t) ?_,
        fun e _ h => absurd h (hnot e.serial)⟩
      rintro ⟨⟨e, he, rfl, hs⟩, hreach⟩
      obtain ⟨e', ht, hserial⟩ := reaches_iff.mp hreach
      obtain rfl := (target_unique ht he hserial).symm
      exact hstate e ht hs

/-! ## Which tables are reported right -/

/-- No entry with the serial is in state `device`. -/
def NotOnline (table : DeviceTable) (serial : Text) : Prop :=
  ∀ e ∈ table.entries, e.serial = serial → e.state ≠ "device".toList

/-- Without a serial: there is no entry; or the only one has a serial of one word, or is neither in
state `device` nor read as such; or the first of several is not read as in state `device`.  With one:
the first line that begins with the word reads as the entry of that serial, or that line is not read
as in state `device` and no entry of that serial is. -/
def Unmistaken (cfg : Config) (table : DeviceTable) : Prop :=
  if cfg.adbSerial = [] then
    match table.entries with
    | [] => True
    | [e] => IsToken e.serial ∨ e.read.state ≠ some "device".toList ∧ e.state ≠ "device".toList
    | e :: _ :: _ => e.read.state ≠ some "device".toList
  else
    match table.entries.find? fun e => e.read.serial = cfg.adbSerial with
    | none => NotOnline table cfg.adbSerial
    | some f => (∃ e ∈ table.entries, e.serial = cfg.adbSerial ∧ f.read = e.row) ∨
        f.read.state ≠ some "device".toList ∧ NotOnline table cfg.adbSerial

/-- The entry that a serial names. -/
theorem DeviceTable.target_serial {table : DeviceTable} {serial : Text} (hne : serial ≠ [])
    {e : TableEntry} : table.target (some serial) = some e ↔ e ∈ table.entries ∧ e.serial = serial := by
  constructor
  · intro h
    exact ⟨DeviceTable.target_mem h, by simpa using List.find?_some h⟩
  · rintro ⟨he, rfl⟩
    show table.entries.find? (fun e' => e'.serial = e.serial) = some e
    cases hf : table.entries.find? fun e' => e'.serial = e.serial with
    | none =>
      have hno := List.find?_eq_none.mp hf e he
      simp at hno
    | some e' =>
      have hserial : e'.serial = e.serial := by simpa using List.find?_some hf
      rw [table.eq_of_serial (List.mem_of_find?_eq_some hf) he hserial (hserial ▸ hne)]

theorem same_iff_unmistaken (cfg : Config) (table : DeviceTable) :
    SameChoice cfg table ↔ Unmistaken cfg table := by
  unfold SameChoice Unmistaken chosen selection
  by_cases hs : cfg.adbSerial = []
  · simp only [if_pos hs]
    match ht : table.entries with
    | [] =>
      have htarget : table.target none = none := by
        unfold DeviceTable.target
        rw [ht]
      simp [htarget]
    | [e] =>
      have htarget : table.target none = some e := by
        unfold DeviceTable.target
        rw [ht]
      simp only [htarget, List.head?_cons, Option.some.injEq, forall_eq', exists_and_left,
        exists_eq_left']
      constructor
      · rintro (h | h)
        · exact .inl (TableEntry.token_of_read (congrArg DeviceRow.serial h))
        · exact .inr h
      · rintro (h | h)
        · exact .inl (TableEntry.read_eq_row h)
        · exact .inr h
    | e :: e' :: es =>
      have htarget : table.target none = none := by
        unfold DeviceTable.target
        rw [ht]
      simp [htarget]
  · simp only [if_neg hs]
    have hoff : (∀ e, table.target (some cfg.adbSerial) = some e → e.state ≠ "device".toList) ↔
        NotOnline table cfg.adbSerial := by
      simp only [DeviceTable.target_serial hs, NotOnline, and_imp]
    rw [hoff]
    cases table.entries.find? fun e => e.read.serial = cfg.adbSerial with
    | none => simp
    | some f => simp [DeviceTable.target_serial hs, and_assoc]

/-- Where every serial is one word, only the first of several entries is mistaken. -/
theorem unmistaken_tokens {cfg : Config} {table : DeviceTable}
    (h : ∀ e ∈ table.entries, IsToken e.serial) : Unmistaken cfg table ↔
      cfg.adbSerial ≠ [] ∨ table.entries.length ≤ 1 ∨
        ∀ e ∈ table.entries.head?, e.state ≠ "device".toList := by
  have hread : ∀ e ∈ table.entries, e.read = e.row := fun e he => TableEntry.read_eq_row (h e he)
  unfold Unmistaken
  by_cases hs : cfg.adbSerial = []
  · rw [if_pos hs, or_iff_right (not_not.mpr hs)]
    match ht : table.entries with
    | [] => exact iff_of_true trivial (.inl (Nat.zero_le 1))
    | [e] =>
      have he : e ∈ table.entries := by rw [ht]; exact List.mem_cons_self
      exact iff_of_true (.inl (h e he)) (.inl le_rfl)
    | e :: e' :: es =>
      have he : e ∈ table.entries := by rw [ht]; exact List.mem_cons_self
      have hlen : ¬ (e :: e' :: es).length ≤ 1 := by
        rw [List.length_cons, List.length_cons]
        omega
      rw [or_iff_right hlen]
      simp only [hread e he, TableEntry.row, ne_eq, Option.some.injEq, List.head?_cons,
        Option.mem_def, forall_eq']
  · rw [if_neg hs]
    refine iff_of_true ?_ (.inl hs)
    cases hf : table.entries.find? fun e => e.read.serial = cfg.adbSerial with
    | none =>
      intro e he hserial
      have hno := List.find?_eq_none.mp hf e he
      rw [hread e he] at hno
      exact absurd hserial fun hserial => hno (decide_eq_true hserial)
    | some f =>
      have he := List.mem_of_find?_eq_some hf
      have hserial := List.find?_some hf
      rw [hread f he] at hserial
      exact .inl ⟨f, he, of_decide_eq_true hserial, hread f he⟩

/-- **deviceInfo.**  For every table, every serial and whatever the devices answer: the report is
about the device that the commands reach just when no line is mistaken; that is, where every serial is
one word, when a serial is set, or the table has no second entry, or its first entry is not in state
`device`. -/
theorem info_consistent_iff (cfg : Config) (server : AdbServer) :
    (Consistent cfg server ↔ Unmistaken cfg server.table) ∧
    ((∀ e ∈ server.table.entries, IsToken e.serial) → (Consistent cfg server ↔
      cfg.adbSerial ≠ [] ∨ server.table.entries.length ≤ 1 ∨
        ∀ e ∈ server.table.entries.head?, e.state ≠ "device".toList)) := by
  have h := (consistent_iff_same cfg server).trans (same_iff_unmistaken cfg server.table)
  exact ⟨h, fun htokens => h.trans (unmistaken_tokens htokens)⟩

theorem isToken_of_all {t : Text} (hne : t ≠ []) (h : t.all (fun c => !isSpace c) = true) :
    IsToken t where
  ne_nil := hne
  clean c hc := by simpa using List.all_eq_true.mp h c hc

/-- An entry in state `device`, without details. -/
def online (serial : Text) (h : '\n' ∉ serial) : TableEntry where
  serial := serial
  state := "device".toList
  info := []
  serial_one := h
  state_token := isToken_of_all (by decide) (by decide)
  info_token := fun _ h => absurd h List.not_mem_nil

/-- Two emulators, both in state `device`. -/
def twoEmulators : AdbServer where
  table :=
    { entries := [online "emulator-5554".toList (by decide), online "emulator-5556".toList (by decide)]
      serials_nodup := by decide }
  answers := fun _ _ => adbClose (some 0) false [] []
  complaint := "error: more than one device/emulator".toList

/-- A device that is paired for the second time, and no other. -/
def pairedTwice : AdbServer where
  table :=
    { entries := [online "adb-X (2)._adb-tls-connect._tcp".toList (by decide)]
      serials_nodup := by decide }
  answers := fun _ _ => adbClose (some 0) false [] []
  complaint := []

/-- The first of two is reported, although no command reaches it; and the device with a blank in its
serial is not, although they do. -/
theorem first_of_two_reported : ¬ Consistent ⟨"avd".toList, []⟩ twoEmulators ∧
    ¬ Consistent ⟨"avd".toList, []⟩ pairedTwice := by
  constructor
  · intro h
    have hC := (same_iff_unmistaken _ _).mp ((consistent_iff_same _ _).mp h)
    exact hC (by decide)
  · intro h
    rcases (same_iff_unmistaken _ _).mp ((consistent_iff_same _ _).mp h) with hC | hC
    · exact absurd (hC.clean ' ' (by decide)) (by decide)
    · exact hC.2 rfl

end HeadlessAndroid.Device
