import HeadlessAndroid.Adb
import HeadlessAndroid.Lib.Chunks
import HeadlessAndroid.Lib.StepSystem

/-!
# HeadlessAndroid.AdbProcess — the promise of lib/adb.js

`adb` spawns a process, listens to it and resolves with what it printed.  A run is any order of the
events of the process, of its streams and of the timer.  Node throws for an `error` event that
nobody listens to, and the exception ends the server.
-/

namespace HeadlessAndroid.AdbProcess

open Lib Lib.Js

inductive Emitter where
  | proc
  | stdin
  | stdout
  | stderr
  deriving DecidableEq

/-- The events that `adb` listens to. -/
def listeners : Emitter → List Text
  | .proc => ["close".toList]
  | .stdin => []
  | .stdout => ["data".toList]
  | .stderr => ["data".toList]

inductive Event where
  /-- `data` of stdout. -/
  | stdout (d : Bytes)
  /-- `data` of stderr. -/
  | stderr (d : Bytes)
  /-- `error`: of the process when it cannot be spawned, of stdin when adb ends before it has read
  its input. -/
  | error (of : Emitter)
  | timer
  /-- `close` of the process, once all its streams are closed; without a code after a signal. -/
  | close (code : Option ℤ)
  deriving DecidableEq

/-- The variables of one call of `adb`, and what Node keeps of it. -/
structure Run where
  stdout : Text
  stderr : Text
  killed : Bool
  /-- The timer is set. -/
  timer : Bool
  /-- What `resolve` was called with. -/
  settled : List AdbResult
  closed : Bool
  /-- The emitter whose `error` event has ended the server. -/
  uncaught : Option Emitter

def start : Run := ⟨[], [], false, true, [], false, none⟩

/-- The `close` handler. -/
def Run.onClose (c : Run) (code : Option ℤ) : Run :=
  { c with
    timer := false
    settled := c.settled ++ [adbClose code c.killed c.stdout c.stderr]
    closed := true }

/-- `emit("error")`. -/
def Run.emitError (c : Run) (e : Emitter) : Run :=
  if (listeners e).contains "error".toList then c else { c with uncaught := some e }

def step (c : Run) (e : Event) : Option Run :=
  if c.uncaught ≠ none then none
  else
    match e with
    | .stdout d => if c.closed then none else some { c with stdout := c.stdout ++ Utf8.decode d }
    | .stderr d => if c.closed then none else some { c with stderr := c.stderr ++ Utf8.decode d }
    | .error e => some (c.emitError e)
    | .timer => if c.timer then some { c with timer := false, killed := true } else none
    | .close code => if c.closed then none else some (c.onClose code)

def adbSystem : StepSystem Run Event where
  step := step

/-- The chunks of stdout. -/
def outs (evs : List Event) : List Bytes :=
  evs.filterMap fun
    | .stdout d => some d
    | _ => none

/-- The chunks of stderr. -/
def errs (evs : List Event) : List Bytes :=
  evs.filterMap fun
    | .stderr d => some d
    | _ => none

/-! ## What a run has done -/

/-- Nobody listens to `error`. -/
theorem emitError_eq (c : Run) (e : Emitter) : c.emitError e = { c with uncaught := some e } := by
  cases e <;> rfl

/-- What each event does, and when it can occur. -/
theorem step_cases {c c' : Run} {e : Event} (h : step c e = some c') :
    c.uncaught = none ∧
    ((∃ d, e = .stdout d ∧ c.closed = false ∧
        c' = { c with stdout := c.stdout ++ Utf8.decode d }) ∨
      (∃ d, e = .stderr d ∧ c.closed = false ∧
        c' = { c with stderr := c.stderr ++ Utf8.decode d }) ∨
      (∃ o, e = .error o ∧ c' = { c with uncaught := some o }) ∨
      (e = .timer ∧ c.timer = true ∧ c' = { c with timer := false, killed := true }) ∨
      (∃ code, e = .close code ∧ c.closed = false ∧ c' = c.onClose code)) := by
  obtain ⟨hu, h⟩ := Option.ite_none_left_eq_some.mp h
  refine ⟨not_not.mp hu, ?_⟩
  cases e with
  | stdout d =>
    obtain ⟨hc, h⟩ := Option.ite_none_left_eq_some.mp h
    exact .inl ⟨d, rfl, Bool.eq_false_of_not_eq_true hc, (Option.some.inj h).symm⟩
  | stderr d =>
    obtain ⟨hc, h⟩ := Option.ite_none_left_eq_some.mp h
    exact .inr (.inl ⟨d, rfl, Bool.eq_false_of_not_eq_true hc, (Option.some.inj h).symm⟩)
  | error o =>
    refine .inr (.inr (.inl ⟨o, rfl, ?_⟩))
    rw [← emitError_eq]
    exact (Option.some.inj h).symm
  | timer =>
    obtain ⟨ht, h⟩ := Option.ite_none_right_eq_some.mp h
    exact .inr (.inr (.inr (.inl ⟨rfl, ht, (Option.some.inj h).symm⟩)))
  | close code =>
    obtain ⟨hc, h⟩ := Option.ite_none_left_eq_some.mp h
    exact .inr (.inr (.inr (.inr
      ⟨code, rfl, Bool.eq_false_of_not_eq_true hc, (Option.some.inj h).symm⟩)))

/-- The result of the process that has closed. -/
def Run.result (c : Run) (code : Option ℤ) : AdbResult :=
  adbClose code c.killed c.stdout c.stderr

/-- The state of the run, read off its events. -/
structure History (evs : List Event) (c : Run) : Prop where
  stdout : c.stdout = (outs evs).flatMap Utf8.decode
  stderr : c.stderr = (errs evs).flatMap Utf8.decode
  killed : c.killed = true ↔ .timer ∈ evs
  uncaught : c.uncaught = none ↔ ∀ e, .error e ∉ evs
  /-- Before `close`. -/
  running : c.closed = false → c.settled = [] ∧ ∀ code, .close code ∉ evs
  /-- After it, with the timer cleared and nothing more to read. -/
  ended : c.closed = true → c.timer = false ∧
    ∃ code, c.settled = [c.result code] ∧ ∀ code', .close code' ∈ evs ↔ code' = code

theorem history_start : History [] start where
  stdout := rfl
  stderr := rfl
  killed := by simp [start]
  uncaught := by simp [start]
  running := by simp [start]
  ended := by simp [start]

theorem history_step {evs : List Event} {c c' : Run} {e : Event} (hH : History evs c)
    (h : step c e = some c') : History (evs ++ [e]) c' := by
  obtain ⟨hu, ⟨d, rfl, hc, rfl⟩ | ⟨d, rfl, hc, rfl⟩ | ⟨o, rfl, rfl⟩ | ⟨rfl, ht, rfl⟩ |
    ⟨code, rfl, hc, rfl⟩⟩ := step_cases h
  · exact {
      stdout := by simp [outs, hH.stdout]
      stderr := by simp [errs, hH.stderr]
      killed := by simpa using hH.killed
      uncaught := by simpa using hH.uncaught
      running := by simpa using hH.running
      ended := fun hc' => by simp [hc] at hc' }
  · exact {
      stdout := by simp [outs, hH.stdout]
      stderr := by simp [errs, hH.stderr]
      killed := by simpa using hH.killed
      uncaught := by simpa using hH.uncaught
      running := by simpa using hH.running
      ended := fun hc' => by simp [hc] at hc' }
  · exact {
      stdout := by simp [outs, hH.stdout]
      stderr := by simp [errs, hH.stderr]
      killed := by simpa using hH.killed
      uncaught := iff_of_false (Option.some_ne_none o)
        fun hn => hn o (List.mem_append_right _ (List.mem_singleton.mpr rfl))
      running := by simpa using hH.running
      ended := by simpa [Run.result] using hH.ended }
  · have hopen : c.closed = false := by
      by_contra hc
      rw [(hH.ended (Bool.eq_true_of_not_eq_false hc)).1] at ht
      cases ht
    exact {
      stdout := by simp [outs, hH.stdout]
      stderr := by simp [errs, hH.stderr]
      killed := by simp
      uncaught := by simpa using hH.uncaught
      running := by simpa using hH.running
      ended := fun hc' => by simp [hopen] at hc' }
  · obtain ⟨hs, hno⟩ := hH.running hc
    exact {
      stdout := by simp [Run.onClose, outs, hH.stdout]
      stderr := by simp [Run.onClose, errs, hH.stderr]
      killed := by simpa [Run.onClose] using hH.killed
      uncaught := by simpa [Run.onClose] using hH.uncaught
      running := fun hc' => by simp [Run.onClose] at hc'
      ended := fun _ => ⟨rfl, code, by simp [Run.onClose, Run.result, hs], by simp [hno]⟩ }

/-- **A run does what its events say.** -/
theorem history {evs : List Event} {c : Run} (h : adbSystem.run start evs = some c) :
    History evs c :=
  StepSystem.run_history history_start (fun _ _ _ _ => history_step) h

/-! ## The promise -/

/-- What callers rely on. -/
structure Right (evs : List Event) (c : Run) : Prop where
  /-- No `error` event was without a listener. -/
  heard : c.uncaught = none
  /-- The promise is settled when the process closes, and then once. -/
  once : c.settled.length = if c.closed then 1 else 0
  closed : c.closed = true ↔ ∃ code, .close code ∈ evs
  ok : ∀ r ∈ c.settled, r.ok = true ↔ .close (some 0) ∈ evs ∧ .timer ∉ evs
  timedOut : ∀ r ∈ c.settled, r.timedOut = true ↔ .timer ∈ evs

theorem ok_adbClose (code : Option ℤ) (killed : Bool) (out err : Text) :
    (adbClose code killed out err).ok = true ↔ code = some 0 ∧ killed = false := by
  simp [adbClose]

theorem History.mem_settled {evs : List Event} {c : Run} (hH : History evs c) {r : AdbResult}
    (hr : r ∈ c.settled) :
    ∃ code, r = c.result code ∧ ∀ code', .close code' ∈ evs ↔ code' = code := by
  by_cases hc : c.closed = true
  · obtain ⟨-, code, hs, hcode⟩ := hH.ended hc
    rw [hs] at hr
    exact ⟨code, List.mem_singleton.mp hr, hcode⟩
  · rw [(hH.running (Bool.eq_false_of_not_eq_true hc)).1] at hr
    exact absurd hr List.not_mem_nil

/-- **The promise of `adb`.**  In every order of events it is what callers rely on just when the
process and its streams have no `error` event. -/
theorem adb_right_iff {evs : List Event} {c : Run} (h : adbSystem.run start evs = some c) :
    Right evs c ↔ ∀ e, .error e ∉ evs := by
  have hH := history h
  refine ⟨fun hR => hH.uncaught.mp hR.heard, fun hno => ?_⟩
  refine ⟨hH.uncaught.mpr hno, ?_, ?_, fun r hr => ?_, fun r hr => ?_⟩
  · by_cases hc : c.closed = true
    · obtain ⟨-, code, hs, -⟩ := hH.ended hc
      rw [if_pos hc, hs]
      rfl
    · rw [if_neg hc, (hH.running (Bool.eq_false_of_not_eq_true hc)).1]
      rfl
  · constructor
    · intro hc
      obtain ⟨-, code, -, hcode⟩ := hH.ended hc
      exact ⟨code, (hcode code).mpr rfl⟩
    · rintro ⟨code, hmem⟩
      by_contra hc
      exact (hH.running (Bool.eq_false_of_not_eq_true hc)).2 code hmem
  · obtain ⟨code, rfl, hcode⟩ := hH.mem_settled hr
    rw [show (c.result code).ok = true ↔ code = some 0 ∧ c.killed = false from ok_adbClose ..,
      hcode, ← hH.killed, Bool.not_eq_true, eq_comm]
  · obtain ⟨code, rfl, -⟩ := hH.mem_settled hr
    exact hH.killed

/-- A listing that takes too long. -/
theorem adb_right_killed : Right [.stdout [112], .timer, .close none]
    ⟨['p'], [], true, false, [adbClose none true ['p'] []], true, none⟩ :=
  (adb_right_iff rfl).mpr (by rintro (_ | _ | _ | _) <;> decide)

/-- adb ends before it has read what `dbExec` sends it. -/
theorem stdin_error_uncaught :
    ¬∀ evs c, adbSystem.run start evs = some c → Right evs c := by
  intro h
  have hR := h [.error .stdin] _ rfl
  exact absurd hR.heard (by decide)

/-! ## The text -/

/-- Cuts are seen in the text, trimmed or not. -/
theorem trim_chunks_iff (cs : List Bytes) :
    trim (cs.flatMap Utf8.decode) = trim (Utf8.decode cs.flatten) ↔ Utf8.CleanCuts cs := by
  constructor
  · intro h
    have hspace : isSpace Utf8.replacement = false := by decide
    have hcount := congrArg (List.count Utf8.replacement) h
    rw [count_trim hspace, count_trim hspace] at hcount
    exact (Utf8.count_chunks_eq_iff cs).mp hcount
  · intro h
    rw [Utf8.flatMap_of_clean h]

/-- **What `adb` resolves with** is the trimmed text of all the bytes of a stream just when no chunk
of it ends in a character that the next chunk goes on with. -/
theorem adb_text_iff {evs : List Event} {c : Run} (h : adbSystem.run start evs = some c)
    {r : AdbResult} (hr : r ∈ c.settled) :
    (r.stdout = trim (Utf8.decode (outs evs).flatten) ↔ Utf8.CleanCuts (outs evs)) ∧
      (r.stderr = trim (Utf8.decode (errs evs).flatten) ↔ Utf8.CleanCuts (errs evs)) := by
  have hH := history h
  obtain ⟨code, rfl, -⟩ := hH.mem_settled hr
  have hout : (c.result code).stdout = trim ((outs evs).flatMap Utf8.decode) := by
    rw [← hH.stdout]
    rfl
  have herr : (c.result code).stderr = trim ((errs evs).flatMap Utf8.decode) := by
    rw [← hH.stderr]
    rfl
  rw [hout, herr]
  exact ⟨trim_chunks_iff _, trim_chunks_iff _⟩

/-- An accent at the end of a chunk, and one in the middle of the next. -/
def wholeChunks : List Event :=
  [.stdout [0x61, 0xC3, 0xA9], .stderr [0x62], .stdout [0x63, 0xC3, 0xA9, 0x64], .close (some 0)]

theorem adb_text_whole :
    trim ['a', Char.ofNat 0xE9, 'c', Char.ofNat 0xE9, 'd'] =
      trim (Utf8.decode (outs wholeChunks).flatten) := by
  have h : adbSystem.run start wholeChunks = some
      ⟨['a', Char.ofNat 0xE9, 'c', Char.ofNat 0xE9, 'd'], ['b'], false, false,
        [adbClose (some 0) false ['a', Char.ofNat 0xE9, 'c', Char.ofNat 0xE9, 'd'] ['b']], true,
        none⟩ := rfl
  exact ((adb_text_iff h List.mem_cons_self).1).mpr ⟨rfl, rfl, trivial⟩

/-- An accent that arrives in two. -/
theorem adb_text_cut : ¬∀ evs c, adbSystem.run start evs = some c → ∀ r ∈ c.settled,
    r.stdout = trim (Utf8.decode (outs evs).flatten) := by
  intro h
  have heq := h [.stdout [0xC3], .stdout [0xA9], .close (some 0)] _ rfl _ List.mem_cons_self
  exact absurd heq (by decide)

end HeadlessAndroid.AdbProcess
