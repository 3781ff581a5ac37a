import HeadlessAndroid.Lib.JsText

/-!
# HeadlessAndroid.Emu — emuCommand, the client of the emulator console

The handlers that `emuCommand` puts on its socket, each a function on the variables they share.
-/

namespace HeadlessAndroid.Emu

open Lib Lib.Js

/-- The token of `~/.emulator_console_auth_token`, empty if there is no such file. -/
def loadToken (file : Option Bytes) : Text :=
  match file with
  | none => []
  | some b => trim (Utf8.decode b)

structure EmuConfig where
  token : Text
  cmd : Text

/-- What the promise resolves with. -/
structure EmuResult where
  ok : Bool
  output : Text
  error : Option Text
  deriving DecidableEq

structure EmuClient where
  out : Text := []
  done : Bool := false
  sentAuth : Bool := false
  sentCmd : Bool := false
  timer : Bool := true
  /-- All that was written to the socket. -/
  written : Text := []
  /-- The first settlement of the promise; later ones change nothing. -/
  result : Option EmuResult := none

/-! ## The tests on the buffer -/

/-- A match of `/\nOK\b/` at the head. -/
def startsOkLine : Text → Bool
  | '\n' :: 'O' :: 'K' :: rest => rest.head?.all fun c => !isWord c
  | _ => false

/-- `(out.match(/\nOK\b/g) || []).length`. -/
def okCount (out : Text) : ℕ := (out.tails.filter startsOkLine).length

/-- A match of `/\nOK\s*$/` at the head. -/
def isLastOkLine : Text → Bool
  | '\n' :: 'O' :: 'K' :: rest => rest.all isSpace
  | _ => false

/-- `/\nOK\s*$/.test(out)`. -/
def endsInOkLine (out : Text) : Bool := out.tails.any isLastOkLine

/-- The test on which the `data` handler reports success, once the command was sent. -/
def looksDone (out : Text) : Bool := !includes out "Hello".toList && endsInOkLine out

/-! ## The handlers -/

def EmuClient.finish (c : EmuClient) (ok : Bool) (err : Option Text) : EmuClient :=
  if c.done then c else { c with done := true, result := some ⟨ok, c.out, err⟩ }

def authWrite (cfg : EmuConfig) : Text := "auth ".toList ++ cfg.token ++ ['\n']

def cmdWrite (cfg : EmuConfig) : Text := cfg.cmd ++ "\nquit\n".toList

/-- Send auth once we see the banner. -/
def sendAuth (cfg : EmuConfig) (c : EmuClient) : EmuClient :=
  if includes c.out "OK".toList && !c.sentAuth && !cfg.token.isEmpty then
    { c with sentAuth := true, written := c.written ++ authWrite cfg }
  else c

/-- The source's comment wants two OK lines here, banner then auth; its test is for one. -/
def sendCmd (cfg : EmuConfig) (c : EmuClient) : EmuClient :=
  if 1 ≤ okCount c.out && !c.sentCmd then
    { c with sentCmd := true, written := c.written ++ cmdWrite cfg }
  else c

def checkDone (c : EmuClient) : EmuClient :=
  if looksDone c.out && c.sentCmd then { c with timer := false }.finish true none else c

/-- `sock.on("data")`. -/
def onData (cfg : EmuConfig) (c : EmuClient) (d : Bytes) : EmuClient :=
  checkDone (sendCmd cfg (sendAuth cfg { c with out := c.out ++ Utf8.decode d }))

/-- `err || null`. -/
def orNull (err : Text) : Option Text := if err = [] then none else some err

/-- `sock.on("error")`. -/
def onError (c : EmuClient) (message : Text) : EmuClient :=
  { c with timer := false }.finish false (orNull message)

/-- `sock.on("close")`. -/
def onClose (c : EmuClient) : EmuClient :=
  if c.sentCmd && includes c.out "OK".toList then { c with timer := false }.finish true none
  else { c with timer := false }.finish false (some "closed".toList)

/-- The timer of `timeoutMs`. -/
def onTimeout (c : EmuClient) : EmuClient :=
  { c with timer := false }.finish false (some "timeout".toList)

/-! ## What the tests say about each other -/

theorem startsOkLine_of_last {t : Text} (h : isLastOkLine t = true) : startsOkLine t = true := by
  unfold isLastOkLine at h
  split at h
  · rename_i rest
    cases rest with
    | nil => rfl
    | cons c rest =>
      have hc : isSpace c = true := by simp only [List.all_cons, Bool.and_eq_true] at h; exact h.1
      have hw : isWord c = false := by
        by_contra hw
        unfold isWord isDigit isLetter at hw
        unfold isSpace at hc
        simp only [Bool.not_eq_false, Bool.or_eq_true, Bool.and_eq_true, decide_eq_true_eq,
          beq_iff_eq] at hw hc
        rcases hw with (hw | hw) | rfl
        · omega
        · omega
        · revert hc; decide
      simp [startsOkLine, hw]
  · cases h

/-- A buffer that ends in an OK line has one. -/
theorem okCount_pos_of_ends {out : Text} (h : endsInOkLine out = true) : 1 ≤ okCount out := by
  obtain ⟨u, hu, hl⟩ := List.any_eq_true.mp h
  exact List.length_pos_of_mem (List.mem_filter.mpr ⟨hu, startsOkLine_of_last hl⟩)

theorem exists_of_startsOkLine {t : Text} (h : startsOkLine t = true) :
    ∃ rest, t = '\n' :: 'O' :: 'K' :: rest := by
  unfold startsOkLine at h
  split at h
  · exact ⟨_, rfl⟩
  · cases h

theorem includes_ok_of_okCount {out : Text} (h : 1 ≤ okCount out) :
    includes out "OK".toList = true := by
  obtain ⟨u, hu⟩ := List.exists_mem_of_length_pos h
  obtain ⟨hu, hs⟩ := List.mem_filter.mp hu
  obtain ⟨rest, rfl⟩ := exists_of_startsOkLine hs
  have hsuf : ('\n' :: 'O' :: 'K' :: rest) <:+ out := (List.mem_tails _ out).mp hu
  exact includes_iff.mpr (List.IsInfix.trans ⟨['\n'], rest, rfl⟩ hsuf.isInfix)

/-! ## What a settlement does -/

section Finish

variable (c : EmuClient) (ok : Bool) (err : Option Text)

@[simp] theorem finish_out : (c.finish ok err).out = c.out := by
  unfold EmuClient.finish; split <;> rfl

@[simp] theorem finish_sentCmd : (c.finish ok err).sentCmd = c.sentCmd := by
  unfold EmuClient.finish; split <;> rfl

@[simp] theorem finish_sentAuth : (c.finish ok err).sentAuth = c.sentAuth := by
  unfold EmuClient.finish; split <;> rfl

@[simp] theorem finish_written : (c.finish ok err).written = c.written := by
  unfold EmuClient.finish; split <;> rfl

@[simp] theorem finish_done : (c.finish ok err).done = true := by
  unfold EmuClient.finish
  split
  · assumption
  · rfl

theorem finish_result : (c.finish ok err).result =
    if c.done then c.result else some ⟨ok, c.out, err⟩ := by
  unfold EmuClient.finish
  split <;> rfl

/-- The `close` handler settles one way or the other. -/
theorem onClose_eq : ∃ err, onClose c =
    { c with timer := false }.finish (c.sentCmd && includes c.out "OK".toList) err := by
  unfold onClose
  split
  · rename_i h
    exact ⟨none, by rw [h]⟩
  · rename_i h
    exact ⟨_, by rw [Bool.eq_false_of_not_eq_true h]⟩

end Finish

/-! ## What one chunk does -/

section OneChunk

variable (cfg : EmuConfig) (c : EmuClient)

@[simp] theorem sendAuth_out : (sendAuth cfg c).out = c.out := by unfold sendAuth; split <;> rfl

@[simp] theorem sendAuth_done : (sendAuth cfg c).done = c.done := by unfold sendAuth; split <;> rfl

@[simp] theorem sendAuth_result : (sendAuth cfg c).result = c.result := by
  unfold sendAuth; split <;> rfl

@[simp] theorem sendAuth_sentCmd : (sendAuth cfg c).sentCmd = c.sentCmd := by
  unfold sendAuth; split <;> rfl

@[simp] theorem sendCmd_out : (sendCmd cfg c).out = c.out := by unfold sendCmd; split <;> rfl

@[simp] theorem sendCmd_done : (sendCmd cfg c).done = c.done := by unfold sendCmd; split <;> rfl

@[simp] theorem sendCmd_result : (sendCmd cfg c).result = c.result := by
  unfold sendCmd; split <;> rfl

theorem sendCmd_sentCmd : (sendCmd cfg c).sentCmd = (c.sentCmd || decide (1 ≤ okCount c.out)) := by
  unfold sendCmd
  cases h : c.sentCmd <;> by_cases hk : 1 ≤ okCount c.out <;> simp [h, hk]

@[simp] theorem checkDone_out : (checkDone c).out = c.out := by
  unfold checkDone; split <;> simp

@[simp] theorem checkDone_sentCmd : (checkDone c).sentCmd = c.sentCmd := by
  unfold checkDone; split <;> simp

@[simp] theorem checkDone_written : (checkDone c).written = c.written := by
  unfold checkDone; split <;> simp

theorem checkDone_sendCmd_done : (checkDone (sendCmd cfg c)).done = (c.done || looksDone c.out) := by
  unfold checkDone
  by_cases h : looksDone c.out = true
  · have hk : 1 ≤ okCount c.out := by
      unfold looksDone at h
      exact okCount_pos_of_ends (Bool.and_eq_true_iff.mp h).2
    simp [sendCmd_sentCmd, h, hk]
  · simp [h]

theorem checkDone_sendCmd_result : (checkDone (sendCmd cfg c)).result =
    if looksDone c.out && !c.done then some ⟨true, c.out, none⟩ else c.result := by
  unfold checkDone
  by_cases h : looksDone c.out = true
  · have hk : 1 ≤ okCount c.out := by
      unfold looksDone at h
      exact okCount_pos_of_ends (Bool.and_eq_true_iff.mp h).2
    cases hd : c.done <;> simp [sendCmd_sentCmd, h, hk, finish_result, hd]
  · simp [h]

variable {c}

/-- **A chunk settles the promise just when the buffer looks done after it**, whether or not the
command had been sent before. -/
theorem onData_result (hd : c.done = false) (d : Bytes) :
    (onData cfg c d).result =
      if looksDone (c.out ++ Utf8.decode d) then some ⟨true, c.out ++ Utf8.decode d, none⟩
      else c.result := by
  unfold onData
  rw [checkDone_sendCmd_result]
  simp [hd]

theorem onData_done (hd : c.done = false) (d : Bytes) :
    (onData cfg c d).done = looksDone (c.out ++ Utf8.decode d) := by
  unfold onData
  rw [checkDone_sendCmd_done]
  simp [hd]

theorem onData_sentCmd (d : Bytes) :
    (onData cfg c d).sentCmd = (c.sentCmd || decide (1 ≤ okCount (c.out ++ Utf8.decode d))) := by
  simp [onData, sendCmd_sentCmd]

theorem onData_out (d : Bytes) : (onData cfg c d).out = c.out ++ Utf8.decode d := by
  simp [onData]

end OneChunk

/-! ## What one chunk writes -/

section Written

variable (cfg : EmuConfig) (c : EmuClient)

theorem sendAuth_written : (sendAuth cfg c).written =
    c.written ++ if (sendAuth cfg c).sentAuth && !c.sentAuth then authWrite cfg else [] := by
  unfold sendAuth
  split
  · rename_i h
    simp only [Bool.and_eq_true] at h
    simp [h.1.2]
  · simp

theorem sendAuth_sentAuth (h : (sendAuth cfg c).sentAuth = true) :
    c.sentAuth = true ∨ cfg.token ≠ [] := by
  unfold sendAuth at h
  split at h
  · rename_i hc
    right
    simp only [Bool.and_eq_true, Bool.not_eq_true', List.isEmpty_eq_false_iff] at hc
    exact hc.2
  · exact Or.inl h

theorem sendAuth_keeps (h : c.sentAuth = true) : (sendAuth cfg c).sentAuth = true := by
  unfold sendAuth
  split <;> simp [h]

@[simp] theorem sendCmd_sentAuth : (sendCmd cfg c).sentAuth = c.sentAuth := by
  unfold sendCmd; split <;> rfl

@[simp] theorem checkDone_sentAuth : (checkDone c).sentAuth = c.sentAuth := by
  unfold checkDone; split <;> simp

theorem sendCmd_written : (sendCmd cfg c).written =
    c.written ++ if (sendCmd cfg c).sentCmd && !c.sentCmd then cmdWrite cfg else [] := by
  unfold sendCmd
  split
  · rename_i h
    simp only [Bool.and_eq_true] at h
    simp [h.2]
  · simp

/-- What one chunk adds to what was written: the auth line, the command, both or neither. -/
theorem onData_written (d : Bytes) : (onData cfg c d).written = c.written ++
    (if (onData cfg c d).sentAuth && !c.sentAuth then authWrite cfg else []) ++
    (if (onData cfg c d).sentCmd && !c.sentCmd then cmdWrite cfg else []) := by
  unfold onData
  rw [checkDone_written, checkDone_sentAuth, checkDone_sentCmd, sendCmd_written, sendCmd_sentAuth,
    sendAuth_written, sendAuth_sentCmd]

theorem onData_sentAuth (d : Bytes) (h : (onData cfg c d).sentAuth = true) :
    c.sentAuth = true ∨ cfg.token ≠ [] := by
  unfold onData at h
  rw [checkDone_sentAuth, sendCmd_sentAuth] at h
  exact sendAuth_sentAuth cfg { c with out := c.out ++ Utf8.decode d } h

theorem onData_keeps_sentAuth (d : Bytes) (h : c.sentAuth = true) :
    (onData cfg c d).sentAuth = true := by
  unfold onData
  rw [checkDone_sentAuth, sendCmd_sentAuth]
  exact sendAuth_keeps cfg { c with out := c.out ++ Utf8.decode d } h

end Written

end HeadlessAndroid.Emu
