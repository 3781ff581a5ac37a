import HeadlessAndroid.Lib.StepSystem
import HeadlessAndroid.Lib.Lines
import HeadlessAndroid.EmuChunks

/-!
# HeadlessAndroid.EmuConsole — emuCommand against an emulator console

The client of `HeadlessAndroid.Emu` and a console at the two ends of a TCP connection.  The console
handles the lines it was sent in order, at any time, and prints an answer to each; what it printed
reaches the client in chunks cut anywhere.
-/

namespace HeadlessAndroid.Emu

open Lib Lib.Js

/-- The emulator has the token file, so that its console wants `auth` first. -/
structure EmuSetup extends EmuConfig where
  requireAuth : Bool

structure EmuWorld where
  client : EmuClient := {}
  /-- How much of what the client wrote the console has handled. -/
  read : ℕ := 0
  /-- The lines it has answered, in order, with whether the answer was OK. -/
  answers : List (Text × Bool) := []
  authed : Bool := false
  closed : Bool := false
  /-- What the console printed and the client did not get yet. -/
  toClient : Bytes

inductive EmuEvent where
  | answer (ok : Bool) (reply : Bytes)
  | hangUp
  | deliver (n : ℕ)
  | error (message : Text)
  | close
  | timeout

def ascii (t : String) : Bytes := t.toList.map fun c => UInt8.ofNat c.toNat

def lastLine (reply : Bytes) : Bytes := ((reply.splitOn 10).dropLast.getLast?).getD []

/-- Whole lines, the last of them an OK line or a KO line. -/
def replyShape (ok : Bool) (reply : Bytes) : Bool :=
  reply.getLast? == some 10 &&
    if ok then lastLine reply == ascii "OK" || lastLine reply == ascii "OK\r"
    else (ascii "KO").isPrefixOf (lastLine reply)

def nextLine (t : Text) : Option Text := if '\n' ∈ t then some (t.takeWhile (· ≠ '\n')) else none

def isAuthLine (line : Text) : Bool := "auth ".toList.isPrefixOf line

/-- What a console that wants authentication first may answer. -/
def mayAnswer (S : EmuSetup) (w : EmuWorld) (line : Text) (ok : Bool) : Bool :=
  !S.requireAuth || w.authed || isAuthLine line || !ok

def emuStep (S : EmuSetup) (w : EmuWorld) : EmuEvent → Option EmuWorld
  | .answer ok reply =>
    (nextLine (w.client.written.drop w.read)).bind fun line =>
      if !w.closed && replyShape ok reply && mayAnswer S w line ok then
        some { w with
          read := w.read + line.length + 1
          answers := w.answers ++ [(line, ok)]
          authed := w.authed || (ok && isAuthLine line)
          closed := line == "quit".toList
          toClient := w.toClient ++ reply }
      else none
  | .hangUp =>
    (nextLine (w.client.written.drop w.read)).bind fun line =>
      if !w.closed && line == "quit".toList then some { w with closed := true } else none
  | .deliver n =>
    if 0 < n ∧ n ≤ w.toClient.length ∧ w.client.done = false then
      some { w with
        client := onData S.toEmuConfig w.client (w.toClient.take n)
        toClient := w.toClient.drop n }
    else none
  | .error message =>
    if w.client.done = false then some { w with client := onError w.client message } else none
  | .close => some { w with client := onClose w.client }
  | .timeout => if w.client.timer then some { w with client := onTimeout w.client } else none

def emuSystem (S : EmuSetup) : StepSystem EmuWorld EmuEvent where
  step := emuStep S

/-- Connected; the banner is on its way. -/
def connected (banner : Bytes) : EmuWorld where
  toClient := banner

/-! ## What ok:true should mean -/

def authLines (S : EmuSetup) : List Text :=
  if S.token = [] then [] else ("auth ".toList ++ S.token).splitOn '\n'

/-- The command as the console gets it; one line unless `cmd` itself has line breaks. -/
def cmdLines (S : EmuSetup) : List Text := S.cmd.splitOn '\n'

/-- The console has answered the command with OK. -/
def cmdAnswered (S : EmuSetup) (w : EmuWorld) : Prop :=
  (cmdLines S).map (fun l => (l, true)) <+: w.answers.drop (authLines S).length

instance (S : EmuSetup) (w : EmuWorld) : Decidable (cmdAnswered S w) := by
  unfold cmdAnswered; infer_instance

/-- Success is reported only when the console had answered the command with OK. -/
def OkAnswered (S : EmuSetup) (w : EmuWorld) : Prop :=
  ∀ r, w.client.result = some r → r.ok = true → cmdAnswered S w

/-- Until the console has answered the command with OK, no chunk leaves a buffer that looks done
and, once the command was written, the connection is not closed. -/
def NotTooSoon (S : EmuSetup) (w : EmuWorld) : EmuEvent → Prop
  | .deliver n => looksDone (w.client.out ++ Utf8.decode (w.toClient.take n)) = true → cmdAnswered S w
  | .close => w.client.done = false → w.client.sentCmd = true → cmdAnswered S w
  | _ => True

/-! ## The invariant -/

structure EmuInv (w : EmuWorld) : Prop where
  /-- The command is written after an OK was seen. -/
  sent : w.client.sentCmd = true → includes w.client.out "OK".toList = true
  open_ : w.client.done = false → w.client.result = none

theorem emuInv_connected (banner : Bytes) : EmuInv (connected banner) where
  sent := by intro h; cases h
  open_ := fun _ => rfl

/-- What an event leaves of the client: nothing new, one more chunk, or a settlement. -/
theorem emuStep_cases {S : EmuSetup} {w w' : EmuWorld} {e : EmuEvent} (h : emuStep S w e = some w') :
    (w'.client = w.client ∧ (∃ more, w'.answers = w.answers ++ more) ∧ NotTooSoon S w e) ∨
    (w'.answers = w.answers ∧ ∃ n, e = .deliver n ∧ w.client.done = false ∧
      w'.client = onData S.toEmuConfig w.client (w.toClient.take n)) ∨
    (w'.answers = w.answers ∧ e = .close ∧ w'.client = onClose w.client) ∨
    (w'.answers = w.answers ∧
      (∃ err, w'.client = { w.client with timer := false }.finish false err) ∧ NotTooSoon S w e) := by
  cases e with
  | answer ok reply =>
    obtain ⟨line, -, h⟩ := Option.bind_eq_some_iff.mp h
    split_ifs at h
    cases h
    exact Or.inl ⟨rfl, ⟨_, rfl⟩, trivial⟩
  | hangUp =>
    obtain ⟨line, -, h⟩ := Option.bind_eq_some_iff.mp h
    split_ifs at h
    cases h
    exact Or.inl ⟨rfl, ⟨[], (List.append_nil _).symm⟩, trivial⟩
  | deliver n =>
    simp only [emuStep] at h
    split_ifs at h with hc
    cases h
    exact Or.inr (Or.inl ⟨rfl, n, rfl, hc.2.2, rfl⟩)
  | error m =>
    simp only [emuStep] at h
    split_ifs at h
    cases h
    exact Or.inr (Or.inr (Or.inr ⟨rfl, ⟨_, rfl⟩, trivial⟩))
  | close =>
    cases h
    exact Or.inr (Or.inr (Or.inl ⟨rfl, rfl, rfl⟩))
  | timeout =>
    simp only [emuStep] at h
    split_ifs at h
    cases h
    exact Or.inr (Or.inr (Or.inr ⟨rfl, ⟨_, rfl⟩, trivial⟩))

theorem EmuInv.finish {w w' : EmuWorld} (hI : EmuInv w) {ok : Bool} {err : Option Text}
    (hc : w'.client = { w.client with timer := false }.finish ok err) : EmuInv w' where
  sent := by rw [hc, finish_sentCmd, finish_out]; exact hI.sent
  open_ := by rw [hc, finish_done]; nofun

theorem emuInv_step {S : EmuSetup} {w w' : EmuWorld} {e : EmuEvent} (hI : EmuInv w)
    (h : emuStep S w e = some w') : EmuInv w' := by
  rcases emuStep_cases h with ⟨hc, -⟩ | ⟨-, n, -, hd, hc⟩ | ⟨-, -, hc⟩ | ⟨-, ⟨err, hc⟩, -⟩
  · exact ⟨by rw [hc]; exact hI.sent, by rw [hc]; exact hI.open_⟩
  · constructor
    · rw [hc, onData_sentCmd, onData_out]
      intro hs
      rcases Bool.or_eq_true_iff.mp hs with hs | hs
      · exact includes_append (hI.sent hs)
      · exact includes_ok_of_okCount (of_decide_eq_true hs)
    · rw [hc, onData_done _ hd, onData_result _ hd]
      intro hl
      simpa [hl] using hI.open_ hd
  · obtain ⟨err, hcl⟩ := onClose_eq w.client
    exact hI.finish (hc.trans hcl)
  · exact hI.finish hc

theorem cmdAnswered_mono {S : EmuSetup} {w w' : EmuWorld} {more : List (Text × Bool)}
    (h : w'.answers = w.answers ++ more) (ha : cmdAnswered S w) : cmdAnswered S w' := by
  unfold cmdAnswered at ha ⊢
  rw [h, List.drop_append]
  exact ha.trans (List.prefix_append _ _)

/-- **One event keeps `OkAnswered` just when it does not come too soon.** -/
theorem okAnswered_step {S : EmuSetup} {w w' : EmuWorld} {e : EmuEvent} (hI : EmuInv w)
    (hP : OkAnswered S w) (h : emuStep S w e = some w') : OkAnswered S w' ↔ NotTooSoon S w e := by
  rcases emuStep_cases h with ⟨hc, ⟨more, ha⟩, hC⟩ | ⟨ha, n, rfl, hd, hc⟩ | ⟨ha, rfl, hc⟩ |
    ⟨ha, ⟨err, hc⟩, hC⟩
  · -- the console handled a line: its answers only grow
    refine ⟨fun _ => hC, fun _ r hr hok => ?_⟩
    exact cmdAnswered_mono ha (hP r (hc ▸ hr) hok)
  · have hsame : cmdAnswered S w' ↔ cmdAnswered S w := by unfold cmdAnswered; rw [ha]
    unfold OkAnswered NotTooSoon
    rw [hc, onData_result _ hd, hI.open_ hd, hsame]
    by_cases hl : looksDone (w.client.out ++ Utf8.decode (w.toClient.take n)) = true
    · simp [hl]
    · simp [hl]
  · have hsame : cmdAnswered S w' ↔ cmdAnswered S w := by unfold cmdAnswered; rw [ha]
    obtain ⟨err, hcl⟩ := onClose_eq w.client
    unfold OkAnswered NotTooSoon
    rw [hc, hcl, finish_result, hsame]
    cases hd : w.client.done with
    | true =>
      -- settled before: `finish` does nothing
      simpa using fun r hr hok => hP r hr hok
    | false =>
      cases hs : w.client.sentCmd with
      | true =>
        rw [hI.sent hs]
        simp
      | false => simp
  · refine ⟨fun _ => hC, fun _ r hr hok => ?_⟩
    rw [hc, finish_result] at hr
    split at hr
    · have hsame : w'.answers = w.answers ++ [] := by rw [List.append_nil, ha]
      exact cmdAnswered_mono hsame (hP r hr hok)
    · cases hr
      cases hok

/-! ## What the console has handled -/

/-- The console has handled a part of what was written, line by line. -/
structure Handled (S : EmuSetup) (w : EmuWorld) : Prop where
  read_le : w.read ≤ w.client.written.length
  lines : w.client.written.take w.read = w.answers.flatMap fun a => a.1 ++ ['\n']
  auth : w.client.sentAuth = true → S.token ≠ []
  unsent : w.client.sentCmd = false →
    w.client.written = if w.client.sentAuth then authWrite S.toEmuConfig else []

theorem handled_connected (S : EmuSetup) (banner : Bytes) : Handled S (connected banner) where
  read_le := le_rfl
  lines := rfl
  auth := nofun
  unsent := fun _ => rfl

theorem Handled.of_client {S : EmuSetup} {w w' : EmuWorld} (hH : Handled S w)
    (hr : w'.read = w.read) (ha : w'.answers = w.answers)
    (hw : w'.client.written = w.client.written) (hsa : w'.client.sentAuth = w.client.sentAuth)
    (hsc : w'.client.sentCmd = w.client.sentCmd) : Handled S w' where
  read_le := by rw [hr, hw]; exact hH.read_le
  lines := by rw [hr, hw, ha]; exact hH.lines
  auth := by rw [hsa]; exact hH.auth
  unsent := by rw [hsc, hw, hsa]; exact hH.unsent

/-- The next line is what stands before the first line break of the unread part. -/
theorem nextLine_some {t line : Text} (h : nextLine t = some line) :
    ∃ rest, t = line ++ '\n' :: rest := by
  unfold nextLine at h
  split_ifs at h with hm
  cases h
  obtain ⟨a, b, rfl, ha⟩ := List.eq_append_cons_of_mem hm
  have hline : (a ++ '\n' :: b).takeWhile (· ≠ '\n') = a := by
    rw [List.takeWhile_append_of_pos]
    · simp
    · intro x hx
      have : x ≠ '\n' := fun e => ha (e ▸ hx)
      simpa using this
  exact ⟨b, by rw [hline]⟩

theorem not_mem_nextLine {t line : Text} (h : nextLine t = some line) : '\n' ∉ line := by
  unfold nextLine at h
  split_ifs at h
  cases h
  have hall : (t.takeWhile (· ≠ '\n')).all (· ≠ '\n') = true := List.all_takeWhile
  exact fun hm => by simpa using List.all_eq_true.mp hall _ hm

theorem handled_step {S : EmuSetup} {w w' : EmuWorld} {e : EmuEvent} (hH : Handled S w)
    (h : emuStep S w e = some w') : Handled S w' := by
  cases e with
  | answer ok reply =>
    obtain ⟨line, hl, h⟩ := Option.bind_eq_some_iff.mp h
    split_ifs at h
    cases h
    obtain ⟨rest, hrest⟩ := nextLine_some hl
    have hwr : w.client.written = w.client.written.take w.read ++ (line ++ '\n' :: rest) := by
      rw [← hrest, List.take_append_drop]
    have hlen : (w.client.written.take w.read).length = w.read := by
      rw [List.length_take, min_eq_left hH.read_le]
    refine ⟨?_, ?_, hH.auth, hH.unsent⟩
    · have := congrArg List.length hwr
      simp only [List.length_append, hlen, List.length_cons] at this
      show w.read + line.length + 1 ≤ w.client.written.length
      omega
    · show w.client.written.take (w.read + line.length + 1) = _
      have e : w.client.written =
          (w.client.written.take w.read ++ (line ++ ['\n'])) ++ rest := by
        rw [List.append_assoc, List.append_assoc]; exact hwr
      have hn : w.read + line.length + 1 =
          (w.client.written.take w.read ++ (line ++ ['\n'])).length := by
        simp only [List.length_append, hlen, List.length_singleton]; omega
      conv_lhs => rw [e, hn, List.take_left]
      rw [hH.lines, List.flatMap_append, List.flatMap_singleton]
  | hangUp =>
    obtain ⟨line, -, h⟩ := Option.bind_eq_some_iff.mp h
    split_ifs at h
    cases h
    exact hH.of_client rfl rfl rfl rfl rfl
  | deliver n =>
    simp only [emuStep] at h
    split_ifs at h
    cases h
    have hwr := onData_written S.toEmuConfig w.client (w.toClient.take n)
    rw [List.append_assoc] at hwr
    refine ⟨?_, ?_, fun hs => ?_, fun hs => ?_⟩
    · show w.read ≤ (onData S.toEmuConfig w.client (w.toClient.take n)).written.length
      rw [hwr, List.length_append]
      exact Nat.le_add_right_of_le hH.read_le
    · show (onData S.toEmuConfig w.client (w.toClient.take n)).written.take w.read = _
      rw [hwr, List.take_append_of_le_length hH.read_le]
      exact hH.lines
    · rcases onData_sentAuth _ _ _ hs with h1 | h1
      · exact hH.auth h1
      · exact h1
    · have hs' : (onData S.toEmuConfig w.client (w.toClient.take n)).sentCmd = false := hs
      have hs0 : w.client.sentCmd = false := by
        rw [onData_sentCmd] at hs'
        exact (Bool.or_eq_false_iff.mp hs').1
      have hun := hH.unsent hs0
      have hk := onData_keeps_sentAuth S.toEmuConfig w.client (w.toClient.take n)
      simp only [hs', Bool.false_and, Bool.false_eq_true, if_false, List.append_nil] at hwr
      show (onData S.toEmuConfig w.client (w.toClient.take n)).written = if
        (onData S.toEmuConfig w.client (w.toClient.take n)).sentAuth then _ else _
      rw [hwr, hun]
      cases h0 : w.client.sentAuth with
      | true => simp [hk h0]
      | false => simp
  | error m =>
    simp only [emuStep] at h
    split_ifs at h
    cases h
    exact hH.of_client rfl rfl (by simp [onError]) (by simp [onError]) (by simp [onError])
  | close =>
    cases h
    obtain ⟨err, hcl⟩ := onClose_eq w.client
    exact hH.of_client rfl rfl (by simp [hcl]) (by simp [hcl]) (by simp [hcl])
  | timeout =>
    simp only [emuStep] at h
    split_ifs at h
    cases h
    exact hH.of_client rfl rfl (by simp [onTimeout]) (by simp [onTimeout]) (by simp [onTimeout])

/-! ## A console that greets and refuses nothing -/

/-- What a console and its connection do that keep `emuCommand` right: the greeting is in the first
chunk, every line is answered with OK, and the connection ends only by the console's closing it. -/
def Willing (w : EmuWorld) : EmuEvent → Prop
  | .answer ok _ => ok = true
  | .deliver n =>
    w.client.out = [] → includes (Utf8.decode (w.toClient.take n)) "Hello".toList = true
  | .close => w.client.done = false → w.closed = true
  | _ => True

instance (w : EmuWorld) (e : EmuEvent) : Decidable (Willing w e) := by
  cases e <;> (unfold Willing; infer_instance)

/-- What holds while the console is willing. -/
structure Served (S : EmuSetup) (w : EmuWorld) : Prop where
  handled : Handled S w
  client : w.client.done = false → ClientInv S.toEmuConfig w.client
  greeted : w.client.out ≠ [] → includes w.client.out "Hello".toList = true
  answered : ∀ a ∈ w.answers, '\n' ∉ a.1 ∧ a.2 = true
  /-- It closes at a quit line, all before it answered. -/
  quit : w.closed = true → ∃ as, as <+: w.answers ∧
    (as.flatMap fun a => a.1 ++ ['\n']) ++ "quit\n".toList <+: w.client.written

theorem served_connected (S : EmuSetup) (banner : Bytes) : Served S (connected banner) where
  handled := handled_connected S banner
  client := fun _ => clientInv_init S.toEmuConfig
  greeted := fun h => absurd rfl h
  answered := fun _ h => absurd h List.not_mem_nil
  quit := fun h => by cases h

theorem Served.of_client {S : EmuSetup} {w w' : EmuWorld} (hS : Served S w) (hH : Handled S w')
    (hd : w'.client.done = true) (ho : w'.client.out = w.client.out)
    (ha : w'.answers = w.answers) (hc : w'.closed = w.closed)
    (hw : w'.client.written = w.client.written) : Served S w' where
  handled := hH
  client := fun h => by rw [hd] at h; cases h
  greeted := by rw [ho]; exact hS.greeted
  answered := by rw [ha]; exact hS.answered
  quit := by rw [hc, ha, hw]; exact hS.quit

/-- The next line is a line of what was written, after those that were answered. -/
theorem Handled.next {S : EmuSetup} {w : EmuWorld} (hH : Handled S w) {line : Text}
    (h : nextLine (w.client.written.drop w.read) = some line) :
    (w.answers.flatMap fun a => a.1 ++ ['\n']) ++ (line ++ ['\n']) <+: w.client.written := by
  obtain ⟨rest, hrest⟩ := nextLine_some h
  refine ⟨rest, ?_⟩
  rw [← hH.lines, List.append_assoc, List.append_assoc, List.singleton_append, ← hrest,
    List.take_append_drop]

theorem served_step {S : EmuSetup} {w w' : EmuWorld} {e : EmuEvent} (hS : Served S w)
    (hC : Willing w e) (h : emuStep S w e = some w') : Served S w' := by
  have hH := handled_step hS.handled h
  cases e with
  | answer ok reply =>
    obtain ⟨line, hl, h⟩ := Option.bind_eq_some_iff.mp h
    split_ifs at h
    cases h
    refine ⟨hH, hS.client, hS.greeted, fun a ha => ?_, fun hq => ?_⟩
    · rcases List.mem_append.mp ha with ha | ha
      · exact hS.answered a ha
      · rw [List.mem_singleton.mp ha]
        exact ⟨not_mem_nextLine hl, hC⟩
    · have hnext := hS.handled.next hl
      rw [beq_iff_eq.mp hq] at hnext
      exact ⟨w.answers, List.prefix_append _ _, hnext⟩
  | hangUp =>
    obtain ⟨line, hl, h⟩ := Option.bind_eq_some_iff.mp h
    split_ifs at h with hg
    cases h
    refine ⟨hH, hS.client, hS.greeted, hS.answered, fun _ => ?_⟩
    have hnext := hS.handled.next hl
    rw [beq_iff_eq.mp (Bool.and_eq_true_iff.mp hg).2] at hnext
    exact ⟨w.answers, List.prefix_rfl, hnext⟩
  | deliver n =>
    simp only [emuStep] at h
    split_ifs at h with hc
    cases h
    refine ⟨hH, fun _ => clientInv_onData (hS.client hc.2.2) hc.2.2 _, fun _ => ?_, hS.answered,
      fun hq => ?_⟩
    · dsimp only
      rw [onData_out]
      by_cases ho : w.client.out = []
      · rw [ho, List.nil_append]
        exact hC ho
      · exact includes_append (hS.greeted ho)
    · obtain ⟨as, has, hpre⟩ := hS.quit hq
      refine ⟨as, has, hpre.trans ?_⟩
      dsimp only
      rw [onData_written, List.append_assoc]
      exact List.prefix_append _ _
  | error m =>
    simp only [emuStep] at h
    split_ifs at h
    cases h
    exact hS.of_client hH (by simp [onError]) (by simp [onError]) rfl rfl (by simp [onError])
  | close =>
    cases h
    obtain ⟨err, hcl⟩ := onClose_eq w.client
    exact hS.of_client hH (by simp [hcl]) (by simp [hcl]) rfl rfl (by simp [hcl])
  | timeout =>
    simp only [emuStep] at h
    split_ifs at h
    cases h
    exact hS.of_client hH (by simp [onTimeout]) (by simp [onTimeout]) rfl rfl (by simp [onTimeout])

/-- The lines of what `emuCommand` writes. -/
theorem ClientInv.splitOn_written {S : EmuSetup} {c : EmuClient} (hI : ClientInv S.toEmuConfig c)
    (hs : c.sentCmd = true) :
    c.written.splitOn '\n' = authLines S ++ cmdLines S ++ ["quit".toList, []] := by
  have hcmd : (cmdWrite S.toEmuConfig).splitOn '\n' = cmdLines S ++ ["quit".toList, []] := by
    have hwrite : cmdWrite S.toEmuConfig = S.cmd ++ '\n' :: ("quit".toList ++ ['\n']) := rfl
    rw [hwrite, List.splitOn_append_cons_self]
    rfl
  rw [hI.written, hI.auth, hI.cmd hs, hs, if_pos rfl]
  unfold authLines
  by_cases htoken : S.token = []
  · simp [htoken, hcmd]
  · have hauth : authWrite S.toEmuConfig = ("auth ".toList ++ S.token) ++ ['\n'] := rfl
    rw [if_pos (by simp [htoken]), if_neg htoken, hauth, List.append_assoc, List.singleton_append,
      List.splitOn_append_cons_self, hcmd, List.append_assoc]

theorem splitOn_answered : ∀ {as : List (Text × Bool)} (t : Text), (∀ a ∈ as, '\n' ∉ a.1) →
    ((as.flatMap fun a => a.1 ++ ['\n']) ++ t).splitOn '\n' = as.map Prod.fst ++ t.splitOn '\n'
  | [], _, _ => rfl
  | a :: as, t, h => by
    rw [List.flatMap_cons, List.append_assoc, List.append_assoc, List.singleton_append,
      List.splitOn_append_cons_self_of_not_mem (h a List.mem_cons_self),
      splitOn_answered t fun b hb => h b (List.mem_cons_of_mem _ hb)]
    rfl

/-- What is written by the first `quit` has the lines of the command before it. -/
theorem Served.cmdAnswered {S : EmuSetup} {w : EmuWorld} (hS : Served S w)
    (hquit : "quit".toList ∉ authLines S ++ cmdLines S) (hd : w.client.done = false)
    (hs : w.client.sentCmd = true) (hc : w.closed = true) : cmdAnswered S w := by
  obtain ⟨as, hpre, rest, hrest⟩ := hS.quit hc
  have hlines := (hS.client hd).splitOn_written hs
  have hq : "quit\n".toList ++ rest = "quit".toList ++ '\n' :: rest := rfl
  rw [← hrest, List.append_assoc, hq, splitOn_answered _ fun a ha =>
    (hS.answered a (hpre.subset ha)).1, List.splitOn_append_cons_self_of_not_mem (by decide)] at hlines
  -- what stands before the first `quit` begins with what stands before the last one
  have hcmds : authLines S ++ cmdLines S <+: as.map Prod.fst := by
    rcases List.append_eq_append_iff.mp hlines with ⟨t, ht, hmid⟩ | ⟨t, ht, -⟩
    · cases t with
      | nil => rw [ht, List.append_nil]
      | cons x t =>
        obtain ⟨rfl, -⟩ := List.cons.inj hmid
        exact absurd (by rw [ht]; simp) hquit
    · exact ⟨t, ht.symm⟩
  obtain ⟨more, hmore⟩ := hcmds.trans (hpre.map Prod.fst)
  have hall : w.answers = (authLines S ++ cmdLines S ++ more).map fun l => (l, true) := by
    rw [hmore, List.map_map]
    conv_lhs => rw [← List.map_id w.answers]
    exact List.map_congr_left fun a ha => Prod.ext rfl (hS.answered a ha).2
  unfold Emu.cmdAnswered
  rw [hall, List.append_assoc, List.map_append, List.drop_left' (List.length_map _), List.map_append]
  exact List.prefix_append _ _

/-- While the console is willing, nothing comes too soon. -/
theorem Served.notTooSoon {S : EmuSetup} {w w' : EmuWorld} {e : EmuEvent} (hS : Served S w)
    (hquit : "quit".toList ∉ authLines S ++ cmdLines S) (hC : Willing w e)
    (h : emuStep S w e = some w') : NotTooSoon S w e := by
  cases e with
  | deliver n =>
    intro hl
    have hgreeted := (served_step hS hC h).greeted
    simp only [emuStep] at h
    split_ifs at h
    cases h
    dsimp only at hgreeted
    rw [onData_out] at hgreeted
    unfold looksDone at hl
    obtain ⟨hno, hends⟩ := Bool.and_eq_true_iff.mp hl
    rw [hgreeted (by rintro ho; rw [ho] at hends; cases hends)] at hno
    cases hno
  | close => exact fun hd hs => hS.cmdAnswered hquit hd hs (hC hd)
  | _ => trivial

/-- **emuCommand against a console.**  In every run, whatever the console prints and answers and
however its output is cut and delayed: ok:true always means that the console had answered the
command with OK, just when no event of the run comes too soon; and none does where the console greets
in the first chunk, refuses nothing and is the one that closes. -/
theorem ok_answered_iff (S : EmuSetup) (banner : Bytes) (evs : List EmuEvent) :
    ((emuSystem S).Always (OkAnswered S) (connected banner) evs ↔
      (emuSystem S).EachStep (NotTooSoon S) (connected banner) evs) ∧
    ("quit".toList ∉ authLines S ++ cmdLines S →
      (emuSystem S).EachStep Willing (connected banner) evs →
      (emuSystem S).Always (OkAnswered S) (connected banner) evs) := by
  have hnone : OkAnswered S (connected banner) := fun r hr => by cases hr
  constructor
  · exact StepSystem.always_iff_eachStep (fun _ _ _ hI h => emuInv_step hI h)
      (fun _ _ _ hI hP h => okAnswered_step hI hP h) (emuInv_connected banner) hnone
  · intro hquit hC
    have hall : (emuSystem S).Always (fun w => (Served S w ∧ EmuInv w) ∧ OkAnswered S w)
        (connected banner) evs := by
      refine StepSystem.always_of_inv ?_
        ⟨⟨served_connected S banner, emuInv_connected banner⟩, hnone⟩ hC
      intro w e w' ⟨⟨hS, hI⟩, hP⟩ hC h
      exact ⟨⟨served_step hS hC h, emuInv_step hI h⟩,
        (okAnswered_step hI hP h).mpr (hS.notTooSoon hquit hC h)⟩
    exact hall.mono fun _ h => h.2

def authBanner : Bytes := ascii "Android Console: Authentication required\r\nOK\r\n"

def geoSetup : EmuSetup where
  token := "secret".toList
  cmd := "geo fix 8.5 47.4".toList
  requireAuth := true

/-- The whole banner as the first chunk. -/
theorem emuStep_banner (S : EmuSetup) {banner : Bytes} (hb : banner ≠ []) :
    emuStep S (connected banner) (.deliver banner.length) =
      some { client := onData S.toEmuConfig {} banner, toClient := [] } := by
  have hpos : 0 < banner.length := List.length_pos_iff.mpr hb
  simp [emuStep, connected, hpos]

/-- The banner of a console that wants a token arrives in one chunk, and emuCommand reports success
for a command that the console has not even received. -/
theorem ok_on_banner :
    replyShape true authBanner = true ∧
      ¬ (emuSystem geoSetup).Always (OkAnswered geoSetup) (connected authBanner)
        [.deliver authBanner.length] := by
  refine ⟨by decide +kernel, fun h => ?_⟩
  have hdone : looksDone ([] ++ Utf8.decode authBanner) = true := by decide +kernel
  have hne : authBanner ≠ [] := by decide +kernel
  have hok := h.2 _ (emuStep_banner geoSetup hne)
  have hres := onData_result geoSetup.toEmuConfig (c := {}) rfl authBanner
  rw [if_pos hdone] at hres
  have hans : cmdAnswered geoSetup
      { client := onData geoSetup.toEmuConfig {} authBanner, toClient := [] } := hok _ hres rfl
  exact absurd hans (by decide +kernel)

def helloBanner : Bytes := ascii "Hello\r\nOK\r\n"

/-- The greeting and OK come first; the console answers the command, and closes after quit. -/
def helloRun : List EmuEvent :=
  [.deliver helloBanner.length, .answer true (ascii "OK\r\n"), .hangUp, .deliver 2, .deliver 2, .close]

/-- A willing console gets the command, and success is reported. -/
theorem ok_answered_iff_greeted : ∃ w, (emuSystem ⟨⟨[], "geo fix 8 47".toList⟩, false⟩).run
      (connected helloBanner) helloRun = some w ∧ w.client.result.map EmuResult.ok = some true ∧
    cmdAnswered ⟨⟨[], "geo fix 8 47".toList⟩, false⟩ w := by
  obtain ⟨w, hrun, hres⟩ : ∃ w, (emuSystem ⟨⟨[], "geo fix 8 47".toList⟩, false⟩).run
      (connected helloBanner) helloRun = some w ∧ w.client.result.map EmuResult.ok = some true :=
    ⟨_, rfl, by decide +kernel⟩
  have hall := (ok_answered_iff ⟨⟨[], "geo fix 8 47".toList⟩, false⟩ helloBanner helloRun).2
    (by decide +kernel) (by decide +kernel)
  obtain ⟨r, hr, hok⟩ := Option.map_eq_some_iff.mp hres
  exact ⟨w, hrun, hres, hall.last hrun r hr hok⟩

/-! ## A success that comes with the command -/

/-- Each answered line is a line break of what was written. -/
theorem Handled.length_answers_le {S : EmuSetup} {w : EmuWorld} (hH : Handled S w) :
    w.answers.length ≤ w.client.written.count '\n' := by
  have h1 : ∀ as : List (Text × Bool),
      as.length ≤ (as.flatMap fun a => a.1 ++ ['\n']).count '\n' := by
    intro as
    induction as with
    | nil => simp
    | cons a as ih =>
      rw [List.flatMap_cons, List.count_append, List.count_append, List.length_cons]
      simp only [List.count_singleton_self]
      omega
  refine (h1 w.answers).trans ?_
  rw [← hH.lines]
  exact (List.take_sublist _ _).count_le _

/-- The console cannot have answered a command that was not written. -/
theorem not_cmdAnswered_of_unsent {S : EmuSetup} {w : EmuWorld} (hH : Handled S w)
    (hs : w.client.sentCmd = false) : ¬ cmdAnswered S w := by
  have hcount : w.client.written.count '\n' ≤ (authLines S).length := by
    rw [hH.unsent hs]
    unfold authLines
    cases ha : w.client.sentAuth with
    | false =>
      rw [if_neg Bool.false_ne_true]
      exact Nat.zero_le _
    | true =>
      have hauth : authWrite S.toEmuConfig = ("auth ".toList ++ S.token) ++ ['\n'] := rfl
      rw [if_neg (hH.auth ha), length_splitOn, if_pos rfl, hauth, List.count_append]
      simp only [List.count_singleton_self, le_refl]
  have hdrop : w.answers.drop (authLines S).length = [] :=
    List.drop_eq_nil_of_le (hH.length_answers_le.trans hcount)
  intro hc
  unfold cmdAnswered at hc
  rw [hdrop, List.prefix_nil, List.map_eq_nil_iff] at hc
  exact List.splitOn_ne_nil _ _ hc

/-- **A success that comes with the command.**  Where the chunk on which the command is written
also settles the promise, as the last chunk of a banner without `Hello` does, the console has not
answered the command, whatever console it is. -/
theorem ok_with_command_premature {S : EmuSetup} {banner : Bytes} {evs : List EmuEvent}
    {w w' : EmuWorld} {n : ℕ} {r : EmuResult}
    (hrun : (emuSystem S).run (connected banner) evs = some w) (hs : w.client.sentCmd = false)
    (h : emuStep S w (.deliver n) = some w') (hr : w'.client.result = some r) :
    r.ok = true ∧ ¬ cmdAnswered S w' := by
  have hH : Handled S w :=
    StepSystem.run_inv (I := Handled S) (fun _ _ _ hI h => handled_step hI h) (handled_connected S banner) hrun
  have hI : EmuInv w :=
    StepSystem.run_inv (I := EmuInv) (fun _ _ _ hI h => emuInv_step hI h) (emuInv_connected banner) hrun
  have hno := not_cmdAnswered_of_unsent hH hs
  simp only [emuStep] at h
  split_ifs at h with hc
  cases h
  refine ⟨?_, hno⟩
  have hres := onData_result S.toEmuConfig hc.2.2 (w.toClient.take n)
  rw [hI.open_ hc.2.2] at hres
  have hr' : (onData S.toEmuConfig w.client (w.toClient.take n)).result = some r := hr
  rw [hr'] at hres
  split_ifs at hres
  cases hres
  rfl

end HeadlessAndroid.Emu
