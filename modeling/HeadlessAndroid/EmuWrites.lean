import HeadlessAndroid.EmuChunks
import HeadlessAndroid.Lib.StepSystem

/-!
# HeadlessAndroid.EmuWrites — what emuCommand writes to its socket, and when

No variable of `emuCommand` says how far it has got.  That it writes auth and the command once each,
in this order and after an OK of the console, comes from its two flags, the guard of `finish` and the
two tests on the buffer, of which one holds where the other does.
-/

namespace HeadlessAndroid.Emu

open Lib Lib.Js Lib.Utf8

inductive SocketEvent where
  | data (d : Bytes)
  | error (message : Text)
  | close
  | timeout

/-- `finish` destroys the socket, and a destroyed socket delivers no more data. -/
def socketStep (cfg : EmuConfig) (c : EmuClient) : SocketEvent → Option EmuClient
  | .data d => if c.done then none else some (onData cfg c d)
  | .error message => some (onError c message)
  | .close => some (onClose c)
  | .timeout => if c.timer then some (onTimeout c) else none

def socket (cfg : EmuConfig) : StepSystem EmuClient SocketEvent where
  step := socketStep cfg

/-- The chunks among the events. -/
def chunks (evs : List SocketEvent) : List Bytes :=
  evs.filterMap fun
    | .data d => some d
    | _ => none

/-- The writes of `emuCommand`, in their order. -/
def writes (cfg : EmuConfig) : List Text :=
  (if cfg.token = [] then [] else [authWrite cfg]) ++ [cmdWrite cfg]

/-- What is known of the socket after the events. -/
structure Disciplined (cfg : EmuConfig) (evs : List SocketEvent) (c : EmuClient) : Prop where
  /-- Some first writes have been made, each of them once. -/
  inOrder : ∃ ws, ws <+: writes cfg ∧ c.written = ws.flatten
  afterOk : c.written ≠ [] → asciiBytes "OK".toList <:+: (chunks evs).flatten

/-! ## Before and after the settlement -/

theorem ClientInv.writes {cfg : EmuConfig} {c : EmuClient} (hI : ClientInv cfg c) :
    ∃ ws, ws <+: writes cfg ∧ c.written = ws.flatten := by
  unfold Emu.writes
  cases hcmd : c.sentCmd with
  | true =>
    -- the command is sent at an OK line, and auth was sent at its OK
    refine ⟨_, List.prefix_rfl, ?_⟩
    rw [hI.written, hI.auth, hI.cmd hcmd, hcmd]
    by_cases htoken : cfg.token = []
    · simp [htoken]
    · simp [htoken]
  | false =>
    cases hauth : c.sentAuth with
    | true =>
      have htoken : cfg.token ≠ [] := by
        rw [hI.auth] at hauth
        simpa using (Bool.and_eq_true_iff.mp hauth).2
      rw [if_neg htoken]
      refine ⟨[authWrite cfg], List.prefix_append _ _, ?_⟩
      rw [hI.written, hauth, hcmd]
      simp
    | false =>
      refine ⟨[], List.nil_prefix, ?_⟩
      rw [hI.written, hauth, hcmd]
      rfl

theorem ClientInv.includes_ok {cfg : EmuConfig} {c : EmuClient} (hI : ClientInv cfg c)
    (h : c.written ≠ []) : includes c.out "OK".toList = true := by
  by_contra hno
  have hcmd : c.sentCmd = false := Bool.eq_false_of_not_eq_true fun hs => hno (hI.cmd hs)
  have hauth : c.sentAuth = false := by
    rw [hI.auth, Bool.eq_false_of_not_eq_true hno]
    rfl
  rw [hI.written, hauth, hcmd] at h
  exact h rfl

/-- What holds after the events; the invariant of the handlers holds up to the settlement. -/
structure SocketHistory (cfg : EmuConfig) (evs : List SocketEvent) (c : EmuClient) : Prop where
  out : c.out = (chunks evs).flatMap decode
  inOrder : ∃ ws, ws <+: writes cfg ∧ c.written = ws.flatten
  afterOk : c.written ≠ [] → includes c.out "OK".toList = true
  settled : c.done = c.result.isSome
  unsettled : c.done = false → ClientInv cfg c

theorem socketHistory_nil (cfg : EmuConfig) : SocketHistory cfg [] {} where
  out := rfl
  inOrder := ⟨[], List.nil_prefix, rfl⟩
  afterOk := fun h => absurd rfl h
  settled := rfl
  unsettled := fun _ => clientInv_init cfg

/-- A chunk that comes before the settlement. -/
theorem socketHistory_data {cfg : EmuConfig} {evs : List SocketEvent} {c : EmuClient}
    (hH : SocketHistory cfg evs c) (hd : c.done = false) (d : Bytes) :
    SocketHistory cfg (evs ++ [.data d]) (onData cfg c d) := by
  have hI : ClientInv cfg (onData cfg c d) := clientInv_onData (hH.unsettled hd) hd d
  refine ⟨?_, hI.writes, hI.includes_ok, ?_, fun _ => hI⟩
  · rw [onData_out, hH.out]
    simp [chunks]
  · cases hdone : (onData cfg c d).done with
    | true =>
      obtain ⟨r, hr, -⟩ := Option.map_eq_some_iff.mp (hI.settled hdone).1
      rw [hr]
      rfl
    | false =>
      rw [hI.open_ hdone]
      rfl

/-- An event that settles the promise, or comes after the settlement. -/
theorem socketHistory_finish {cfg : EmuConfig} {evs : List SocketEvent} {c : EmuClient}
    (hH : SocketHistory cfg evs c) (ok : Bool) (err : Option Text) {e : SocketEvent}
    (he : chunks [e] = []) :
    SocketHistory cfg (evs ++ [e]) ({ c with timer := false }.finish ok err) := by
  refine ⟨?_, ?_, ?_, ?_, ?_⟩
  · rw [finish_out, show chunks (evs ++ [e]) = chunks evs ++ chunks [e] from List.filterMap_append ..,
      he, List.append_nil]
    exact hH.out
  · rw [finish_written]
    exact hH.inOrder
  · rw [finish_written, finish_out]
    exact hH.afterOk
  · rw [finish_done, finish_result]
    show true = (if c.done then c.result else some _).isSome
    cases hd : c.done with
    | true => exact hd.symm.trans hH.settled
    | false => rfl
  · rw [finish_done]
    intro h
    cases h

theorem socketHistory_step {cfg : EmuConfig} {evs : List SocketEvent} {c c' : EmuClient}
    {e : SocketEvent} (hH : SocketHistory cfg evs c) (h : socketStep cfg c e = some c') :
    SocketHistory cfg (evs ++ [e]) c' := by
  cases e with
  | data d =>
    obtain ⟨hd, h⟩ := Option.ite_none_left_eq_some.mp h
    cases h
    exact socketHistory_data hH (Bool.eq_false_of_not_eq_true hd) d
  | error message =>
    cases h
    exact socketHistory_finish hH _ _ rfl
  | close =>
    cases h
    obtain ⟨err, hclose⟩ := onClose_eq c
    rw [hclose]
    exact socketHistory_finish hH _ _ rfl
  | timeout =>
    obtain ⟨-, h⟩ := Option.ite_none_right_eq_some.mp h
    cases h
    exact socketHistory_finish hH _ _ rfl

/-- After the settlement nothing is written and the result stays. -/
theorem socketStep_settled {cfg : EmuConfig} {c c' : EmuClient} {e : SocketEvent}
    (hd : c.done = true) (h : socketStep cfg c e = some c') :
    c'.done = true ∧ c'.written = c.written ∧ c'.result = c.result := by
  have hfinish : ∀ ok err, ({ c with timer := false }.finish ok err).done = true ∧
      ({ c with timer := false }.finish ok err).written = c.written ∧
      ({ c with timer := false }.finish ok err).result = c.result := by
    intro ok err
    refine ⟨finish_done _ _ _, finish_written _ _ _, ?_⟩
    rw [finish_result]
    exact if_pos hd
  cases e with
  | data d =>
    obtain ⟨hno, -⟩ := Option.ite_none_left_eq_some.mp h
    exact absurd hd hno
  | error message =>
    cases h
    exact hfinish _ _
  | close =>
    cases h
    obtain ⟨err, hclose⟩ := onClose_eq c
    rw [hclose]
    exact hfinish _ _
  | timeout =>
    obtain ⟨-, h⟩ := Option.ite_none_right_eq_some.mp h
    cases h
    exact hfinish _ _

/-- **The writes of `emuCommand`.**  After any events: some first writes have been made, each once, and
none before the console has sent OK; and whatever comes once the promise is settled, nothing more is
written and the promise keeps its result. -/
theorem writes_disciplined {cfg : EmuConfig} {evs fs : List SocketEvent} {c c' : EmuClient}
    (h : (socket cfg).run {} evs = some c) (h' : (socket cfg).run c fs = some c') :
    Disciplined cfg evs c ∧
      (c.result ≠ none → c'.written = c.written ∧ c'.result = c.result) := by
  have hH : SocketHistory cfg evs c :=
    StepSystem.run_history (socketHistory_nil cfg) (fun _ _ _ _ => socketHistory_step) h
  refine ⟨⟨hH.inOrder, fun hw => ?_⟩, fun hr => ?_⟩
  · have hrend : Renders (chunks evs).flatten c.out := hH.out ▸ renders_flatMap (chunks evs)
    obtain ⟨u, v, huv⟩ := includes_iff.mp (hH.afterOk hw)
    rw [← huv] at hrend
    obtain ⟨as, bs, hbytes, -, -⟩ := Renders.split_infix (ascii_of_all (by decide)) hrend
    exact ⟨as, bs, hbytes.symm⟩
  · have hd : c.done = true := by
      rw [hH.settled]
      exact Option.isSome_iff_ne_none.mpr hr
    have hend : c'.done = true ∧ c'.written = c.written ∧ c'.result = c.result := by
      refine StepSystem.run_inv (M := socket cfg)
        (I := fun s => s.done = true ∧ s.written = c.written ∧ s.result = c.result) ?_
        ⟨hd, rfl, rfl⟩ h'
      intro s e s' ⟨hd, hw, hres⟩ hs
      obtain ⟨hd', hw', hres'⟩ := socketStep_settled hd hs
      exact ⟨hd', hw'.trans hw, hres'.trans hres⟩
    exact hend.2

/-- A console that wants a token. -/
def withToken : EmuConfig := ⟨"token".toList, "geo fix 8 47".toList⟩

def okBanner : Bytes := asciiBytes "\nOK\n".toList

/-- The banner settles the promise; the console closes. -/
theorem writes_disciplined_banner :
    Disciplined withToken [.data okBanner] (onData withToken {} okBanner) ∧
      ((onData withToken {} okBanner).result ≠ none →
        (onClose (onData withToken {} okBanner)).written = (onData withToken {} okBanner).written ∧
          (onClose (onData withToken {} okBanner)).result =
            (onData withToken {} okBanner).result) := by
  have h : (socket withToken).run {} [.data okBanner] = some (onData withToken {} okBanner) := rfl
  have h' : (socket withToken).run (onData withToken {} okBanner) [.close] =
      some (onClose (onData withToken {} okBanner)) := rfl
  exact writes_disciplined h h'

end HeadlessAndroid.Emu
