import HeadlessAndroid.Lib.StepSystem
import HeadlessAndroid.Adb
import Mathlib.Data.List.DropRight

/-!
# HeadlessAndroid.Apply — reboot, poll, grant

The loop that `POST /api/scope/apply` and `scope.sh apply` run after their reboot command, beside a
device that goes down and comes back when it does.  The value that the loop polls for is also what
the session that is about to go down answers.
-/

namespace HeadlessAndroid.Apply

open Lib Lib.Js

/-- The boot session at the click, the time between, and the next session. -/
inductive Phase where
  | running
  | down
  | booting
  | booted
  deriving DecidableEq

/-- The session that follows the reboot. -/
def Phase.isNew : Phase → Bool
  | .booting => true
  | .booted => true
  | _ => false

/-- `getprop sys.boot_completed` prints 1. -/
def Phase.completed : Phase → Bool
  | .running => true
  | .booted => true
  | _ => false

/-- Who runs the loop. -/
inductive Front where
  /-- `POST /api/scope/apply`. -/
  | server
  /-- `scope.sh apply`. -/
  | script

def Front.polls : Front → ℕ
  | .server => 60
  | .script => 120

/-- The script goes on to its grant when no poll was answered. -/
def Front.grantsAnyway : Front → Bool
  | .server => false
  | .script => true

/-- The test on a poll: `r.ok && r.stdout.trim() === "1"`, and the script's on what is left of its
output without carriage returns. -/
def Front.saysBooted : Front → AdbResult → Bool
  | .server, r => r.ok && trim r.stdout == ['1']
  | .script, r => (r.stdout.filter (· ≠ '\r')).rdropWhile (· = '\n') == ['1']

/-- Where the loop is. -/
inductive Pc where
  | polling (left : ℕ)
  /-- Before `adb root`. -/
  | rooting
  /-- Before `cmd appops set ... allow`. -/
  | granting
  | ended
  deriving DecidableEq

structure World where
  phase : Phase
  /-- adbd is restarting. -/
  restarting : Bool
  /-- The running session has `mock_location` allowed for the module. -/
  allowed : Bool
  pc : Pc
  /-- A poll was answered as booted. -/
  answered : Bool

inductive Event where
  | goDown
  | boot
  | bootDone
  | adbdReady
  | poll (r : AdbResult)
  /-- `adb root`, which restarts adbd or does not. -/
  | root (restarts : Bool)
  /-- The grant, which works or fails. -/
  | grant (works : Bool)

/-- What may become of the grant: it fails on a device that is down and may fail on one that is
booting or whose adbd restarts. -/
def mayEnd (w : World) (works : Bool) : Bool :=
  if works then w.phase ≠ .down else w.restarting || !w.phase.completed

def step (f : Front) (w : World) : Event → Option World
  | .goDown =>
    if w.phase = .running then some { w with phase := .down, restarting := false, allowed := false }
    else none
  | .boot => if w.phase = .down then some { w with phase := .booting } else none
  | .bootDone => if w.phase = .booting then some { w with phase := .booted } else none
  | .adbdReady => some { w with restarting := false }
  | .poll r =>
    match w.pc with
    | .polling (left + 1) =>
      if f.saysBooted r then
        if w.phase.completed then some { w with pc := .rooting, answered := true } else none
      else some { w with
        pc := if left = 0 then (if f.grantsAnyway then .rooting else .ended) else .polling left }
    | _ => none
  | .root restarts =>
    if w.pc = .rooting then some { w with pc := .granting, restarting := w.restarting || restarts }
    else none
  | .grant works =>
    if w.pc = .granting ∧ mayEnd w works then
      some { w with pc := .ended, allowed := w.allowed || works }
    else none

def applySystem (f : Front) : StepSystem World Event where
  step := step f

/-- The reboot command has returned; the device is still up. -/
def rebooting (f : Front) (allowed : Bool) : World where
  phase := .running
  restarting := false
  allowed := allowed
  pc := .polling f.polls
  answered := false

/-- Once a loop that had its poll answered has ended, the session after the reboot has
`mock_location` allowed. -/
def Granted (w : World) : Prop :=
  w.pc = .ended → w.answered = true → w.phase.isNew = true → w.allowed = true

/-- The device comes back before the loop has ended, and a grant that it is sent after that does not
fail. -/
def InTime (w : World) : Event → Prop
  | .boot => w.pc = .ended → w.answered = false
  | .grant works => w.answered = true → w.phase.isNew = true → works = true
  | _ => True

structure Inv (w : World) : Prop where
  /-- Once the old session is over, nothing is allowed before the loop's grant. -/
  lost : w.phase ≠ .running → w.pc ≠ .ended ∨ w.phase = .down → w.allowed = false
  unanswered : ∀ left, w.pc = .polling left → w.answered = false

theorem inv_rebooting (f : Front) (allowed : Bool) : Inv (rebooting f allowed) where
  lost := fun h => absurd rfl h
  unanswered := fun _ _ => rfl

/-- A grant that works does not meet a device that is down. -/
theorem works_eq_false {w : World} {works : Bool} (h : mayEnd w works = true)
    (hd : w.phase = .down) : works = false := by
  by_contra hw
  unfold mayEnd at h
  rw [if_pos (Bool.eq_true_of_not_eq_false hw)] at h
  exact absurd hd (by simpa using h)

/-- A poll is answered as booted and the loop goes on to its grant, or it is not. -/
theorem step_poll {f : Front} {w w' : World} {r : AdbResult} (h : step f w (.poll r) = some w') :
    ∃ left, w.pc = .polling left ∧
      (w' = { w with pc := .rooting, answered := true } ∨ ∃ pc, w' = { w with pc := pc }) := by
  simp only [step] at h
  split at h
  · rename_i left hpc
    refine ⟨left + 1, hpc, ?_⟩
    split_ifs at h
    · exact Or.inl (Option.some.inj h).symm
    · exact Or.inr ⟨_, (Option.some.inj h).symm⟩
    · exact Or.inr ⟨_, (Option.some.inj h).symm⟩
    · exact Or.inr ⟨_, (Option.some.inj h).symm⟩
  · cases h

theorem inv_step {f : Front} {w w' : World} {e : Event} (hI : Inv w) (h : step f w e = some w') :
    Inv w' := by
  cases e with
  | goDown =>
    simp only [step] at h
    split_ifs at h
    cases h
    exact ⟨fun _ _ => rfl, hI.unanswered⟩
  | boot =>
    simp only [step] at h
    split_ifs at h with hd
    cases h
    exact ⟨fun _ _ => hI.lost (by rw [hd]; decide) (Or.inr hd), hI.unanswered⟩
  | bootDone =>
    simp only [step] at h
    split_ifs at h with hb
    cases h
    refine ⟨fun _ hp => hI.lost (by rw [hb]; decide) (hp.imp_right fun hd => ?_), hI.unanswered⟩
    cases hd
  | adbdReady =>
    cases h
    exact ⟨hI.lost, hI.unanswered⟩
  | poll r =>
    obtain ⟨left, hpc, hw⟩ := step_poll h
    have hlost : w.phase ≠ .running → w.allowed = false := fun hr =>
      hI.lost hr (Or.inl (by rw [hpc]; exact fun hp => by cases hp))
    obtain rfl | ⟨pc, rfl⟩ := hw
    · exact ⟨fun hr _ => hlost hr, fun _ hp => by cases hp⟩
    · exact ⟨fun hr _ => hlost hr, fun _ _ => hI.unanswered _ hpc⟩
  | root restarts =>
    simp only [step] at h
    split_ifs at h with hpc
    cases h
    refine ⟨fun hr _ => hI.lost hr (Or.inl ?_), fun _ hp => by cases hp⟩
    rw [hpc]
    decide
  | grant works =>
    simp only [step] at h
    split_ifs at h with hc
    cases h
    refine ⟨fun hr hp => ?_, fun _ hp => by cases hp⟩
    have hd : w.phase = .down := hp.resolve_left fun hne => hne rfl
    simp [hI.lost hr (Or.inr hd), works_eq_false hc.2 hd]

/-- **One step keeps `Granted` just when it is in time.** -/
theorem granted_step {f : Front} {w w' : World} {e : Event} (hI : Inv w) (hP : Granted w)
    (h : step f w e = some w') : Granted w' ↔ InTime w e := by
  cases e with
  | goDown =>
    simp only [step] at h
    split_ifs at h
    cases h
    exact iff_of_true (fun _ _ hn => by cases hn) trivial
  | boot =>
    simp only [step] at h
    split_ifs at h with hd
    cases h
    -- what the old session had allowed is gone
    have hlost : w.allowed = false := hI.lost (by rw [hd]; decide) (Or.inr hd)
    simp [Granted, InTime, Phase.isNew, hlost]
  | bootDone =>
    simp only [step] at h
    split_ifs at h with hb
    cases h
    exact iff_of_true (fun h1 h2 _ => hP h1 h2 (by rw [hb]; rfl)) trivial
  | adbdReady =>
    cases h
    exact iff_of_true hP trivial
  | poll r =>
    obtain ⟨left, hpc, rfl | ⟨pc, rfl⟩⟩ := step_poll h
    · exact iff_of_true (fun hp => by cases hp) trivial
    · -- no poll was answered before
      refine iff_of_true (fun _ ha => ?_) trivial
      rw [show w.answered = false from hI.unanswered _ hpc] at ha
      cases ha
  | root restarts =>
    simp only [step] at h
    split_ifs at h
    cases h
    exact iff_of_true (fun hp => by cases hp) trivial
  | grant works =>
    simp only [step] at h
    split_ifs at h with hc
    cases h
    have hlost : w.phase.isNew = true → w.allowed = false := by
      intro hn
      refine hI.lost (fun hr => ?_) (Or.inl (by rw [hc.1]; decide))
      rw [hr] at hn
      cases hn
    simp only [Granted, InTime, Bool.or_eq_true, forall_const]
    refine imp_congr_right fun _ => imp_congr_right fun hn => ?_
    simp [hlost hn]

/-- **Reboot, poll, grant.**  For the server's loop and the script's, whatever was allowed before,
and in every order of the device's steps and the loop's: the grant is there in the session after the
reboot just when the device is back before the loop has ended and no grant sent to it then fails. -/
theorem granted_iff (f : Front) (allowed : Bool) (evs : List Event) :
    (applySystem f).Always Granted (rebooting f allowed) evs ↔
      (applySystem f).EachStep InTime (rebooting f allowed) evs :=
  StepSystem.always_iff_eachStep (I := Inv) (fun _ _ _ hI h => inv_step hI h)
    (fun _ _ _ hI hP h => granted_step hI hP h) (inv_rebooting f allowed)
    (fun hp => by cases f <;> cases hp)

/-- A poll that is answered as booted. -/
def one : AdbResult := adbClose (some 0) false ['1', '\n'] []

/-- The first poll is answered by the session that is about to go down. -/
def oldSessionPoll : List Event := [.poll one, .root false, .grant true, .goDown, .boot, .bootDone]

/-- The right session is polled, and the grant is sent while adbd restarts. -/
def adbdRestarts : List Event := [.goDown, .boot, .bootDone, .poll one, .root true, .grant false]

/-- Either run loses the grant, for the server's loop and for the script's. -/
theorem grant_lost :
    (¬ (applySystem .server).Always Granted (rebooting .server false) oldSessionPoll ∧
      ¬ (applySystem .server).Always Granted (rebooting .server false) adbdRestarts) ∧
    ¬ (applySystem .script).Always Granted (rebooting .script false) oldSessionPoll ∧
      ¬ (applySystem .script).Always Granted (rebooting .script false) adbdRestarts := by
  refine ⟨⟨fun h => ?_, fun h => ?_⟩, fun h => ?_, fun h => ?_⟩
  all_goals
    have hend := h.last rfl
    exact absurd (hend rfl rfl rfl) (by decide)

end HeadlessAndroid.Apply
