import HeadlessAndroid.Lib.StepSystem
import Mathlib.Data.Nat.Notation
import Mathlib.Logic.Function.Basic

/-!
# HeadlessAndroid.PidFiles — avd-up.sh, avd-down.sh and the pids they remember

The scripts keep a pid file for each service in `.run`.  The files outlive the processes, and
`kill -0` says that some process has the pid, not which.  A history is one run of a script after the
other, cut short anywhere, among processes that start, die and take over pids, and reboots.
-/

namespace HeadlessAndroid.PidFiles

open Lib

inductive Service where
  | emulator
  | wsScrcpy
  | backend
  deriving DecidableEq

abbrev Pid := ℕ

structure Process where
  /-- The service that a run of avd-up.sh started it as; `none` for every other process. -/
  startedAs : Option Service
  /-- The user of the scripts may signal it. -/
  signalable : Bool
  deriving DecidableEq

/-- Where the script that runs is. -/
inductive Pc where
  | idle
  /-- avd-up.sh, before the test whether the service is there. -/
  | check (s : Service)
  /-- avd-up.sh, before `echo $!` into the pid file. -/
  | started (s : Service) (pid : Pid)
  /-- avd-down.sh, before `stop_pid` looks at the pid file. -/
  | stop (s : Service)
  /-- avd-down.sh, after `kill -0`. -/
  | term (s : Service) (pid : Pid)
  /-- avd-down.sh, after the second that it gives the process. -/
  | kill9 (s : Service) (pid : Pid)
  | rm (s : Service)
  deriving DecidableEq

structure Host where
  procs : Pid → Option Process
  files : Service → Option Pid
  pc : Pc
  /-- The processes that avd-down.sh has sent a signal. -/
  signalled : List Process
  /-- The services that avd-up.sh has not started, and what it took for them. -/
  skipped : List (Service × Process)

inductive Event where
  /-- Another process starts. -/
  | spawn (pid : Pid) (signalable : Bool)
  /-- A process ends, by itself or because it is killed. -/
  | exit (pid : Pid)
  | reboot
  /-- The script ends before its last line. -/
  | abort
  | runUp
  | runDown
  /-- `adb devices` lists the emulator. -/
  | listed
  | skip
  | start (pid : Pid)
  | record
  | probe
  | term
  | kill9
  | rm

/-- The service that avd-up.sh turns to next. -/
def afterUp : Service → Pc
  | .emulator => .check .wsScrcpy
  | .wsScrcpy => .check .backend
  | .backend => .idle

/-- The service that avd-down.sh turns to next. -/
def afterDown : Service → Pc
  | .backend => .stop .wsScrcpy
  | .wsScrcpy => .stop .emulator
  | .emulator => .idle

/-- The process that `kill -0` finds. -/
def Host.target (w : Host) (pid : Pid) : Option Process := (w.procs pid).filter (·.signalable)

/-- The process that has the pid in the file of the service, if there is a file. -/
def Host.found (w : Host) (s : Service) : Option Process := (w.files s).bind w.target

/-- `kill`, which reaches the process that has the pid now. -/
def Host.signal (w : Host) (pid : Pid) (pc : Pc) : Host :=
  { w with signalled := w.signalled ++ (w.target pid).toList, pc := pc }

def step (w : Host) : Event → Option Host
  | .spawn pid signalable =>
    if w.procs pid = none then
      some { w with procs := Function.update w.procs pid (some ⟨none, signalable⟩) }
    else none
  | .exit pid => some { w with procs := Function.update w.procs pid none }
  | .reboot => some { w with procs := fun _ => none, pc := .idle }
  | .abort => some { w with pc := .idle }
  | .runUp => if w.pc = .idle then some { w with pc := .check .emulator } else none
  | .runDown => if w.pc = .idle then some { w with pc := .stop .backend } else none
  | .listed =>
    if w.pc = .check .emulator then some { w with pc := afterUp .emulator } else none
  | .skip =>
    match w.pc with
    | .check s =>
      if s = .emulator then none
      else (w.found s).map fun p => { w with skipped := w.skipped ++ [(s, p)], pc := afterUp s }
    | _ => none
  | .start pid =>
    match w.pc with
    | .check s =>
      if (s = .emulator ∨ w.found s = none) ∧ w.procs pid = none then
        some { w with
          procs := Function.update w.procs pid (some ⟨some s, true⟩)
          pc := .started s pid }
      else none
    | _ => none
  | .record =>
    match w.pc with
    | .started s pid =>
      some { w with files := Function.update w.files s (some pid), pc := afterUp s }
    | _ => none
  | .probe =>
    match w.pc with
    | .stop s =>
      match w.files s with
      | none => some { w with pc := afterDown s }
      | some pid => some { w with pc := if w.target pid = none then .rm s else .term s pid }
    | _ => none
  | .term =>
    match w.pc with
    | .term s pid => some (w.signal pid (.kill9 s pid))
    | _ => none
  | .kill9 =>
    match w.pc with
    | .kill9 s pid => some (w.signal pid (.rm s))
    | _ => none
  | .rm =>
    match w.pc with
    | .rm s => some { w with files := Function.update w.files s none, pc := afterDown s }
    | _ => none

def hostSystem : StepSystem Host Event where
  step := step

/-- No service was ever started, and no file is there; the other processes are what they are. -/
def hostWith (others : Pid → Option Bool) : Host where
  procs pid := (others pid).map fun signalable => ⟨none, signalable⟩
  files _ := none
  pc := .idle
  signalled := []
  skipped := []

/-! ## What the scripts should do -/

/-- Every process that was signalled is one of avd-up.sh, and every service that was not started was
there. -/
structure Safe (w : Host) : Prop where
  signals : ∀ p ∈ w.signalled, p.startedAs ≠ none
  skips : ∀ e ∈ w.skipped, e.2.startedAs = some e.1

/-- No process but the one of the service has the pid of its file. -/
def Host.Own (w : Host) (s : Service) : Prop :=
  ∀ pid p, w.files s = some pid → w.procs pid = some p → p.startedAs = some s

/-- The pid that is about to be used has not gone to a process of somebody else, or for avd-up.sh to
another process than the service. -/
def NotTaken (w : Host) : Event → Prop
  | .term => ∀ s pid p, w.pc = .term s pid → w.target pid = some p → p.startedAs ≠ none
  | .kill9 => ∀ s pid p, w.pc = .kill9 s pid → w.target pid = some p → p.startedAs ≠ none
  | .skip => ∀ s p, w.pc = .check s → w.found s = some p → p.startedAs = some s
  | _ => True

/-- No process starts with a pid that is in a file or about to be written to one, unless it is the
file's service. -/
def NoReuse (w : Host) : Event → Prop
  | .spawn pid _ => ∀ s, w.files s ≠ some pid ∧ w.pc ≠ .started s pid
  | .start pid => ∀ s s', w.pc = .check s → w.files s' = some pid → s' = s
  | _ => True

theorem target_some {w : Host} {pid : Pid} {p : Process} (h : w.target pid = some p) :
    w.procs pid = some p := (Option.filter_eq_some_iff.mp h).1

theorem safe_of_same {w w' : Host} (h₁ : w'.signalled = w.signalled) (h₂ : w'.skipped = w.skipped) :
    Safe w' ↔ Safe w :=
  ⟨fun h => ⟨h₁ ▸ h.signals, h₂ ▸ h.skips⟩, fun h => ⟨h₁ ▸ h.signals, h₂ ▸ h.skips⟩⟩

/-- A signal is safe just when the process it reaches is one of avd-up.sh. -/
theorem safe_signal {w : Host} (hP : Safe w) (pid : Pid) (pc : Pc) :
    Safe (w.signal pid pc) ↔ ∀ p, w.target pid = some p → p.startedAs ≠ none := by
  constructor
  · intro h p hp
    refine h.signals p (List.mem_append_right _ ?_)
    rw [hp]
    exact List.mem_singleton.mpr rfl
  · intro h
    refine ⟨fun p hp => ?_, hP.skips⟩
    rcases List.mem_append.mp hp with hp | hp
    · exact hP.signals p hp
    · exact h p (Option.mem_toList.mp hp)

/-- In words of where the script is: `.term` or `.kill9` with the pid in hand. -/
theorem safe_signal_iff {w : Host} (hP : Safe w) (inHand : Service → Pid → Pc)
    (hinj : ∀ s s' pid pid', inHand s pid = inHand s' pid' → pid = pid') {s : Service} {pid : Pid}
    (hpc : w.pc = inHand s pid) (pc : Pc) :
    Safe (w.signal pid pc) ↔
      ∀ s pid p, w.pc = inHand s pid → w.target pid = some p → p.startedAs ≠ none := by
  rw [safe_signal hP]
  constructor
  · intro hall s' pid' p hpc' hp
    rw [hpc] at hpc'
    obtain rfl := hinj _ _ _ _ hpc'
    exact hall p hp
  · exact fun hC p hp => hC s pid p hpc hp

/-- What the three steps that can go wrong do, and that the others leave the two lists alone. -/
theorem step_cases {w w' : Host} {e : Event} (h : step w e = some w') :
    (∃ s pid, e = .term ∧ w.pc = .term s pid ∧ w' = w.signal pid (.kill9 s pid)) ∨
    (∃ s pid, e = .kill9 ∧ w.pc = .kill9 s pid ∧ w' = w.signal pid (.rm s)) ∨
    (∃ s p, e = .skip ∧ w.pc = .check s ∧ w.found s = some p ∧
      w' = { w with skipped := w.skipped ++ [(s, p)], pc := afterUp s }) ∨
    (w'.signalled = w.signalled ∧ w'.skipped = w.skipped ∧ NotTaken w e) := by
  cases e with
  | term =>
    simp only [step] at h
    split at h
    · rename_i s pid hpc
      cases h
      exact .inl ⟨s, pid, rfl, hpc, rfl⟩
    · cases h
  | kill9 =>
    simp only [step] at h
    split at h
    · rename_i s pid hpc
      cases h
      exact .inr (.inl ⟨s, pid, rfl, hpc, rfl⟩)
    · cases h
  | skip =>
    simp only [step] at h
    split at h
    · rename_i s hpc
      split_ifs at h
      obtain ⟨p, hp, rfl⟩ := Option.map_eq_some_iff.mp h
      exact .inr (.inr (.inl ⟨s, p, rfl, hpc, hp, rfl⟩))
    · cases h
  | _ =>
    refine .inr (.inr (.inr ?_))
    simp only [step] at h
    repeat' split at h
    all_goals
      first
      | (cases h; done)
      | (cases h; exact ⟨rfl, rfl, trivial⟩)

/-- **One step is safe just when the pid it uses was not taken.** -/
theorem safe_step {w w' : Host} {e : Event} (hP : Safe w) (h : step w e = some w') :
    Safe w' ↔ NotTaken w e := by
  rcases step_cases h with ⟨s, pid, rfl, hpc, rfl⟩ | ⟨s, pid, rfl, hpc, rfl⟩ |
    ⟨s, p, rfl, hpc, hp, rfl⟩ | ⟨h₁, h₂, hC⟩
  · exact safe_signal_iff hP .term (fun _ _ _ _ h => (Pc.term.inj h).2) hpc _
  · exact safe_signal_iff hP .kill9 (fun _ _ _ _ h => (Pc.kill9.inj h).2) hpc _
  · constructor
    · intro hsafe s' p' hpc' hp'
      rw [hpc] at hpc'
      cases hpc'
      rw [hp] at hp'
      cases hp'
      exact hsafe.skips (s, p) (List.mem_append_right _ (List.mem_singleton.mpr rfl))
    · intro hC
      refine ⟨hP.signals, fun e he => ?_⟩
      rcases List.mem_append.mp he with he | he
      · exact hP.skips e he
      · rw [List.mem_singleton.mp he]
        exact hC s p hpc hp
  · exact iff_of_true ((safe_of_same h₁ h₂).mpr hP) hC

/-! ## Pids that are not reused -/

/-- The script has a pid in hand. -/
def Pc.holds : Pc → Bool
  | .started _ _ => true
  | .term _ _ => true
  | .kill9 _ _ => true
  | _ => false

theorem afterUp_holds (s : Service) : (afterUp s).holds = false := by cases s <;> rfl

theorem afterDown_holds (s : Service) : (afterDown s).holds = false := by cases s <;> rfl

structure Inv (w : Host) : Prop where
  own : ∀ s, w.Own s
  /-- What avd-up.sh is about to record is the service, if it is still there. -/
  started : ∀ s pid p, w.pc = .started s pid → w.procs pid = some p → p.startedAs = some s
  /-- What avd-down.sh signals is what the file says. -/
  stopping : ∀ s pid, w.pc = .term s pid ∨ w.pc = .kill9 s pid → w.files s = some pid

theorem inv_hostWith (others : Pid → Option Bool) : Inv (hostWith others) where
  own := fun _ _ _ h => by cases h
  started := fun _ _ _ h => by cases h
  stopping := fun _ _ h => by rcases h with h | h <;> cases h

/-- The script goes on and has no pid in hand. -/
theorem Inv.goOn {w : Host} (hI : Inv w) {pc : Pc} (h : pc.holds = false) :
    Inv { w with pc := pc } where
  own := hI.own
  started := by
    rintro s pid p rfl
    cases h
  stopping := by
    rintro s pid (rfl | rfl)
    · cases h
    · cases h

/-- The script goes on after it has written or removed a file. -/
theorem Inv.setFile {w : Host} (hI : Inv w) {s : Service} {file : Option Pid} {pc : Pc}
    (hfile : ∀ pid p, file = some pid → w.procs pid = some p → p.startedAs = some s)
    (h : pc.holds = false) :
    Inv { w with files := Function.update w.files s file, pc := pc } where
  own := by
    intro s' pid p hf hp
    have hf' : Function.update w.files s file s' = some pid := hf
    by_cases hs : s' = s
    · subst hs
      rw [Function.update_self] at hf'
      exact hfile pid p hf' hp
    · rw [Function.update_of_ne hs] at hf'
      exact hI.own s' pid p hf' hp
  started := (hI.goOn h).started
  stopping := by
    rintro s' pid (rfl | rfl)
    · cases h
    · cases h

/-- A process starts with a pid that is in no file but its own. -/
theorem own_update {w : Host} (hI : Inv w) {pid : Pid} {q : Process}
    (hq : ∀ s, w.files s = some pid → q.startedAs = some s) (s : Service) :
    ({ w with procs := Function.update w.procs pid (some q) } : Host).Own s := by
  intro pid' p hfile hp
  by_cases hpid : pid' = pid
  · subst hpid
    have hpq : Function.update w.procs pid' (some q) pid' = some p := hp
    rw [Function.update_self] at hpq
    cases hpq
    exact hq s hfile
  · have hold : Function.update w.procs pid (some q) pid' = some p := hp
    rw [Function.update_of_ne hpid] at hold
    exact hI.own s pid' p hfile hold

/-- Another process starts, with a pid that no file has and nobody is about to write to one. -/
theorem Inv.spawn {w : Host} (hI : Inv w) {pid : Pid} (signalable : Bool)
    (hC : ∀ s, w.files s ≠ some pid ∧ w.pc ≠ .started s pid) :
    Inv { w with procs := Function.update w.procs pid (some ⟨none, signalable⟩) } := by
  refine ⟨own_update hI fun s hs => absurd hs (hC s).1, ?_, hI.stopping⟩
  intro s pid' p hpc hp
  have hne : pid' ≠ pid := by
    rintro rfl
    exact (hC s).2 hpc
  have hold : Function.update w.procs pid (some ⟨none, signalable⟩) pid' = some p := hp
  rw [Function.update_of_ne hne] at hold
  exact hI.started s pid' p hpc hold

theorem Inv.exit {w : Host} (hI : Inv w) (pid : Pid) :
    Inv { w with procs := Function.update w.procs pid none } := by
  have hold : ∀ {pid' p}, Function.update w.procs pid none pid' = some p →
      w.procs pid' = some p := by
    intro pid' p hp
    by_cases hpid : pid' = pid
    · subst hpid
      rw [Function.update_self] at hp
      cases hp
    · rwa [Function.update_of_ne hpid] at hp
  exact ⟨fun s pid' p hf hp => hI.own s pid' p hf (hold hp),
    fun s pid' p hpc hp => hI.started s pid' p hpc (hold hp), hI.stopping⟩

theorem Inv.reboot {w : Host} : Inv { w with procs := fun _ => none, pc := .idle } where
  own := fun _ _ _ _ hp => by cases hp
  started := fun _ _ _ hpc => by cases hpc
  stopping := fun _ _ hpc => by rcases hpc with hpc | hpc <;> cases hpc

/-- avd-up.sh starts the service with a pid that no other service's file has. -/
theorem Inv.start {w : Host} (hI : Inv w) {s : Service} {pid : Pid}
    (hC : ∀ s', w.files s' = some pid → s' = s) :
    Inv { w with
      procs := Function.update w.procs pid (some ⟨some s, true⟩)
      pc := .started s pid } := by
  refine ⟨own_update hI fun s' hs' => by rw [hC s' hs'], ?_, fun _ _ hpc => ?_⟩
  · intro s' pid' p hpc hp
    cases hpc
    have hpq : Function.update w.procs pid (some ⟨some s, true⟩) pid = some p := hp
    rw [Function.update_self] at hpq
    cases hpq
    rfl
  · rcases hpc with hpc | hpc <;> cases hpc

/-- avd-down.sh takes the pid of the file in hand. -/
theorem Inv.inHand {w : Host} (hI : Inv w) {s : Service} {pid : Pid} (hfile : w.files s = some pid)
    {pc : Pc} (hpc : pc = .term s pid ∨ pc = .kill9 s pid) : Inv { w with pc := pc } where
  own := hI.own
  started := by
    rintro s' pid' p rfl
    rcases hpc with hpc | hpc <;> cases hpc
  stopping := by
    rintro s' pid' (rfl | rfl)
    · rcases hpc with hpc | hpc
      · cases hpc
        exact hfile
      · cases hpc
    · rcases hpc with hpc | hpc
      · cases hpc
      · cases hpc
        exact hfile

/-- What was signalled or skipped does not matter. -/
theorem Inv.congr {w w' : Host} (hI : Inv w) (hp : w'.procs = w.procs) (hf : w'.files = w.files)
    (hpc : w'.pc = w.pc) : Inv w' := by
  obtain ⟨procs, files, pc, signalled, skipped⟩ := w
  obtain ⟨procs', files', pc', signalled', skipped'⟩ := w'
  cases hp
  cases hf
  cases hpc
  exact ⟨hI.own, hI.started, hI.stopping⟩

/-- **Without reuse every file says whose pid it holds**, after every step. -/
theorem inv_step {w w' : Host} {e : Event} (hI : Inv w) (hC : NoReuse w e)
    (h : step w e = some w') : Inv w' := by
  cases e with
  | spawn pid signalable =>
    simp only [step] at h
    split_ifs at h
    cases h
    exact hI.spawn signalable hC
  | exit pid =>
    cases h
    exact hI.exit pid
  | reboot =>
    cases h
    exact .reboot
  | abort =>
    cases h
    exact hI.goOn rfl
  | runUp =>
    simp only [step] at h
    split_ifs at h
    cases h
    exact hI.goOn rfl
  | runDown =>
    simp only [step] at h
    split_ifs at h
    cases h
    exact hI.goOn rfl
  | listed =>
    simp only [step] at h
    split_ifs at h
    cases h
    exact hI.goOn rfl
  | skip =>
    simp only [step] at h
    split at h
    · rename_i s hpc
      split_ifs at h
      obtain ⟨p, -, rfl⟩ := Option.map_eq_some_iff.mp h
      exact (hI.goOn (afterUp_holds s)).congr rfl rfl rfl
    · cases h
  | start pid =>
    simp only [step] at h
    split at h
    · rename_i s hpc
      split_ifs at h
      cases h
      exact hI.start fun s' hs' => hC s s' hpc hs'
    · cases h
  | record =>
    simp only [step] at h
    split at h
    · rename_i s pid hpc
      cases h
      refine hI.setFile (fun pid' p hpid hp => ?_) (afterUp_holds s)
      cases hpid
      exact hI.started s pid p hpc hp
    · cases h
  | probe =>
    simp only [step] at h
    split at h
    · rename_i s hpc
      split at h
      · cases h
        exact hI.goOn (afterDown_holds s)
      · rename_i pid hfile
        cases h
        split
        · exact hI.goOn rfl
        · exact hI.inHand hfile (.inl rfl)
    · cases h
  | term =>
    simp only [step] at h
    split at h
    · rename_i s pid hpc
      cases h
      exact (hI.inHand (hI.stopping s pid (.inl hpc)) (.inr rfl)).congr rfl rfl rfl
    · cases h
  | kill9 =>
    simp only [step] at h
    split at h
    · rename_i s pid hpc
      cases h
      have hgo : Inv { w with pc := .rm s } := hI.goOn rfl
      exact hgo.congr rfl rfl rfl
    · cases h
  | rm =>
    simp only [step] at h
    split at h
    · rename_i s hpc
      cases h
      exact hI.setFile (fun pid p hpid => by cases hpid) (afterDown_holds s)
    · cases h

/-- Where every file says whose pid it holds, nothing is taken. -/
theorem Inv.notTaken {w : Host} (hI : Inv w) (e : Event) : NotTaken w e := by
  have hsignal : ∀ s pid p, w.pc = .term s pid ∨ w.pc = .kill9 s pid → w.target pid = some p →
      p.startedAs ≠ none := by
    intro s pid p hpc hp
    rw [hI.own s pid p (hI.stopping s pid hpc) (target_some hp)]
    exact Option.some_ne_none s
  cases e with
  | term => exact fun s pid p hpc => hsignal s pid p (.inl hpc)
  | kill9 => exact fun s pid p hpc => hsignal s pid p (.inr hpc)
  | skip =>
    intro s p _ hp
    obtain ⟨pid, hfile, hp⟩ := Option.bind_eq_some_iff.mp hp
    exact hI.own s pid p hfile (target_some hp)
  | _ => trivial

theorem safe_hostWith (others : Pid → Option Bool) : Safe (hostWith others) :=
  ⟨fun _ h => absurd h List.not_mem_nil, fun _ h => absurd h List.not_mem_nil⟩

/-- **Pid files.**  Over every history, whatever else runs on the host: the scripts signal and skip
only what they should where no pid of a file, and none about to be recorded, is ever reused.  At a
single step it is enough, and needed, that no pid in use has been taken. -/
theorem pids_safe_iff (others : Pid → Option Bool) (evs : List Event) :
    (hostSystem.Always Safe (hostWith others) evs ↔
      hostSystem.EachStep NotTaken (hostWith others) evs) ∧
    (hostSystem.EachStep NoReuse (hostWith others) evs →
      hostSystem.Always Safe (hostWith others) evs) := by
  constructor
  · exact StepSystem.always_iff_eachStep (I := fun _ => True) (fun _ _ _ _ _ => trivial)
      (fun _ _ _ _ hP h => safe_step hP h) trivial (safe_hostWith others)
  · intro hC
    have hboth : hostSystem.Always (fun w => Inv w ∧ Safe w) (hostWith others) evs := by
      refine StepSystem.always_of_inv (C := NoReuse) ?_ ⟨inv_hostWith others, safe_hostWith others⟩ hC
      intro w e w' ⟨hI, hP⟩ hC h
      exact ⟨inv_step hI hC h, (safe_step hP h).mpr (hI.notTaken e)⟩
    exact hboth.mono fun _ h => h.2

/-- The backend of a run of avd-up.sh dies, and another process gets its pid. -/
def backendReplaced : List Event :=
  [.runUp, .start 100, .record, .start 101, .record, .start 102, .record, .exit 102, .spawn 102 true]

/-- avd-down.sh then kills that process, and avd-up.sh takes it for the backend. -/
theorem backend_pid_reused :
    ¬hostSystem.Always Safe (hostWith fun _ => none) (backendReplaced ++ [.runDown, .probe, .term]) ∧
      ¬hostSystem.Always Safe (hostWith fun _ => none)
        (backendReplaced ++ [.runUp, .listed, .skip, .skip]) := by
  constructor
  · intro h
    have hend := h.last rfl
    exact hend.signals ⟨none, true⟩ List.mem_cons_self rfl
  · intro h
    have hend := h.last rfl
    have hskip := hend.skips (.backend, ⟨none, true⟩) (List.mem_cons_of_mem _ List.mem_cons_self)
    cases hskip

end HeadlessAndroid.PidFiles
