import HeadlessAndroid.Lib.StepSystem
import HeadlessAndroid.ScopeToggle

/-!
# HeadlessAndroid.Dashboard — pending changes, the apply button and the reboot

`scopeDirty` beside what the running device has loaded.  The page sets the flag when the response to
a toggle arrives and clears it when a poll says that the device is booted, whichever boot that was; it
is right if only sessions that were booted after the last statement clear it (`dirty_iff`).
-/

namespace HeadlessAndroid.Dashboard

open Lib Lib.Js Scope

/-- The scope rows of `com.headless.mockloc`, as LSPosed loads them. -/
abbrev Loaded := ScopeRow → Bool

def ownRows (db : Db) : Loaded := fun row => db.scope.contains row && db.isOwn row.mid

inductive Device where
  /-- Up with the rows of its boot; `completed` is what `sys.boot_completed` says. -/
  | up (loaded : Loaded) (completed : Bool)
  | down

def Device.isUp : Device → Bool
  | .up _ _ => true
  | .down => false

/-- `sys.boot_completed` reads 1. -/
def Device.completed : Device → Bool
  | .up _ completed => completed
  | .down => false

/-- A request of `onScopeToggle`. -/
structure Request where
  pkg : Text
  stage : Stage

/-- A `POST /api/scope/apply`. -/
inductive Apply where
  | sent
  | served

/-- The answer to a `GET /api/device`, and in which boot of the device it was given. -/
structure Answer where
  bootCompleted : Bool
  boot : ℕ

/-- A `GET /api/device` of an interval; `answer` once it is served. -/
structure Poll where
  interval : ℕ
  answer : Option Answer

structure Dash where
  db : Db
  device : Device
  scopeDirty : Bool
  /-- `scopeApply.disabled`. -/
  applyDisabled : Bool
  toggles : Slots Request
  applies : Slots Apply
  /-- The intervals that are not cleared. -/
  intervals : Slots Unit
  polls : Slots Poll
  /-- Reboot commands that have not taken the device down. -/
  reboots : ℕ
  /-- How often the device has booted since the session began. -/
  boots : ℕ
  /-- In which boot the last statement that changes rows was applied, if one was. -/
  lastApplied : Option ℕ

def Dash.setScopeDirty (s : Dash) (dirty : Bool) : Dash :=
  { s with scopeDirty := dirty, applyDisabled := !dirty }

inductive DashEvent where
  | toggle (p : Text) (check : Bool)
  /-- A call of a toggle's handler is executed. -/
  | exec (i : ℕ) (o : SqlOutcome)
  | toggleReply (i : ℕ)
  /-- The request of a toggle is over and `api` has thrown. -/
  | toggleLost (i : ℕ)
  | click
  | applyServe (i : ℕ)
  /-- The apply request is over, with a response or without one. -/
  | applyEnd (i : ℕ)
  | goDown
  | boot
  | bootDone
  | tick (k : ℕ)
  | pollServe (j : ℕ) (bootCompleted : Bool)
  /-- `late`: the 120 seconds are over. -/
  | pollReply (j : ℕ) (late : Bool)
  | pollLost (j : ℕ) (late : Bool)

/-- A poll of the interval `k` that does not say that the device is booted. -/
def Dash.notYet (s : Dash) (j k : ℕ) (late : Bool) : Dash :=
  { s with
    intervals := if late then s.intervals.put k none else s.intervals
    polls := s.polls.put j none }

def dashStep (s : Dash) : DashEvent → Option Dash
  | .toggle p check => some { s with toggles := s.toggles.add ⟨p, firstStage p check⟩ }
  | .exec i o =>
    match s.toggles.get i with
    | none => none
    | some t =>
      -- nothing is applied on a device that is down
      if o.applies && !s.device.isUp then none
      else match exec o s.db t.pkg t.stage with
      | none => none
      | some (db, stage) =>
        some { s with
          db := db
          toggles := s.toggles.put i (some ⟨t.pkg, stage⟩)
          lastApplied := if o.applies && t.stage.writes then some s.boots else s.lastApplied }
  | .toggleReply i =>
    match s.toggles.get i with
    | some ⟨_, .answered _⟩ => some ({ s with toggles := s.toggles.put i none }.setScopeDirty true)
    | _ => none
  | .toggleLost i =>
    match s.toggles.get i with
    | some _ => some { s with toggles := s.toggles.put i none }
    | none => none
  | .click =>
    if s.applyDisabled then none
    else some { s with applyDisabled := true, applies := s.applies.add .sent }
  | .applyServe i =>
    match s.applies.get i with
    | some .sent => some { s with applies := s.applies.put i (some .served), reboots := s.reboots + 1 }
    | _ => none
  | .applyEnd i =>
    match s.applies.get i with
    | some _ => some { s with applies := s.applies.put i none, intervals := s.intervals.add () }
    | none => none
  | .goDown =>
    if s.reboots = 0 || !s.device.isUp then none
    else some { s with device := .down, reboots := s.reboots - 1 }
  | .boot =>
    if s.device.isUp then none
    else some { s with device := .up (ownRows s.db) false, boots := s.boots + 1 }
  | .bootDone =>
    match s.device with
    | .up loaded _ => some { s with device := .up loaded true }
    | .down => none
  | .tick k =>
    match s.intervals.get k with
    | some () => some { s with polls := s.polls.add ⟨k, none⟩ }
    | none => none
  | .pollServe j bootCompleted =>
    match s.polls.get j with
    | some ⟨k, none⟩ =>
      if bootCompleted && !s.device.completed then none
      else some { s with polls := s.polls.put j (some ⟨k, some ⟨bootCompleted, s.boots⟩⟩) }
    | _ => none
  | .pollReply j late =>
    match s.polls.get j with
    | some ⟨k, some ⟨true, _⟩⟩ =>
      some ({ s with intervals := s.intervals.put k none, polls := s.polls.put j none }.setScopeDirty
        false)
    | some ⟨k, some ⟨false, _⟩⟩ => some (s.notYet j k late)
    | _ => none
  | .pollLost j late =>
    match s.polls.get j with
    | some ⟨k, _⟩ => some (s.notYet j k late)
    | none => none

def dashSystem : StepSystem Dash DashEvent where
  step := dashStep

/-- A page session on a device that has loaded the rows of the database. -/
def session (db : Db) : Dash where
  db := db
  device := .up (ownRows db) true
  scopeDirty := false
  applyDisabled := true
  toggles := []
  applies := []
  intervals := []
  polls := []
  reboots := 0
  boots := 0
  lastApplied := none

/-- The running device has loaded the rows of the database. -/
def UpToDate (db : Db) : Device → Prop
  | .up loaded _ => loaded = ownRows db
  | .down => True

/-- With no toggle in flight and nothing marked as pending, the device is up to date. -/
def FlagTruthful (s : Dash) : Prop :=
  s.toggles.quiet = true → s.scopeDirty = false → UpToDate s.db s.device

/-- A poll that ends an apply arrives when the rows have not changed since the device booted, or while
it is down or a toggle is in flight; and so does the loss of a toggle's response, unless changes are
marked as pending. -/
def ClearsInTime (s : Dash) : DashEvent → Prop
  | .pollReply j _ => ∀ k b, s.polls.get j = some ⟨k, some ⟨true, b⟩⟩ → s.toggles.quiet = true →
      UpToDate s.db s.device
  | .toggleLost i => (s.toggles.put i none).quiet = true → s.scopeDirty = false →
      UpToDate s.db s.device
  | _ => True

theorem quiet_add {α : Type} (ts : Slots α) (t : α) : (ts.add t).quiet = false :=
  Slots.not_quiet (i := ts.length) (by rw [Slots.get_add, if_pos rfl])

theorem quiet_put {α : Type} {ts : Slots α} {i : ℕ} {t : α} (h : ts.get i = some t) (t' : α) :
    (ts.put i (some t')).quiet = false :=
  Slots.not_quiet (i := i) (by rw [Slots.get_put h, if_pos rfl])

/-- The event concerns the apply button, its requests and polls, and clears nothing. -/
def DashEvent.keeps : DashEvent → Bool
  | .click => true
  | .applyServe _ => true
  | .applyEnd _ => true
  | .tick _ => true
  | .pollServe _ _ => true
  | .pollLost _ _ => true
  | _ => false

/-- What is left alone by the apply button, its requests and its polls. -/
theorem dashStep_keeps {s s' : Dash} {e : DashEvent} (h : dashStep s e = some s')
    (he : e.keeps = true) : s'.toggles = s.toggles ∧ s'.scopeDirty = s.scopeDirty ∧ s'.db = s.db ∧
      s'.device = s.device := by
  cases e with
  | click =>
    simp only [dashStep] at h
    split_ifs at h
    cases h
    exact ⟨rfl, rfl, rfl, rfl⟩
  | applyServe i =>
    simp only [dashStep] at h
    split at h
    · cases h
      exact ⟨rfl, rfl, rfl, rfl⟩
    · cases h
  | applyEnd i =>
    simp only [dashStep] at h
    split at h
    · cases h
      exact ⟨rfl, rfl, rfl, rfl⟩
    · cases h
  | tick k =>
    simp only [dashStep] at h
    split at h
    · cases h
      exact ⟨rfl, rfl, rfl, rfl⟩
    · cases h
  | pollServe j bootCompleted =>
    simp only [dashStep] at h
    split at h
    · split_ifs at h
      cases h
      exact ⟨rfl, rfl, rfl, rfl⟩
    · cases h
  | pollLost j late =>
    simp only [dashStep] at h
    split at h
    · cases h
      exact ⟨rfl, rfl, rfl, rfl⟩
    · cases h
  | _ => cases he

/-- What a call of a toggle does. -/
theorem dashStep_exec {s s' : Dash} {i : ℕ} {o : SqlOutcome} (h : dashStep s (.exec i o) = some s') :
    ∃ t db stage, s.toggles.get i = some t ∧ exec o s.db t.pkg t.stage = some (db, stage) ∧
      s' = { s with
        db := db
        toggles := s.toggles.put i (some ⟨t.pkg, stage⟩)
        lastApplied := if o.applies && t.stage.writes then some s.boots else s.lastApplied } := by
  simp only [dashStep] at h
  cases ht : s.toggles.get i with
  | none => simp [ht] at h
  | some t =>
    rw [ht] at h
    by_cases hup : (o.applies && !s.device.isUp) = true
    · simp [hup] at h
    · simp only [hup] at h
      cases he : exec o s.db t.pkg t.stage with
      | none => simp [he] at h
      | some r =>
        rw [he] at h
        cases h
        exact ⟨t, r.1, r.2, rfl, he, rfl⟩

theorem FlagTruthful.of_busy {s : Dash} (h : s.toggles.quiet = false) : FlagTruthful s := by
  intro hq
  rw [h] at hq
  cases hq

theorem FlagTruthful.congr {s s' : Dash} (hP : FlagTruthful s) (h : s'.toggles = s.toggles ∧
    s'.scopeDirty = s.scopeDirty ∧ s'.db = s.db ∧ s'.device = s.device) : FlagTruthful s' := by
  obtain ⟨ht, hd, hdb, hdev⟩ := h
  unfold FlagTruthful
  rw [ht, hd, hdb, hdev]
  exact hP

/-- **One step keeps the flag truthful just when it clears it in time.** -/
theorem dirty_step {s s' : Dash} {e : DashEvent} (hP : FlagTruthful s) (h : dashStep s e = some s') :
    FlagTruthful s' ↔ ClearsInTime s e := by
  cases e with
  | toggle p check =>
    cases h
    exact iff_of_true (FlagTruthful.of_busy (quiet_add _ _)) trivial
  | exec i o =>
    -- the toggle is in flight
    obtain ⟨t, db, stage, ht, -, rfl⟩ := dashStep_exec h
    exact iff_of_true (FlagTruthful.of_busy (quiet_put ht _)) trivial
  | click => exact iff_of_true (hP.congr (dashStep_keeps h rfl)) trivial
  | applyServe i => exact iff_of_true (hP.congr (dashStep_keeps h rfl)) trivial
  | applyEnd i => exact iff_of_true (hP.congr (dashStep_keeps h rfl)) trivial
  | tick k => exact iff_of_true (hP.congr (dashStep_keeps h rfl)) trivial
  | pollServe j b => exact iff_of_true (hP.congr (dashStep_keeps h rfl)) trivial
  | pollLost j late => exact iff_of_true (hP.congr (dashStep_keeps h rfl)) trivial
  | toggleReply i =>
    simp only [dashStep] at h
    split at h
    · cases h
      exact iff_of_true (fun _ hd => by cases hd) trivial
    · cases h
  | toggleLost i =>
    simp only [dashStep] at h
    split at h
    · cases h
      exact Iff.rfl
    · cases h
  | goDown =>
    simp only [dashStep] at h
    split_ifs at h
    cases h
    exact iff_of_true (fun _ _ => trivial) trivial
  | boot =>
    simp only [dashStep] at h
    split_ifs at h
    cases h
    exact iff_of_true (fun _ _ => rfl) trivial
  | bootDone =>
    simp only [dashStep] at h
    split at h
    · rename_i loaded completed hdev
      cases h
      refine iff_of_true (fun hq hd => ?_) trivial
      have hup := hP hq hd
      rwa [hdev] at hup
    · cases h
  | pollReply j late =>
    simp only [dashStep] at h
    split at h
    · rename_i k b hk
      cases h
      simp only [FlagTruthful, ClearsInTime, Dash.setScopeDirty, forall_const]
      exact ⟨fun hQ _ _ _ => hQ, fun hC => hC k b hk⟩
    · -- an answer that the device is not booted
      rename_i k b hk
      cases h
      refine iff_of_true hP fun k' b' hk' => ?_
      rw [hk] at hk'
      cases hk'
    · cases h

/-! ## Sessions that answer after the last statement -/

/-- No statement was applied in the boot `b` or later. -/
def Dash.AppliedBefore (s : Dash) (b : ℕ) : Prop := ∀ c, s.lastApplied = some c → c < b

/-- The answer that clears the flag was given by a session that was booted after the last statement;
and a response is lost only while changes are marked as pending, or with no statement applied since
the device booted. -/
def ClearsInOrder (s : Dash) : DashEvent → Prop
  | .pollReply j _ => ∀ k b, s.polls.get j = some ⟨k, some ⟨true, b⟩⟩ → s.AppliedBefore b
  | .toggleLost _ => s.scopeDirty = true ∨ s.AppliedBefore s.boots
  | _ => True

structure Inv (s : Dash) : Prop where
  /-- Only a statement takes the rows away from those of the boot. -/
  loaded : s.AppliedBefore s.boots → UpToDate s.db s.device
  /-- An answer is of this boot or of an earlier one. -/
  answered : ∀ j k a, s.polls.get j = some ⟨k, some a⟩ → a.boot ≤ s.boots

theorem Dash.AppliedBefore.mono {s : Dash} {b b' : ℕ} (h : s.AppliedBefore b) (hb : b ≤ b') :
    s.AppliedBefore b' := fun c hc => lt_of_lt_of_le (h c hc) hb

theorem inv_session (db : Db) : Inv (session db) where
  loaded := fun _ => rfl
  answered := by
    intro j k a h
    simp [session, Slots.get] at h

/-- What concerns neither the rows nor the polls. -/
theorem Inv.congr {s s' : Dash} (hI : Inv s) (hdb : s'.db = s.db) (hdev : s'.device = s.device)
    (hb : s'.boots = s.boots) (hl : s'.lastApplied = s.lastApplied) (hp : s'.polls = s.polls) :
    Inv s' where
  loaded := by
    intro h
    rw [hdb, hdev]
    refine hI.loaded fun c hc => ?_
    rw [← hb]
    exact h c (hl.trans hc)
  answered := by
    rw [hp, hb]
    exact hI.answered

/-- A poll is over, or not answered. -/
theorem Inv.setPoll {s : Dash} (hI : Inv s) {j : ℕ} {p : Poll} (hj : s.polls.get j = some p)
    {o : Option Poll} (ho : ∀ k a, o = some ⟨k, some a⟩ → a.boot ≤ s.boots) :
    Inv { s with polls := s.polls.put j o } where
  loaded := hI.loaded
  answered := by
    intro j' k a h
    have h' : (s.polls.put j o).get j' = some ⟨k, some a⟩ := h
    rw [Slots.get_put hj] at h'
    split_ifs at h'
    · exact ho k a h'
    · exact hI.answered j' k a h'

/-- A call that changes no rows leaves the database as it is. -/
theorem exec_keeps {o : SqlOutcome} {db db' : Db} {p : Text} {st st' : Stage}
    (h : exec o db p st = some (db', st')) (hno : (o.applies && st.writes) = false) : db' = db := by
  cases st with
  | readMid =>
    simp only [exec] at h
    split at h <;> cases h <;> rfl
  | insert t =>
    have ho : o.applies = false := by simpa [Stage.writes] using hno
    cases h
    rw [sqlite_state, ho]
    rfl
  | delete =>
    have ho : o.applies = false := by simpa [Stage.writes] using hno
    cases h
    rw [sqlite_state, ho]
    rfl
  | answered reply => cases h

/-- A call of a toggle is noted with the boot it is applied in. -/
theorem Inv.exec {s s' : Dash} (hI : Inv s) {i : ℕ} {o : SqlOutcome}
    (h : dashStep s (.exec i o) = some s') : Inv s' := by
  obtain ⟨t, db, stage, -, hexec, rfl⟩ := dashStep_exec h
  refine ⟨fun hb => ?_, hI.answered⟩
  cases hw : o.applies && t.stage.writes with
  | true =>
    -- the statement is of this very boot
    simp only [hw, if_true] at hb
    exact absurd (hb s.boots rfl) (lt_irrefl _)
  | false =>
    simp only [hw, Bool.false_eq_true, if_false] at hb
    have hup := hI.loaded hb
    rwa [← exec_keeps hexec hw] at hup

/-- **One step keeps the invariant.** -/
theorem Inv.step {s s' : Dash} {e : DashEvent} (hI : Inv s) (h : dashStep s e = some s') : Inv s' := by
  cases e with
  | exec i o => exact hI.exec h
  | toggle p check =>
    cases h
    exact hI.congr rfl rfl rfl rfl rfl
  | toggleReply i =>
    simp only [dashStep] at h
    split at h
    · cases h
      exact hI.congr rfl rfl rfl rfl rfl
    · cases h
  | toggleLost i =>
    simp only [dashStep] at h
    split at h
    · cases h
      exact hI.congr rfl rfl rfl rfl rfl
    · cases h
  | click =>
    simp only [dashStep] at h
    split_ifs at h
    cases h
    exact hI.congr rfl rfl rfl rfl rfl
  | applyServe i =>
    simp only [dashStep] at h
    split at h
    · cases h
      exact hI.congr rfl rfl rfl rfl rfl
    · cases h
  | applyEnd i =>
    simp only [dashStep] at h
    split at h
    · cases h
      exact hI.congr rfl rfl rfl rfl rfl
    · cases h
  | goDown =>
    simp only [dashStep] at h
    split_ifs at h
    cases h
    exact ⟨fun _ => trivial, hI.answered⟩
  | boot =>
    simp only [dashStep] at h
    split_ifs at h
    cases h
    exact ⟨fun _ => rfl, fun j k a hj => (hI.answered j k a hj).trans (Nat.le_succ _)⟩
  | bootDone =>
    simp only [dashStep] at h
    split at h
    · rename_i loaded completed hdev
      cases h
      refine ⟨fun hb => ?_, hI.answered⟩
      have hup := hI.loaded hb
      rwa [hdev] at hup
    · cases h
  | tick k =>
    simp only [dashStep] at h
    split at h
    · cases h
      refine ⟨hI.loaded, fun j k' a hj => ?_⟩
      have hj' : (s.polls.add ⟨k, none⟩).get j = some ⟨k', some a⟩ := hj
      rw [Slots.get_add] at hj'
      split_ifs at hj'
      · cases hj'
      · exact hI.answered j k' a hj'
    · cases h
  | pollServe j bootCompleted =>
    simp only [dashStep] at h
    split at h
    · rename_i k hj
      split_ifs at h
      cases h
      refine hI.setPoll hj fun k' a ha => ?_
      cases ha
      exact le_rfl
    · cases h
  | pollReply j late =>
    simp only [dashStep] at h
    split at h
    · rename_i k b hj
      cases h
      exact (hI.setPoll hj (o := none) fun _ _ ho => by cases ho).congr rfl rfl rfl rfl rfl
    · rename_i k b hj
      cases h
      exact (hI.setPoll hj (o := none) fun _ _ ho => by cases ho).congr rfl rfl rfl rfl rfl
    · cases h
  | pollLost j late =>
    simp only [dashStep] at h
    split at h
    · rename_i k a hj
      cases h
      exact (hI.setPoll hj (o := none) fun _ _ ho => by cases ho).congr rfl rfl rfl rfl rfl
    · cases h

/-- What is cleared in order is cleared in time. -/
theorem Inv.inTime {s : Dash} (hI : Inv s) {e : DashEvent} (hC : ClearsInOrder s e) :
    ClearsInTime s e := by
  cases e with
  | pollReply j late =>
    intro k b hj _
    exact hI.loaded ((hC k b hj).mono (hI.answered j k _ hj))
  | toggleLost i =>
    intro _ hd
    rcases hC with hC | hC
    · rw [hd] at hC
      cases hC
    · exact hI.loaded hC
  | _ => trivial

theorem flagTruthful_session (db : Db) : FlagTruthful (session db) := fun _ _ => rfl

/-- **The flag.**  In every interleaving of toggles, applies, reboots and polls, however the calls end:
with no toggle in flight and `scopeDirty` false, the running device has loaded the rows of the
database, if each answer that clears the flag is of a session that was booted after the last
statement, and no response is lost with a statement of this boot unmarked.  The step at which it goes
wrong is a poll that ends an apply, or a response that is lost, out of time. -/
theorem dirty_iff (db : Db) (evs : List DashEvent) :
    (dashSystem.EachStep ClearsInOrder (session db) evs →
      dashSystem.Always FlagTruthful (session db) evs) ∧
    (dashSystem.Always FlagTruthful (session db) evs ↔
      dashSystem.EachStep ClearsInTime (session db) evs) := by
  constructor
  · intro hC
    have hboth : dashSystem.Always (fun s => Inv s ∧ FlagTruthful s) (session db) evs := by
      refine StepSystem.always_of_inv (C := ClearsInOrder) ?_
        ⟨inv_session db, flagTruthful_session db⟩ hC
      intro s e s' ⟨hI, hP⟩ hC h
      exact ⟨hI.step h, (dirty_step hP h).mpr (hI.inTime hC)⟩
    exact hboth.mono fun _ h => h.2
  · exact StepSystem.always_iff_eachStep (I := fun _ => True) (fun _ _ _ _ _ => trivial)
      (fun _ _ _ _ hP h => dirty_step hP h) trivial (flagTruthful_session db)

/-- A package is checked and applied, and a poll is answered by the new session. -/
def polledAfterBoot : List DashEvent :=
  [.toggle comApp true, .exec 0 .ran, .exec 0 .ran, .toggleReply 0, .click, .applyServe 0, .applyEnd 0,
    .goDown, .boot, .bootDone, .tick 0, .pollServe 0 true]

/-- Its reply clears the flag. -/
theorem dirty_cleared_after_boot :
    (dashSystem.run (session oneModule) (polledAfterBoot ++ [.pollReply 0 false])).map
        Dash.scopeDirty = some false ∧
      dashSystem.Always FlagTruthful (session oneModule)
        (polledAfterBoot ++ [.pollReply 0 false]) := by
  refine ⟨by decide +kernel, (dirty_iff _ _).1 (StepSystem.eachStep_append.mpr ⟨?_, ?_⟩)⟩
  · refine StepSystem.eachStep_of_label fun e he s => ?_
    simp only [polledAfterBoot, List.mem_cons, List.not_mem_nil, or_false] at he
    rcases he with rfl | rfl | rfl | rfl | rfl | rfl | rfl | rfl | rfl | rfl | rfl | rfl <;> trivial
  · intro r hr
    have h : (dashSystem.run (session oneModule) polledAfterBoot).map (fun s =>
        (((s.polls.get 0).bind Poll.answer).map Answer.boot, s.lastApplied)) =
        some (some 1, some 0) := by decide +kernel
    simp only [hr, Option.map_some, Option.some.injEq, Prod.mk.injEq] at h
    refine fun _ _ => ⟨fun k b hj c hc => ?_, trivial⟩
    rw [hj] at h
    rw [hc] at h
    obtain ⟨hb, hc⟩ := h
    cases hb
    cases hc
    exact Nat.zero_lt_one

/-- A package is checked and applied; the first poll is answered by the session that is about to go
down. -/
def polledTooSoon : List DashEvent :=
  [.toggle comApp true, .exec 0 .ran, .exec 0 .ran, .toggleReply 0, .click, .applyServe 0, .applyEnd 0,
    .tick 0, .pollServe 0 true, .pollReply 0 false]

/-- A package is checked after the new session has answered the poll and before the page has the
answer. -/
def checkedMeanwhile : List DashEvent :=
  [.toggle comApp true, .exec 0 .ran, .exec 0 .ran, .toggleReply 0, .click, .applyServe 0, .applyEnd 0,
    .goDown, .boot, .bootDone, .tick 0, .pollServe 0 true, .toggle "org.app".toList true, .exec 1 .ran,
    .exec 1 .ran, .toggleReply 1, .pollReply 0 false]

/-- What the flag and the device say about a row. -/
def observed (row : ScopeRow) (s : Dash) : Bool × Bool × Bool × Bool :=
  (s.toggles.quiet, s.scopeDirty, ownRows s.db row,
    match s.device with
    | .up loaded _ => loaded row
    | .down => ownRows s.db row)

theorem not_truthful {s : Dash} {row : ScopeRow} (h : observed row s = (true, false, true, false)) :
    ¬ FlagTruthful s := by
  intro hP
  simp only [observed, Prod.mk.injEq] at h
  obtain ⟨hq, hd, hrow, hdev⟩ := h
  have hup := hP hq hd
  cases hs : s.device with
  | up loaded completed =>
    rw [hs] at hup hdev
    have hrow' : loaded row = true := (congrFun hup row).trans hrow
    exact absurd (hrow'.symm.trans hdev) (by decide)
  | down =>
    rw [hs] at hdev
    exact absurd (hrow.symm.trans hdev) (by decide)

/-- The flag is cleared and the device does not have the row, in either run. -/
theorem dirty_cleared_too_soon :
    ¬ dashSystem.Always FlagTruthful (session oneModule) polledTooSoon ∧
      ¬ dashSystem.Always FlagTruthful (session oneModule) checkedMeanwhile := by
  have h1 : (dashSystem.run (session oneModule) polledTooSoon).map (observed ⟨1, comApp, 0⟩) =
      some (true, false, true, false) := by decide +kernel
  have h2 : (dashSystem.run (session oneModule) checkedMeanwhile).map
      (observed ⟨1, "org.app".toList, 0⟩) = some (true, false, true, false) := by decide +kernel
  obtain ⟨s1, hs1, hobs1⟩ := Option.map_eq_some_iff.mp h1
  obtain ⟨s2, hs2, hobs2⟩ := Option.map_eq_some_iff.mp h2
  exact ⟨fun h => not_truthful hobs1 (h.last hs1), fun h => not_truthful hobs2 (h.last hs2)⟩

end HeadlessAndroid.Dashboard
