import HeadlessAndroid.Lib.StepSystem
import HeadlessAndroid.Lib.FileStore
import HeadlessAndroid.Lib.JsNumber

/-!
# HeadlessAndroid.Apk — concurrent uploads of POST /api/apk

Each request opens its file in `uploadsDir`, writes it, lets `adb install` open and read it, and
unlinks it; the steps of different requests interleave.  The name of the file is the millisecond of
the upload and its sanitised name, so that two uploads can get the same file.  The file system tells
two names apart where they differ in one character, and takes names of this length: a name that is
too long for it fails at `open`, and such an upload is never stored.
-/

namespace HeadlessAndroid.Apk

open Lib Lib.Js

/-! ## Names -/

/-- The text ends in `.apk`, in small or capital letters. -/
def isApkEnding : Text → Bool
  | ['.', a, p, k] => (a == 'a' || a == 'A') && (p == 'p' || p == 'P') && (k == 'k' || k == 'K')
  | _ => false

/-- `/\.apk$/i.test(originalname)`. -/
def passesFilter (name : Text) : Bool := isApkEnding (name.drop (name.length - 4))

/-- `[A-Za-z0-9._-]`. -/
def isSafe (c : Char) : Bool := isLetter c || isDigit c || c == '.' || c == '_' || c == '-'

/-- One `_` for each run of other characters; `inRun` after one of them. -/
def sanitizeFrom : Bool → Text → Text
  | _, [] => []
  | inRun, c :: t =>
    if isSafe c then c :: sanitizeFrom false t
    else if inRun then sanitizeFrom true t
    else '_' :: sanitizeFrom true t

/-- `originalname.replace(/[^A-Za-z0-9._-]+/g, "_")`. -/
def sanitize (name : Text) : Text := sanitizeFrom false name

/-- One upload: the name it is sent with, `Date.now()` when its name is asked for, its bytes. -/
structure Upload where
  originalname : Text
  now : ℕ
  bytes : Bytes

/-- `${Date.now()}_${safe}`. -/
def Upload.filename (u : Upload) : Text := natText u.now ++ '_' :: sanitize u.originalname

/-- A name that `join` puts directly under `uploadsDir`. -/
def IsChildName (name : Text) : Prop := name ≠ [] ∧ '/' ∉ name ∧ name ≠ ['.'] ∧ name ≠ ['.', '.']

theorem isSafe_sanitizeFrom : ∀ (inRun : Bool) (t : Text) {c : Char},
    c ∈ sanitizeFrom inRun t → isSafe c = true
  | _, [], _, h => by cases h
  | inRun, x :: t, c, h => by
    unfold sanitizeFrom at h
    by_cases hx : isSafe x = true
    · rw [if_pos hx] at h
      rcases List.mem_cons.mp h with rfl | h
      · exact hx
      · exact isSafe_sanitizeFrom false t h
    · rw [if_neg hx] at h
      split at h
      · exact isSafe_sanitizeFrom true t h
      · rcases List.mem_cons.mp h with rfl | h
        · rfl
        · exact isSafe_sanitizeFrom true t h

/-- **Every upload is stored directly under `uploadsDir`**, whatever its name. -/
theorem filename_child (u : Upload) : IsChildName u.filename := by
  have hhead : ∃ c t, natText u.now = c :: t ∧ isDigit c = true := by
    cases h : natText u.now with
    | nil => exact absurd h (natText_ne_nil u.now)
    | cons c t => exact ⟨c, t, rfl, natText_digit (h ▸ List.mem_cons_self)⟩
  obtain ⟨c, t, hct, hd⟩ := hhead
  have hdot : ∀ s : Text, u.filename ≠ '.' :: s := by
    intro s hs
    unfold Upload.filename at hs
    rw [hct, List.cons_append, List.cons.injEq] at hs
    rw [hs.1] at hd
    cases hd
  refine ⟨by simp [Upload.filename], fun hm => ?_, hdot [], hdot ['.']⟩
  unfold Upload.filename at hm
  rcases List.mem_append.mp hm with hm | hm
  · cases natText_digit hm
  · rcases List.mem_cons.mp hm with hm | hm
    · cases hm
    · cases isSafe_sanitizeFrom false _ hm

theorem natText_inj {m n : ℕ} (h : natText m = natText n) : m = n := by
  have := digits_natText m
  rw [h, digits_natText, Option.some.injEq] at this
  exact this.symm

/-- Two uploads get one name when they come in one millisecond and sanitise to the same name. -/
theorem filename_eq_iff (u v : Upload) : u.filename = v.filename ↔
    u.now = v.now ∧ sanitize u.originalname = sanitize v.originalname := by
  constructor
  · intro h
    have hno : ∀ n, '_' ∉ natText n := fun n hm => by cases natText_digit hm
    have hdrop : ∀ w : Upload, w.filename.dropWhile (· ≠ '_') = '_' :: sanitize w.originalname := by
      intro w
      have hall : ∀ c ∈ natText w.now, (decide (c ≠ '_')) = true :=
        fun c hc => decide_eq_true fun e => hno w.now (e ▸ hc)
      unfold Upload.filename
      rw [List.dropWhile_append_of_pos hall]
      simp
    have hs : sanitize u.originalname = sanitize v.originalname := by
      have := hdrop u
      rw [h, hdrop v, List.cons.injEq] at this
      exact this.2.symm
    refine ⟨natText_inj ?_, hs⟩
    unfold Upload.filename at h
    rw [hs] at h
    exact List.append_cancel_right h
  · rintro ⟨h1, h2⟩
    unfold Upload.filename
    rw [h1, h2]

/-! ## Requests -/

/-- Where a request is: `file` is the file it has open, `got` what `adb install` has read of it. -/
inductive Stage where
  | waiting
  | writing (file count : ℕ)
  | stored
  | installing (file : ℕ) (got : Bytes)
  | installed (got : Bytes)
  | failed
  | finished

/-- The request has a file that it will unlink. -/
def Stage.live : Stage → Bool
  | .waiting => false
  | .finished => false
  | _ => true

/-- The file of the request is stored and its installation is not over. -/
def Stage.pending : Stage → Bool
  | .stored => true
  | .installing _ _ => true
  | _ => false

structure Server (ι : Type) where
  disk : Disk Text
  stage : ι → Stage

inductive Event (ι : Type) where
  /-- multer asks for the name and opens the file. -/
  | arrive (r : ι)
  /-- The next `n` bytes of the upload are written. -/
  | write (r : ι) (n : ℕ)
  | finish (r : ι)
  /-- The upload breaks off and multer removes its file. -/
  | abort (r : ι)
  /-- `adb install` opens the file. -/
  | openApk (r : ι)
  | read (r : ι) (n : ℕ)
  | eof (r : ι)
  /-- `adb install` ends without having read the file to its end. -/
  | fail (r : ι)
  /-- The `finally` of the handler: `unlink(path)`. -/
  | cleanup (r : ι)

variable {ι : Type} (up : ι → Upload)

/-- No request has come yet; `uploadsDir` may hold anything. -/
def start (disk : Disk Text) : Server ι where
  disk := disk
  stage := fun _ => .waiting

/-- What a stored upload is promised. -/
structure Safe (s : Server ι) : Prop where
  child : ∀ r, (s.stage r).live = true → IsChildName (up r).filename
  kept : ∀ r, (s.stage r).pending = true →
    ∃ file, s.disk.dir (up r).filename = some file ∧ s.disk.data file = (up r).bytes
  reads : ∀ r file got, s.stage r = .installing file got → got <+: (up r).bytes
  installed : ∀ r got, s.stage r = .installed got → got = (up r).bytes

section Step

variable [DecidableEq ι]

def Server.set (s : Server ι) (r : ι) (disk : Disk Text) (stage : Stage) : Server ι where
  disk := disk
  stage := Function.update s.stage r stage

section Set

variable (s : Server ι) (r : ι) (d d' : Disk Text) (st st' : Stage)

@[simp] theorem set_disk : (s.set r d st).disk = d := rfl

@[simp] theorem set_stage_self : (s.set r d st).stage r = st := Function.update_self _ _ _

theorem set_stage_of_ne {q : ι} (h : q ≠ r) : (s.set r d st).stage q = s.stage q :=
  Function.update_of_ne h _ _

@[simp] theorem set_set : (s.set r d st).set r d' st' = s.set r d' st' := by
  simp [Server.set]

end Set

def step (s : Server ι) : Event ι → Option (Server ι)
  | .arrive r =>
    match s.stage r with
    | .waiting =>
      if passesFilter (up r).originalname then
        let (file, disk) := s.disk.create (up r).filename
        some (s.set r disk (.writing file 0))
      else none
    | _ => none
  | .write r n =>
    match s.stage r with
    | .writing file count =>
      if count + n ≤ (up r).bytes.length then
        let chunk := ((up r).bytes.drop count).take n
        some (s.set r (s.disk.pwrite file count chunk) (.writing file (count + n)))
      else none
    | _ => none
  | .finish r =>
    match s.stage r with
    | .writing _ count => if count = (up r).bytes.length then some (s.set r s.disk .stored) else none
    | _ => none
  | .abort r =>
    match s.stage r with
    | .writing _ _ => some (s.set r (s.disk.unlink (up r).filename) .finished)
    | _ => none
  | .openApk r =>
    match s.stage r with
    | .stored =>
      match s.disk.dir (up r).filename with
      | some file => some (s.set r s.disk (.installing file []))
      | none => some (s.set r s.disk .failed)
    | _ => none
  | .read r n =>
    match s.stage r with
    | .installing file got =>
      some (s.set r s.disk (.installing file (got ++ ((s.disk.data file).drop got.length).take n)))
    | _ => none
  | .eof r =>
    match s.stage r with
    | .installing file got =>
      if (s.disk.data file).length ≤ got.length then some (s.set r s.disk (.installed got)) else none
    | _ => none
  | .fail r => if (s.stage r).pending then some (s.set r s.disk .failed) else none
  | .cleanup r =>
    match s.stage r with
    | .installed _ => some (s.set r (s.disk.unlink (up r).filename) .finished)
    | .failed => some (s.set r (s.disk.unlink (up r).filename) .finished)
    | _ => none

def server : StepSystem (Server ι) (Event ι) where
  step := step up

end Step

/-! ## Requests with names of their own -/

/-- What a request finds of its own file. -/
def Good (d : Disk Text) (u : Upload) : Stage → Prop
  | .waiting => True
  | .writing file count =>
    d.dir u.filename = some file ∧ d.data file = u.bytes.take count ∧ count ≤ u.bytes.length
  | .stored => ∃ file, d.dir u.filename = some file ∧ d.data file = u.bytes
  | .installing file got =>
    d.dir u.filename = some file ∧ d.data file = u.bytes ∧ got <+: u.bytes
  | .installed got => got = u.bytes
  | .failed => True
  | .finished => True

structure Inv (s : Server ι) : Prop where
  apart : ∀ q r, q ≠ r → (s.stage q).live = true → (s.stage r).live = true →
    (up q).filename ≠ (up r).filename
  good : ∀ r, Good s.disk (up r) (s.stage r)
  accepted : ∀ r, (s.stage r).live = true → passesFilter (up r).originalname = true

/-- No upload is opened under the name of one that is under way. -/
def NameFree (s : Server ι) : Event ι → Prop
  | .arrive r => ∀ q, q ≠ r → (s.stage q).live = true → (up q).filename ≠ (up r).filename
  | _ => True

variable {up}

theorem Good.of_same {d d' : Disk Text} {u : Upload} {st : Stage}
    (h : d.SameFile d' u.filename) (hg : Good d u st) : Good d' u st := by
  cases st with
  | writing file count =>
    obtain ⟨h1, h2, h3⟩ := hg
    exact ⟨h.dir.trans h1, (h.data h1).trans h2, h3⟩
  | stored =>
    obtain ⟨file, h1, h2⟩ := hg
    exact ⟨file, h.dir.trans h1, (h.data h1).trans h2⟩
  | installing file got =>
    obtain ⟨h1, h2, h3⟩ := hg
    exact ⟨h.dir.trans h1, (h.data h1).trans h2, h3⟩
  | installed got => exact hg
  | _ => trivial

theorem Inv.safe {s : Server ι} (hI : Inv up s) : Safe up s where
  child := fun r _ => filename_child (up r)
  kept := by
    intro r hp
    have hg := hI.good r
    cases hst : s.stage r with
    | stored =>
      rw [hst] at hg
      exact hg
    | installing file got =>
      rw [hst] at hg
      exact ⟨file, hg.1, hg.2.1⟩
    | _ => rw [hst] at hp; cases hp
  reads := by
    intro r file got hst
    have hg := hI.good r
    rw [hst] at hg
    exact hg.2.2
  installed := by
    intro r got hst
    have hg := hI.good r
    rw [hst] at hg
    exact hg

theorem inv_start (d : Disk Text) : Inv up (start d) where
  apart := fun _ _ _ h => by cases h
  good := fun _ => trivial
  accepted := fun _ h => by cases h

/-- What one step does: the request `r` moves on, has its own file as it should be, and leaves the
files of all other names alone; no other request under way has its name. -/
structure Moves (up : ι → Upload) (s : Server ι) (r : ι) (d : Disk Text) (st : Stage) : Prop where
  good : Good d (up r) st
  same : ∀ p, p ≠ (up r).filename → s.disk.SameFile d p
  free : ∀ q, q ≠ r → (s.stage q).live = true → (up q).filename ≠ (up r).filename
  accepted : passesFilter (up r).originalname = true

theorem Inv.free {s : Server ι} (hI : Inv up s) {r : ι} (hr : (s.stage r).live = true) :
    ∀ q, q ≠ r → (s.stage q).live = true → (up q).filename ≠ (up r).filename :=
  fun q hq hl => hI.apart q r hq hl hr

/-- A step that leaves the disk alone. -/
theorem Inv.moves_same {s : Server ι} (hI : Inv up s) {r : ι} {st : Stage}
    (hr : (s.stage r).live = true) (hg : Good s.disk (up r) st) : Moves up s r s.disk st :=
  ⟨hg, fun p _ => Disk.SameFile.refl s.disk p, hI.free hr, hI.accepted r hr⟩

/-- A step that unlinks the file of its request. -/
theorem Inv.moves_unlink {s : Server ι} (hI : Inv up s) {r : ι} (hr : (s.stage r).live = true) :
    Moves up s r (s.disk.unlink (up r).filename) .finished :=
  ⟨trivial, fun _ hp => Disk.sameFile_unlink hp, hI.free hr, hI.accepted r hr⟩

/-! What a request does to its own file. -/

theorem Good.created (d : Disk Text) (u : Upload) :
    Good (d.create u.filename).2 u (.writing (d.create u.filename).1 0) :=
  ⟨Disk.create_dir _, Disk.create_data _, Nat.zero_le _⟩

theorem Good.written {d : Disk Text} {u : Upload} {file count n : ℕ}
    (h : Good d u (.writing file count)) (hn : count + n ≤ u.bytes.length) :
    Good (d.pwrite file count ((u.bytes.drop count).take n)) u (.writing file (count + n)) := by
  obtain ⟨h1, h2, h3⟩ := h
  refine ⟨h1, ?_, hn⟩
  -- the offset of the write is where the file ends
  have hlen : (u.bytes.take count).length = count := by rw [List.length_take, min_eq_left h3]
  rw [Disk.pwrite_data, h2, Disk.overwrite_end hlen, ← List.take_add]

theorem Good.complete {d : Disk Text} {u : Upload} {file : ℕ}
    (h : Good d u (.writing file u.bytes.length)) : Good d u .stored := by
  obtain ⟨h1, h2, -⟩ := h
  exact ⟨file, h1, h2.trans List.take_length⟩

theorem Good.opened {d : Disk Text} {u : Upload} {file : ℕ} (h : Good d u .stored)
    (hfile : d.dir u.filename = some file) : Good d u (.installing file []) := by
  obtain ⟨file', h1, h2⟩ := h
  rw [hfile, Option.some.injEq] at h1
  subst h1
  exact ⟨hfile, h2, List.nil_prefix⟩

theorem Good.readMore {d : Disk Text} {u : Upload} {file : ℕ} {got : Bytes} (n : ℕ)
    (h : Good d u (.installing file got)) :
    Good d u (.installing file (got ++ ((d.data file).drop got.length).take n)) := by
  obtain ⟨h1, h2, h3⟩ := h
  refine ⟨h1, h2, ?_⟩
  have hgot : got = u.bytes.take got.length := List.prefix_iff_eq_take.mp h3
  have hmore : got ++ (u.bytes.drop got.length).take n = u.bytes.take (got.length + n) := by
    rw [List.take_add, ← hgot]
  rw [h2, hmore]
  exact List.take_prefix _ _

theorem Good.readAll {d : Disk Text} {u : Upload} {file : ℕ} {got : Bytes}
    (h : Good d u (.installing file got)) (hn : (d.data file).length ≤ got.length) :
    Good d u (.installed got) := by
  obtain ⟨-, h2, h3⟩ := h
  rw [h2] at hn
  exact h3.eq_of_length (le_antisymm h3.length_le hn)

theorem Stage.live_of_pending {st : Stage} (h : st.pending = true) : st.live = true := by
  cases st with
  | stored => rfl
  | installing file got => rfl
  | _ => cases h

variable [DecidableEq ι]

theorem step_moves {s s' : Server ι} {e : Event ι} (hI : Inv up s) (hC : NameFree up s e)
    (h : step up s e = some s') : ∃ r d st, s' = s.set r d st ∧ Moves up s r d st := by
  cases e with
  | arrive r =>
    simp only [step] at h
    split at h
    · split_ifs at h with hf
      cases h
      exact ⟨r, _, _, rfl, .created _ _, fun p hp => Disk.sameFile_create hp, hC, hf⟩
    · cases h
  | write r n =>
    simp only [step] at h
    split at h
    · rename_i file count hst
      split_ifs at h with hn
      cases h
      have hlive : (s.stage r).live = true := by rw [hst]; rfl
      have hg := hst ▸ hI.good r
      exact ⟨r, _, _, rfl, hg.written hn, fun p hp => Disk.sameFile_setData hg.1 hp,
        hI.free hlive, hI.accepted r hlive⟩
    · cases h
  | finish r =>
    simp only [step] at h
    split at h
    · rename_i file count hst
      split_ifs at h with hn
      cases h
      have hg := hst ▸ hI.good r
      rw [hn] at hg
      exact ⟨r, _, _, rfl, hI.moves_same (by rw [hst]; rfl) hg.complete⟩
    · cases h
  | abort r =>
    simp only [step] at h
    split at h
    · rename_i hst
      cases h
      exact ⟨r, _, _, rfl, hI.moves_unlink (by rw [hst]; rfl)⟩
    · cases h
  | openApk r =>
    simp only [step] at h
    split at h
    · rename_i hst
      have hlive : (s.stage r).live = true := by rw [hst]; rfl
      have hg := hst ▸ hI.good r
      split at h
      · rename_i file hfile
        cases h
        exact ⟨r, _, _, rfl, hI.moves_same hlive (hg.opened hfile)⟩
      · cases h
        exact ⟨r, _, _, rfl, hI.moves_same hlive trivial⟩
    · cases h
  | read r n =>
    simp only [step] at h
    split at h
    · rename_i file got hst
      cases h
      have hg := hst ▸ hI.good r
      exact ⟨r, _, _, rfl, hI.moves_same (by rw [hst]; rfl) (hg.readMore n)⟩
    · cases h
  | eof r =>
    simp only [step] at h
    split at h
    · rename_i file got hst
      split_ifs at h with hn
      cases h
      have hg := hst ▸ hI.good r
      exact ⟨r, _, _, rfl, hI.moves_same (by rw [hst]; rfl) (hg.readAll hn)⟩
    · cases h
  | fail r =>
    simp only [step] at h
    split_ifs at h with hp
    cases h
    exact ⟨r, _, _, rfl, hI.moves_same (Stage.live_of_pending hp) trivial⟩
  | cleanup r =>
    simp only [step] at h
    split at h
    · rename_i hst
      cases h
      exact ⟨r, _, _, rfl, hI.moves_unlink (by rw [hst]; rfl)⟩
    · rename_i hst
      cases h
      exact ⟨r, _, _, rfl, hI.moves_unlink (by rw [hst]; rfl)⟩
    · cases h

theorem Good.of_dead {d : Disk Text} {u : Upload} {st : Stage} (h : st.live = false) :
    Good d u st := by
  cases st with
  | waiting => trivial
  | finished => trivial
  | _ => cases h

theorem inv_step {s s' : Server ι} {e : Event ι} (hI : Inv up s) (hC : NameFree up s e)
    (h : step up s e = some s') : Inv up s' := by
  obtain ⟨r, d, st, rfl, hm⟩ := step_moves hI hC h
  constructor
  · intro p q hpq hp hq
    by_cases hpr : p = r
    · subst hpr
      have hqr : q ≠ p := Ne.symm hpq
      simp only [Server.set, Function.update_of_ne hqr] at hq
      exact (hm.free q hqr hq).symm
    · simp only [Server.set, Function.update_of_ne hpr] at hp
      by_cases hqr : q = r
      · subst hqr
        exact hm.free p hpr hp
      · simp only [Server.set, Function.update_of_ne hqr] at hq
        exact hI.apart p q hpq hp hq
  · intro q
    by_cases hqr : q = r
    · subst hqr
      simp only [Server.set, Function.update_self]
      exact hm.good
    · simp only [Server.set, Function.update_of_ne hqr]
      by_cases hl : (s.stage q).live = true
      · exact (hI.good q).of_same (hm.same _ (hm.free q hqr hl))
      · exact Good.of_dead (Bool.eq_false_of_not_eq_true hl)
  · intro q hq
    by_cases hqr : q = r
    · subst hqr
      exact hm.accepted
    · simp only [Server.set, Function.update_of_ne hqr] at hq
      exact hI.accepted q hq

/-- **A run that never opens an upload under a name that is under way is safe.** -/
theorem safe_of_nameFree (d : Disk Text) {evs : List (Event ι)}
    (h : (server up).EachStep (NameFree up) (start d) evs) :
    (server up).Always (Safe up) (start d) evs := by
  have hinv : (server up).Always (Inv up) (start d) evs :=
    StepSystem.always_of_inv (I := Inv up) (fun _ _ _ hI hC hs => inv_step hI hC hs) (inv_start d) h
  exact hinv.mono fun _ hI => hI.safe

/-! ## Uploads of one name -/

theorem step_arrive {s : Server ι} {r : ι} (hw : s.stage r = .waiting)
    (hf : passesFilter (up r).originalname = true) : step up s (.arrive r) =
      some (s.set r (s.disk.create (up r).filename).2 (.writing (s.disk.create (up r).filename).1 0)) := by
  simp [step, hw, hf]

theorem accepted_of_arrive {s s' : Server ι} {r : ι} (h : step up s (.arrive r) = some s') :
    passesFilter (up r).originalname = true := by
  simp only [step] at h
  split at h
  · split_ifs at h with hf
    exact hf
  · cases h

theorem step_write_all {s : Server ι} {r : ι} {file : ℕ} (hw : s.stage r = .writing file 0) :
    step up s (.write r (up r).bytes.length) = some (s.set r
      (s.disk.pwrite file 0 (up r).bytes) (.writing file (up r).bytes.length)) := by
  simp [step, hw]

theorem step_finish {s : Server ι} {r : ι} {file : ℕ}
    (hw : s.stage r = .writing file (up r).bytes.length) :
    step up s (.finish r) = some (s.set r s.disk .stored) := by
  simp [step, hw]

/-- A request that has not come can come, be written at once and be stored. -/
theorem run_upload {s : Server ι} {r : ι} (hw : s.stage r = .waiting)
    (hf : passesFilter (up r).originalname = true) : ∃ d, (server up).run s
      [.arrive r, .write r (up r).bytes.length, .finish r] = some (s.set r d .stored) := by
  obtain ⟨file, d1, h1⟩ : ∃ file d1, step up s (.arrive r) = some (s.set r d1 (.writing file 0)) :=
    ⟨_, _, step_arrive hw hf⟩
  refine ⟨d1.pwrite file 0 (up r).bytes, ?_⟩
  have h2 : step up _ (.write r (up r).bytes.length) = _ :=
    step_write_all (set_stage_self s r d1 (.writing file 0))
  rw [set_set, set_disk] at h2
  have h3 : step up _ (.finish r) = _ := step_finish (set_stage_self s r
    (d1.pwrite file 0 (up r).bytes) (.writing file (up r).bytes.length))
  rw [set_set, set_disk] at h3
  rw [StepSystem.run_cons_of h1, StepSystem.run_cons_of h2, StepSystem.run_cons_of h3]
  rfl

/-- A stored request whose installation fails unlinks its file. -/
theorem run_fail {s : Server ι} {r : ι} (hs : s.stage r = .stored) :
    (server up).run s [.fail r, .cleanup r] =
      some (s.set r (s.disk.unlink (up r).filename) .finished) := by
  have h1 : step up s (.fail r) = some (s.set r s.disk .failed) := by
    simp [step, hs, Stage.pending]
  have h2 : step up (s.set r s.disk .failed) (.cleanup r) =
      some (s.set r (s.disk.unlink (up r).filename) .finished) := by
    simp [step]
  rw [StepSystem.run_cons_of h1, StepSystem.run_cons_of h2]
  rfl

/-- **Two uploads of one name**: the second is stored and cleaned up while the first is stored, and
takes the file of the first with it. -/
theorem not_safe_of_collision (d : Disk Text) {q r : ι} (hqr : q ≠ r)
    (hq : passesFilter (up q).originalname = true) (hr : passesFilter (up r).originalname = true)
    (hname : (up q).filename = (up r).filename) :
    ¬ (server up).Always (Safe up) (start d)
      ([.arrive q, .write q (up q).bytes.length, .finish q] ++
        ([.arrive r, .write r (up r).bytes.length, .finish r] ++ [.fail r, .cleanup r])) := by
  obtain ⟨d1, h1⟩ := run_upload (s := start d) (r := q) rfl hq
  have hw : ((start d).set q d1 .stored).stage r = .waiting := set_stage_of_ne _ _ _ _ hqr.symm
  obtain ⟨d2, h2⟩ := run_upload hw hr
  have h3 : (server up).run _ [.fail r, .cleanup r] = _ :=
    run_fail (set_stage_self ((start d).set q d1 .stored) r d2 .stored)
  rw [set_set, set_disk] at h3
  intro hA
  have hend := hA.last ((StepSystem.run_append h1).trans ((StepSystem.run_append h2).trans h3))
  have hst : (((start d).set q d1 .stored).set r (d2.unlink (up r).filename) .finished).stage q =
      .stored := by
    rw [set_stage_of_ne _ _ _ _ hqr, set_stage_self]
  obtain ⟨file, hfile, -⟩ := hend.kept q (by rw [hst]; rfl)
  rw [set_disk, hname, Disk.unlink_dir] at hfile
  cases hfile

/-- No two uploads that pass the filter come in one millisecond and sanitise to one name. -/
def NoCollision (up : ι → Upload) : Prop :=
  ∀ q r, q ≠ r → passesFilter (up q).originalname = true →
    passesFilter (up r).originalname = true →
    ¬ ((up q).now = (up r).now ∧ sanitize (up q).originalname = sanitize (up r).originalname)

/-- **Concurrent uploads.**  For any number of uploads with any names, times and bytes: every
interleaving of their requests is safe just when no two of them collide. -/
theorem uploads_safe_iff (up : ι → Upload) (d : Disk Text) :
    (∀ evs, (server up).Always (Safe up) (start d) evs) ↔ NoCollision up := by
  constructor
  · intro h q r hqr hq hr hsame
    exact not_safe_of_collision d hqr hq hr ((filename_eq_iff _ _).mpr hsame) (h _)
  · intro h evs
    refine safe_of_nameFree d (StepSystem.eachStep_of_inv (I := Inv up) ?_ (inv_start d))
    intro s e s' hI hs
    have hC : NameFree up s e := by
      cases e with
      | arrive r =>
        intro q hq hl hname
        exact h q r hq (hI.accepted q hl) (accepted_of_arrive hs) ((filename_eq_iff _ _).mp hname)
      | _ => trivial
    exact ⟨hC, inv_step hI hC hs⟩

/-- `a b.apk` and `a_b.apk` in one millisecond. -/
def twoApks : Bool → Upload
  | false => ⟨"a b.apk".toList, 1700000000000, [1, 2]⟩
  | true => ⟨"a_b.apk".toList, 1700000000000, [3]⟩

/-- An empty `uploadsDir`. -/
def emptyDir : Disk Text where
  dir := fun _ => none
  data := fun _ => []
  next := 0
  inj := fun h => by cases h
  lt_next := fun h => by cases h

theorem uploads_collide : ¬ ∀ evs, (server twoApks).Always (Safe twoApks) (start emptyDir) evs := by
  intro h
  refine not_safe_of_collision emptyDir (q := false) (r := true) (by decide)
    (by decide +kernel) (by decide +kernel) ((filename_eq_iff _ _).mpr ⟨rfl, ?_⟩) (h _)
  decide +kernel

end HeadlessAndroid.Apk
