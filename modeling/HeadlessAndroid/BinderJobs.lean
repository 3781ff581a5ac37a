import HeadlessAndroid.BinderExit

/-!
# HeadlessAndroid.BinderJobs — jobs, their tokens and the locks they are under

Between two steps every token is held by a job (`Sys`).  A step takes the tokens of one job in hand
(`Busy`), works with them and gives them to the jobs that go on.
-/

namespace HeadlessAndroid.BinderNodes

open Lib Lib.SearchTree

variable {T T' : Multiset Token} {d d' : Driver} {i : Option ℕ} {k p : ℕ} {j : Job}

/-- The process whose outer lock the job is under. -/
def Job.awaits : Job → Option ℕ
  | .await _ t _ _ _ => some t.toProc
  | .clean _ t => some t.toProc
  | _ => none

/-- The list that the thread under the lock has given. -/
def Locked.list : Locked → Option Todo
  | .inc _ _ targetList _ => targetList
  | .cleanup _ _ => none

/-- What is taken apart is kept there by references, or belongs to the process itself. -/
structure Held.Backs (h : Held) (t : Txn) : Prop where
  node : h.tmp = true ∨ h.proc = t.toProc
  proc : h.tmpProc = true ∨ h.proc = t.toProc ∨ t.objects = []

/-- What the job `i` relies on beside its tokens. -/
def Job.Fits (d : Driver) (i : ℕ) : Job → Prop
  | .putNode _ | .putProc _ | .done _ _ _ => True
  | .send p t | .translate p t _ _ _ => t.toProc < d.procs.length ∧ t.toProc ≠ p
  | .await p t n strong fromHandle => t.toProc < d.procs.length ∧ t.toProc ≠ p ∧ ∃ r,
    d.lockOf t.toProc = some (.inc r strong (if fromHandle then none else some ⟨p, true⟩) (some i)) ∧
      d.nodeOf r = some n
  | .buffer t => t.toProc < d.procs.length ∧ d.running t.toProc = true
  | .release h t => t.toProc < d.procs.length ∧ h.Backs t
  | .unbind h t _ => t.toProc < d.procs.length ∧ h.Backs t ∧ t.nextPtr ≠ none
  | .clean h t => t.toProc < d.procs.length ∧ h.Backs t ∧
    (h.tmpProc = true ∨ h.proc = t.toProc) ∧ ∃ r, d.lockOf t.toProc = some (.cleanup r (some i))

theorem Job.Fits.mono (h : j.Fits d k) (hlen : d.procs.length ≤ d'.procs.length)
    (hrun : ∀ t, j = .buffer t → d'.running t.toProc = d.running t.toProc)
    (hlock : ∀ q l, j.awaits = some q → d.lockOf q = some l → l.job = some k →
      d'.lockOf q = some l ∧ d'.nodeOf l.ref = d.nodeOf l.ref) : j.Fits d' k := by
  cases j with
  | putNode _ => trivial
  | putProc _ => trivial
  | done _ _ _ => trivial
  | send _ t => exact ⟨lt_of_lt_of_le h.1 hlen, h.2⟩
  | translate _ t _ _ _ => exact ⟨lt_of_lt_of_le h.1 hlen, h.2⟩
  | await p t n strong fromHandle =>
    obtain ⟨hlt, hne, r, hl, hn⟩ := h
    obtain ⟨hl', hn'⟩ := hlock _ _ rfl hl rfl
    exact ⟨lt_of_lt_of_le hlt hlen, hne, r, hl', hn'.trans hn⟩
  | buffer t => exact ⟨lt_of_lt_of_le h.1 hlen, (hrun t rfl).trans h.2⟩
  | release h' t => exact ⟨lt_of_lt_of_le h.1 hlen, h.2⟩
  | unbind h' t n => exact ⟨lt_of_lt_of_le h.1 hlen, h.2⟩
  | clean h' t =>
    obtain ⟨hlt, hb, hp, r, hl⟩ := h
    exact ⟨lt_of_lt_of_le hlt hlen, hb, hp, r, (hlock _ _ rfl hl rfl).1⟩

/-- What the jobs hold that nobody has in hand. -/
def Driver.rest (d : Driver) (i : Option ℕ) : Multiset Token :=
  Slots.total Job.tokens (i.elim d.jobs fun k => d.jobs.put k none)

/-- A step has the job `i` (or none) and the tokens `T` in hand. -/
structure Busy (i : Option ℕ) (T : Multiset Token) (d : Driver) : Prop where
  inv : Inv none (T + d.rest i) d
  fits : ∀ k j, some k ≠ i → d.jobs.get k = some j → j.Fits d k
  lock : ∀ p l k, d.lockOf p = some l → l.job = some k → some k ≠ i →
    ∃ j, d.jobs.get k = some j ∧ j.awaits = some p
  list : ∀ p l, d.lockOf p = some l → l.job = none → l.list = none
  refs : ∀ r ref, d.refs.get r = some ref → ref.proc < d.procs.length

/-- The driver between two steps. -/
def Sys (d : Driver) : Prop := Busy none 0 d

theorem Sys.begin (h : Sys d) (hk : d.jobs.get k = some j) :
    Busy (some k) j.tokens d ∧ j.Fits d k := by
  obtain ⟨m, hm, hput⟩ := Slots.total_split Job.tokens hk
  refine ⟨⟨?_, fun k' j' _ => h.fits k' j' (by simp), fun p l k' hl hj _ =>
    h.lock p l k' hl hj (by simp), h.list, h.refs⟩, h.fits k j (by simp) hk⟩
  have hinv := h.inv
  have hrest : d.rest (some k) = m := (hput none).trans (zero_add m)
  have htok : d.rest none = j.tokens + m := hm
  rw [zero_add, htok] at hinv
  rw [hrest]
  exact hinv

/-- A job that is under no lock has none. -/
theorem Sys.unlocked (h : Sys d) (hk : d.jobs.get k = some j) (hj : j.awaits = none) {q : ℕ}
    {l : Locked} (hl : d.lockOf q = some l) : l.job ≠ some k := by
  intro he
  obtain ⟨j', hj', hq⟩ := h.lock q l k hl he (by simp)
  cases hk.symm.trans hj'
  rw [hj] at hq
  cases hq

/-- A piece of a step that is done with the tokens in hand. -/
theorem Busy.lift {o : Option ℕ} (h : Busy i T d) (hinv : Inv none (T' + d.rest i) d')
    (hapart : Apart o d d') (hlen : ∀ q, o = some q → q < d.procs.length)
    (hbefore : ∀ q l k, o = some q → d.lockOf q = some l → l.job = some k → some k = i)
    (hafter : ∀ q l k, o = some q → d'.lockOf q = some l → l.job = some k → some k = i)
    (hlist : ∀ q l, o = some q → d'.lockOf q = some l → l.job = none → l.list = none) :
    Busy i T' d' := by
  refine ⟨?_, fun k j hk hj => ?_, fun p l k hl hj hk => ?_, fun p l hl hj => ?_,
    fun r ref hr => ?_⟩
  · have hrest : d'.rest i = d.rest i := by rw [Driver.rest, Driver.rest, hapart.jobs]
    rw [hrest]
    exact hinv
  · rw [hapart.jobs] at hj
    refine (h.fits k j hk hj).mono hapart.length.ge (fun t _ => hapart.running t.toProc) ?_
    intro q l _ hl hlj
    have hoq : o ≠ some q := fun he => hk (hbefore q l k he hl hlj)
    have hl' : d'.lockOf q = some l := (hapart.lock q hoq).trans hl
    refine ⟨hl', ?_⟩
    -- the reference that the lock is for is there, and is the same one
    obtain ⟨P, hP, hout⟩ := Option.bind_eq_some_iff.mp hl'
    obtain ⟨ref, hr, hrp, -⟩ := ((hinv.proc q P hP).lock l hout).ref
    rcases hapart.ref l.ref ref hr with he | ⟨y, hy, hn, -⟩
    · exact absurd (he.trans (congrArg some hrp)) hoq
    · simp [Driver.nodeOf, hr, hy, hn]
  · by_cases ho : o = some p
    · exact absurd (hafter p l k ho hl hj) hk
    · rw [hapart.lock p ho] at hl
      obtain ⟨j, hget, hp⟩ := h.lock p l k hl hj hk
      exact ⟨j, hapart.jobs ▸ hget, hp⟩
  · by_cases ho : o = some p
    · exact hlist p l ho hl hj
    · exact h.list p l (hapart.lock p ho ▸ hl) hj
  · rw [hapart.length]
    rcases hapart.ref r ref hr with he | ⟨y, hy, -, hp⟩
    · exact hlen _ he
    · rw [hp]
      exact h.refs r y hy

/-- A piece of a step under the lock of one process. -/
theorem Busy.under (h : Busy i T d) (hinv : Inv none (T' + d.rest i) d')
    (hapart : Apart (some p) d d') (hlt : p < d.procs.length)
    (hbefore : ∀ l, d.lockOf p = some l → l.job = i)
    (hafter : ∀ l, d'.lockOf p = some l → l.job = i ∧ (i = none → l.list = none)) :
    Busy i T' d' := by
  refine h.lift hinv hapart (fun q hq => ?_) (fun q l k hq hl hj => ?_) (fun q l k hq hl hj => ?_)
    (fun q l hq hl hj => ?_)
  · cases hq
    exact hlt
  · cases hq
    exact hj.symm.trans (hbefore l hl)
  · cases hq
    exact hj.symm.trans (hafter l hl).1
  · cases hq
    exact (hafter l hl).2 ((hafter l hl).1.symm.trans hj)

/-- A piece of a step that touches no lock. -/
theorem Busy.keep (h : Busy i T d) (hinv : Inv none (T' + d.rest i) d') (hapart : Apart none d d') :
    Busy i T' d' :=
  h.lift hinv hapart (by simp) (by simp) (by simp) (by simp)

/-- The job in hand goes on as `j`. -/
theorem Busy.finish (h : Busy (some k) (j.tokens + T) d) {j₀ : Job} (hk : d.jobs.get k = some j₀)
    (hfits : j.Fits (d.setJob k j) k)
    (hlock : ∀ p l, d.lockOf p = some l → l.job = some k → j.awaits = some p) :
    Busy none T (d.setJob k j) := by
  obtain ⟨m, -, hput⟩ := Slots.total_split Job.tokens hk
  have hget : ∀ k', (d.setJob k j).jobs.get k' = if k' = k then some j else d.jobs.get k' :=
    fun k' => Slots.get_put hk _ k'
  refine ⟨?_, fun k' j' _ hj' => ?_, fun p l k' hl hj _ => ?_, h.list, h.refs⟩
  · have hrest : d.rest (some k) = m := (hput none).trans (zero_add m)
    have hrest' : (d.setJob k j).rest none = j.tokens + m := hput (some j)
    have hinv := h.inv
    rw [hrest, add_assoc, add_left_comm] at hinv
    rw [hrest']
    exact hinv.congr ⟨rfl, rfl, rfl, rfl, rfl, fun _ => rfl, id, id, id⟩
  · rw [hget] at hj'
    split_ifs at hj' with hkk
    · cases hj'
      exact hkk ▸ hfits
    · exact (h.fits k' j' (by simpa using hkk) hj').mono le_rfl (fun _ _ => rfl)
        fun q l _ hl _ => ⟨hl, rfl⟩
  · rw [hget]
    split_ifs with hkk
    · exact ⟨j, rfl, hlock p l hl (hkk ▸ hj)⟩
    · exact h.lock p l k' hl hj (by simpa using hkk)

/-- The job in hand is over. -/
theorem Busy.endJob (h : Busy (some k) T d) {j₀ : Job} (hk : d.jobs.get k = some j₀)
    (hlock : ∀ p l, d.lockOf p = some l → l.job ≠ some k) : Busy none T (d.endJob k) := by
  have hget : ∀ k', (d.endJob k).jobs.get k' = if k' = k then none else d.jobs.get k' :=
    fun k' => Slots.get_put hk _ k'
  refine ⟨h.inv.congr ⟨rfl, rfl, rfl, rfl, rfl, fun _ => rfl, id, id, id⟩, fun k' j' _ hj' => ?_,
    fun p l k' hl hj _ => ?_, h.list, h.refs⟩
  · rw [hget] at hj'
    split_ifs at hj' with hkk
    exact (h.fits k' j' (by simpa using hkk) hj').mono le_rfl (fun _ _ => rfl)
      fun q l _ hl _ => ⟨hl, rfl⟩
  · rw [hget]
    split_ifs with hkk
    · exact absurd hj (hkk ▸ hlock p l hl)
    · exact h.lock p l k' hl hj (by simpa using hkk)

/-- A new job takes some of the tokens in hand. -/
theorem Busy.spawn (h : Busy none (j.tokens + T) d) (hfits : j.Fits (d.spawn j) d.jobs.length) :
    Busy none T (d.spawn j) := by
  have hget : ∀ k', (d.spawn j).jobs.get k' =
      if k' = d.jobs.length then some j else d.jobs.get k' := fun k' => Slots.get_add _ _ k'
  refine ⟨?_, fun k' j' _ hj' => ?_, fun p l k' hl hj _ => ?_, h.list, h.refs⟩
  · have hrest : (d.spawn j).rest none = d.rest none + j.tokens := Slots.total_add _ _ _
    have hinv := h.inv
    rw [add_assoc, add_left_comm, add_comm j.tokens] at hinv
    rw [hrest]
    exact hinv.congr ⟨rfl, rfl, rfl, rfl, rfl, fun _ => rfl, id, id, id⟩
  · rw [hget] at hj'
    split_ifs at hj' with hkk
    · cases hj'
      exact hkk ▸ hfits
    · exact (h.fits k' j' (by simp) hj').mono le_rfl (fun _ _ => rfl) fun q l _ hl _ => ⟨hl, rfl⟩
  · obtain ⟨j', hj', hp⟩ := h.lock p l k' hl hj (by simp)
    refine ⟨j', ?_, hp⟩
    rw [hget, if_neg (Nat.ne_of_lt (Slots.lt_length_of_get hj')), hj']

end HeadlessAndroid.BinderNodes
