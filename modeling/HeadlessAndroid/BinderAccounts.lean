import HeadlessAndroid.BinderRuns

/-!
# HeadlessAndroid.BinderAccounts — the space for async transactions, and the page counts

Half of a region is for async transactions.  An allocation takes its padded size from that space and
a free gives its unpadded size back, so a buffer without any data costs eight bytes for ever; and the
check before an allocation is of the unpadded size, so such a buffer can take the last bytes below
zero.
-/

namespace HeadlessAndroid.Binder

open Lib Lib.SearchTree Lib.Tiling

variable {rb : Rebalance ℕ} {a : BinderAlloc} {s s' : Proc} {es : List Event}

/-! ### The balance of async space -/

/-- What an allocated buffer takes of the space for async transactions. -/
def asyncCost (t : Span BinderBuffer) : ℕ :=
  if t.owner.asyncTransaction then t.hi - t.lo + bufferStructSize else 0

def asyncTaken (a : BinderAlloc) : ℕ := ((live a).map asyncCost).sum

/-- What is taken and what is lost. -/
def asyncUsed (s : Proc) : ℕ := asyncTaken s.alloc + wordSize * s.emptyAsync

theorem asyncTaken_mid {l m : List (Span BinderBuffer)} {t : Span BinderBuffer}
    (h : live a = l ++ t :: m) :
    asyncTaken a = ((l ++ m).map asyncCost).sum + asyncCost t := by
  unfold asyncTaken
  rw [h]
  simp only [List.map_append, List.map_cons, List.sum_append, List.sum_cons]
  omega

theorem asyncCost_taken (b : BinderBuffer) (ds os ex lo size : ℕ) (isAsync : Bool) :
    asyncCost ⟨(b.taken ds os ex isAsync).attach true, lo, lo + size⟩ =
      if isAsync then size + bufferStructSize else 0 := by
  unfold asyncCost BinderBuffer.attach BinderBuffer.taken
  dsimp only
  rw [Nat.add_sub_cancel_left]

/-- What freeing a buffer gives back, and what it does not. -/
theorem asyncCost_eq (hwf : Wf s.alloc) {t : Span BinderBuffer} (ht : t ∈ live s.alloc) :
    asyncCost t = if t.owner.asyncTransaction then
      freedSize t.owner + bufferStructSize + wordSize * s.freesEmpty t.lo else 0 := by
  obtain ⟨hspan, hused⟩ := mem_live.mp ht
  obtain ⟨sz, hreq, hfit⟩ := hwf.fits t hspan hused
  obtain ⟨hsz, hword, -⟩ := requestSize_some hreq
  have hfreed : freedSize t.owner = sz := hsz
  unfold asyncCost Proc.freesEmpty
  rw [at?_of_live hwf ht]
  dsimp only
  rw [hfit, hfreed]
  cases t.owner.asyncTransaction with
  | false => rfl
  | true =>
    by_cases hz : sz = 0
    · subst hz
      rfl
    · have : wordSize ≤ sz := by
        unfold wordSize at *
        omega
      simp [hz, max_eq_left this]

/-- A buffer that is freed without having been for an async transaction counts for nothing. -/
theorem freesEmpty_sync (hwf : Wf s.alloc) {t : Span BinderBuffer} (ht : t ∈ live s.alloc)
    (hsync : t.owner.asyncTransaction = false) : s.freesEmpty t.lo = 0 := by
  unfold Proc.freesEmpty
  rw [at?_of_live hwf ht]
  simp [hsync]

/-- In a region whatever is allocated is small. -/
theorem Mapped.small (hm : Mapped s) {t : Span BinderBuffer}
    (ht : t ∈ spans BinderBuffer.data s.alloc.buffers s.alloc.top) : t.hi - t.lo ≤ sz4M := by
  obtain ⟨h1, h2, h3⟩ := spans_bounds hm.wf.tiles t ht
  have := hm.le
  unfold BinderAlloc.top at h3
  omega

/-- How one step moves async space: not at all, or `c` bytes for a request that is met, or `c`
bytes back. -/
inductive Shift (s s' : Proc) : Event → Prop
  | keep {e : Event} (hf : s'.alloc.freeAsyncSpace = s.alloc.freeAsyncSpace)
      (hu : asyncUsed s' = asyncUsed s)
      (he : ∀ env ds os ex, e = .transact env ds os ex true → s'.inFlight = s.inFlight) :
      Shift s s' e
  | take {env : Env} {ds os ex sz : ℕ} (hs : requestSize ds os ex = some sz)
      (hle : max sz wordSize ≤ sz4M) (hcheck : sz + bufferStructSize ≤ s.alloc.freeAsyncSpace)
      (hf : s'.alloc.freeAsyncSpace = (s.alloc.freeAsyncSpace +
        (sizeMod - (max sz wordSize + bufferStructSize) % sizeMod)) % sizeMod)
      (hu : asyncUsed s' = asyncUsed s + (max sz wordSize + bufferStructSize))
      (hmet : s'.inFlight ≠ s.inFlight) : Shift s s' (.transact env ds os ex true)
  | give {e : Event} {c : ℕ} (hle : c ≤ sz4M + bufferStructSize)
      (hf : s'.alloc.freeAsyncSpace = (s.alloc.freeAsyncSpace + c) % sizeMod)
      (hu : asyncUsed s = asyncUsed s' + c) (he : ∀ env ds os ex, e ≠ .transact env ds os ex true) :
      Shift s s' e

/-- A free gives back what the buffer cost, but for what is lost. -/
theorem shift_free (hm : Mapped s) {e : Event} {t : Span BinderBuffer}
    {l m : List (Span BinderBuffer)} (he : ∀ env ds os ex, e ≠ .transact env ds os ex true)
    (hl : live s.alloc = l ++ t :: m) (hl' : live s'.alloc = l ++ m)
    (ha : s'.alloc.freeAsyncSpace = asyncAfterFree s.alloc t.owner)
    (hempty : s'.emptyAsync = s.emptyAsync + s.freesEmpty t.lo) : Shift s s' e := by
  have ht : t ∈ live s.alloc := by simp [hl]
  have hcost := asyncCost_eq hm.wf ht
  have htaken := asyncTaken_mid hl
  have htaken' : asyncTaken s'.alloc = ((l ++ m).map asyncCost).sum := by
    unfold asyncTaken
    rw [hl']
  have hsmall := hm.small (mem_live.mp ht).1
  unfold asyncAfterFree at ha
  cases hasync : t.owner.asyncTransaction with
  | false =>
    rw [hasync] at hcost ha
    refine .keep ha ?_ fun env ds os ex h => absurd h (he env ds os ex)
    unfold asyncUsed
    rw [htaken, htaken', hcost, hempty, freesEmpty_sync hm.wf ht hasync]
    rfl
  | true =>
    rw [hasync] at hcost ha
    simp only [if_true] at hcost ha
    have hle : freedSize t.owner ≤ sz4M := by
      unfold asyncCost at hcost
      rw [if_pos hasync] at hcost
      omega
    refine .give (c := freedSize t.owner + bufferStructSize) (by omega) ha ?_ he
    unfold asyncUsed
    rw [htaken, htaken', hcost, hempty, Nat.mul_add]
    omega

/-- Who may free a buffer and whether it has a transaction have no part in what it costs. -/
theorem asyncTaken_mark {a' : BinderAlloc} {t : Span BinderBuffer} {b : BinderBuffer}
    {l m : List (Span BinderBuffer)} (hl : live a = l ++ t :: m)
    (hl' : live a' = l ++ ⟨b, t.lo, t.hi⟩ :: m)
    (hb : b.asyncTransaction = t.owner.asyncTransaction) : asyncTaken a' = asyncTaken a := by
  rw [asyncTaken_mid hl, asyncTaken_mid hl']
  unfold asyncCost
  rw [hb]

theorem Happens.shift {e : Event} (hm : Mapped s) (hh : Happens s e s')
    (hb : s'.alloc.buffers ≠ []) : Shift s s' e := by
  cases hh with
  | idle he _ _ _ hl ha =>
    refine .keep ha ?_ fun _ _ _ _ _ => rfl
    unfold asyncUsed asyncTaken
    rw [hl]
  | mmapDone | crash | vmaOpen | vmaClose => exact .keep rfl rfl fun _ _ _ _ _ => rfl
  | @transact env ds os ex isAsync a t sz _ _ _ hs hcheck ht _ hle _ hsent =>
    obtain ⟨l, m, hl, hl'⟩ := hsent.live
    have htaken := asyncTaken_mid hl'
    rw [asyncCost_taken] at htaken
    have hold : asyncTaken s.alloc = ((l ++ m).map asyncCost).sum := by
      unfold asyncTaken
      rw [hl]
    have hasync := hsent.async
    unfold asyncAfterNew at hasync
    have hsmall := hle.trans (hm.small ht)
    cases isAsync with
    | false =>
      refine .keep hasync ?_ fun _ _ _ _ h => by cases h
      unfold asyncUsed
      dsimp only
      rw [htaken, hold]
      rfl
    | true =>
      refine .take hs hsmall ?_ hasync ?_ fun h => ?_
      · have hsz : sz ≤ sz4M := (le_max_left _ _).trans hsmall
        have hlt : sz + bufferStructSize < sizeMod := by
          unfold sz4M bufferStructSize sizeMod at *
          omega
        rw [Nat.mod_eq_of_lt hlt] at hcheck
        simpa using hcheck
      · unfold asyncUsed
        dsimp only
        rw [htaken, hold, if_pos rfl]
        omega
      · have := congrArg List.length h
        simp at this
  | abort _ _ _ _ _ hl hl' ha => exact shift_free hm (by simp) hl hl' ha rfl
  | finishFree _ _ _ _ hl hl' ha => exact shift_free hm (by simp) hl hl' ha rfl
  | deliver _ _ _ _ hl hl' ha =>
    refine .keep ha ?_ (by simp)
    unfold asyncUsed
    dsimp only
    rw [asyncTaken_mark hl hl' rfl]
  | cleanup _ _ _ _ hl hl' ha =>
    refine .keep ha ?_ (by simp)
    unfold asyncUsed
    dsimp only
    rw [asyncTaken_mark hl hl' rfl]
  | endTransaction _ _ _ _ hl hl' ha =>
    refine .keep ha ?_ (by simp)
    unfold asyncUsed
    dsimp only
    rw [asyncTaken_mark hl hl' rfl]
  | freeBuffer _ _ _ _ hl hl' ha =>
    refine .keep ha ?_ (by simp)
    unfold asyncUsed
    dsimp only
    rw [asyncTaken_mark hl hl' rfl]
  | release _ _ _ hb' => exact absurd hb' hb

theorem Happens.bufferSize_eq {e : Event} (hh : Happens s e s') (hb : s'.alloc.buffers ≠ []) :
    s'.alloc.bufferSize = s.alloc.bufferSize := by
  cases hh with
  | idle _ _ _ hk => exact hk.bufferSize
  | transact _ hk => exact hk.bufferSize
  | abort _ hk => exact hk.bufferSize
  | finishFree _ hk => exact hk.bufferSize
  | deliver _ hk => exact hk.bufferSize
  | cleanup _ hk => exact hk.bufferSize
  | endTransaction _ hk => exact hk.bufferSize
  | freeBuffer _ hk => exact hk.bufferSize
  | mmapDone | crash | vmaOpen | vmaClose => rfl
  | release _ _ _ hb' => exact absurd hb' hb

theorem Mapped.buffers_ne (h : Mapped s) : s.alloc.buffers ≠ [] := fun hnil => by
  have hpos := h.pos
  have htiles := h.wf.tiles
  rw [hnil] at htiles
  have htiles : s.alloc.buffer = s.alloc.top := htiles
  unfold BinderAlloc.top at htiles
  omega

/-- Where a step makes the region, nothing is taken or lost. -/
theorem Starts.balance {e : Event} (he : s.emptyAsync = 0) (hh : Starts s e s')
    (hb : s'.alloc.buffers ≠ []) :
    s'.alloc.freeAsyncSpace + asyncUsed s' = s'.alloc.bufferSize / 2 := by
  cases hh with
  | still h => exact absurd h.buffers hb
  | failed h => exact absurd h.buffers hb
  | release _ _ hb' => exact absurd hb' hb
  | mmap _ _ _ _ hfresh ha =>
    unfold asyncUsed asyncTaken
    dsimp only
    rw [ha, hfresh.live, he]
    rfl

/-- What is free, what is taken and what is lost, but for a wrap of the counter. -/
def Balanced (s : Proc) : Prop :=
  s.alloc.buffers ≠ [] →
    s.alloc.freeAsyncSpace + asyncUsed s ≡ s.alloc.bufferSize / 2 [MOD sizeMod]

theorem balanced_step {e : Event} (hinv : Inv s) (hbal : Balanced s)
    (hstep : procStep rb s e = some s') : Balanced s' := by
  intro hb'
  cases hinv with
  | unmapped hu => rw [(step_starts hu hstep).balance hu.emptyAsync hb']
  | mapped hm =>
    have hh := step_happens hm hstep
    have hbal := hbal hm.buffers_ne
    rw [hh.bufferSize_eq hb']
    cases hh.shift hm hb' with
    | keep hf hu =>
      rw [hf, hu]
      exact hbal
    | take hs hle hcheck hf hu =>
      rw [hf, hu]
      unfold Nat.ModEq sizeMod at *
      omega
    | give hle hf hu =>
      rw [hf]
      rw [hu] at hbal
      unfold Nat.ModEq sizeMod at *
      omega
  | released _ _ _ _ _ hr => rw [procStep_of_released hr] at hstep; cases hstep

/-- **The balance of async space.**  At any time what is free, what the allocated async buffers cost
and eight bytes for each empty async buffer that was ever freed add up to half of the region, but for
a wrap of the counter. -/
theorem async_space_balance (h : (procSystem rb).run .init es = some s) : Balanced s := by
  refine (StepSystem.run_inv (I := fun s => Inv s ∧ Balanced s) ?_
    ⟨inv_init, fun hb => absurd rfl hb⟩ h).2
  rintro s e s' ⟨hinv, hbal⟩ hstep
  exact ⟨hinv.step hstep, balanced_step hinv hbal hstep⟩

theorem async_space_balance_delivering : ∃ s,
    (procSystem Rebalance.plain).run .init sampleRun = some s ∧ Balanced s := by
  obtain ⟨s, h⟩ : ∃ s, (procSystem Rebalance.plain).run .init sampleRun = some s := ⟨_, rfl⟩
  exact ⟨s, h, async_space_balance h⟩

/-! ### When the counter does not wrap -/

/-- The balance is exact: async buffers take no more than half of the region. -/
def Exact (s : Proc) : Prop :=
  s.alloc.buffers ≠ [] → s.alloc.freeAsyncSpace + asyncUsed s = s.alloc.bufferSize / 2

/-- An async transaction without any data gets a buffer only where there is space for what it
takes, not just for what is checked. -/
def CoversEmpty (rb : Rebalance ℕ) (s : Proc) (e : Event) : Prop :=
  ∀ env ds os ex, e = .transact env ds os ex true → requestSize ds os ex = some 0 →
    (∃ d a', binderAllocNewBuf rb env s.alloc ds os ex true = some (.ok d, a')) →
    wordSize + bufferStructSize ≤ s.alloc.freeAsyncSpace

/-- A request is met just when a buffer more is in flight after it. -/
theorem transact_met_iff {env : Env} {ds os ex : ℕ} {isAsync : Bool}
    (hstep : procStep rb s (.transact env ds os ex isAsync) = some s') :
    (∃ d a', binderAllocNewBuf rb env s.alloc ds os ex isAsync = some (.ok d, a')) ↔
      s'.inFlight ≠ s.inFlight := by
  obtain ⟨hc, hr⟩ := going_of_step hstep
  unfold procStep at hstep
  rw [if_neg (by simp [hc, hr])] at hstep
  dsimp only at hstep
  rcases hrun : binderAllocNewBuf rb env s.alloc ds os ex isAsync with _ | ⟨_ | d, a'⟩
  · rw [hrun] at hstep
    cases hstep
    exact iff_of_false (by simp) (not_not.mpr rfl)
  · rw [hrun] at hstep
    cases hstep
    exact iff_of_false (by simp) (not_not.mpr rfl)
  · rw [hrun] at hstep
    cases hstep
    refine iff_of_true ⟨d, a', rfl⟩ fun h => ?_
    have h : d :: s.inFlight = s.inFlight := h
    have := congrArg List.length h
    simp at this

theorem no_request_unmapped (hu : Unmapped s.alloc) {env : Env} {ds os ex d : ℕ} {isAsync : Bool}
    {a' : BinderAlloc} :
    binderAllocNewBuf rb env s.alloc ds os ex isAsync ≠ some (.ok d, a') := by
  unfold binderAllocNewBuf
  rw [if_pos (by simp [hu.vma])]
  simp

/-- One step keeps the balance exact just when it covers an empty async buffer. -/
theorem exact_step {e : Event} (hinv : Inv s) (hex : Exact s) (hstep : procStep rb s e = some s') :
    Exact s' ↔ CoversEmpty rb s e := by
  cases hinv with
  | unmapped hu =>
    refine iff_of_true (fun hb' => (step_starts hu hstep).balance hu.emptyAsync hb') ?_
    rintro env ds os ex - - ⟨d, a', hmet⟩
    exact absurd hmet (no_request_unmapped hu.alloc)
  | released _ _ _ _ _ hr => rw [procStep_of_released hr] at hstep; cases hstep
  | mapped hm =>
    have hh := step_happens hm hstep
    have hex := hex hm.buffers_ne
    have hsize := hm.le
    by_cases hrel : e = .release
    · subst hrel
      refine iff_of_true (fun hb => ?_) (fun env ds os ex h => by cases h)
      cases hh with
      | idle he => cases he
      | release _ _ _ hb' => exact absurd hb' hb
    · have hb' := (hh.mapped hm hrel).buffers_ne
      unfold Exact
      rw [hh.bufferSize_eq hb']
      cases hh.shift hm hb' with
      | keep hf hu he =>
        refine iff_of_true (fun _ => by rw [hf, hu]; exact hex) ?_
        rintro env ds os ex rfl - hmet
        exact absurd (he _ _ _ _ rfl) ((transact_met_iff hstep).mp hmet)
      | @take env ds os ex sz hs hle hcheck hf hu hmet =>
        have hword := (requestSize_some hs).2.1
        have hcovers : CoversEmpty rb s (.transact env ds os ex true) ↔
            (sz = 0 → wordSize + bufferStructSize ≤ s.alloc.freeAsyncSpace) := by
          constructor
          · rintro hcov rfl
            exact hcov env ds os ex rfl hs ((transact_met_iff hstep).mpr hmet)
          · rintro hcov env' ds' os' ex' he hs' -
            cases he
            rw [hs] at hs'
            exact hcov (Option.some.inj hs')
        rw [hcovers, hf, hu]
        unfold wordSize sz4M bufferStructSize sizeMod at *
        constructor
        · intro hex' hz
          have := hex' hb'
          omega
        · intro hcov _
          omega
      | give hle hf hu he =>
        refine iff_of_true (fun _ => ?_) fun env ds os ex h => absurd h (he env ds os ex)
        rw [hf]
        unfold sz4M bufferStructSize sizeMod at *
        omega

/-- The balance of async space is exact throughout a run just when no empty async transaction of the
run takes more than what is left; then the async buffers take at most half of the region. -/
theorem async_space_exact_iff :
    (procSystem rb).Always Exact .init es ↔
      (procSystem rb).EachStep (CoversEmpty rb) .init es :=
  StepSystem.always_iff_eachStep (I := Inv) (fun _ _ _ hI hs => hI.step hs)
    (fun _ _ _ hI hex hs => exact_step hI hex hs) inv_init fun hb => absurd rfl hb

/-- Half of two pages is for async transactions; one of 3904 bytes leaves room for the struct of
another buffer, and one without data takes eight bytes more. -/
def wrappingRun : List Event :=
  [.mmap ⟨some 4096, true, true⟩ true false 8192 16384, .mmapDone,
    .transact ⟨true, true, fun _ => none, true⟩ (4096 - 2 * bufferStructSize) 0 0 true,
    .transact ⟨true, true, fun _ => none, true⟩ 0 0 0 true]

/-- The counter wraps. -/
theorem async_space_exact_iff_wrapping : ∃ s,
    (procSystem Rebalance.plain).run .init wrappingRun = some s ∧
      s.alloc.freeAsyncSpace = sizeMod - wordSize ∧
      ¬ (procSystem Rebalance.plain).EachStep (CoversEmpty Rebalance.plain) .init wrappingRun := by
  obtain ⟨s, hrun, hfree, hb, hsize⟩ : ∃ s,
      (procSystem Rebalance.plain).run .init wrappingRun = some s ∧
      s.alloc.freeAsyncSpace = sizeMod - wordSize ∧ s.alloc.buffers ≠ [] ∧
      s.alloc.bufferSize = 8192 := ⟨_, rfl, by decide, List.cons_ne_nil _ _, rfl⟩
  refine ⟨s, hrun, hfree, fun h => ?_⟩
  have hex := (async_space_exact_iff.mpr h).last hrun hb
  rw [hfree, hsize] at hex
  unfold sizeMod wordSize at hex
  omega

/-! ### The page counts after a mapping that failed -/

/-- `binder_alloc_print_pages` reads pages that are there. -/
def Printable (s : Proc) : Prop :=
  s.released = true ∨ binderAllocPrintPages s.alloc ≠ none

/-- No mapping that has got its page array fails for want of its first buffer. -/
def GetsBuffer (s : Proc) (e : Event) : Prop :=
  ∀ env vmStart vmEnd, e = .mmap env true false vmStart vmEnd → s.alloc.buffer = 0 →
    (env.area.isSome && env.pages) = true → env.buffer = true

theorem Mapped.printable (hm : Mapped s) : Printable s := by
  obtain ⟨lru, free, hrun, -⟩ := countPages_spec (s.alloc.bufferSize / pageSize) 0 0 0 0
    (by rw [hm.wf.pages, Nat.zero_add]) hm.wf.active
  refine Or.inr ?_
  unfold binderAllocPrintPages
  rw [hrun]
  simp

/-- Without a page array the counts are those of no page at all. -/
theorem Unmapped.printPages_iff (hu : Unmapped a) :
    binderAllocPrintPages a ≠ none ↔ a.bufferSize / pageSize = 0 := by
  unfold binderAllocPrintPages
  rw [hu.pages]
  cases a.bufferSize / pageSize with
  | zero => simp [countPages]
  | succ n => simp [countPages]

theorem printable_step {e : Event} (hinv : Inv s) (hp : Printable s)
    (hstep : procStep rb s e = some s') : Printable s' ↔ GetsBuffer s e := by
  cases hinv with
  | released _ _ _ _ _ hr => rw [procStep_of_released hr] at hstep; cases hstep
  | mapped hm =>
    have hh := step_happens hm hstep
    refine iff_of_true ?_ fun env vmStart vmEnd _ h0 => absurd h0 hm.wf.pos.ne'
    by_cases he : e = .release
    · subst he
      cases hh with
      | idle he => cases he
      | release => exact Or.inl rfl
    · exact (hh.mapped hm he).printable
  | unmapped hu _ hr =>
    have hp : s.alloc.bufferSize / pageSize = 0 :=
      hu.alloc.printPages_iff.mp (hp.resolve_left (by simp [hr]))
    have hh := step_starts hu hstep
    have hinv' := Inv.step (.unmapped hu (going_of_step hstep).1 hr) hstep
    cases hh with
    | still h _ he hb =>
      refine iff_of_true (Or.inr (h.printPages_iff.mpr (hb ▸ hp))) ?_
      exact fun env vmStart vmEnd h => absurd h (he env vmStart vmEnd)
    | release => exact iff_of_true (Or.inl rfl) fun env vmStart vmEnd h => by cases h
    | mmap he hwf hpos hle hl =>
      refine iff_of_true ?_ ?_
      · cases hinv' with
        | unmapped h => exact absurd h.areas (Nat.succ_ne_zero _)
        | mapped h => exact h.printable
        | released _ _ _ _ _ hr' => exact Or.inl hr'
      · rintro env vmStart vmEnd h - -
        cases h
        unfold MmapEnv.complete at he
        simp only [Bool.and_eq_true] at he
        exact he.2
    | @failed env vmStart vmEnd a h he hlt hb =>
      have hgets : GetsBuffer s (.mmap env true false vmStart vmEnd) ↔
          (env.area.isSome && env.pages) = false := by
        unfold MmapEnv.complete at he
        constructor
        · intro hg
          by_contra hno
          have hap : (env.area.isSome && env.pages) = true := by simpa using hno
          rw [hap, hg env vmStart vmEnd rfl hu.alloc.buffer hap] at he
          cases he
        · rintro hno env' vmStart' vmEnd' h - hap
          cases h
          rw [hno] at hap
          cases hap
      have hsame : Printable { s with alloc := a } ↔ a.bufferSize / pageSize = 0 := by
        rw [← h.printPages_iff]
        exact or_iff_right (by simp [hr])
      rw [hgets, hsame, hb]
      cases env.area.isSome && env.pages with
      | false => exact iff_of_true hp rfl
      | true =>
        refine iff_of_false ?_ (by simp)
        rw [if_pos rfl]
        unfold pageSize sz4M at *
        omega

/-- **The page counts can always be printed, but after a mapping that failed late.**  A mapping that
fails once the size of the region is set leaves no page array and the size, and reading the counts
then reads the array: the counts can be printed at every moment of a run just when no mapping of the
run fails so. -/
theorem print_pages_iff :
    (procSystem rb).Always Printable .init es ↔ (procSystem rb).EachStep GetsBuffer .init es :=
  StepSystem.always_iff_eachStep (I := Inv) (fun _ _ _ hI hs => hI.step hs)
    (fun _ _ _ hI hp hs => printable_step hI hp hs) inv_init
    (Or.inr (by simp [Proc.init, binderAllocInit, binderAllocPrintPages, countPages]))

/-- The size of the region is set and there is no page array. -/
theorem print_pages_iff_missing : ∃ s,
    (procSystem Rebalance.plain).run .init
        [.mmap ⟨some 4096, true, false⟩ true false 8192 16384] = some s ∧
      binderAllocPrintPages s.alloc = none ∧
      ¬ (procSystem Rebalance.plain).EachStep GetsBuffer .init
        [.mmap ⟨some 4096, true, false⟩ true false 8192 16384] := by
  obtain ⟨s, hrun, hnone, hr⟩ : ∃ s, (procSystem Rebalance.plain).run .init
      [.mmap ⟨some 4096, true, false⟩ true false 8192 16384] = some s ∧
      binderAllocPrintPages s.alloc = none ∧ s.released = false := ⟨_, rfl, rfl, rfl⟩
  refine ⟨s, hrun, hnone, fun h => ?_⟩
  rcases (print_pages_iff.mpr h).last hrun with hr' | hok
  · rw [hr] at hr'
    cases hr'
  · exact hok hnone

end HeadlessAndroid.Binder
