import HeadlessAndroid.BinderProc

/-!
# HeadlessAndroid.BinderRuns — what holds of the buffers of a process whatever its threads do

The allocated buffers are a heap of ranges: each step takes one range, the front of a best gap, gives
one back, or leaves them as they are.  Nothing else shows from outside but the pages, the space for
async transactions and who may free what.
-/

namespace HeadlessAndroid.Binder

open Lib Lib.SearchTree Lib.Tiling

variable {rb : Rebalance ℕ} {a : BinderAlloc} {s s' : Proc} {es : List Event}

/-- Two pages are mapped and two buffers are cut out of them; the first one, which was for an async
transaction, is delivered. -/
def sampleRun : List Event :=
  [.mmap ⟨some 4096, true, true⟩ true false 8192 16384, .mmapDone,
    .transact ⟨true, true, fun _ => none, true⟩ 16 0 0 true,
    .transact ⟨true, true, fun _ => none, true⟩ 4000 8 0 false, .deliver 4096]

/-! ### The heap that a region shows -/

structure Shows (a : BinderAlloc) (H : RangeHeap) : Prop where
  lo : H.lo = a.buffer
  hi : H.hi = a.top
  taken : H.taken = (live a).map fun t => (t.lo, t.hi)

theorem Wf.exists_shows (h : Wf a) : ∃ H, Shows a H := by
  refine ⟨⟨a.buffer, a.top, (live a).map fun t => (t.lo, t.hi), fun r hr => ?_, ?_⟩, rfl, rfl, rfl⟩
  · obtain ⟨t, ht, rfl⟩ := List.mem_map.mp hr
    exact h.live_bounds ht
  · exact h.live_pairwise.map _ fun _ _ hst => hst

/-- A region without buffers shows nothing. -/
theorem exists_shows_of_nil (h : a.buffers = []) : live a = [] ∧ ∃ H, Shows a H := by
  have hl : live a = [] := by
    unfold live
    rw [h]
    rfl
  exact ⟨hl, ⟨a.buffer, a.top, [], by simp, List.Pairwise.nil⟩, rfl, rfl, by rw [hl]; rfl⟩

theorem Inv.exists_shows (h : Inv s) : ∃ H, Shows s.alloc H := by
  cases h with
  | unmapped h => exact (exists_shows_of_nil h.alloc.buffers).2
  | mapped h => exact h.wf.exists_shows
  | released _ _ hb => exact (exists_shows_of_nil hb).2

theorem Shows.mem_taken {H : RangeHeap} (h : Shows a H) {r : ℕ × ℕ} :
    r ∈ H.taken ↔ ∃ t ∈ live a, (t.lo, t.hi) = r := by
  rw [h.taken, List.mem_map]

/-- A hole lies in one free buffer. -/
theorem free_of_hole (h : Wf a) {H : RangeHeap} (hs : Shows a H) {x n : ℕ} (hn : 0 < n)
    (hole : H.Hole x n) : ∃ t ∈ spans BinderBuffer.data a.buffers a.top,
      t.owner.free = true ∧ t.lo ≤ x ∧ x + n ≤ t.hi := by
  obtain ⟨h1, h2, h3⟩ := hole
  obtain ⟨t, ht, hf, hlo, hhi⟩ := exists_hole h.tiles h.merged hn (hs.lo ▸ h1) (hs.hi ▸ h2)
    fun t ht hu => h3 _ (hs.mem_taken.mpr ⟨t, mem_live.mpr ⟨ht, hu⟩, rfl⟩)
  exact ⟨t, ht, by simpa using hf, hlo, hhi⟩

/-- The free buffers are the gaps. -/
theorem gap_of_free (h : Wf a) {H : RangeHeap} (hs : Shows a H) {t : Span BinderBuffer}
    (ht : t ∈ spans BinderBuffer.data a.buffers a.top) (hf : t.owner.free = true) :
    H.Gap t.lo (t.hi - t.lo) := by
  obtain ⟨hb1, hb2, hb3⟩ := spans_bounds h.tiles t ht
  obtain ⟨pre, post, hbuf, hlo, hhi⟩ := mem_spans.mp ht
  obtain ⟨hpre, -, hpost⟩ := tiles_split.mp (hbuf ▸ h.tiles)
  obtain ⟨hlast, hhead⟩ := h.neighbours hbuf hf
  have hspans : spans BinderBuffer.data a.buffers a.top =
      spans BinderBuffer.data pre t.lo ++ t :: spans BinderBuffer.data post a.top := by
    rw [hbuf, spans_split, ← hlo, ← hhi]
  rw [← hlo] at hpre
  rw [← hhi] at hpost
  have hlen : t.lo + (t.hi - t.lo) = t.hi := by omega
  refine ⟨by omega, ⟨hs.lo ▸ hb1, by rw [hlen, hs.hi]; exact hb3, fun r hr => ?_⟩, ?_, ?_⟩
  · obtain ⟨u, hu, rfl⟩ := hs.mem_taken.mp hr
    obtain ⟨hu, hused⟩ := mem_live.mp hu
    rw [hspans] at hu
    rw [hlen]
    rcases List.mem_append.mp hu with hu | hu
    · exact Or.inr (spans_bounds hpre u hu).2.2
    · rcases List.mem_cons.mp hu with rfl | hu
      · simp [hf] at hused
      · exact Or.inl (spans_bounds hpost u hu).1
  · rcases List.eq_nil_or_concat pre with rfl | ⟨l, m, rfl⟩
    · have hpre : a.buffer = t.lo := hpre
      exact Or.inl (hs.lo ▸ hpre.symm)
    · rw [List.concat_eq_append] at *
      refine Or.inr ⟨(m.data, t.lo), hs.mem_taken.mpr ⟨⟨m, m.data, t.lo⟩, mem_live.mpr ⟨?_, ?_⟩,
        rfl⟩, rfl⟩
      · rw [hspans, spans_split]
        simp
      · exact hlast m (by simp)
  · rw [hlen]
    cases post with
    | nil =>
      have hpost : t.hi = a.top := hpost
      exact Or.inl (hs.hi ▸ hpost)
    | cons n post =>
      refine Or.inr ⟨(n.data, stop BinderBuffer.data post a.top), hs.mem_taken.mpr
        ⟨⟨n, n.data, stop BinderBuffer.data post a.top⟩, mem_live.mpr ⟨?_, ?_⟩, rfl⟩, hpost.1⟩
      · rw [hspans, spans]
        simp
      · exact hhead n (by simp)

theorem free_of_gap (h : Wf a) {H : RangeHeap} (hs : Shows a H) {x n : ℕ} (hg : H.Gap x n) :
    ∃ t ∈ spans BinderBuffer.data a.buffers a.top, t.owner.free = true ∧ t.lo = x ∧
      t.hi = x + n := by
  obtain ⟨t, ht, hf, hlo, hhi⟩ := free_of_hole h hs hg.pos hg.hole
  obtain ⟨-, -, htaken⟩ := (gap_of_free h hs ht hf).hole
  obtain ⟨hb1, hb2, hb3⟩ := spans_bounds h.tiles t ht
  have hn := hg.pos
  refine ⟨t, ht, hf, ?_, ?_⟩
  · rcases hg.left with hx | ⟨r, hr, hx⟩
    · have := hs.lo
      omega
    · have := (H.inside r hr).2.1
      rcases htaken r hr with h1 | h1 <;> omega
  · rcases hg.right with hx | ⟨r, hr, hx⟩
    · have := hs.hi
      omega
    · have := (H.inside r hr).2.1
      rcases htaken r hr with h1 | h1 <;> omega

/-- What an event comes to in the heap. -/
def Meets (s s' : Proc) (H H' : RangeHeap) : Event → Prop
  | .transact _ ds os es _ =>
    (s'.inFlight = s.inFlight ∧ H' = H) ∨
      ∃ sz x, requestSize ds os es = some sz ∧ s'.inFlight = x :: s.inFlight ∧
        H.TakeBest H' x (max sz wordSize)
  | .abort d | .finishFree d => H.Drop H' d
  | .mmap .. => H'.taken = H.taken
  | .release => H'.taken = []
  | .mmapDone | .deliver _ | .cleanup _ | .endTransaction _ | .freeBuffer _ | .shrink .. | .vmaOpen
  | .vmaClose => H' = H

theorem Shows.eq_of {a' : BinderAlloc} {H H' : RangeHeap} (h : Shows a H) (h' : Shows a' H')
    (hb : a'.buffer = a.buffer) (ht : a'.top = a.top)
    (hl : (live a').map (fun t => (t.lo, t.hi)) = (live a).map fun t => (t.lo, t.hi)) : H' = H :=
  RangeHeap.ext (h'.lo.trans (hb.trans h.lo.symm)) (h'.hi.trans (ht.trans h.hi.symm))
    (h'.taken.trans (hl.trans h.taken.symm))

/-- A buffer that is freed is dropped. -/
theorem Shows.drop {a' : BinderAlloc} {H H' : RangeHeap} (h : Shows a H) (h' : Shows a' H')
    (hwf : Wf a) (hk : Kept a a') {t : Span BinderBuffer} {l m : List (Span BinderBuffer)}
    (hl : live a = l ++ t :: m) (hl' : live a' = l ++ m) : H.Drop H' t.lo := by
  have hpos := (hwf.live_bounds (show t ∈ live a by simp [hl])).2.1
  refine ⟨t.hi - t.lo, ?_, ?_, l.map fun t => (t.lo, t.hi), m.map fun t => (t.lo, t.hi), ?_, ?_⟩
  · rw [h.lo, h'.lo, hk.buffer]
  · rw [h.hi, h'.hi, hk.top]
  · rw [h'.taken, hl', List.map_append]
  · rw [h.taken, hl, List.map_append, List.map_cons, Nat.add_sub_cancel' hpos.le]

theorem Happens.meets {e : Event} {H H' : RangeHeap} (h : Mapped s) (hh : Happens s e s')
    (hs : Shows s.alloc H) (hs' : Shows s'.alloc H') : Meets s s' H H' e := by
  cases hh with
  | idle he _ hwf hk hl ha =>
    have heq := hs.eq_of hs' hk.buffer hk.top (by rw [hl])
    cases e with
    | transact => exact Or.inl ⟨rfl, heq⟩
    | mmap => rw [Meets, heq]
    | freeBuffer | shrink => exact heq
    | _ => cases he
  | mmapDone | vmaOpen => exact hs.eq_of hs' rfl rfl rfl
  | crash => exact Or.inl ⟨rfl, hs.eq_of hs' rfl rfl rfl⟩
  | transact hwf hk hv hreq ha ht hfree hle hbest hcut =>
    obtain ⟨l, m, hl, hl'⟩ := hcut.live
    refine Or.inr ⟨_, _, hreq, rfl, ⟨hs'.lo.trans (hk.buffer.trans hs.lo.symm),
      hs'.hi.trans (hk.top.trans hs.hi.symm), l.map fun t => (t.lo, t.hi),
      m.map fun t => (t.lo, t.hi), ?_, ?_⟩, _, gap_of_free h.wf hs ht hfree, hle,
      fun y k hg hk => ?_⟩
    · rw [hs.taken, hl, List.map_append]
    · rw [hs'.taken, hl', List.map_append, List.map_cons]
    · obtain ⟨u, hu, huf, hlo, hhi⟩ := free_of_gap h.wf hs hg
      have := hbest u hu huf
      omega
  | abort hwf hk _ _ _ hl hl' _ => exact hs.drop hs' h.wf hk hl hl'
  | finishFree hwf hk _ _ hl hl' _ => exact hs.drop hs' h.wf hk hl hl'
  | deliver hwf hk _ _ hl hl' _ => exact hs.eq_of hs' hk.buffer hk.top (by rw [hl, hl']; simp)
  | cleanup hwf hk _ _ hl hl' _ => exact hs.eq_of hs' hk.buffer hk.top (by rw [hl, hl']; simp)
  | endTransaction hwf hk _ _ hl hl' _ =>
    exact hs.eq_of hs' hk.buffer hk.top (by rw [hl, hl']; simp)
  | freeBuffer hwf hk _ _ hl hl' _ => exact hs.eq_of hs' hk.buffer hk.top (by rw [hl, hl']; simp)
  | vmaClose => exact hs.eq_of hs' rfl rfl rfl
  | release _ _ _ hb _ =>
    rw [Meets, hs'.taken, (exists_shows_of_nil hb).1]
    rfl

theorem Starts.meets {e : Event} {H H' : RangeHeap} (h : Unmapped s.alloc) (hh : Starts s e s')
    (hs : Shows s.alloc H) (hs' : Shows s'.alloc H') : Meets s s' H H' e := by
  have hl := (exists_shows_of_nil h.buffers).1
  cases hh with
  | still h' hidle _ hb =>
    have heq := hs.eq_of hs' (h'.buffer.trans h.buffer.symm)
      (by unfold BinderAlloc.top; rw [h'.buffer, h.buffer, hb])
      (by rw [hl, (exists_shows_of_nil h'.buffers).1])
    cases e with
    | mmap => rw [Meets, heq]
    | transact => exact Or.inl ⟨rfl, heq⟩
    | freeBuffer | shrink => exact heq
    | _ => cases hidle
  | failed h' => rw [Meets, hs.taken, hs'.taken, hl, (exists_shows_of_nil h'.buffers).1]
  | mmap _ _ _ _ hfresh => rw [Meets, hs.taken, hs'.taken, hl, hfresh.live]
  | release _ _ hb =>
    rw [Meets, hs'.taken, (exists_shows_of_nil hb).1]
    rfl

/-- **The allocator refines a heap of ranges.**  Whatever the threads of the senders and of the
process have done, what is allocated is a heap of ranges, and the next step is a step of it: an
allocation takes the front of a best gap or nothing, a free gives back just its own range, and no
other step touches any range. -/
theorem allocator_refines_heap (h : (procSystem rb).run .init es = some s) {e : Event}
    (hstep : procStep rb s e = some s') :
    ∃ H H', Shows s.alloc H ∧ Shows s'.alloc H' ∧ Meets s s' H H' e := by
  have hinv := inv_of_run h
  obtain ⟨H, hs⟩ := hinv.exists_shows
  obtain ⟨H', hs'⟩ := (hinv.step hstep).exists_shows
  refine ⟨H, H', hs, hs', ?_⟩
  cases hinv with
  | unmapped hu => exact (step_starts hu hstep).meets hu.alloc hs hs'
  | mapped hm => exact (step_happens hm hstep).meets hm hs hs'
  | released _ _ _ _ _ hr => rw [procStep_of_released hr] at hstep; cases hstep

theorem allocator_refines_heap_freeing : ∃ s s' H H',
    (procSystem Rebalance.plain).run .init sampleRun = some s ∧
      procStep Rebalance.plain s (.abort 4112) = some s' ∧
      Shows s.alloc H ∧ Shows s'.alloc H' ∧ H.Drop H' 4112 := by
  obtain ⟨s, s', h, hstep⟩ : ∃ s s', (procSystem Rebalance.plain).run .init sampleRun = some s ∧
      procStep Rebalance.plain s (.abort 4112) = some s' := ⟨_, _, rfl, rfl⟩
  obtain ⟨H, H', hs, hs', hmeets⟩ := allocator_refines_heap h hstep
  exact ⟨s, s', H, H', h, hstep, hs, hs', hmeets⟩

/-! ### No `BUG_ON`, no `WARN_ON` -/

theorem Mapped.not_tooEarly (h : Mapped s) (hmm : s.alloc.vmaVmMm = true) (e : Event) :
    ¬ TooEarly s e := by
  have hpub : s.publishing ≠ true := fun hp => by
    rw [h.publishing_iff.mp hp] at hmm
    cases hmm
  cases e with
  | transact => exact fun hearly => hpub hearly.1
  | _ => exact id

theorem Happens.crashed_iff {e : Event} (h : Mapped s) (hc : s.crashed = false)
    (hh : Happens s e s') : s'.crashed = false ↔ ¬ TooEarly s e := by
  cases hh with
  | idle _ hok => exact iff_of_true hc hok
  | crash hearly => exact iff_of_false (by simp) (not_not_intro hearly)
  | transact _ _ hmm => exact iff_of_true hc (h.not_tooEarly hmm _)
  | _ => exact iff_of_true hc id

theorem Happens.quiet {e : Event} (h : Mapped s) (hh : Happens s e s') : s'.alloc.warnings = 0 := by
  by_cases he : e = .release
  · subst he
    cases hh with
    | idle _ _ hwf => exact hwf.quiet
    | release _ _ hw => exact hw
  · exact (hh.mapped h he).wf.quiet

theorem Starts.quiet {e : Event} (hh : Starts s e s') : s'.alloc.warnings = 0 := by
  cases hh with
  | still h => exact h.quiet
  | failed h => exact h.quiet
  | mmap _ hwf => exact hwf.quiet
  | release _ hw => exact hw

theorem Starts.crashed {e : Event} (hh : Starts s e s') : s'.crashed = s.crashed := by
  cases hh <;> rfl

/-- A process without a region is never in the middle of a mapping. -/
theorem Bare.not_tooEarly (h : Bare s) (e : Event) : ¬ TooEarly s e := by
  cases e with
  | transact => exact fun hearly => absurd (h.publishing.symm.trans hearly.1) (by simp)
  | _ => exact id

/-- **The allocator crashes in one race only.**  Whatever the order of the steps of all threads, no
`BUG_ON` of the allocator fires, no `WARN_ON`, and it reads nothing that is not there, just when no
sender's request that is good and fits comes after `alloc->vma` is set and before
`alloc->vma_vm_mm` is. -/
theorem never_crashes_iff : (procSystem rb).Always
    (fun s => s.crashed = false ∧ s.alloc.warnings = 0) .init es ↔
      (procSystem rb).EachStep (fun s e => ¬ TooEarly s e) .init es := by
  refine StepSystem.always_iff_eachStep (fun _ _ _ hI hs => hI.step hs) (fun s e s' hI hok hs => ?_)
    inv_init ⟨rfl, rfl⟩
  cases hI with
  | unmapped h =>
    have hh := step_starts h hs
    exact iff_of_true ⟨hh.crashed.trans hok.1, hh.quiet⟩ (h.not_tooEarly e)
  | mapped h =>
    have hh := step_happens h hs
    rw [← hh.crashed_iff h hok.1]
    exact and_iff_left (hh.quiet h)
  | released _ _ _ _ _ hr =>
    have hnone : procStep rb s e = some s' := hs
    rw [procStep_of_released hr] at hnone
    cases hnone

/-- A sender is too early. -/
theorem never_crashes_iff_early :
    ¬ (procSystem Rebalance.plain).EachStep (fun s e => ¬ TooEarly s e) .init
      [.mmap ⟨some 4096, true, true⟩ true false 8192 16384,
        .transact ⟨true, true, fun _ => none, true⟩ 16 0 0 true] := by
  intro h
  obtain ⟨s, hrun, hc⟩ : ∃ s, (procSystem Rebalance.plain).run .init
      [.mmap ⟨some 4096, true, true⟩ true false 8192 16384,
        .transact ⟨true, true, fun _ => none, true⟩ 16 0 0 true] = some s ∧ s.crashed = true :=
    ⟨_, rfl, rfl⟩
  rw [((never_crashes_iff.mpr h).last hrun).1] at hc
  cases hc

/-! ### When a request is met -/

theorem mapped_of_vma (h : (procSystem rb).run .init es = some s) (hv : s.alloc.vma = true) :
    Mapped s := by
  cases inv_of_run h with
  | unmapped h => rw [h.alloc.vma] at hv; cases hv
  | mapped h => exact h
  | released _ h => rw [h] at hv; cases hv

/-- With the mapping open, the size good and async space enough, a request is met just when the
mapping has been completed and there is a hole for it, however the free space is cut up and whatever
the trees look like. -/
theorem request_met_iff_hole (h : (procSystem rb).run .init es = some s) (hv : s.alloc.vma = true)
    {env : Env} (henv : env.Good) {ds os ex sz : ℕ} (hs : requestSize ds os ex = some sz)
    {isAsync : Bool}
    (ha : isAsync = true → (sz + bufferStructSize) % sizeMod ≤ s.alloc.freeAsyncSpace) :
    (∃ d a', binderAllocNewBuf rb env s.alloc ds os ex isAsync = some (.ok d, a')) ↔
      s.alloc.vmaVmMm = true ∧ ∃ H x, Shows s.alloc H ∧ H.Hole x (max sz wordSize) := by
  have hm := mapped_of_vma h hv
  obtain ⟨H, hshows⟩ := hm.wf.exists_shows
  cases hmm : s.alloc.vmaVmMm with
  | false =>
    refine iff_of_false ?_ (by simp)
    rintro ⟨d, a', hrun⟩
    rcases newBuf_early rb env hm.wf hm.pos hmm (hm.early hmm) ds os ex isAsync with
      ⟨hrun', -⟩ | ⟨e, hrun', -⟩
    · rw [hrun'] at hrun
      cases hrun
    · rw [hrun'] at hrun
      cases hrun
  | true =>
  rw [eq_self, true_and]
  obtain ⟨r, a', hrun, -, -, hnew⟩ := newBuf_spec rb env hm.wf hmm ds os ex isAsync
  constructor
  · rintro ⟨d, a1, hrun'⟩
    rw [hrun] at hrun'
    cases hrun'
    cases hnew with
    | cut _ hs' _ ht hfree hle _ _ =>
      rw [hs] at hs'
      cases hs'
      exact ⟨H, _, hshows, (gap_of_free hm.wf hshows ht hfree).hole.mono le_rfl (by omega)⟩
  · rintro ⟨H', x, hshows', hole⟩
    obtain ⟨t, ht, hfree, hlo, hhi⟩ := free_of_hole hm.wf hshows'
      (lt_max_of_lt_right (by decide)) hole
    have hroom : max sz wordSize ≤ t.hi - t.lo := by omega
    cases hnew with
    | noVma hv' => rw [hv'] at hv; cases hv
    | invalid _ hs' => rw [hs'] at hs; cases hs
    | noAsync _ hs' ha' =>
      rw [hs] at hs'
      cases hs'
      exact absurd ha'.2 (not_lt.mpr (ha ha'.1))
    | noRoom _ hs' _ hno =>
      rw [hs] at hs'
      cases hs'
      exact absurd (hno t ht hfree) (not_lt.mpr hroom)
    | noPage _ _ _ _ hbad => exact absurd henv hbad
    | cut => exact ⟨_, _, hrun⟩

theorem request_met_iff_hole_of_64 : ∃ s,
    (procSystem Rebalance.plain).run .init sampleRun = some s ∧
      ((∃ d a', binderAllocNewBuf Rebalance.plain ⟨true, true, fun _ => none, true⟩ s.alloc 60 0 0
          true = some (.ok d, a')) ↔
        s.alloc.vmaVmMm = true ∧ ∃ H x, Shows s.alloc H ∧ H.Hole x (max 64 wordSize)) := by
  obtain ⟨s, h, hv, ha⟩ : ∃ s, (procSystem Rebalance.plain).run .init sampleRun = some s ∧
      s.alloc.vma = true ∧ (64 + bufferStructSize) % sizeMod ≤ s.alloc.freeAsyncSpace :=
    ⟨_, rfl, rfl, by decide⟩
  exact ⟨s, h, request_met_iff_hole h hv ⟨rfl, rfl, fun _ => rfl, rfl⟩
    (show requestSize 60 0 0 = some 64 from rfl) fun _ => ha⟩

/-- A request of a good size is not invalid. -/
theorem Mapped.newBuf_ne_einval (hm : Mapped s) {ds os ex sz : ℕ}
    (hs : requestSize ds os ex = some sz) (env : Env) (isAsync : Bool) {a' : BinderAlloc} :
    binderAllocNewBuf rb env s.alloc ds os ex isAsync ≠ some (.error .einval, a') := by
  intro hrun
  cases hmm : s.alloc.vmaVmMm with
  | false =>
    rcases newBuf_early rb env hm.wf hm.pos hmm (hm.early hmm) ds os ex isAsync with
      ⟨hrun', -⟩ | ⟨e, hrun', he, -⟩
    · rw [hrun'] at hrun
      cases hrun
    · rw [hrun'] at hrun
      cases hrun
      exact absurd (hs.symm.trans (he rfl)) (by simp)
  | true =>
    obtain ⟨r, a1, hrun', -, -, hnew⟩ := newBuf_spec rb env hm.wf hmm ds os ex isAsync
    rw [hrun'] at hrun
    cases hrun
    cases hnew with
    | invalid _ hs' => rw [hs'] at hs; cases hs
    | noPage _ _ _ he => rcases he with he | he <;> cases he

/-- A request is invalid just when its sizes, each rounded up, do not add up to a `size_t`. -/
theorem request_invalid_iff (h : (procSystem rb).run .init es = some s) (hv : s.alloc.vma = true)
    (env : Env) {ds os ex : ℕ} (hd : ds < sizeMod) (ho : os < sizeMod) (hx : ex < sizeMod)
    (isAsync : Bool) :
    (∃ a', binderAllocNewBuf rb env s.alloc ds os ex isAsync = some (.error .einval, a')) ↔
      sizeMod ≤ roundUp ds + roundUp os + roundUp ex := by
  have hm := mapped_of_vma h hv
  have hreq := requestSize_eq hd ho hx
  constructor
  · rintro ⟨a1, hrun⟩
    by_contra hlt
    rw [if_pos (not_le.mp hlt)] at hreq
    exact hm.newBuf_ne_einval hreq env isAsync hrun
  · intro hle
    rw [if_neg (not_lt.mpr hle)] at hreq
    exact ⟨_, newBuf_invalid rb env hv hreq isAsync⟩

theorem request_invalid_iff_of_max : ∃ s,
    (procSystem Rebalance.plain).run .init sampleRun = some s ∧
      ((∃ a', binderAllocNewBuf Rebalance.plain ⟨true, true, fun _ => none, true⟩ s.alloc
          (sizeMod - 1) 0 0 false = some (.error .einval, a')) ↔
        sizeMod ≤ roundUp (sizeMod - 1) + roundUp 0 + roundUp 0) := by
  obtain ⟨s, h, hv⟩ : ∃ s, (procSystem Rebalance.plain).run .init sampleRun = some s ∧
      s.alloc.vma = true := ⟨_, rfl, rfl⟩
  exact ⟨s, h, request_invalid_iff h hv _ (by decide) (by decide) (by decide) false⟩

/-! ### The pages -/

/-- A process whose region is mapped and not released. -/
theorem mapped_of_run (h : (procSystem rb).run .init es = some s) (hb : s.alloc.buffers ≠ []) :
    Mapped s := by
  cases inv_of_run h with
  | unmapped h => exact absurd h.alloc.buffers hb
  | mapped h => exact h
  | released _ _ hb' => exact absurd hb' hb

theorem inUse_iff (i : ℕ) : InUse a i ↔
    ∃ t ∈ live a, t.lo < a.buffer + i * pageSize + pageSize ∧ a.buffer + i * pageSize < t.hi := by
  unfold InUse UsedPage Occupied
  constructor
  · rintro ⟨t, ht, hused, h1, h2⟩
    exact ⟨t, mem_live.mpr ⟨ht, hused⟩, h1, h2⟩
  · rintro ⟨t, ht, h1, h2⟩
    exact ⟨t, (mem_live.mp ht).1, (mem_live.mp ht).2, h1, h2⟩

/-- At any time the pages that are kept from the shrinker are just those that some allocated buffer
reaches into, and `binder_alloc_print_pages` counts them. -/
theorem active_pages_are_used (h : (procSystem rb).run .init es = some s)
    (hb : s.alloc.buffers ≠ []) :
    (∀ i < s.alloc.bufferSize / pageSize, s.alloc.pages[i]? = some activePage ↔
      ∃ t ∈ live s.alloc, t.lo < s.alloc.buffer + i * pageSize + pageSize ∧
        s.alloc.buffer + i * pageSize < t.hi) ∧
    ∃ lru free, binderAllocPrintPages s.alloc =
        some ((List.range (s.alloc.bufferSize / pageSize)).countP (fun i => decide (InUse s.alloc i)),
          lru, free) ∧
      (List.range (s.alloc.bufferSize / pageSize)).countP (fun i => decide (InUse s.alloc i)) +
        lru + free = s.alloc.bufferSize / pageSize := by
  have hm := mapped_of_run h hb
  constructor
  · intro i hi
    rw [← inUse_iff]
    have hlt : i < s.alloc.pages.length := hm.wf.pages.symm ▸ hi
    have hget := List.getElem?_eq_getElem hlt
    rw [hget, Option.some.injEq]
    exact (hm.wf.active i _ hget).1
  · obtain ⟨lru, free, hrun, hsum⟩ := countPages_spec (s.alloc.bufferSize / pageSize) 0 0 0 0
      (by rw [hm.wf.pages, Nat.zero_add]) hm.wf.active
    rw [Nat.zero_add, ← List.range_eq_range'] at hrun hsum
    exact ⟨lru, free, hrun, by omega⟩

theorem active_pages_are_used_delivering : ∃ s,
    (procSystem Rebalance.plain).run .init sampleRun = some s ∧
      ∃ lru free, binderAllocPrintPages s.alloc =
        some ((List.range (s.alloc.bufferSize / pageSize)).countP (fun i => decide (InUse s.alloc i)),
          lru, free) := by
  obtain ⟨s, h, hb⟩ : ∃ s, (procSystem Rebalance.plain).run .init sampleRun = some s ∧
      s.alloc.buffers ≠ [] := ⟨_, rfl, List.cons_ne_nil _ _⟩
  obtain ⟨-, lru, free, hprint, -⟩ := active_pages_are_used h hb
  exact ⟨s, h, lru, free, hprint⟩

/-- Once all buffers have been freed, in whatever order, the region is one free buffer again and no
page is kept from the shrinker. -/
theorem whole_again (h : (procSystem rb).run .init es = some s) (hb : s.alloc.buffers ≠ [])
    (hnil : live s.alloc = []) :
    s.inFlight = [] ∧ s.freeing = [] ∧ (∀ i : ℕ, s.alloc.pages[i]? ≠ some activePage) ∧
      ∃ b, s.alloc.buffers = [b] ∧ b.free = true ∧ b.data = s.alloc.buffer ∧
        binderAllocBufferSize s.alloc b.data = s.alloc.bufferSize := by
  have hm := mapped_of_run h hb
  have hheld := hm.held
  rw [hnil] at hheld
  obtain ⟨hi, hrest⟩ := List.append_eq_nil_iff.mp (List.perm_nil.mp hheld)
  obtain ⟨hf, -⟩ := List.append_eq_nil_iff.mp hrest
  obtain ⟨b, hbuf, hfree, hd⟩ := hm.wf.of_live_nil hm.pos hnil
  refine ⟨hi, hf, fun i hact => ?_, b, hbuf, hfree, hd, ?_⟩
  · obtain ⟨t, ht, -⟩ := (inUse_iff i).mp ((hm.wf.active i _ hact).1.mp rfl)
    simp [hnil] at ht
  · unfold binderAllocBufferSize
    rw [hbuf, bufferSizeIn, if_pos rfl, stop_nil, hd]
    unfold BinderAlloc.top
    omega

theorem whole_again_after_sample : ∃ s,
    (procSystem Rebalance.plain).run .init
        (sampleRun ++ [.freeBuffer 8192, .finishFree 4096, .abort 4112]) = some s ∧
      ∃ b, s.alloc.buffers = [b] ∧ b.free = true := by
  obtain ⟨s, h, hb, hl⟩ : ∃ s, (procSystem Rebalance.plain).run .init
      (sampleRun ++ [.freeBuffer 8192, .finishFree 4096, .abort 4112]) = some s ∧
      s.alloc.buffers ≠ [] ∧ live s.alloc = [] := ⟨_, rfl, List.cons_ne_nil _ _, rfl⟩
  obtain ⟨-, -, -, b, hbuf, hfree, -⟩ := whole_again h hb hl
  exact ⟨s, h, b, hbuf, hfree⟩

/-! ### Who may free what -/

theorem Mapped.mem_held (h : Mapped s) {d : ℕ} : d ∈ s.inFlight ++ (s.freeing ++ s.unread) ↔
    ∃ t ∈ live s.alloc, t.lo = d ∧ t.owner.allowUserFree = false := by
  refine ⟨h.exists_held, ?_⟩
  rintro ⟨t, ht, rfl, hno⟩
  exact h.held.mem_iff.mpr (mem_addressesOf.mpr ⟨t, ht, by simp [hno], rfl⟩)

/-- `BC_FREE_BUFFER` gets a buffer just when the pointer is that of an allocated buffer that no
transaction in flight and no other `BC_FREE_BUFFER` has, and that did not lose its transaction before
anybody had read it; it is told so when it is one of these. -/
theorem free_buffer_answer (h : (procSystem rb).run .init es = some s) (hr : s.released = false)
    (userPtr : ℕ) :
    ∃ r a', binderAllocPrepareToFree s.alloc userPtr = some (r, a') ∧
      (r = .buffer (kernPtr s.alloc userPtr) ↔
        (∃ t ∈ live s.alloc, t.lo = kernPtr s.alloc userPtr) ∧
          kernPtr s.alloc userPtr ∉ s.inFlight ++ (s.freeing ++ s.unread)) ∧
      (r = .err .eperm ↔ kernPtr s.alloc userPtr ∈ s.inFlight ++ (s.freeing ++ s.unread)) ∧
      (r = .null ↔ ∀ t ∈ live s.alloc, t.lo ≠ kernPtr s.alloc userPtr) := by
  cases inv_of_run h with
  | unmapped hu =>
    have hl := (exists_shows_of_nil hu.alloc.buffers).1
    have hrun : binderAllocPrepareToFree s.alloc userPtr = some (.null, s.alloc) := by
      unfold binderAllocPrepareToFree
      rw [hu.alloc.allocatedBuffers]
      rfl
    exact ⟨_, _, hrun, by simp [hl], by simp [hu.inFlight, hu.freeing, hu.unread], by simp [hl]⟩
  | released _ _ _ _ _ hr' => rw [hr'] at hr; cases hr
  | mapped hm =>
    obtain ⟨r, a', hrun, -, -, hprep⟩ := prepareToFree_spec hm.wf userPtr
    refine ⟨r, a', hrun, ?_⟩
    rw [hm.mem_held]
    cases hprep with
    | null hno =>
      refine ⟨?_, ?_, by simpa using hno⟩
      · simp only [reduceCtorEq, false_iff]
        rintro ⟨⟨t, ht, hlo⟩, -⟩
        exact hno t ht hlo
      · simp only [reduceCtorEq, false_iff]
        rintro ⟨t, ht, hlo, -⟩
        exact hno t ht hlo
    | denied ht hlo hallow =>
      refine ⟨?_, ?_, ?_⟩
      · simp only [reduceCtorEq, false_iff]
        exact fun hno => hno.2 ⟨_, ht, hlo, hallow⟩
      · exact iff_of_true rfl ⟨_, ht, hlo, hallow⟩
      · simp only [reduceCtorEq, false_iff]
        exact fun hno => hno _ ht hlo
    | @buffer t _ _ _ hlo hallow hl =>
      have ht : t ∈ live s.alloc := by simp [hl]
      have hno : ¬ ∃ u ∈ live s.alloc,
          u.lo = kernPtr s.alloc userPtr ∧ u.owner.allowUserFree = false := by
        rintro ⟨u, hu, hulo, hu'⟩
        rw [hm.wf.live_unique ht hu (hlo.trans hulo.symm), hu'] at hallow
        cases hallow
      refine ⟨iff_of_true (by rw [hlo]) ⟨⟨t, ht, hlo⟩, hno⟩, ?_, ?_⟩
      · simp only [reduceCtorEq, false_iff]
        exact hno
      · simp only [reduceCtorEq, false_iff]
        exact fun hno => hno t ht hlo

/-- The read of a transaction fails, and nobody can free its buffer. -/
theorem free_buffer_answer_unread : ∃ s a',
    (procSystem Rebalance.plain).run .init (sampleRun ++ [.cleanup 4112]) = some s ∧
      s.inFlight = [] ∧ s.freeing = [] ∧ s.unread = [4112] ∧
      binderAllocPrepareToFree s.alloc 8208 = some (.err .eperm, a') := by
  obtain ⟨s, h, hr, hi, hf, hu, hptr⟩ : ∃ s, (procSystem Rebalance.plain).run .init
      (sampleRun ++ [.cleanup 4112]) = some s ∧ s.released = false ∧ s.inFlight = [] ∧
      s.freeing = [] ∧ s.unread = [4112] ∧ kernPtr s.alloc 8208 = 4112 :=
    ⟨_, rfl, rfl, rfl, rfl, rfl, rfl⟩
  obtain ⟨r, a', hrun, -, heperm, -⟩ := free_buffer_answer h hr 8208
  obtain rfl := heperm.mpr (by rw [hptr, hi, hf, hu]; simp)
  exact ⟨s, a', h, hi, hf, hu, hrun⟩

/-- No allocated buffer at `d` may be freed by the user. -/
def NotFreeable (d : ℕ) (s : Proc) : Prop :=
  ∀ t ∈ live s.alloc, t.lo = d → t.owner.allowUserFree = false

theorem forall_mem_mid {α : Type} {p : α → Prop} {l m : List α} {x : α} :
    (∀ y ∈ l ++ x :: m, p y) ↔ p x ∧ ∀ y ∈ l ++ m, p y := by
  rw [← List.forall_mem_cons]
  exact forall_congr' fun y => imp_congr_left List.perm_middle.mem_iff

theorem notFreeable_of_nil {d : ℕ} (h : live s.alloc = []) : NotFreeable d s := fun t ht => by
  simp [h] at ht

theorem notFreeable_step {d : ℕ} {e : Event} (hinv : Inv s) (hd : NotFreeable d s)
    (he : e ≠ .deliver d) (hstep : procStep rb s e = some s') : NotFreeable d s' := by
  cases hinv with
  | unmapped hu =>
    cases step_starts hu hstep with
    | still h => exact notFreeable_of_nil (exists_shows_of_nil h.buffers).1
    | failed h => exact notFreeable_of_nil (exists_shows_of_nil h.buffers).1
    | mmap _ _ _ _ hfresh => exact notFreeable_of_nil hfresh.live
    | release _ _ hb => exact notFreeable_of_nil (exists_shows_of_nil hb).1
  | released _ _ _ _ _ hr => rw [procStep_of_released hr] at hstep; cases hstep
  | mapped hm =>
    unfold NotFreeable at hd ⊢
    cases step_happens hm hstep with
    | idle _ _ _ _ hl => exact fun t ht => hd t (hl ▸ ht)
    | mmapDone | crash | vmaOpen | vmaClose => exact hd
    | transact _ _ _ _ _ _ _ _ _ hsent =>
      obtain ⟨l, m, hl, hl'⟩ := hsent.live
      rw [hl] at hd
      dsimp only
      rw [hl', forall_mem_mid]
      exact ⟨fun _ => rfl, hd⟩
    | abort _ _ _ _ _ hl hl' _ =>
      rw [hl, forall_mem_mid] at hd
      dsimp only
      rw [hl']
      exact hd.2
    | finishFree _ _ _ _ hl hl' _ =>
      rw [hl, forall_mem_mid] at hd
      dsimp only
      rw [hl']
      exact hd.2
    | cleanup _ _ _ _ hl hl' _ =>
      rw [hl, forall_mem_mid] at hd
      dsimp only
      rw [hl', forall_mem_mid]
      exact hd
    | endTransaction _ _ _ _ hl hl' _ =>
      rw [hl, forall_mem_mid] at hd
      dsimp only
      rw [hl', forall_mem_mid]
      exact hd
    | freeBuffer _ _ _ _ hl hl' _ =>
      rw [hl, forall_mem_mid] at hd
      dsimp only
      rw [hl', forall_mem_mid]
      exact ⟨fun _ => rfl, hd.2⟩
    | deliver _ _ _ _ hl hl' _ =>
      rw [hl, forall_mem_mid] at hd
      dsimp only
      rw [hl', forall_mem_mid]
      exact ⟨fun hlo => absurd (congrArg Event.deliver hlo) he, hd.2⟩
    | release _ _ _ hb _ => exact notFreeable_of_nil (exists_shows_of_nil hb).1

theorem notFreeable_run {d : ℕ} : ∀ {es : List Event} {s : Proc}, Inv s → NotFreeable d s →
    Event.deliver d ∉ es → (procSystem rb).run s es = some s' → NotFreeable d s'
  | [], _, _, hd, _, h => by
    cases h
    exact hd
  | e :: es, s, hinv, hd, hno, h => by
    obtain ⟨t, ht, h⟩ := Option.bind_eq_some_iff.mp h
    obtain ⟨he, hno⟩ : e ≠ .deliver d ∧ Event.deliver d ∉ es :=
      ⟨fun he => hno (he ▸ List.mem_cons_self), fun hm => hno (List.mem_cons_of_mem _ hm)⟩
    exact notFreeable_run (hinv.step ht) (notFreeable_step hinv hd he ht) hno h

/-- What is being freed is no longer the user's to free. -/
theorem notFreeable_of_freeing {d : ℕ} (hinv : Inv s) (hd : d ∈ s.freeing) : NotFreeable d s := by
  cases hinv with
  | unmapped hu => simp [hu.freeing] at hd
  | released _ _ hb => exact fun t ht => by simp [(exists_shows_of_nil hb).1] at ht
  | mapped hm =>
    obtain ⟨u, hu, hulo, hno⟩ := hm.mem_held.mp
      (List.mem_append_right _ (List.mem_append_left _ hd))
    intro t ht hlo
    rw [hm.wf.live_unique ht hu (hlo.trans hulo.symm)]
    exact hno

theorem freeing_step {d : ℕ} {e : Event} (hinv : Inv s) (hd : d ∈ s.freeing)
    (he : e ≠ .finishFree d) (hstep : procStep rb s e = some s') : d ∈ s'.freeing := by
  cases hinv with
  | unmapped hu => simp [hu.freeing] at hd
  | released _ _ _ _ _ hr => rw [procStep_of_released hr] at hstep; cases hstep
  | mapped hm =>
    cases step_happens hm hstep with
    | freeBuffer => exact List.mem_cons_of_mem _ hd
    | finishFree => exact (List.mem_erase_of_ne fun h => he (by rw [h])).mpr hd
    | release hf => simp [hf] at hd
    | _ => exact hd

/-- What is being freed stays so until `BC_FREE_BUFFER` comes to free it. -/
theorem freeing_run {d : ℕ} : ∀ {es : List Event} {s : Proc}, Inv s → d ∈ s.freeing →
    (procSystem rb).run s es = some s' → d ∈ s'.freeing ∨
      ∃ fs gs t t', es = fs ++ .finishFree d :: gs ∧ Inv t ∧ d ∈ t.freeing ∧
        procStep rb t (.finishFree d) = some t' ∧ (procSystem rb).run t' gs = some s'
  | [], _, _, hd, h => by
    cases h
    exact Or.inl hd
  | e :: es, s, hinv, hd, h => by
    obtain ⟨t, ht, hrun⟩ := Option.bind_eq_some_iff.mp h
    by_cases he : e = .finishFree d
    · subst he
      exact Or.inr ⟨[], es, s, t, rfl, hinv, hd, ht, hrun⟩
    · rcases freeing_run (hinv.step ht) (freeing_step hinv hd he ht) hrun with hd' |
        ⟨fs, gs, u, u', rfl, hu⟩
      · exact Or.inl hd'
      · exact Or.inr ⟨e :: fs, gs, u, u', rfl, hu⟩

/-- A buffer that `BC_FREE_BUFFER` gets was the user's to free, and is being freed from then on. -/
theorem got_buffer {d userPtr : ℕ} (hinv : Inv s)
    (hstep : procStep rb s (.freeBuffer userPtr) = some s') (hd : s'.freeing = d :: s.freeing) :
    ¬ NotFreeable d s ∧ d ∈ s'.freeing := by
  have hne : ∀ {d : ℕ} {l : List ℕ}, l ≠ d :: l := fun h => by
    have := congrArg List.length h
    simp at this
  refine ⟨?_, by simp [hd]⟩
  cases hinv with
  | unmapped hu =>
    cases step_starts hu hstep with
    | still => exact absurd hd hne
  | released _ _ _ _ _ hr => rw [procStep_of_released hr] at hstep; cases hstep
  | mapped hm =>
    cases step_happens hm hstep with
    | idle => exact absurd hd hne
    | @freeBuffer _ _ t _ _ _ _ _ hyes hl =>
      obtain ⟨rfl, -⟩ := List.cons.inj hd
      intro hno
      rw [hno t (by simp [hl]) rfl] at hyes
      cases hyes

/-- **No buffer is freed twice.**  Between two `BC_FREE_BUFFER`s that get a buffer at the same
address, from whatever threads and however the steps of all threads interleave, the first one has
freed it and after that a buffer at that address has been delivered anew. -/
theorem freed_once_per_delivery {s1 s2 s3 : Proc} {fs : List Event} {d userPtr userPtr' : ℕ}
    (h : (procSystem rb).run .init es = some s)
    (h1 : procStep rb s (.freeBuffer userPtr) = some s1) (hd1 : s1.freeing = d :: s.freeing)
    (h2 : (procSystem rb).run s1 fs = some s2)
    (h3 : procStep rb s2 (.freeBuffer userPtr') = some s3) (hd3 : s3.freeing = d :: s2.freeing) :
    ∃ before after, fs = before ++ .finishFree d :: after ∧ Event.deliver d ∈ after := by
  have hinv := inv_of_run h
  have hinv1 := hinv.step h1
  have hinv2 : Inv s2 := StepSystem.run_inv (fun _ _ _ hI hs => hI.step hs) hinv1 h2
  obtain ⟨hyes, -⟩ := got_buffer hinv2 h3 hd3
  obtain ⟨-, hmem⟩ := got_buffer hinv h1 hd1
  rcases freeing_run hinv1 hmem h2 with hstill | ⟨before, after, t, t', rfl, ht, hdt, hstep, hrun⟩
  · exact absurd (notFreeable_of_freeing hinv2 hstill) hyes
  · refine ⟨before, after, rfl, ?_⟩
    by_contra hno
    exact hyes (notFreeable_run (ht.step hstep)
      (notFreeable_step ht (notFreeable_of_freeing ht hdt) (by simp) hstep) hno hrun)

theorem freed_once_per_delivery_twice : ∃ before after,
    ([.finishFree 4096, .transact ⟨true, true, fun _ => none, true⟩ 8 0 0 false, .deliver 4096] :
        List Event) = before ++ .finishFree 4096 :: after ∧ Event.deliver 4096 ∈ after := by
  obtain ⟨s, s1, s2, s3, h, h1, hd1, h2, h3, hd3⟩ : ∃ s s1 s2 s3,
      (procSystem Rebalance.plain).run .init sampleRun = some s ∧
      procStep Rebalance.plain s (.freeBuffer 8192) = some s1 ∧ s1.freeing = 4096 :: s.freeing ∧
      (procSystem Rebalance.plain).run s1
        [.finishFree 4096, .transact ⟨true, true, fun _ => none, true⟩ 8 0 0 false,
          .deliver 4096] = some s2 ∧
      procStep Rebalance.plain s2 (.freeBuffer 8192) = some s3 ∧
      s3.freeing = 4096 :: s2.freeing := ⟨_, _, _, _, rfl, rfl, rfl, rfl, rfl, rfl⟩
  exact freed_once_per_delivery h h1 hd1 h2 h3 hd3

end HeadlessAndroid.Binder
