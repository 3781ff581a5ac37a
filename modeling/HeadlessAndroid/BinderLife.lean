import HeadlessAndroid.BinderCut

/-!
# HeadlessAndroid.BinderLife — a region from its mapping to its release

What is not an allocation: the mapping makes one free buffer of the region, a delivery lets the user
free a buffer, `BC_FREE_BUFFER` takes that permission back, the shrinker takes pages, and the release
frees what is left, after which one free buffer is left.
-/

namespace HeadlessAndroid.Binder

open Lib.SearchTree Lib.Tiling

variable {a : BinderAlloc}

/-! ### The allocated buffers in order -/

theorem usedData_eq (l : List BinderBuffer) (hi : ℕ) :
    usedData l = ((spans BinderBuffer.data l hi).filter fun t => !t.owner.free).map Span.lo := by
  induction l with
  | nil => rfl
  | cons b l ih =>
    rw [usedData_cons, spans, List.filter_cons]
    cases hb : b.free <;> simp [ih]

/-- The allocated buffers stand in the tree in the order of their addresses. -/
theorem Wf.allocated_eq (h : Wf a) : inorder a.allocatedBuffers = (live a).map Span.lo :=
  h.allocated.trans (usedData_eq a.buffers a.top)

theorem Wf.live_pairwise (h : Wf a) : (live a).Pairwise fun s t => s.hi ≤ t.lo :=
  (spans_pairwise h.tiles).filter _

theorem Wf.live_bounds (h : Wf a) {t : Span BinderBuffer} (ht : t ∈ live a) :
    a.buffer ≤ t.lo ∧ t.lo < t.hi ∧ t.hi ≤ a.top :=
  spans_bounds h.tiles t (mem_live.mp ht).1

theorem Wf.live_lo (h : Wf a) : ((live a).map Span.lo).Pairwise (· < ·) := by
  refine List.Pairwise.map Span.lo (R := fun s t : Span BinderBuffer => s.lo < t.lo)
    (fun _ _ hst => hst) ?_
  exact h.live_pairwise.imp_of_mem fun hs _ hst => (h.live_bounds hs).2.1.trans_le hst

/-- An allocated buffer stands at one place. -/
theorem Wf.live_split (h : Wf a) {t : Span BinderBuffer} {l m l' m' : List (Span BinderBuffer)}
    (hl : live a = l ++ t :: m) (hl' : live a = l' ++ t :: m') : l' = l ∧ m' = m := by
  have hnodup : (l ++ t :: m).Nodup := by
    rw [← hl]
    exact (h.live_lo.imp Nat.ne_of_lt).of_map Span.lo fun _ _ hne he => hne (congrArg Span.lo he)
  obtain ⟨-, htm, hdisj⟩ := List.nodup_append.mp hnodup
  have hno : t ∉ l := fun hin => hdisj t hin t (by simp) rfl
  obtain ⟨he, -, he'⟩ := (List.append_cons_inj_of_notMem hno (List.nodup_cons.mp htm).1).mp
    (hl.symm.trans hl')
  exact ⟨he.symm, he'.symm⟩

/-! ### Who may free a buffer, and what it is for -/

namespace BinderBuffer

variable (b : BinderBuffer)

def mark (allowUserFree transaction : Bool) : BinderBuffer :=
  { b with allowUserFree := allowUserFree, transaction := transaction }

/-- The user may free the buffer, or may not. -/
def permit (v : Bool) : BinderBuffer := { b with allowUserFree := v }

/-- The buffer has a transaction, or has none any more. -/
def attach (v : Bool) : BinderBuffer := { b with transaction := v }

@[simp] theorem mark_free (v w : Bool) : (b.mark v w).free = b.free := rfl

@[simp] theorem mark_data (v w : Bool) : (b.mark v w).data = b.data := rfl

end BinderBuffer

/-- Marking an allocated buffer leaves the region as it is. -/
theorem mark_spec (h : Wf a) {t : Span BinderBuffer} {l m : List (Span BinderBuffer)}
    (hl : live a = l ++ t :: m) {f : BinderBuffer → BinderBuffer} {v w : Bool}
    (hf : f t.owner = t.owner.mark v w) :
    Wf (a.setAt t.lo f) ∧ live (a.setAt t.lo f) = l ++ ⟨t.owner.mark v w, t.lo, t.hi⟩ :: m := by
  obtain ⟨hspan, hused⟩ := mem_live.mp (show t ∈ live a by simp [hl])
  obtain ⟨pre, post, hbuf, hlo, hhi⟩ := mem_spans.mp hspan
  obtain ⟨b, tlo, thi⟩ := t
  dsimp only at hbuf hlo hhi hused hf ⊢
  subst hlo hhi
  obtain ⟨hpre, hlt, hpost⟩ := tiles_split.mp (hbuf ▸ h.tiles)
  obtain ⟨a', ha'⟩ : ∃ a', a' = a.setAt b.data f := ⟨_, rfl⟩
  rw [← ha']
  have hbuf' : a'.buffers = pre ++ b.mark v w :: post := by
    rw [ha', ← hf, setAt_around hbuf h.tiles]
  have hk : Kept a a' := by
    rw [ha']
    exact ⟨rfl, rfl, rfl, rfl, rfl⟩
  have htree' : a'.freeBuffers = a.freeBuffers := by rw [ha']; rfl
  have hused' : (b.mark v w).free = false := hused
  have htiles' : Tiles BinderBuffer.data a.buffer a'.buffers a'.top := by
    rw [hbuf', hk.top]
    exact tiles_split.mpr ⟨hpre, hlt, hpost⟩
  have hfd : freeData a'.buffers = freeData a.buffers := by
    rw [hbuf, hbuf', freeData_append, freeData_append, freeData_cons, freeData_cons,
      if_neg (by simp [hused]), if_neg (by simp [hused])]
  have hperm' : (inorder a'.freeBuffers).Perm (freeData pre ++ freeData post) := by
    have := h.freeTree
    rwa [hbuf, freeData_append, freeData_cons, if_neg (by simp [hused]), ← htree'] at this
  have hlive : live a = (spans BinderBuffer.data pre b.data).filter (fun t => !t.owner.free) ++
      ⟨b, b.data, stop BinderBuffer.data post a.top⟩ ::
        (spans BinderBuffer.data post a.top).filter fun t => !t.owner.free := by
    unfold live
    rw [hbuf, spans_split, List.filter_append, List.filter_cons_of_pos (by simp [hused])]
  have hlive' : live a' = (spans BinderBuffer.data pre b.data).filter (fun t => !t.owner.free) ++
      ⟨b.mark v w, b.data, stop BinderBuffer.data post a.top⟩ ::
        (spans BinderBuffer.data post a.top).filter fun t => !t.owner.free := by
    unfold live
    rw [hbuf', hk.top, spans_split, List.filter_append, List.filter_cons_of_pos (by simp [hused])]
    rfl
  obtain ⟨hl1, hm1⟩ := h.live_split hl hlive
  refine ⟨⟨h.toRegion.of_kept hk (by rw [ha']; rfl),
    h.toFreeTree.of_sides (x := [b]) (y := [b.mark v w]) hbuf hbuf' h.tiles htiles' hk.top rfl
      (by rw [htree']) hperm', hk.buffer.symm ▸ htiles', ?_, ?_, ?_, ?_, ?_, ?_, ?_⟩,
    hl1 ▸ hm1 ▸ hlive'⟩
  · intro c hc
    rw [hbuf'] at hc
    rcases List.mem_append.mp hc with hc | hc
    · exact h.words c (by simp [hbuf, hc])
    · rcases List.mem_cons.mp hc with rfl | hc
      · exact h.words b (by simp [hbuf])
      · exact h.words c (by simp [hbuf, hc])
  · have hm := h.merged
    rw [hbuf, List.isChain_append, List.isChain_cons] at hm
    rw [hbuf', List.isChain_append, List.isChain_cons]
    exact ⟨hm.1, ⟨fun _ _ => Or.inl hused, hm.2.1.2⟩, fun c hc e he => by
      cases he
      exact hm.2.2 c hc b (by simp)⟩
  · intro t ht hf
    have hmem := mem_live.mpr ⟨ht, hf⟩
    have hold : t ∈ live a → Fits t := fun hl => h.fits t (mem_live.mp hl).1 (mem_live.mp hl).2
    rw [hlive'] at hmem
    rw [hlive] at hold
    rcases List.mem_append.mp hmem with hmem | hmem
    · exact hold (List.mem_append_left _ hmem)
    · rcases List.mem_cons.mp hmem with rfl | hmem
      · exact (h.fits _ hspan hused : Fits ⟨b, b.data, stop BinderBuffer.data post a.top⟩)
      · exact hold (List.mem_append_right _ (List.mem_cons_of_mem _ hmem))
  · rw [htree', hfd]
    exact h.freeTree
  · have hud : usedData a'.buffers = usedData a.buffers := by
      rw [hbuf, hbuf', usedData_append, usedData_append, usedData_cons, usedData_cons,
        if_neg (by simp [hused]), if_neg (by simp [hused])]
      rfl
    rw [hud, ← h.allocated, ha']
    rfl
  · have hpages : a'.pages = a.pages := by rw [ha']; rfl
    rw [hpages]
    refine h.active.congr fun i _ => ?_
    rw [inUse_around hbuf hused, inUse_around hbuf' hused', hk.top, hk.buffer]
    rfl
  · rw [ha']
    exact h.quiet

theorem permit_spec (h : Wf a) {t : Span BinderBuffer} {l m : List (Span BinderBuffer)}
    (hl : live a = l ++ t :: m) (v : Bool) : Wf (a.setAt t.lo fun b => b.permit v) ∧
      live (a.setAt t.lo fun b => b.permit v) = l ++ ⟨t.owner.permit v, t.lo, t.hi⟩ :: m :=
  mark_spec h hl rfl

theorem attach_spec (h : Wf a) {t : Span BinderBuffer} {l m : List (Span BinderBuffer)}
    (hl : live a = l ++ t :: m) (v : Bool) : Wf (a.setAt t.lo fun b => b.attach v) ∧
      live (a.setAt t.lo fun b => b.attach v) = l ++ ⟨t.owner.attach v, t.lo, t.hi⟩ :: m :=
  mark_spec h hl rfl

/-- A buffer is freed once its transaction is gone. -/
theorem detachFree_spec (rb : Rebalance ℕ) (h : Wf a) {t : Span BinderBuffer}
    {l m : List (Span BinderBuffer)} (hl : live a = l ++ t :: m) :
    ∃ a', binderAllocFreeBuf rb (a.setAt t.lo fun b => b.attach false) t.lo = some a' ∧ Wf a' ∧
      Kept a a' ∧ live a' = l ++ m ∧ a'.freeAsyncSpace = asyncAfterFree a t.owner := by
  obtain ⟨hwf, hlive⟩ := attach_spec h hl false
  obtain ⟨a', l', m', hrun, hwf', hk, hsplit, hlive', hasync⟩ := freeBuf_spec rb hwf
    (t := ⟨t.owner.attach false, t.lo, t.hi⟩) (by simp [hlive]) rfl
  obtain ⟨rfl, rfl⟩ := hwf.live_split hlive hsplit
  exact ⟨a', hrun, hwf', ⟨hk.vma, hk.vmaVmMm, hk.buffer, hk.userBufferOffset, hk.bufferSize⟩, hlive',
    hasync⟩

/-- The pointer that is looked up for one of the user's. -/
def kernPtr (a : BinderAlloc) (userPtr : ℕ) : ℕ :=
  (userPtr + (sizeMod - a.userBufferOffset % sizeMod)) % sizeMod

inductive PrepareToFree (a : BinderAlloc) (userPtr : ℕ) : Prepared → BinderAlloc → Prop
  | null (h : ∀ t ∈ live a, t.lo ≠ kernPtr a userPtr) : PrepareToFree a userPtr .null a
  | denied {t : Span BinderBuffer} (ht : t ∈ live a) (hlo : t.lo = kernPtr a userPtr)
      (h : t.owner.allowUserFree = false) : PrepareToFree a userPtr (.err .eperm) a
  | buffer {t : Span BinderBuffer} {l m : List (Span BinderBuffer)} {a' : BinderAlloc}
      (hlo : t.lo = kernPtr a userPtr) (h : t.owner.allowUserFree = true)
      (hl : live a = l ++ t :: m) (hl' : live a' = l ++ ⟨t.owner.permit false, t.lo, t.hi⟩ :: m)
      (hasync : a'.freeAsyncSpace = a.freeAsyncSpace) : PrepareToFree a userPtr (.buffer t.lo) a'

theorem at?_of_live (h : Wf a) {t : Span BinderBuffer} (ht : t ∈ live a) :
    a.at? t.lo = some t.owner := by
  obtain ⟨hspan, -⟩ := mem_live.mp ht
  obtain ⟨-, -, -, hlo, -⟩ := mem_spans.mp hspan
  rw [hlo]
  exact at?_of_mem h.tiles (owner_of_span hspan)

theorem prepareToFree_spec (h : Wf a) (userPtr : ℕ) :
    ∃ r a', binderAllocPrepareToFree a userPtr = some (r, a') ∧ Wf a' ∧ Kept a a' ∧
      PrepareToFree a userPtr r a' := by
  have hlive : ∀ d ∈ inorder a.allocatedBuffers, ∃ t ∈ live a, t.lo = d := fun d hd => by
    rw [h.allocated_eq] at hd
    exact List.mem_map.mp hd
  have hsorted : (inorder a.allocatedBuffers).Pairwise fun d e => d ≤ e :=
    h.allocated_eq ▸ h.live_lo.imp Nat.le_of_lt
  obtain ⟨p, m, q, hcut, hp, hm, hq⟩ := exists_cut id (kernPtr a userPtr) hsorted
  simp only [id] at hp hm hq
  have hturn : ∀ d ∈ p ++ (m ++ q),
      addressTurn a (kernPtr a userPtr) d = some (compare (kernPtr a userPtr) d) := fun d hd => by
    obtain ⟨t, ht, rfl⟩ := hlive d (hcut ▸ hd)
    exact addressTurn_of (at?_of_live h ht) (mem_live.mp ht).2
  have hfind := find_spec (addressTurn a (kernPtr a userPtr)) hcut
    (fun d hd => by rw [hturn d (by simp [hd]), compare_gt_iff_gt.mpr (hp d hd)])
    (fun d hd => by rw [hturn d (by simp [hd]), compare_eq_iff_eq.mpr (hm d hd).symm])
    (fun d hd => by rw [hturn d (by simp [hd]), compare_lt_iff_lt.mpr (hq d hd)])
  unfold binderAllocPrepareToFree
  dsimp only
  rw [← kernPtr]
  rcases hfind with ⟨rfl, hnone⟩ | ⟨d, hd, hsome⟩
  · rw [hnone]
    refine ⟨_, a, rfl, h, .refl a, .null fun t ht hlo => ?_⟩
    have hmem : t.lo ∈ p ++ ([] ++ q) := by
      rw [← hcut, h.allocated_eq]
      exact List.mem_map_of_mem ht
    rcases List.mem_append.mp hmem with hmem | hmem
    · exact (hp _ hmem).ne hlo
    · exact (hq _ (by simpa using hmem)).ne' hlo
  · rw [hsome]
    obtain ⟨t, ht, rfl⟩ := hlive d (by rw [hcut]; simp [hd])
    have hlo : t.lo = kernPtr a userPtr := hm _ hd
    dsimp only
    rw [at?_of_live h ht]
    dsimp only
    cases hallow : t.owner.allowUserFree with
    | false =>
      exact ⟨_, a, rfl, h, .refl a, .denied ht hlo hallow⟩
    | true =>
      obtain ⟨l, m, hl⟩ := List.append_of_mem ht
      obtain ⟨hwf, hl'⟩ := permit_spec h hl false
      exact ⟨_, _, rfl, hwf, ⟨rfl, rfl, rfl, rfl, rfl⟩, .buffer hlo hallow hl hl' rfl⟩

/-! ### The mapping -/

/-- Before the mapping, or after one that failed. -/
structure Unmapped (a : BinderAlloc) : Prop where
  vma : a.vma = false
  vmaVmMm : a.vmaVmMm = false
  buffer : a.buffer = 0
  buffers : a.buffers = []
  freeBuffers : a.freeBuffers = .nil
  allocatedBuffers : a.allocatedBuffers = .nil
  pages : a.pages = []
  quiet : a.warnings = 0

/-- The kernel has all that a mapping asks for. -/
def MmapEnv.complete (env : MmapEnv) : Bool := env.area.isSome && env.pages && env.buffer

/-- The area of the kernel for a mapping: whole pages, below the end of the addresses. -/
def MmapEnv.Area (env : MmapEnv) (size : ℕ) : Prop :=
  ∀ addr ∈ env.area, 0 < addr ∧ addr % pageSize = 0 ∧ addr + size < sizeMod

instance (env : MmapEnv) (size : ℕ) : Decidable (env.Area size) :=
  match h : env.area with
  | none => .isTrue fun addr haddr => by simp [h] at haddr
  | some addr =>
    decidable_of_iff (0 < addr ∧ addr % pageSize = 0 ∧ addr + size < sizeMod) (by
      unfold MmapEnv.Area
      simp [h])

/-- A region that is one free buffer, none of its pages mapped. -/
theorem wf_whole {b : BinderBuffer} (hreg : Region a) (hpos : 0 < a.bufferSize)
    (hbuf : a.buffers = [b]) (hd : b.data = a.buffer) (hb : b.free = true) (htree : FreeTree a)
    (hperm : (inorder a.freeBuffers).Perm [b.data]) (halloc : a.allocatedBuffers = .nil) {n : ℕ}
    (hpages : a.pages = List.replicate n ⟨false, false⟩) (hquiet : a.warnings = 0) :
    Wf a ∧ live a = [] := by
  have hspans : spans BinderBuffer.data a.buffers a.top = [⟨b, b.data, a.top⟩] := by
    rw [hbuf]
    rfl
  refine ⟨⟨hreg, htree, ?_, ?_, ?_, ?_, ?_, ?_, ?_, hquiet⟩, ?_⟩
  · rw [hbuf]
    exact ⟨hd, Nat.lt_add_of_pos_right hpos, rfl⟩
  · intro c hc
    rw [hbuf, List.mem_singleton] at hc
    subst hc
    have := hreg.base
    rw [hd]
    unfold pageSize wordSize at *
    omega
  · rw [hbuf]
    exact List.isChain_singleton b
  · intro t ht hf
    rw [hspans, List.mem_singleton] at ht
    subst ht
    simp [hb] at hf
  · rw [hbuf, freeData_cons, if_pos hb]
    exact hperm
  · rw [hbuf, usedData_cons, if_pos hb, halloc]
    rfl
  · intro i page hi
    rw [hpages, List.getElem?_replicate] at hi
    split at hi
    · cases hi
      refine ⟨?_, by simp⟩
      have hno : ¬ InUse a i := by
        rintro ⟨t, ht, hf, -⟩
        rw [hspans, List.mem_singleton] at ht
        subst ht
        simp [hb] at hf
      simp [hno]
    · cases hi
  · unfold live
    rw [hspans, List.filter_cons_of_neg (by simp [hb])]
    rfl

/-- Before `vma_vm_mm` is set: the region is there, and nothing has come of it. -/
structure Fresh (a : BinderAlloc) : Prop where
  vma : a.vma = true
  live : live a = []
  pages : ∀ page ∈ a.pages, page.pagePtr = false

theorem mmapHandler_spec (rb : Rebalance ℕ) {env : MmapEnv} (h : Unmapped a) {vmStart vmEnd : ℕ}
    (hsize : vmStart < vmEnd) (hpage : (vmEnd - vmStart) % pageSize = 0)
    (harea : env.Area (vmEnd - vmStart)) :
    ∃ r a', binderAllocMmapHandler rb env a vmStart vmEnd = some (r, a') ∧
      ((r = some .enomem ∧ env.complete = false ∧ Unmapped a' ∧ a'.bufferSize =
          if env.area.isSome && env.pages then vmEnd - vmStart else a.bufferSize) ∨
        (r = none ∧ env.complete = true ∧ Wf a' ∧ Fresh a' ∧ a'.bufferSize = vmEnd - vmStart ∧
          a'.freeAsyncSpace = (vmEnd - vmStart) / 2)) := by
  unfold binderAllocMmapHandler
  rw [if_neg (not_not.mpr h.buffer)]
  cases haddr : env.area with
  | none => exact ⟨_, a, rfl, Or.inl ⟨rfl, by simp [MmapEnv.complete, haddr], h, rfl⟩⟩
  | some addr =>
    obtain ⟨hpos, halign, hbound⟩ := harea addr (by simp [haddr])
    dsimp only
    by_cases hpages : env.pages = true
    · rw [if_neg (by simp [hpages])]
      by_cases hbuffer : env.buffer = true
      · rw [if_neg (by simp [hbuffer])]
        -- one free buffer, in a tree that was empty
        obtain ⟨a1, ha1⟩ : ∃ a1 : BinderAlloc, a1 =
          { a with
            buffer := addr
            userBufferOffset := (vmStart + (sizeMod - addr % sizeMod)) % sizeMod
            pages := List.replicate ((vmEnd - vmStart) / pageSize) ⟨false, false⟩
            bufferSize := vmEnd - vmStart
            buffers := .zeroed addr true :: a.buffers } := ⟨_, rfl⟩
        have hbuf1 : a1.buffers = [.zeroed addr true] := by
          rw [ha1]
          dsimp only
          rw [h.buffers]
        have htop1 : a1.top = addr + (vmEnd - vmStart) := by rw [ha1]; rfl
        have htiles1 : Tiles BinderBuffer.data addr a1.buffers a1.top := by
          rw [hbuf1, htop1]
          refine ⟨rfl, ?_, rfl⟩
          exact Nat.lt_add_of_pos_right (Nat.sub_pos_of_lt hsize)
        have hnil1 : a1.freeBuffers = .nil := by rw [ha1]; exact h.freeBuffers
        have htree1 : FreeTree a1 := by
          refine ⟨fun d hd => ?_, ?_⟩
          · rw [hnil1] at hd
            simp [inorder] at hd
          · rw [hnil1]
            exact List.Pairwise.nil
        obtain ⟨t, hins, hperm, htree⟩ := insertFree_spec rb
          (at?_of_mem htiles1 (show BinderBuffer.zeroed addr true ∈ a1.buffers by simp [hbuf1]))
          rfl htree1
        obtain ⟨a2, ha2⟩ : ∃ a2 : BinderAlloc, a2 =
          { a1 with
            freeBuffers := t
            freeAsyncSpace := a1.bufferSize / 2
            vma := true } := ⟨_, rfl⟩
        have hsize2 : a2.bufferSize = vmEnd - vmStart := by rw [ha2, ha1]
        have hb2 : a2.buffer = addr := by rw [ha2, ha1]
        have htop2 : a2.top = addr + (vmEnd - vmStart) := by rw [ha2]; exact htop1
        have hpages2 : a2.pages =
            List.replicate ((vmEnd - vmStart) / pageSize) ⟨false, false⟩ := by rw [ha2, ha1]
        obtain ⟨hwf, hlive⟩ := wf_whole (b := .zeroed addr true)
          ⟨hb2 ▸ hpos, hb2 ▸ halign, hsize2 ▸ hpage, htop2 ▸ hbound, by
            rw [hpages2, List.length_replicate, hsize2]⟩
          (hsize2 ▸ Nat.sub_pos_of_lt hsize) (by rw [ha2]; exact hbuf1) hb2.symm rfl
          (by rw [ha2]; exact ⟨htree.good, htree.sorted⟩)
          (by
            rw [hnil1] at hperm
            rw [ha2]
            exact hperm)
          (by rw [ha2, ha1]; exact h.allocatedBuffers) hpages2 (by rw [ha2, ha1]; exact h.quiet)
        have hfresh : ∀ page ∈ a2.pages, page.pagePtr = false := by
          intro page hp
          rw [hpages2] at hp
          rw [List.eq_of_mem_replicate hp]
        refine ⟨none, a2, ?_, Or.inr ⟨rfl, by simp [MmapEnv.complete, haddr, hpages, hbuffer], hwf,
          ⟨by rw [ha2], hlive, hfresh⟩, hsize2, by rw [ha2, ha1]⟩⟩
        rw [← ha1]
        rw [show addr = (BinderBuffer.zeroed addr true).data from rfl, hins, ha2]
        rfl
      · rw [if_pos (by simpa using hbuffer)]
        exact ⟨_, _, rfl, Or.inl ⟨rfl, by simp [MmapEnv.complete, hbuffer], ⟨h.vma, h.vmaVmMm, rfl, h.buffers,
          h.freeBuffers, h.allocatedBuffers, rfl, h.quiet⟩, by simp [hpages]⟩⟩
    · rw [if_pos (by simpa using hpages)]
      exact ⟨_, _, rfl, Or.inl ⟨rfl, by simp [MmapEnv.complete, hpages], ⟨h.vma, h.vmaVmMm, rfl, h.buffers,
        h.freeBuffers, h.allocatedBuffers, rfl, h.quiet⟩, by simp [hpages]⟩⟩

/-! ### The pages -/

theorem Wf.active_of (h : Wf a) {ps : List BinderLruPage} (hl : ps.length = a.pages.length)
    (hP : PagesAre ps (InUse a)) : Wf { a with pages := ps } :=
  h.idle a.pagesHigh hl hP

/-- The shrinker takes a page of its list. -/
theorem freePage_spec (h : Wf a) (hmm : a.vmaVmMm = true) (mutex mm : Bool) {i : ℕ}
    {page : BinderLruPage} (hi : a.pages[i]? = some page) (hlru : page.lru = true) :
    ∃ ps, binderAllocFreePage mutex mm i a = some { a with pages := ps } ∧
      Wf { a with pages := ps } := by
  unfold binderAllocFreePage
  rw [hi]
  dsimp only
  split
  · exact ⟨a.pages, rfl, h⟩
  rw [if_neg (by simp [hmm])]
  split
  · exact ⟨a.pages, rfl, h⟩
  · refine ⟨_, rfl, h.active_of (by simp) (h.active.set (by simp) i fun j => ?_)⟩
    have hact := (h.active i page hi).1
    by_cases hj : j = i
    · subst hj
      have hno : ¬ InUse a j := fun hu => by
        have := hact.mpr hu
        rw [this] at hlru
        cases hlru
      simp [hno]
    · simp [hj]

theorem vmaClose_spec (h : Wf a) : Wf (binderAllocVmaClose a) :=
  { pos := h.pos
    base := h.base
    size := h.size
    bound := h.bound
    pages := h.pages
    good := h.good
    sorted := h.sorted
    tiles := h.tiles
    words := h.words
    merged := h.merged
    fits := h.fits
    freeTree := h.freeTree
    allocated := h.allocated
    active := h.active
    quiet := h.quiet }

theorem setVmaVmMm_spec (h : Wf a) : Wf (setVmaVmMm a) :=
  { pos := h.pos
    base := h.base
    size := h.size
    bound := h.bound
    pages := h.pages
    good := h.good
    sorted := h.sorted
    tiles := h.tiles
    words := h.words
    merged := h.merged
    fits := h.fits
    freeTree := h.freeTree
    allocated := h.allocated
    active := h.active
    quiet := h.quiet }

instance (i : ℕ) : Decidable (InUse a i) :=
  inferInstanceAs (Decidable (∃ t ∈ _, _ ∧ _ ∧ _))

theorem countPages_spec : ∀ (n i : ℕ) {U : ℕ → Prop} [DecidablePred U] (active lru free : ℕ),
    i + n = a.pages.length → PagesAre a.pages U →
    ∃ lru' free', countPages a.pages n i (active, lru, free) =
      some (active + (List.range' i n).countP (fun j => decide (U j)), lru', free') ∧
      active + (List.range' i n).countP (fun j => decide (U j)) + lru' + free' =
        active + lru + free + n
  | 0, _, _, _, active, lru, free, _, _ => ⟨lru, free, rfl, rfl⟩
  | n + 1, i, U, _, active, lru, free, hlen, hps => by
    have hi := List.getElem?_eq_getElem (show i < a.pages.length by omega)
    obtain ⟨hact, hlru⟩ := hps i _ hi
    rw [countPages, hi]
    generalize a.pages[i] = page at *
    obtain ⟨ptr, onLru⟩ := page
    have hcount : (List.range' i (n + 1)).countP (fun j => decide (U j)) =
        (List.range' (i + 1) n).countP (fun j => decide (U j)) + if U i then 1 else 0 := by
      rw [List.range'_succ, List.countP_cons]
      simp
    rw [hcount]
    cases ptr with
    | false =>
      have hU : ¬ U i := fun hu => by simpa using hact.mpr hu
      obtain ⟨l, f, hrun, hsum⟩ := countPages_spec n (i + 1) active lru (free + 1) (by omega) hps
      exact ⟨l, f, by rw [if_neg hU]; exact hrun, by rw [if_neg hU]; omega⟩
    | true =>
      cases onLru with
      | false =>
        have hU : U i := hact.mp rfl
        obtain ⟨l, f, hrun, hsum⟩ := countPages_spec n (i + 1) (active + 1) lru free (by omega) hps
        refine ⟨l, f, hrun.trans ?_, by rw [if_pos hU]; omega⟩
        rw [if_pos hU, Nat.add_right_comm, Nat.add_assoc]
      | true =>
        have hU : ¬ U i := fun hu => by simpa using hact.mpr hu
        obtain ⟨l, f, hrun, hsum⟩ := countPages_spec n (i + 1) active (lru + 1) free (by omega) hps
        exact ⟨l, f, by rw [if_neg hU]; exact hrun, by rw [if_neg hU]; omega⟩

/-! ### The release -/

/-- Where nothing is allocated, one free buffer is the region and no page is active. -/
theorem Wf.of_live_nil (h : Wf a) (hpos : 0 < a.bufferSize) (hnil : live a = []) :
    ∃ b, a.buffers = [b] ∧ b.free = true ∧ b.data = a.buffer := by
  have hfree : ∀ b ∈ a.buffers, b.free = true := fun b hb => by
    by_contra hno
    obtain ⟨t, ht, rfl⟩ := exists_span_of_mem BinderBuffer.data hb a.top
    have : t ∈ live a := mem_live.mpr ⟨ht, by simpa using hno⟩
    simp [hnil] at this
  cases hbuf : a.buffers with
  | nil =>
    have htiles := h.tiles
    rw [hbuf] at htiles
    have htiles : a.buffer = a.top := htiles
    unfold BinderAlloc.top at htiles
    omega
  | cons b rest =>
    cases rest with
    | nil =>
      refine ⟨b, rfl, hfree b (by simp [hbuf]), ?_⟩
      have htiles := h.tiles
      rw [hbuf] at htiles
      exact htiles.1
    | cons c rest =>
      have hm := h.merged
      rw [hbuf, List.isChain_cons_cons] at hm
      rcases hm.1 with hf | hf
      · simp [hfree b (by simp [hbuf])] at hf
      · simp [hfree c (by simp [hbuf])] at hf

/-- The request is good, and a region of which nothing is taken has room for it. -/
def Wanted (a : BinderAlloc) (ds os es : ℕ) (isAsync : Bool) : Prop :=
  ∃ s, requestSize ds os es = some s ∧
    ¬ (isAsync = true ∧ a.freeAsyncSpace < (s + bufferStructSize) % sizeMod) ∧
    max s wordSize ≤ a.bufferSize

theorem newBuf_invalid (rb : Rebalance ℕ) (env : Env) (hv : a.vma = true) {ds os es : ℕ}
    (hs : requestSize ds os es = none) (isAsync : Bool) :
    binderAllocNewBuf rb env a ds os es isAsync = some (.error .einval, a) := by
  unfold binderAllocNewBuf
  rw [if_neg (by simp [hv]), hs]

/-- Before `vma_vm_mm` is set, a request is refused, or reads the null pointer. -/
theorem newBuf_early (rb : Rebalance ℕ) (env : Env) (h : Wf a) (hpos : 0 < a.bufferSize)
    (hmm : a.vmaVmMm = false) (hf : Fresh a) (ds os es : ℕ) (isAsync : Bool) :
    (binderAllocNewBuf rb env a ds os es isAsync = none ∧ Wanted a ds os es isAsync) ∨
      ∃ e, binderAllocNewBuf rb env a ds os es isAsync = some (.error e, a) ∧
        (e = .einval → requestSize ds os es = none) ∧ ¬ Wanted a ds os es isAsync := by
  obtain ⟨b, hbuf, hb, hd⟩ := h.of_live_nil hpos hf.live
  have hsize : binderAllocBufferSize a b.data = a.bufferSize := by
    unfold binderAllocBufferSize
    rw [hbuf, bufferSizeIn, if_pos rfl, stop_nil, hd]
    exact Nat.add_sub_cancel_left _ _
  have hin : ∀ d ∈ inorder a.freeBuffers, d = b.data := by
    intro d hd
    obtain ⟨c, hc, -, rfl⟩ := mem_freeData.mp (h.freeTree.mem_iff.mp hd)
    rw [hbuf, List.mem_singleton] at hc
    rw [hc]
  unfold binderAllocNewBuf
  rw [if_neg (by simp [hf.vma])]
  cases hs : requestSize ds os es with
  | none =>
    refine Or.inr ⟨_, rfl, fun _ => rfl, ?_⟩
    rintro ⟨s, hs', -⟩
    cases hs.symm.trans hs'
  | some s =>
    dsimp only
    by_cases ha : isAsync = true ∧ a.freeAsyncSpace < (s + bufferStructSize) % sizeMod
    · rw [if_pos ha]
      refine Or.inr ⟨_, rfl, fun he => (by cases he), ?_⟩
      rintro ⟨s', hs', hno, -⟩
      cases hs.symm.trans hs'
      exact hno ha
    rw [if_neg ha]
    rcases bestFit_cases h.toFreeTree (max s wordSize) with
      ⟨hfit, hall⟩ | ⟨d, hfit, hd', hle, -, -⟩
    · rw [hfit]
      refine Or.inr ⟨_, rfl, fun he => (by cases he), ?_⟩
      rintro ⟨s', hs', -, hle⟩
      cases hs.symm.trans hs'
      have hmem : b.data ∈ inorder a.freeBuffers :=
        h.freeTree.mem_iff.mpr (mem_freeData.mpr ⟨b, by simp [hbuf], hb, rfl⟩)
      have hlt := hall _ hmem
      rw [hsize] at hlt
      exact absurd hle (not_le.mpr hlt)
    · rw [hfit, hin d hd']
      rw [hin d hd', hsize] at hle
      refine Or.inl ⟨?_, s, hs, ha, hle⟩
      -- the buffer begins with a page, and no page is mapped
      have hbase := h.base
      have htop := h.top_aligned
      have hend : b.data + a.bufferSize = a.top := by rw [hd]; rfl
      have hmask : pageMask a.top = a.top := by
        unfold pageMask pageSize at *
        omega
      have halign : pageAlign b.data = a.buffer := by
        rw [hd]
        unfold pageAlign pageSize at *
        omega
      have hword : 0 < max s wordSize := lt_max_of_lt_right (by decide)
      have hto : a.buffer < min (pageAlign (b.data + max s wordSize)) a.top := by
        rw [← hend, hd]
        unfold pageAlign pageSize at *
        omega
      unfold cutBuffer
      dsimp only
      have hexact : (decide (a.bufferSize = max s wordSize) && a.bufferSize != max s wordSize) =
          false := by
        by_cases he : a.bufferSize = max s wordSize <;> simp [he]
      rw [hsize, hexact, warnOn_false, hend, hmask, halign, allocRange_early env hmm
        (h.boundary hbase le_rfl (hto.le.trans (min_le_right _ _)))
        (h.boundary ?_ hto.le (min_le_right _ _)) hto hf.pages]
      rcases min_choice (pageAlign (b.data + max s wordSize)) a.top with he | he <;> rw [he]
      · exact pageAlign_aligned _
      · exact htop

theorem Wf.first_allocated (h : Wf a) : first a.allocatedBuffers = (live a).head?.map Span.lo := by
  rw [first_eq, h.allocated_eq, List.head?_map]

theorem releaseBuffers_spec (rb : Rebalance ℕ) (n : ℕ) {a : BinderAlloc} (h : Wf a)
    (hn : (live a).length ≤ n) (htxn : ∀ t ∈ live a, t.owner.transaction = false) :
    ∃ a', releaseBuffers rb n a = some a' ∧ Wf a' ∧ Kept a a' ∧ live a' = [] := by
  induction n generalizing a with
  | zero => exact ⟨a, rfl, h, .refl a, List.length_eq_zero_iff.mp (Nat.le_zero.mp hn)⟩
  | succ n ih =>
    have hfirst := h.first_allocated
    cases hl : live a with
    | nil =>
      rw [hl] at hfirst
      exact ⟨a, by rw [releaseBuffers, hfirst]; rfl, h, .refl a, hl⟩
    | cons t rest =>
      rw [hl] at hfirst
      obtain ⟨a', l, m, hrun, hwf, hk, hlive, hlive', -⟩ :=
        freeBuf_spec rb h (show t ∈ live a by simp [hl]) (htxn t (by simp [hl]))
      have hlen : (live a').length ≤ n := by
        rw [hlive, List.length_append, List.length_cons] at hn
        rw [hlive', List.length_append]
        omega
      have htxn' : ∀ u ∈ live a', u.owner.transaction = false := fun u hu => htxn u (by
        rw [hlive]
        rw [hlive'] at hu
        rcases List.mem_append.mp hu with hu | hu
        · exact List.mem_append_left _ hu
        · exact List.mem_append_right _ (List.mem_cons_of_mem _ hu))
      obtain ⟨a'', hrun', hwf', hk', hnil⟩ := ih hwf hlen htxn'
      refine ⟨a'', ?_, hwf', hk.trans hk', hnil⟩
      rw [releaseBuffers, hfirst, List.head?_cons, Option.map_some]
      dsimp only
      rw [hrun]
      exact hrun'

theorem live_length_le (a : BinderAlloc) : (live a).length ≤ a.buffers.length := by
  have hspans : ∀ l : List BinderBuffer, (spans BinderBuffer.data l a.top).length = l.length := by
    intro l
    induction l with
    | nil => rfl
    | cons b l ih => rw [spans, List.length_cons, List.length_cons, ih]
  exact (List.length_filter_le _ _).trans (hspans a.buffers).le

theorem deferredRelease_spec (rb : Rebalance ℕ) (h : Wf a) (hpos : 0 < a.bufferSize)
    (hvma : a.vma = false) (htxn : ∀ t ∈ live a, t.owner.transaction = false) :
    ∃ n a', binderAllocDeferredRelease rb a = some (n, a') ∧
      a'.vma = false ∧ a'.warnings = 0 ∧ a'.buffers = [] ∧ a'.pages = [] := by
  obtain ⟨a1, hrun, hwf, hk, hnil⟩ := releaseBuffers_spec rb a.buffers.length h (live_length_le a)
    htxn
  obtain ⟨b, hbuf, hb, -⟩ := hwf.of_live_nil (hk.bufferSize ▸ hpos) hnil
  unfold binderAllocDeferredRelease
  rw [if_neg (by simp [hvma]), hrun]
  refine ⟨_, _, rfl, ?_, ?_, ?_, rfl⟩
  · rw [hbuf, dropBuffers, dropBuffers]
    exact hk.vma.trans hvma
  · rw [hbuf, dropBuffers, dropBuffers, hb]
    exact hwf.quiet
  · rw [hbuf]
    rfl

theorem deferredRelease_unmapped (rb : Rebalance ℕ) (h : Unmapped a) :
    ∃ n a', binderAllocDeferredRelease rb a = some (n, a') ∧
      a'.vma = false ∧ a'.warnings = 0 ∧ a'.buffers = [] ∧ a'.pages = [] := by
  have hrun : releaseBuffers rb a.buffers.length a = some a := by
    rw [h.buffers]
    rfl
  unfold binderAllocDeferredRelease
  rw [if_neg (by simp [h.vma]), hrun]
  refine ⟨_, _, rfl, ?_, ?_, ?_, rfl⟩
  · rw [h.buffers]
    exact h.vma
  · rw [h.buffers]
    exact h.quiet
  · rw [h.buffers]
    rfl

end HeadlessAndroid.Binder
