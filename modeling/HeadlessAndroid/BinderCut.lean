import HeadlessAndroid.BinderMerge

/-!
# HeadlessAndroid.BinderCut — a buffer is allocated

The smallest free buffer that is large enough is cut: its front becomes the allocated buffer and
what is left over is a free buffer.  While the rest is inserted, the buffer that was cut is still in
the tree of the free ones, and there it has shrunk; the tree is in order all the same, since all
before it are smaller than the request.
-/

namespace HeadlessAndroid.Binder

open Lib.SearchTree Lib.Tiling

variable {a : BinderAlloc}

/-! ### The search -/

/-- The search finds no free buffer that is large enough, or the first one in the order of the
tree; it stops early when that one is just as large. -/
theorem bestFit_cases (h : FreeTree a) (size : ℕ) :
    (bestFit (fitTurn a size) a.freeBuffers none = some (none, false) ∧
      ∀ d ∈ inorder a.freeBuffers, binderAllocBufferSize a d < size) ∨
    ∃ d, bestFit (fitTurn a size) a.freeBuffers none =
        some (some d, decide (binderAllocBufferSize a d = size)) ∧
      d ∈ inorder a.freeBuffers ∧ size ≤ binderAllocBufferSize a d ∧
      (∀ e ∈ inorder a.freeBuffers, size ≤ binderAllocBufferSize a e →
        binderAllocBufferSize a d ≤ binderAllocBufferSize a e) ∧
      (binderAllocBufferSize a d ≠ size → ∃ p q, inorder a.freeBuffers = p ++ d :: q ∧
        ∀ e ∈ p, binderAllocBufferSize a e < size) := by
  obtain ⟨p, m, q, hcut, hp, hm, hq⟩ := exists_cut (binderAllocBufferSize a) size h.sorted
  have hturn : ∀ d ∈ p ++ (m ++ q),
      fitTurn a size d = some (compare size (binderAllocBufferSize a d)) := fun d hd => by
    obtain ⟨b, hb, hbf⟩ := h.good d (hcut ▸ hd)
    exact fitTurn_of hb hbf
  have hspec := bestFit_spec (fitTurn a size) hcut
    (fun d hd => by rw [hturn d (by simp [hd]), compare_gt_iff_gt.mpr (hp d hd)])
    (fun d hd => by rw [hturn d (by simp [hd]), compare_eq_iff_eq.mpr (hm d hd).symm])
    (fun d hd => by rw [hturn d (by simp [hd]), compare_lt_iff_lt.mpr (hq d hd)]) none
  have hsorted := h.sorted
  rw [hcut] at hsorted ⊢
  rcases hspec with ⟨rfl, hfit⟩ | ⟨d, hd, hfit⟩
  · cases q with
    | nil =>
      refine Or.inl ⟨hfit, fun d hd => hp d (by simpa using hd)⟩
    | cons d q =>
      have hdq := hq d (by simp)
      rw [List.nil_append] at hsorted ⊢
      obtain ⟨-, hs2, -⟩ := List.pairwise_append.mp hsorted
      refine Or.inr ⟨d, by rw [hfit, decide_eq_false hdq.ne']; rfl, by simp, hdq.le,
        fun e he hle => ?_, fun _ => ⟨p, q, rfl, hp⟩⟩
      rcases List.mem_append.mp he with he | he
      · exact absurd (hp e he) (not_lt.mpr hle)
      · rcases List.mem_cons.mp he with rfl | he
        · exact le_rfl
        · exact (List.pairwise_cons.mp hs2).1 e he
  · have hde := hm d hd
    exact Or.inr ⟨d, by rw [hfit, decide_eq_true hde], by simp [hd], hde.ge,
      fun e _ hle => hde.trans_le hle, fun hne => absurd hde hne⟩

/-! ### The buffer is taken -/

/-- The buffer that a request gets. -/
def BinderBuffer.taken (b : BinderBuffer) (dataSize offsetsSize extraBuffersSize : ℕ)
    (isAsync : Bool) : BinderBuffer :=
  ⟨b.data, false, false, isAsync, b.transaction, dataSize, offsetsSize, extraBuffersSize⟩

/-- The space for async transactions after `size` bytes were allocated. -/
def asyncAfterNew (a : BinderAlloc) (size : ℕ) (isAsync : Bool) : ℕ :=
  if isAsync then (a.freeAsyncSpace + (sizeMod - (size + bufferStructSize) % sizeMod)) % sizeMod
  else a.freeAsyncSpace

theorem takeBuffer_spec (rb : Rebalance ℕ) {pre post : List BinderBuffer} {b : BinderBuffer}
    (hbuf : a.buffers = pre ++ b :: post) {lo : ℕ}
    (htiles : Tiles BinderBuffer.data lo a.buffers a.top) (hb : b.free = true)
    (htree : FreeTree a) (hperm : (inorder a.freeBuffers).Perm (freeData a.buffers))
    (halloc : inorder a.allocatedBuffers = usedData a.buffers) (ds os es size : ℕ)
    (isAsync : Bool) :
    ∃ a', takeBuffer rb a b.data ds os es size isAsync = some a' ∧ Kept a a' ∧
      a'.pages = a.pages ∧ a'.warnings = a.warnings ∧
      a'.buffers = pre ++ b.taken ds os es isAsync :: post ∧ FreeTree a' ∧
      (inorder a'.freeBuffers).Perm (freeData a'.buffers) ∧
      inorder a'.allocatedBuffers = usedData a'.buffers ∧
      a'.freeAsyncSpace = asyncAfterNew a size isAsync := by
  obtain ⟨hpre, hpost⟩ := ne_around (hbuf ▸ htiles)
  have htilesOf : ∀ b' : BinderBuffer, b'.data = b.data →
      Tiles BinderBuffer.data lo (pre ++ b' :: post) a.top := fun b' hd =>
    tiles_split.mpr (hd.symm ▸ tiles_split.mp (hbuf ▸ htiles))
  -- the state in which the buffer is inserted among the allocated ones
  obtain ⟨a1, ha1⟩ : ∃ a1 : BinderAlloc, a1 =
    { a with
      freeBuffers := rb.erase b.data a.freeBuffers
      buffers := pre ++ { b with free := false, allowUserFree := false } :: post } := ⟨_, rfl⟩
  have hbuf1 : a1.buffers = pre ++ { b with free := false, allowUserFree := false } :: post := by
    rw [ha1]
  have htop1 : a1.top = a.top := by rw [ha1]; rfl
  have htiles1 : Tiles BinderBuffer.data lo a1.buffers a1.top := by
    rw [hbuf1, htop1]
    exact htilesOf { b with free := false, allowUserFree := false } rfl
  have hset1 : BinderAlloc.setAt { a with freeBuffers := rb.erase b.data a.freeBuffers } b.data
      (fun b => { b with free := false, allowUserFree := false }) = a1 := by
    rw [ha1]
    apply setAt_around
    · exact hbuf
    · exact htiles
  have hdata : usedData a.buffers = usedData pre ++ usedData post := by
    rw [hbuf, usedData_append, usedData_cons, if_pos hb]
  obtain ⟨t, hins, ht⟩ := insertAllocated_spec rb
    (at?_of_mem htiles1 (show { b with free := false, allowUserFree := false } ∈ a1.buffers by
      simp [hbuf1])) rfl
    (show inorder a1.allocatedBuffers = usedData pre ++ usedData post by
      rw [ha1, ← hdata]
      exact halloc)
    (fun d hd => by
      rw [← usedData_append] at hd
      obtain ⟨c, hc, hcf, rfl⟩ := mem_usedData.mp hd
      refine ⟨c, at?_of_mem htiles1 ?_, hcf⟩
      rw [hbuf1]
      rcases List.mem_append.mp hc with hc | hc
      · exact List.mem_append_left _ hc
      · exact List.mem_append_right _ (List.mem_cons_of_mem _ hc))
    (fun d hd => by
      obtain ⟨c, hc, -, rfl⟩ := mem_usedData.mp hd
      exact hpre c hc)
    (fun d hd => by
      obtain ⟨c, hc, -, rfl⟩ := mem_usedData.mp hd
      exact hpost c hc)
  obtain ⟨a2, ha2⟩ : ∃ a2 : BinderAlloc, a2 =
    { a with
      freeBuffers := rb.erase b.data a.freeBuffers
      allocatedBuffers := t
      buffers := pre ++ b.taken ds os es isAsync :: post
      freeAsyncSpace := asyncAfterNew a size isAsync } := ⟨_, rfl⟩
  have hbuf2 : a2.buffers = pre ++ b.taken ds os es isAsync :: post := by rw [ha2]
  have htop2 : a2.top = a.top := by rw [ha2]; rfl
  have hfree2 : a2.freeBuffers = rb.erase b.data a.freeBuffers := by rw [ha2]
  have hfd : freeData a2.buffers = freeData pre ++ freeData post := by
    rw [hbuf2, freeData_append, freeData_cons]
    rfl
  have hperm2 : (inorder a2.freeBuffers).Perm (freeData pre ++ freeData post) := by
    rw [hfree2, rb.inorder_erase]
    rw [hbuf, freeData_append, freeData_cons, if_pos hb] at hperm
    have := (hperm.trans List.perm_middle).erase b.data
    rwa [List.erase_cons_head] at this
  have htiles2 : Tiles BinderBuffer.data lo a2.buffers a2.top := by
    rw [hbuf2, htop2]
    exact htilesOf (b.taken ds os es isAsync) rfl
  refine ⟨a2, ?_, by rw [ha2]; exact ⟨rfl, rfl, rfl, rfl, rfl⟩, by rw [ha2], by rw [ha2], hbuf2,
    htree.of_sides (x := [b]) (y := [b.taken ds os es isAsync]) hbuf hbuf2 htiles htiles2 htop2 rfl
      (by
        rw [hfree2, rb.inorder_erase]
        exact List.erase_sublist) hperm2, hfd ▸ hperm2, ?_, by rw [ha2]⟩
  · unfold takeBuffer
    dsimp only
    rw [hset1, hins, Option.map_some]
    have hset2 : BinderAlloc.setAt { a1 with allocatedBuffers := t } b.data
        (fun b => { b with
          dataSize := ds
          offsetsSize := os
          asyncTransaction := isAsync
          extraBuffersSize := es }) =
        { a1 with allocatedBuffers := t, buffers := pre ++ b.taken ds os es isAsync :: post } :=
      setAt_around (a := { a1 with allocatedBuffers := t }) hbuf1 htiles1 _
    rw [hset2, ha1, ha2]
    unfold asyncAfterNew
    cases isAsync <;> rfl
  · rw [hbuf2, usedData_append, usedData_cons, if_neg (by simp [BinderBuffer.taken]), ha2]
    exact ht

/-! ### The rest becomes a free buffer -/

/-- A list in order stays so when one entry comes down, but not below those before it. -/
theorem pairwise_lower {α : Type} {f g : α → ℕ} {p q : List α} {x : α}
    (h : (p ++ x :: q).Pairwise fun e e' => f e ≤ f e') (hp : ∀ e ∈ p, g e = f e)
    (hq : ∀ e ∈ q, g e = f e) (hx : g x ≤ f x) (hlow : ∀ e ∈ p, f e ≤ g x) :
    (p ++ x :: q).Pairwise fun e e' => g e ≤ g e' := by
  obtain ⟨hs1, hs2, hs3⟩ := List.pairwise_append.mp h
  obtain ⟨hs4, hs5⟩ := List.pairwise_cons.mp hs2
  refine List.pairwise_append.mpr
    ⟨hs1.imp_of_mem fun he hf hle => by rw [hp _ he, hp _ hf]; exact hle,
      List.pairwise_cons.mpr ⟨fun e he => ?_,
        hs5.imp_of_mem fun he hf hle => by rw [hq _ he, hq _ hf]; exact hle⟩,
      fun e he e' he' => ?_⟩
  · rw [hq e he]
    exact hx.trans (hs4 e he)
  · rw [hp e he]
    rcases List.mem_cons.mp he' with rfl | he'
    · exact hlow e he
    · rw [hq e' he']
      exact hs3 e he e' (List.mem_cons_of_mem _ he')

/-- The tree of free buffers stays in order: the buffer that is cut is as large as the request now, and
the others are as large as they were. -/
theorem FreeTree.cut {a1 : BinderAlloc} {pre post : List BinderBuffer} {b : BinderBuffer} {lo size : ℕ}
    (htree : FreeTree a) (hbuf : a.buffers = pre ++ b :: post)
    (hbuf1 : a1.buffers = pre ++ b :: .zeroed (b.data + size) true :: post)
    (htiles : Tiles BinderBuffer.data lo a.buffers a.top)
    (htiles1 : Tiles BinderBuffer.data lo a1.buffers a1.top) (htop1 : a1.top = a.top)
    (hfree1 : a1.freeBuffers = a.freeBuffers)
    (hperm : (inorder a.freeBuffers).Perm (freeData a.buffers))
    (hlt : b.data + size < stop BinderBuffer.data post a.top)
    (hcut : ∃ p q, inorder a.freeBuffers = p ++ b.data :: q ∧
      ∀ e ∈ p, binderAllocBufferSize a e < size) : FreeTree a1 := by
  obtain ⟨hpre, -⟩ := ne_around (hbuf ▸ htiles)
  have hcutsize : binderAllocBufferSize a1 b.data = size := by
    unfold binderAllocBufferSize
    rw [hbuf1, bufferSizeIn_around fun c hc => (hpre c hc).ne, stop_cons]
    exact Nat.add_sub_cancel_left _ _
  have holdsize : size ≤ binderAllocBufferSize a b.data := by
    unfold binderAllocBufferSize
    rw [hbuf, bufferSizeIn_around fun c hc => (hpre c hc).ne]
    omega
  have hsame : ∀ d ∈ inorder a.freeBuffers, d ≠ b.data →
      binderAllocBufferSize a1 d = binderAllocBufferSize a d := by
    intro d hd hne
    obtain ⟨c, hc, -, rfl⟩ := mem_freeData.mp (hperm.mem_iff.mp hd)
    refine (same_of_side (x := [b]) (y := [b, .zeroed (b.data + size) true]) hbuf hbuf1 htiles
      htiles1 htop1 rfl ?_).2
    rw [hbuf] at hc
    rcases List.mem_append.mp hc with hc | hc
    · exact List.mem_append_left _ hc
    · rcases List.mem_cons.mp hc with rfl | hc
      · exact absurd rfl hne
      · exact List.mem_append_right _ hc
  obtain ⟨p, q, htq, hp⟩ := hcut
  have hnodup : (p ++ b.data :: q).Nodup := by
    rw [← htq, hperm.nodup_iff]
    exact freeData_nodup htiles
  obtain ⟨hq, hpd⟩ : b.data ∉ q ∧ b.data ∉ p := by
    obtain ⟨-, h2, h3⟩ := List.nodup_append.mp hnodup
    exact ⟨(List.nodup_cons.mp h2).1, fun hd => h3 _ hd _ (by simp) rfl⟩
  refine ⟨fun d hd => ?_, ?_⟩
  · rw [hfree1] at hd
    obtain ⟨c, hc, hcf, rfl⟩ := mem_freeData.mp (hperm.mem_iff.mp hd)
    refine ⟨c, at?_of_mem htiles1 ?_, hcf⟩
    rw [hbuf] at hc
    rw [hbuf1]
    rcases List.mem_append.mp hc with hc | hc
    · exact List.mem_append_left _ hc
    · rcases List.mem_cons.mp hc with rfl | hc
      · simp
      · simp [hc]
  · have hsorted := htree.sorted
    rw [htq] at hsorted
    rw [hfree1, htq]
    exact pairwise_lower hsorted
      (fun e he => hsame e (by simp [htq, he]) fun h => hpd (h ▸ he))
      (fun e he => hsame e (by simp [htq, he]) fun h => hq (h ▸ he))
      (hcutsize.trans_le holdsize) fun e he => (hp e he).le.trans_eq hcutsize.symm

theorem splitBuffer_spec (rb : Rebalance ℕ) {pre post : List BinderBuffer} {b : BinderBuffer}
    (hbuf : a.buffers = pre ++ b :: post) {lo size : ℕ}
    (htiles : Tiles BinderBuffer.data lo a.buffers a.top) (hb : b.free = true)
    (htree : FreeTree a) (hperm : (inorder a.freeBuffers).Perm (freeData a.buffers))
    (hsize : 0 < size) (hlt : b.data + size < stop BinderBuffer.data post a.top)
    (hcut : ∃ p q, inorder a.freeBuffers = p ++ b.data :: q ∧
      ∀ e ∈ p, binderAllocBufferSize a e < size) :
    ∃ a', splitBuffer rb a b.data size = some a' ∧ Kept a a' ∧ a'.pages = a.pages ∧
      a'.warnings = a.warnings ∧ a'.freeAsyncSpace = a.freeAsyncSpace ∧
      a'.allocatedBuffers = a.allocatedBuffers ∧
      a'.buffers = pre ++ b :: .zeroed (b.data + size) true :: post ∧ FreeTree a' ∧
      (inorder a'.freeBuffers).Perm (freeData a'.buffers) := by
  obtain ⟨hpre, -⟩ := ne_around (hbuf ▸ htiles)
  obtain ⟨ht1, ht2, ht3⟩ := tiles_split.mp (hbuf ▸ htiles)
  obtain ⟨a1, ha1⟩ : ∃ a1 : BinderAlloc, a1 =
    { a with buffers := listAdd (.zeroed (b.data + size) true) a.buffers b.data } := ⟨_, rfl⟩
  have hbuf1 : a1.buffers = pre ++ b :: .zeroed (b.data + size) true :: post := by
    rw [ha1]
    dsimp only
    rw [hbuf, listAdd_around _ fun c hc => (hpre c hc).ne]
  have htop1 : a1.top = a.top := by rw [ha1]; rfl
  have hfree1 : a1.freeBuffers = a.freeBuffers := by rw [ha1]
  have htiles1 : Tiles BinderBuffer.data lo a1.buffers a1.top := by
    rw [hbuf1, htop1]
    refine tiles_split.mpr ⟨ht1, ?_, rfl, hlt, ht3⟩
    rw [stop_cons]
    exact Nat.lt_add_of_pos_right hsize
  have htree1 : FreeTree a1 :=
    htree.cut hbuf hbuf1 htiles htiles1 htop1 hfree1 hperm hlt hcut
  obtain ⟨t, hins, hperm1, htree2⟩ := insertFree_spec rb
    (at?_of_mem htiles1 (show BinderBuffer.zeroed (b.data + size) true ∈ a1.buffers by
      simp [hbuf1])) rfl htree1
  refine ⟨{ a1 with freeBuffers := t }, ?_, ?_, by rw [ha1], by rw [ha1], by rw [ha1], by rw [ha1],
    hbuf1, htree2, ?_⟩
  · unfold splitBuffer
    rw [← ha1]
    exact hins
  · rw [ha1]
    exact ⟨rfl, rfl, rfl, rfl, rfl⟩
  · have hbuf1 : ({ a1 with freeBuffers := t } : BinderAlloc).buffers =
        pre ++ b :: .zeroed (b.data + size) true :: post := hbuf1
    have hz : freeData (.zeroed (b.data + size) true :: post) =
        (b.data + size) :: freeData post := rfl
    rw [hbuf1, freeData_append, freeData_cons, if_pos hb, hz]
    rw [hfree1] at hperm1
    rw [hbuf, freeData_append, freeData_cons, if_pos hb] at hperm
    have hl : ∀ m, freeData pre ++ b.data :: m = (freeData pre ++ [b.data]) ++ m := by simp
    rw [hl] at hperm ⊢
    exact hperm1.trans ((hperm.cons _).trans List.perm_middle.symm)

/-! ### The invariant after a cut -/

/-- What is left of the buffer `b`, before `post`, once `size` bytes of it are taken. -/
inductive Rest (b : BinderBuffer) (size e : ℕ) : List BinderBuffer → Prop
  | none (h : b.data + size = e) : Rest b size e []
  | buffer (h : b.data + size < e) : Rest b size e [.zeroed (b.data + size) true]

namespace Rest

variable {b : BinderBuffer} {size hi lo : ℕ} {rest post : List BinderBuffer}

theorem stop_eq (h : Rest b size (stop BinderBuffer.data post hi) rest) :
    stop BinderBuffer.data (rest ++ post) hi = b.data + size := by
  cases h with
  | none h => exact h.symm
  | buffer => rfl

theorem le {e : ℕ} (h : Rest b size e rest) : b.data + size ≤ e := by
  cases h with
  | none h => exact h.le
  | buffer h => exact h.le

theorem tiles (h : Rest b size (stop BinderBuffer.data post hi) rest)
    (ht : Tiles BinderBuffer.data (stop BinderBuffer.data post hi) post hi) :
    Tiles BinderBuffer.data (b.data + size) (rest ++ post) hi := by
  cases h with
  | none h => exact h ▸ ht
  | buffer h => exact ⟨rfl, h, ht⟩

theorem usedPage_iff (h : Rest b size (stop BinderBuffer.data post hi) rest) {x : ℕ} :
    UsedPage (rest ++ post) hi x ↔ UsedPage post hi x := by
  cases h with
  | none => exact Iff.rfl
  | buffer =>
    rw [UsedPage, List.singleton_append, occupied_cons]
    simp [BinderBuffer.zeroed]

theorem live_eq (h : Rest b size (stop BinderBuffer.data post hi) rest) :
    (spans BinderBuffer.data (rest ++ post) hi).filter (fun t => !t.owner.free) =
      (spans BinderBuffer.data post hi).filter fun t => !t.owner.free := by
  cases h with
  | none => rfl
  | buffer => rw [List.singleton_append, spans, List.filter_cons_of_neg (by simp [BinderBuffer.zeroed])]

theorem words {e : ℕ} (h : Rest b size e rest) (hb : b.data % wordSize = 0)
    (hs : size % wordSize = 0) : ∀ c ∈ rest, c.data % wordSize = 0 := by
  cases h with
  | none => simp
  | buffer =>
    rintro c hc
    rw [List.mem_singleton] at hc
    subst hc
    change (b.data + size) % wordSize = 0
    unfold wordSize at *
    omega

theorem merged {e : ℕ} (h : Rest b size e rest)
    (hchain : post.IsChain fun b c => b.free = false ∨ c.free = false) (hpost : UsedHead post)
    {c : BinderBuffer} (hc : c.free = false) :
    (c :: (rest ++ post)).IsChain fun b c => b.free = false ∨ c.free = false := by
  cases h with
  | none => exact List.IsChain.cons hchain fun _ _ => Or.inl hc
  | buffer =>
    exact List.IsChain.cons (List.IsChain.cons hchain fun n hn => Or.inr (hpost n hn))
      fun _ _ => Or.inl hc

end Rest

/-- The neighbours of a free buffer are used. -/
theorem Wf.neighbours (h : Wf a) {pre post : List BinderBuffer} {b : BinderBuffer}
    (hbuf : a.buffers = pre ++ b :: post) (hb : b.free = true) : UsedLast pre ∧ UsedHead post := by
  obtain ⟨-, hch2, hch3⟩ := List.isChain_append.mp (hbuf ▸ h.merged)
  exact ⟨fun c hc => (hch3 c hc b (by simp)).resolve_right (by simp [hb]),
    fun c hc => ((List.isChain_cons.mp hch2).1 c hc).resolve_left (by simp [hb])⟩

/-- The occupied pages, from the two sides of one free buffer. -/
theorem inUse_around_free {pre post : List BinderBuffer} {b : BinderBuffer}
    (hbuf : a.buffers = pre ++ b :: post) (hb : b.free = true) (i : ℕ) :
    InUse a i ↔ UsedPage pre b.data (a.buffer + i * pageSize) ∨
      UsedPage post a.top (a.buffer + i * pageSize) := by
  unfold InUse UsedPage
  rw [hbuf, occupied_append, occupied_cons, stop_cons]
  simp [hb]

/-- Where the first `size` bytes of a free buffer are taken, the pages that become occupied are
those that `binder_alloc_new_buf_locked` asks for. -/
theorem Wf.taken_pages (h : Wf a) {pre post : List BinderBuffer} {b : BinderBuffer}
    (hbuf : a.buffers = pre ++ b :: post) (hb : b.free = true) {size : ℕ} (hpos : 0 < size)
    (hle : b.data + size ≤ stop BinderBuffer.data post a.top) (i : ℕ) :
    (UsedPage pre b.data (a.buffer + i * pageSize) ∨
        (b.data < a.buffer + i * pageSize + pageSize ∧
          a.buffer + i * pageSize < b.data + size) ∨
        UsedPage post a.top (a.buffer + i * pageSize) ↔
      InUse a i ∨ PagesIn a (pageAlign b.data)
        (min (pageAlign (b.data + size)) (pageMask (stop BinderBuffer.data post a.top))) i) ∧
    (PagesIn a (pageAlign b.data)
        (min (pageAlign (b.data + size)) (pageMask (stop BinderBuffer.data post a.top))) i →
      ¬ InUse a i) := by
  obtain ⟨hpre, -, hpost⟩ := tiles_split.mp (hbuf ▸ h.tiles)
  obtain ⟨hlast, hhead⟩ := h.neighbours hbuf hb
  have hx : (a.buffer + i * pageSize) % pageSize = 0 := by
    rw [Nat.add_mul_mod_self_right]
    exact h.base
  rw [inUse_around_free hbuf hb]
  exact Binder.taken_pages hx hpos hle (fun hu => (hpre.occupied_bounds hu).2)
    (fun hu => (hpost.occupied_bounds hu).1)
    (fun h1 h2 => usedPage_before hpre h.base hlast h1 h2)
    (fun h1 h2 => usedPage_after hpost h.top_aligned hhead h1 h2)

theorem wf_cut (h : Wf a) {a' : BinderAlloc} {pre post rest : List BinderBuffer}
    {b : BinderBuffer} {ds os es s : ℕ} {isAsync : Bool} (hbuf : a.buffers = pre ++ b :: post)
    (hb : b.free = true) (hreq : requestSize ds os es = some s)
    (hrest : Rest b (max s wordSize) (stop BinderBuffer.data post a.top) rest) (hk : Kept a a')
    (hbuf' : a'.buffers = pre ++ b.taken ds os es isAsync :: (rest ++ post)) (htree : FreeTree a')
    (hperm : (inorder a'.freeBuffers).Perm (freeData a'.buffers))
    (halloc : inorder a'.allocatedBuffers = usedData a'.buffers)
    (hlen : a'.pages.length = a.pages.length)
    (hpages : PagesAre a'.pages fun i => InUse a i ∨ PagesIn a (pageAlign b.data)
      (min (pageAlign (b.data + max s wordSize)) (pageMask (stop BinderBuffer.data post a.top))) i)
    (hquiet : a'.warnings = 0) :
    Wf a' ∧ ∃ l m, live a = l ++ m ∧
      live a' = l ++ ⟨b.taken ds os es isAsync, b.data, b.data + max s wordSize⟩ :: m := by
  have htop : a'.top = a.top := hk.top
  obtain ⟨hpre, hlt, hpost⟩ := tiles_split.mp (hbuf ▸ h.tiles)
  obtain ⟨hch1, hch2, -⟩ := List.isChain_append.mp (hbuf ▸ h.merged)
  obtain ⟨hlast, hhead⟩ := h.neighbours hbuf hb
  have hpos : 0 < max s wordSize := lt_max_of_lt_right (by decide)
  have htaken : (b.taken ds os es isAsync).data = b.data := rfl
  have hlive : live a = (spans BinderBuffer.data pre b.data).filter (fun t => !t.owner.free) ++
      (spans BinderBuffer.data post a.top).filter fun t => !t.owner.free := by
    unfold live
    rw [hbuf, spans_split, List.filter_append, List.filter_cons_of_neg (by simp [hb])]
  have hlive' : live a' = (spans BinderBuffer.data pre b.data).filter (fun t => !t.owner.free) ++
      ⟨b.taken ds os es isAsync, b.data, b.data + max s wordSize⟩ ::
        (spans BinderBuffer.data post a.top).filter fun t => !t.owner.free := by
    unfold live
    rw [hbuf', htop, spans_split, List.filter_append,
      List.filter_cons_of_pos (by simp [BinderBuffer.taken]), hrest.live_eq, hrest.stop_eq, htaken]
  refine ⟨⟨h.toRegion.of_kept hk hlen, htree, ?_, ?_, ?_, ?_, hperm, halloc, ?_, hquiet⟩, _, _,
    hlive, hlive'⟩
  · rw [hk.buffer, htop, hbuf']
    refine tiles_split.mpr ⟨hpre, ?_, ?_⟩
    · rw [hrest.stop_eq, htaken]
      exact Nat.lt_add_of_pos_right hpos
    · rw [hrest.stop_eq]
      exact hrest.tiles hpost
  · have hbw := h.words b (by simp [hbuf])
    have hsw : max s wordSize % wordSize = 0 := by
      rcases max_choice s wordSize with he | he <;> rw [he]
      · exact (requestSize_some hreq).2.1
      · exact Nat.mod_self _
    intro c hc
    rw [hbuf'] at hc
    rcases List.mem_append.mp hc with hc | hc
    · exact h.words c (by simp [hbuf, hc])
    · rcases List.mem_cons.mp hc with rfl | hc
      · exact hbw
      · rcases List.mem_append.mp hc with hc | hc
        · exact hrest.words hbw hsw c hc
        · exact h.words c (by simp [hbuf, hc])
  · rw [hbuf', List.isChain_append]
    exact ⟨hch1, hrest.merged hch2.tail hhead rfl, fun c hc _ _ => Or.inl (hlast c hc)⟩
  · intro t ht hused
    have hmem := mem_live.mpr ⟨ht, hused⟩
    rw [hlive'] at hmem
    have hold : t ∈ live a → Fits t := fun hl =>
      h.fits t (mem_live.mp hl).1 (mem_live.mp hl).2
    rw [hlive] at hold
    rcases List.mem_append.mp hmem with hmem | hmem
    · exact hold (List.mem_append_left _ hmem)
    · rcases List.mem_cons.mp hmem with rfl | hmem
      · exact ⟨s, hreq, Nat.add_sub_cancel_left _ _⟩
      · exact hold (List.mem_append_right _ hmem)
  · refine hpages.congr fun i _ => ?_
    have huse' : InUse a' i ↔ UsedPage pre b.data (a.buffer + i * pageSize) ∨
        (b.data < a.buffer + i * pageSize + pageSize ∧
          a.buffer + i * pageSize < b.data + max s wordSize) ∨
        UsedPage post a.top (a.buffer + i * pageSize) := by
      have := hrest.usedPage_iff (x := a.buffer + i * pageSize)
      unfold InUse UsedPage at *
      rw [hbuf', htop, hk.buffer, occupied_append, occupied_cons, stop_cons, hrest.stop_eq, this,
        htaken]
      simp [BinderBuffer.taken]
    rw [huse']
    exact (h.taken_pages hbuf hb hpos hrest.le i).1.symm

/-! ### The whole operation -/

/-- The kernel has what it is asked for. -/
structure Env.Good (env : Env) : Prop where
  mm : env.mm = true
  vma : env.vma = true
  page : ∀ i, env.page i = none
  newBuffer : env.newBuffer = true

/-- Nothing but pages that no allocated buffer reaches into has changed. -/
def Idle (a a' : BinderAlloc) : Prop :=
  ∃ ps h, a' = { a with pages := ps, pagesHigh := h }

theorem Wf.idle (h : Wf a) {ps : List BinderLruPage} (n : ℕ) (hl : ps.length = a.pages.length)
    (hP : PagesAre ps (InUse a)) : Wf { a with pages := ps, pagesHigh := n } :=
  { pos := h.pos
    base := h.base
    size := h.size
    bound := h.bound
    pages := hl.trans h.pages
    good := h.good
    sorted := h.sorted
    tiles := h.tiles
    words := h.words
    merged := h.merged
    fits := h.fits
    freeTree := h.freeTree
    allocated := h.allocated
    active := hP
    quiet := h.quiet }

/-- The free buffer `t` is cut: its first `size` bytes are a new allocated buffer. -/
structure Cut (a a' : BinderAlloc) (t : Span BinderBuffer) (ds os es size : ℕ)
    (isAsync : Bool) : Prop where
  live : ∃ l m, live a = l ++ m ∧
    Binder.live a' = l ++ ⟨t.owner.taken ds os es isAsync, t.lo, t.lo + size⟩ :: m
  async : a'.freeAsyncSpace = asyncAfterNew a size isAsync

/-- The pages that `binder_alloc_new_buf_locked` asks for begin and end with a page of the region. -/
theorem Wf.cut_boundaries (h : Wf a) {pre post : List BinderBuffer} {b : BinderBuffer}
    (hbuf : a.buffers = pre ++ b :: post) (size : ℕ) :
    Boundary a (pageAlign b.data) ∧ Boundary a (min (pageAlign (b.data + size))
      (pageMask (stop BinderBuffer.data post a.top))) := by
  obtain ⟨hpre, hlt, hpost⟩ := tiles_split.mp (hbuf ▸ h.tiles)
  obtain ⟨hblo, hbhi⟩ := h.tiles.start_mem (show b ∈ a.buffers by simp [hbuf])
  refine ⟨h.boundary (pageAlign_aligned _) (hblo.trans (by unfold pageAlign pageSize; omega))
    ((pageAlign_le h.top_aligned).mpr hbhi.le), h.boundary ?_ (le_min ?_ ?_)
      ((min_le_right _ _).trans ?_)⟩
  · rcases min_choice (pageAlign (b.data + size)) (pageMask (stop BinderBuffer.data post a.top)) with
      he | he <;> rw [he]
    · exact pageAlign_aligned _
    · exact pageMask_aligned _
  · exact hblo.trans (by unfold pageAlign pageSize; omega)
  · exact (le_pageMask h.base).mpr (hblo.trans hlt.le)
  · exact le_trans (by unfold pageMask pageSize; omega) hpost.le

section Mapped

/-! The pages of the first `max s wordSize` bytes of the free buffer `b` are mapped. -/

variable {pre post : List BinderBuffer} {b : BinderBuffer} {s n : ℕ} {ps : List BinderLruPage}

/-- The whole buffer is taken. -/
theorem takeWhole_spec (rb : Rebalance ℕ) (h : Wf a) (hbuf : a.buffers = pre ++ b :: post)
    (hfree : b.free = true) {ds os es : ℕ} (isAsync : Bool) (hreq : requestSize ds os es = some s)
    (hl : ps.length = a.pages.length)
    (hP : PagesAre ps fun i => InUse a i ∨ PagesIn a (pageAlign b.data)
      (min (pageAlign (b.data + max s wordSize)) (pageMask (stop BinderBuffer.data post a.top))) i)
    (hex : stop BinderBuffer.data post a.top - b.data = max s wordSize) :
    ∃ a', takeBuffer rb { a with pages := ps, pagesHigh := n } b.data ds os es (max s wordSize)
        isAsync = some a' ∧ Wf a' ∧ Kept a a' ∧
      Cut a a' ⟨b, b.data, stop BinderBuffer.data post a.top⟩ ds os es (max s wordSize) isAsync := by
  obtain ⟨hpre, hlt, hpost⟩ := tiles_split.mp (hbuf ▸ h.tiles)
  obtain ⟨a', htake, hk, hpages, hwarn, hbuf', htree, hperm, halloc, hasync⟩ :=
    takeBuffer_spec (a := { a with pages := ps, pagesHigh := n }) rb hbuf h.tiles hfree
      ⟨h.good, h.sorted⟩ h.freeTree h.allocated ds os es (max s wordSize) isAsync
  have hk' : Kept a a' := ⟨hk.vma, hk.vmaVmMm, hk.buffer, hk.userBufferOffset, hk.bufferSize⟩
  have hrest : Rest b (max s wordSize) (stop BinderBuffer.data post a.top) [] := .none (by omega)
  obtain ⟨hwf, hlive⟩ := wf_cut h hbuf hfree hreq hrest hk' hbuf' htree hperm halloc
    (by rw [hpages]; exact hl) (by rw [hpages]; exact hP) (hwarn.trans h.quiet)
  exact ⟨a', htake, hwf, hk', hlive, hasync⟩

/-- The front is taken, and the rest is a free buffer. -/
theorem takeFront_spec (rb : Rebalance ℕ) (h : Wf a) (hbuf : a.buffers = pre ++ b :: post)
    (hfree : b.free = true) {ds os es : ℕ} (isAsync : Bool) (hreq : requestSize ds os es = some s)
    (hl : ps.length = a.pages.length)
    (hP : PagesAre ps fun i => InUse a i ∨ PagesIn a (pageAlign b.data)
      (min (pageAlign (b.data + max s wordSize)) (pageMask (stop BinderBuffer.data post a.top))) i)
    (hlt : b.data + max s wordSize < stop BinderBuffer.data post a.top)
    (hcut : ∃ p q, inorder a.freeBuffers = p ++ b.data :: q ∧
      ∀ e ∈ p, binderAllocBufferSize a e < max s wordSize) :
    ∃ a1 a', splitBuffer rb { a with pages := ps, pagesHigh := n } b.data (max s wordSize) =
        some a1 ∧ takeBuffer rb a1 b.data ds os es (max s wordSize) isAsync = some a' ∧
      Wf a' ∧ Kept a a' ∧
      Cut a a' ⟨b, b.data, stop BinderBuffer.data post a.top⟩ ds os es (max s wordSize) isAsync := by
  obtain ⟨hpre, -, hpost⟩ := tiles_split.mp (hbuf ▸ h.tiles)
  have hpos : 0 < max s wordSize := lt_max_of_lt_right (by decide)
  obtain ⟨a1, hsplit, hk1, hpages1, hwarn1, hasync1, halloc1, hbuf1, htree1, hperm1⟩ :=
    splitBuffer_spec (a := { a with pages := ps, pagesHigh := n }) rb hbuf h.tiles hfree
      ⟨h.good, h.sorted⟩ h.freeTree hpos hlt hcut
  have hrest : Rest b (max s wordSize) (stop BinderBuffer.data post a.top)
      [.zeroed (b.data + max s wordSize) true] := .buffer hlt
  have htop1 : a1.top = a.top := hk1.top
  have htiles1 : Tiles BinderBuffer.data a.buffer a1.buffers a1.top := by
    rw [hbuf1, htop1]
    refine tiles_split.mpr ⟨hpre, ?_, hrest.stop_eq.symm ▸ hrest.tiles hpost⟩
    exact hrest.stop_eq.symm ▸ Nat.lt_add_of_pos_right hpos
  have hused1 : inorder a1.allocatedBuffers = usedData a1.buffers := by
    have hz : usedData (.zeroed (b.data + max s wordSize) true :: post) = usedData post := rfl
    have hu := h.allocated
    rw [hbuf, usedData_append, usedData_cons, if_pos hfree] at hu
    rw [halloc1, hbuf1, usedData_append, usedData_cons, if_pos hfree, hz]
    exact hu
  obtain ⟨a', htake, hk, hpages, hwarn, hbuf', htree, hperm, halloc, hasync⟩ :=
    takeBuffer_spec rb hbuf1 htiles1 hfree htree1 hperm1 hused1 ds os es (max s wordSize) isAsync
  have hk' : Kept a a' :=
    ⟨hk.vma.trans hk1.vma, hk.vmaVmMm.trans hk1.vmaVmMm, hk.buffer.trans hk1.buffer,
      hk.userBufferOffset.trans hk1.userBufferOffset, hk.bufferSize.trans hk1.bufferSize⟩
  obtain ⟨hwf, hlive⟩ := wf_cut h hbuf hfree hreq hrest hk' hbuf' htree hperm halloc
    (by rw [hpages, hpages1]; exact hl) (by rw [hpages, hpages1]; exact hP)
    ((hwarn.trans hwarn1).trans h.quiet)
  refine ⟨a1, a', hsplit, htake, hwf, hk', hlive, ?_⟩
  rw [hasync]
  unfold asyncAfterNew
  rw [hasync1]

/-- There is no struct for the rest: the pages go back to the list. -/
theorem giveBack_spec (h : Wf a) {lo hi : ℕ} (hlo : Boundary a lo) (hhi : Boundary a hi)
    (hl : ps.length = a.pages.length) (hP : PagesAre ps fun i => InUse a i ∨ PagesIn a lo hi i)
    (hnew : ∀ i, PagesIn a lo hi i → ¬ InUse a i) :
    ∃ r qs, binderUpdatePageRange none lo hi { a with pages := ps, pagesHigh := n } =
        some (r, { a with pages := qs, pagesHigh := n }) ∧
      Wf { a with pages := qs, pagesHigh := n } := by
  obtain ⟨r, qs, hback, hql, hQ⟩ := freeRange_spec (a := { a with pages := ps, pagesHigh := n })
    (hlo.imp fun _ hs => ⟨hs.1.trans hl.ge, hs.2⟩) (hhi.imp fun _ hs => ⟨hs.1.trans hl.ge, hs.2⟩) hP
    (fun i hi => Or.inr hi)
  refine ⟨r, qs, hback, h.idle n (hql.trans hl) (hQ.congr fun i _ => ?_)⟩
  constructor
  · rintro ⟨hu | hu, hn⟩
    · exact hu
    · exact absurd hu hn
  · exact fun hu => ⟨Or.inl hu, fun hi => hnew i hi hu⟩

end Mapped

theorem cutBuffer_spec (rb : Rebalance ℕ) (env : Env) (h : Wf a) (hmm : a.vmaVmMm = true)
    {t : Span BinderBuffer} (ht : t ∈ spans BinderBuffer.data a.buffers a.top)
    (hfree : t.owner.free = true) {ds os es s : ℕ} (isAsync : Bool)
    (hreq : requestSize ds os es = some s) (hle : max s wordSize ≤ t.hi - t.lo)
    (hcut : t.hi - t.lo ≠ max s wordSize → ∃ p q, inorder a.freeBuffers = p ++ t.lo :: q ∧
      ∀ e ∈ p, binderAllocBufferSize a e < max s wordSize) :
    ∃ r a', cutBuffer rb env a t.lo (decide (t.hi - t.lo = max s wordSize)) ds os es
        (max s wordSize) isAsync = some (r, a') ∧ Wf a' ∧ Kept a a' ∧
      ((r = .error .esrch ∨ r = .error .enomem) ∧ ¬ env.Good ∧ Idle a a' ∨
        r = .ok t.lo ∧ Cut a a' t ds os es (max s wordSize) isAsync) := by
  have hsize := size_of_span h.tiles ht
  obtain ⟨pre, post, hbuf, hlo, hhi⟩ := mem_spans.mp ht
  obtain ⟨b, tlo, thi⟩ := t
  dsimp only at hbuf hlo hhi hfree hle hcut hsize ⊢
  subst hlo hhi
  obtain ⟨-, hlt, -⟩ := tiles_split.mp (hbuf ▸ h.tiles)
  have hpos : 0 < max s wordSize := lt_max_of_lt_right (by decide)
  obtain ⟨hfrom, hto⟩ := h.cut_boundaries hbuf (max s wordSize)
  have hnew := fun i => (h.taken_pages hbuf hfree hpos
    (show b.data + max s wordSize ≤ stop BinderBuffer.data post a.top by omega) i).2
  obtain ⟨r, ps, n, hrange, hl, hok, hno, hgood⟩ := allocRange_spec env hmm hfrom hto h.active hnew
  have hexact : (decide (stop BinderBuffer.data post a.top - b.data = max s wordSize) &&
      stop BinderBuffer.data post a.top - b.data != max s wordSize) = false := by
    by_cases he : stop BinderBuffer.data post a.top - b.data = max s wordSize <;> simp [he]
  unfold cutBuffer
  dsimp only
  rw [hsize, hexact, warnOn_false, Nat.add_sub_cancel' hlt.le, hrange]
  cases r with
  | some e =>
    obtain ⟨hP, he⟩ := hno (by simp)
    refine ⟨_, _, rfl, h.idle n hl hP, ⟨rfl, rfl, rfl, rfl, rfl⟩, Or.inl ⟨?_, ?_, ps, n, rfl⟩⟩
    · rcases he with he | he <;> cases he
      · exact Or.inl rfl
      · exact Or.inr rfl
    · exact fun hg => by simpa using hgood hg.mm hg.vma hg.page
  | none =>
    have hP := hok rfl
    dsimp only
    by_cases hex : stop BinderBuffer.data post a.top - b.data = max s wordSize
    · obtain ⟨a', htake, hwf, hk, hcut⟩ :=
        takeWhole_spec (n := n) rb h hbuf hfree isAsync hreq hl hP hex
      rw [if_pos hex, htake]
      exact ⟨_, _, rfl, hwf, hk, Or.inr ⟨rfl, hcut⟩⟩
    · rw [if_neg hex]
      by_cases hnb : env.newBuffer = true
      · obtain ⟨a1, a', hsplit, htake, hwf, hk, hcut⟩ := takeFront_spec (n := n) rb h hbuf hfree
          isAsync hreq hl hP (by omega) (hcut hex)
        rw [if_pos hnb, hsplit]
        dsimp only
        rw [htake]
        exact ⟨_, _, rfl, hwf, hk, Or.inr ⟨rfl, hcut⟩⟩
      · obtain ⟨r, qs, hback, hwf⟩ := giveBack_spec (n := n) h hfrom hto hl hP hnew
        rw [if_neg hnb, hback]
        exact ⟨_, _, rfl, hwf, ⟨rfl, rfl, rfl, rfl, rfl⟩,
          Or.inl ⟨Or.inr rfl, fun hg => hnb hg.newBuffer, qs, n, rfl⟩⟩

/-- What `binder_alloc_new_buf` comes to. -/
inductive NewBuf (env : Env) (a : BinderAlloc) (ds os es : ℕ) (isAsync : Bool) :
    Except Errno ℕ → BinderAlloc → Prop
  | noVma (h : a.vma = false) : NewBuf env a ds os es isAsync (.error .esrch) a
  | invalid (hv : a.vma = true) (h : requestSize ds os es = none) :
      NewBuf env a ds os es isAsync (.error .einval) a
  | noAsync {s : ℕ} (hv : a.vma = true) (hs : requestSize ds os es = some s)
      (h : isAsync = true ∧ a.freeAsyncSpace < (s + bufferStructSize) % sizeMod) :
      NewBuf env a ds os es isAsync (.error .enospc) a
  | noRoom {s : ℕ} (hv : a.vma = true) (hs : requestSize ds os es = some s)
      (ha : ¬ (isAsync = true ∧ a.freeAsyncSpace < (s + bufferStructSize) % sizeMod))
      (h : ∀ t ∈ spans BinderBuffer.data a.buffers a.top, t.owner.free = true →
        t.hi - t.lo < max s wordSize) :
      NewBuf env a ds os es isAsync (.error .enospc) a
  | noPage {s : ℕ} {e : Errno} {a' : BinderAlloc} (hv : a.vma = true)
      (hs : requestSize ds os es = some s)
      (ha : ¬ (isAsync = true ∧ a.freeAsyncSpace < (s + bufferStructSize) % sizeMod))
      (he : e = .esrch ∨ e = .enomem) (henv : ¬ env.Good) (h : Idle a a') :
      NewBuf env a ds os es isAsync (.error e) a'
  | cut {s : ℕ} {t : Span BinderBuffer} {a' : BinderAlloc} (hv : a.vma = true)
      (hs : requestSize ds os es = some s)
      (ha : ¬ (isAsync = true ∧ a.freeAsyncSpace < (s + bufferStructSize) % sizeMod))
      (ht : t ∈ spans BinderBuffer.data a.buffers a.top) (hfree : t.owner.free = true)
      (hle : max s wordSize ≤ t.hi - t.lo)
      (hbest : ∀ u ∈ spans BinderBuffer.data a.buffers a.top, u.owner.free = true →
        max s wordSize ≤ u.hi - u.lo → t.hi - t.lo ≤ u.hi - u.lo)
      (h : Cut a a' t ds os es (max s wordSize) isAsync) :
      NewBuf env a ds os es isAsync (.ok t.lo) a'

/-- A free buffer is in the tree. -/
theorem Wf.free_mem (h : Wf a) {t : Span BinderBuffer}
    (ht : t ∈ spans BinderBuffer.data a.buffers a.top) (hf : t.owner.free = true) :
    t.lo ∈ inorder a.freeBuffers := by
  obtain ⟨-, -, -, hlo, -⟩ := mem_spans.mp ht
  rw [h.freeTree.mem_iff, mem_freeData]
  exact ⟨t.owner, owner_of_span ht, hf, hlo.symm⟩

/-- What is in the tree is a free buffer. -/
theorem Wf.exists_free (h : Wf a) {d : ℕ} (hd : d ∈ inorder a.freeBuffers) :
    ∃ t ∈ spans BinderBuffer.data a.buffers a.top, t.owner.free = true ∧ t.lo = d := by
  obtain ⟨b, hb, hf, rfl⟩ := mem_freeData.mp (h.freeTree.mem_iff.mp hd)
  obtain ⟨t, ht, rfl⟩ := exists_span_of_mem BinderBuffer.data hb a.top
  obtain ⟨-, -, -, hlo, -⟩ := mem_spans.mp ht
  exact ⟨t, ht, hf, hlo⟩

theorem newBuf_spec (rb : Rebalance ℕ) (env : Env) (h : Wf a) (hmm : a.vmaVmMm = true)
    (ds os es : ℕ) (isAsync : Bool) :
    ∃ r a', binderAllocNewBuf rb env a ds os es isAsync = some (r, a') ∧ Wf a' ∧ Kept a a' ∧
      NewBuf env a ds os es isAsync r a' := by
  unfold binderAllocNewBuf
  by_cases hv : a.vma = true
  · rw [if_neg (by simp [hv])]
    cases hs : requestSize ds os es with
    | none => exact ⟨_, a, rfl, h, .refl a, .invalid hv hs⟩
    | some s =>
      dsimp only
      by_cases ha : isAsync = true ∧ a.freeAsyncSpace < (s + bufferStructSize) % sizeMod
      · rw [if_pos ha]
        exact ⟨_, a, rfl, h, .refl a, .noAsync hv hs ha⟩
      · rw [if_neg ha]
        rcases bestFit_cases h.toFreeTree (max s wordSize) with
          ⟨hfit, hall⟩ | ⟨d, hfit, hd, hle, hbest, hcut⟩
        · rw [hfit]
          refine ⟨_, a, rfl, h, .refl a, .noRoom hv hs ha fun t ht hf => ?_⟩
          rw [← size_of_span h.tiles ht]
          exact hall _ (h.free_mem ht hf)
        · rw [hfit]
          obtain ⟨t, ht, hf, rfl⟩ := h.exists_free hd
          have hsize := size_of_span h.tiles ht
          rw [hsize] at hle hcut
          dsimp only
          rw [hsize]
          obtain ⟨r, a', hrun, hwf, hk, hres⟩ := cutBuffer_spec rb env h hmm ht hf isAsync hs hle
            hcut
          refine ⟨r, a', hrun, hwf, hk, ?_⟩
          rcases hres with ⟨he, henv, hidle⟩ | ⟨rfl, hres⟩
          · rcases he with rfl | rfl
            · exact .noPage hv hs ha (Or.inl rfl) henv hidle
            · exact .noPage hv hs ha (Or.inr rfl) henv hidle
          · refine .cut hv hs ha ht hf hle (fun u hu huf hul => ?_) hres
            rw [← hsize, ← size_of_span h.tiles hu]
            exact hbest _ (h.free_mem hu huf) ((size_of_span h.tiles hu).symm ▸ hul)
  · have hv : a.vma = false := by simpa using hv
    rw [if_pos (by simp [hv])]
    exact ⟨_, a, rfl, h, .refl a, .noVma hv⟩

end HeadlessAndroid.Binder
