import HeadlessAndroid.BinderPages

/-!
# HeadlessAndroid.BinderHeap — what one operation does to the buffers of a region

`Wf` is the invariant: the buffers cut the region, no two free ones touch, the two trees hold the
free buffers by size and the others by address, and the active pages are those that an allocated
buffer reaches into.  What the allocator is for is told by the allocated buffers alone (`live`): one
more where there is room for it, or one less.
-/

namespace HeadlessAndroid.Binder

open Lib.SearchTree Lib.Tiling

/-! ### A list of buffers around one of them -/

section Around

variable {pre post : List BinderBuffer} {b : BinderBuffer}

theorem find_around (h : ∀ c ∈ pre, c.data ≠ b.data) :
    (pre ++ b :: post).find? (fun c => c.data == b.data) = some b := by
  rw [List.find?_append, List.find?_eq_none.mpr (by simpa using h)]
  simp

theorem next_around (h : ∀ c ∈ pre, c.data ≠ b.data) :
    binderBufferNext (pre ++ b :: post) b.data = post.head? := by
  induction pre with
  | nil => simp [binderBufferNext]
  | cons c pre ih =>
    obtain ⟨hc, hpre⟩ := List.forall_mem_cons.mp h
    rw [List.cons_append, binderBufferNext, if_neg hc, ih hpre]

theorem prev_around (h : ∀ c ∈ pre, c.data ≠ b.data) (hpost : ∀ c ∈ post, c.data ≠ b.data) :
    binderBufferPrev (pre ++ b :: post) b.data = pre.getLast? := by
  induction pre with
  | nil =>
    -- the first buffer has nobody before it, and nobody after it has its address
    suffices ∀ (l : List BinderBuffer) (c : BinderBuffer), (∀ e ∈ l, e.data ≠ b.data) →
        binderBufferPrev (c :: l) b.data = none from this post b hpost
    intro l
    induction l with
    | nil => intros; rfl
    | cons e l ih =>
      intro c hl
      obtain ⟨he, hl⟩ := List.forall_mem_cons.mp hl
      rw [binderBufferPrev, if_neg he]
      exact ih e hl
  | cons c pre ih =>
    obtain ⟨-, hpre⟩ := List.forall_mem_cons.mp h
    cases pre with
    | nil => simp [binderBufferPrev]
    | cons e pre =>
      have he : e.data ≠ b.data := hpre e (by simp)
      rw [List.cons_append, List.cons_append, binderBufferPrev, if_neg he, ← List.cons_append,
        ih hpre, List.getLast?_cons_cons]

theorem listAdd_around (new : BinderBuffer) (h : ∀ c ∈ pre, c.data ≠ b.data) :
    listAdd new (pre ++ b :: post) b.data = pre ++ b :: new :: post := by
  induction pre with
  | nil => simp [listAdd]
  | cons c pre ih =>
    obtain ⟨hc, hpre⟩ := List.forall_mem_cons.mp h
    rw [List.cons_append, listAdd, if_neg hc, ih hpre, List.cons_append]

theorem listDel_around (h : ∀ c ∈ pre, c.data ≠ b.data) :
    listDel (pre ++ b :: post) b.data = pre ++ post := by
  induction pre with
  | nil => simp [listDel]
  | cons c pre ih =>
    obtain ⟨hc, hpre⟩ := List.forall_mem_cons.mp h
    rw [List.cons_append, listDel, if_neg hc, ih hpre, List.cons_append]

theorem map_around (f : BinderBuffer → BinderBuffer) (h : ∀ c ∈ pre, c.data ≠ b.data)
    (hpost : ∀ c ∈ post, c.data ≠ b.data) :
    (pre ++ b :: post).map (fun c => if c.data = b.data then f c else c) = pre ++ f b :: post := by
  have hid : ∀ l : List BinderBuffer, (∀ c ∈ l, c.data ≠ b.data) →
      l.map (fun c => if c.data = b.data then f c else c) = l := fun l hl =>
    (List.map_congr_left fun c hc => if_neg (hl c hc)).trans (List.map_id l)
  rw [List.map_append, List.map_cons, hid pre h, hid post hpost, if_pos rfl]

theorem bufferSizeIn_right {l : List BinderBuffer} {d hi : ℕ} (h : ∀ c ∈ pre, c.data ≠ d) :
    bufferSizeIn hi (pre ++ l) d = bufferSizeIn hi l d := by
  induction pre with
  | nil => rfl
  | cons c pre ih =>
    obtain ⟨hc, hpre⟩ := List.forall_mem_cons.mp h
    rw [List.cons_append, bufferSizeIn, if_neg hc, ih hpre]

theorem bufferSizeIn_left {l : List BinderBuffer} {d hi : ℕ} (h : ∃ c ∈ pre, c.data = d) :
    bufferSizeIn hi (pre ++ l) d = bufferSizeIn (stop BinderBuffer.data l hi) pre d := by
  induction pre with
  | nil => simp at h
  | cons c pre ih =>
    rw [List.cons_append, bufferSizeIn, bufferSizeIn, stop_append]
    by_cases hc : c.data = d
    · rw [if_pos hc, if_pos hc]
    · rw [if_neg hc, if_neg hc]
      refine ih ?_
      obtain ⟨e, he, hed⟩ := h
      rcases List.mem_cons.mp he with rfl | he
      · exact absurd hed hc
      · exact ⟨e, he, hed⟩

theorem bufferSizeIn_around {hi : ℕ} (h : ∀ c ∈ pre, c.data ≠ b.data) :
    bufferSizeIn hi (pre ++ b :: post) b.data = stop BinderBuffer.data post hi - b.data := by
  rw [bufferSizeIn_right h, bufferSizeIn, if_pos rfl]

end Around

/-! ### The two trees -/

def freeData (l : List BinderBuffer) : List ℕ := (l.filter fun b => b.free).map BinderBuffer.data

def usedData (l : List BinderBuffer) : List ℕ := (l.filter fun b => !b.free).map BinderBuffer.data

@[simp] theorem freeData_append (l m : List BinderBuffer) :
    freeData (l ++ m) = freeData l ++ freeData m := by
  simp [freeData]

@[simp] theorem usedData_append (l m : List BinderBuffer) :
    usedData (l ++ m) = usedData l ++ usedData m := by
  simp [usedData]

theorem freeData_cons (b : BinderBuffer) (l : List BinderBuffer) :
    freeData (b :: l) = if b.free then b.data :: freeData l else freeData l := by
  cases h : b.free <;> simp [freeData, h]

theorem usedData_cons (b : BinderBuffer) (l : List BinderBuffer) :
    usedData (b :: l) = if b.free then usedData l else b.data :: usedData l := by
  cases h : b.free <;> simp [usedData, h]

theorem mem_freeData {l : List BinderBuffer} {d : ℕ} :
    d ∈ freeData l ↔ ∃ b ∈ l, b.free = true ∧ b.data = d := by
  simp [freeData, and_assoc]

theorem mem_usedData {l : List BinderBuffer} {d : ℕ} :
    d ∈ usedData l ↔ ∃ b ∈ l, b.free = false ∧ b.data = d := by
  simp [usedData, and_assoc]

theorem freeData_nodup {l : List BinderBuffer} {lo hi : ℕ} (h : Tiles BinderBuffer.data lo l hi) :
    (freeData l).Nodup := by
  have hlt : (freeData l).Pairwise (· < ·) :=
    (h.pairwise.filter _).map BinderBuffer.data fun _ _ hab => hab
  exact hlt.imp Nat.ne_of_lt

/-- The pointers in the tree of free buffers are good and stand in the order of the sizes. -/
structure FreeTree (a : BinderAlloc) : Prop where
  good : ∀ d ∈ inorder a.freeBuffers, ∃ b, a.at? d = some b ∧ b.free = true
  sorted : (inorder a.freeBuffers).Pairwise fun d e =>
    binderAllocBufferSize a d ≤ binderAllocBufferSize a e

theorem freeTurn_of {a : BinderAlloc} {d n : ℕ} {b : BinderBuffer} (h : a.at? d = some b)
    (hb : b.free = true) :
    freeTurn a n d = some (if n < binderAllocBufferSize a d then .lt else .gt) := by
  unfold freeTurn
  rw [h]
  dsimp only
  rw [if_pos hb]

theorem fitTurn_of {a : BinderAlloc} {d n : ℕ} {b : BinderBuffer} (h : a.at? d = some b)
    (hb : b.free = true) : fitTurn a n d = some (compare n (binderAllocBufferSize a d)) := by
  unfold fitTurn
  rw [h]
  dsimp only
  rw [if_pos hb]

theorem insertFree_spec (rb : Rebalance ℕ) {a : BinderAlloc} {d : ℕ} {b : BinderBuffer}
    (h : a.at? d = some b) (hb : b.free = true) (htree : FreeTree a) :
    ∃ t, binderInsertFreeBuffer rb a d = some { a with freeBuffers := t } ∧
      (inorder t).Perm (d :: inorder a.freeBuffers) ∧ FreeTree { a with freeBuffers := t } := by
  obtain ⟨p, m, q, hcut, hp, hm, hq⟩ := exists_cut (binderAllocBufferSize a)
    (binderAllocBufferSize a d) htree.sorted
  have hgood : ∀ e ∈ p ++ (m ++ q), ∃ c, a.at? e = some c ∧ c.free = true := hcut ▸ htree.good
  -- sizes up to the new one stay on the left of it
  obtain ⟨t, hlink, hin⟩ := link_spec (freeTurn a (binderAllocBufferSize a d)) d
    (hcut.trans (List.append_assoc p m q).symm)
    (fun e he => by
      obtain ⟨c, hc, hcf⟩ := hgood e (by
        rw [← List.append_assoc]
        exact List.mem_append_left q he)
      rw [freeTurn_of hc hcf, if_neg]
      rcases List.mem_append.mp he with he | he
      · exact not_lt.mpr (hp e he).le
      · exact not_lt.mpr (hm e he).le)
    (fun e he => by
      obtain ⟨c, hc, hcf⟩ := hgood e (by simp [he])
      rw [freeTurn_of hc hcf, if_pos (hq e he)])
  have hperm : (inorder (rb.insertColor t)).Perm (d :: inorder a.freeBuffers) := by
    rw [rb.inorder_insertColor, hin, hcut, ← List.append_assoc]
    exact List.perm_middle
  refine ⟨rb.insertColor t, ?_, hperm, ?_, ?_⟩
  · unfold binderInsertFreeBuffer
    rw [h]
    dsimp only
    rw [if_pos hb, hlink]
    rfl
  · intro e he
    rcases List.mem_cons.mp (hperm.mem_iff.mp he) with rfl | he
    · exact ⟨b, h, hb⟩
    · exact htree.good e he
  · have hsorted := htree.sorted
    rw [hcut, ← List.append_assoc, List.pairwise_append] at hsorted
    obtain ⟨hs1, hs2, hs3⟩ := hsorted
    rw [rb.inorder_insertColor, hin, List.pairwise_append]
    refine ⟨hs1, List.pairwise_cons.mpr ⟨fun e he => (hq e he).le, hs2⟩, fun e he f hf => ?_⟩
    rcases List.mem_cons.mp hf with rfl | hf
    · rcases List.mem_append.mp he with he | he
      · exact (hp e he).le
      · exact (hm e he).le
    · exact hs3 e he f hf

theorem addressTurn_of {a : BinderAlloc} {d ptr : ℕ} {b : BinderBuffer} (h : a.at? d = some b)
    (hb : b.free = false) : addressTurn a ptr d = some (compare ptr d) := by
  have hd : b.data = d := by
    have := List.find?_some h
    simpa using this
  unfold addressTurn
  rw [h]
  dsimp only
  rw [if_neg (by simp [hb]), hd]

theorem insertAllocated_spec (rb : Rebalance ℕ) {a : BinderAlloc} {d : ℕ} {b : BinderBuffer}
    {p q : List ℕ} (h : a.at? d = some b) (hb : b.free = false)
    (htree : inorder a.allocatedBuffers = p ++ q)
    (hgood : ∀ e ∈ p ++ q, ∃ c, a.at? e = some c ∧ c.free = false)
    (hp : ∀ e ∈ p, e < d) (hq : ∀ e ∈ q, d < e) :
    ∃ t, binderInsertAllocatedBufferLocked rb a d = some { a with allocatedBuffers := t } ∧
      inorder t = p ++ d :: q := by
  obtain ⟨t, hlink, hin⟩ := link_spec (addressTurn a d) d htree
    (fun e he => by
      obtain ⟨c, hc, hcf⟩ := hgood e (by simp [he])
      rw [addressTurn_of hc hcf, compare_gt_iff_gt.mpr (hp e he)])
    (fun e he => by
      obtain ⟨c, hc, hcf⟩ := hgood e (by simp [he])
      rw [addressTurn_of hc hcf, compare_lt_iff_lt.mpr (hq e he)])
  refine ⟨rb.insertColor t, ?_, by rw [rb.inorder_insertColor, hin]⟩
  unfold binderInsertAllocatedBufferLocked
  rw [h]
  dsimp only
  rw [if_neg (by simp [hb]), hlink]
  rfl

/-! ### The pages that the allocated buffers reach into -/

abbrev UsedPage (l : List BinderBuffer) (top x : ℕ) : Prop :=
  Occupied BinderBuffer.data (fun b => b.free = false) pageSize l top x

theorem pageAlign_le {x y : ℕ} (hy : y % pageSize = 0) : pageAlign x ≤ y ↔ x ≤ y := by
  unfold pageAlign pageSize at *
  omega

theorem le_pageMask {x y : ℕ} (hy : y % pageSize = 0) : y ≤ pageMask x ↔ y ≤ x := by
  unfold pageMask pageSize at *
  omega

/-- The page before an address is occupied, or a page begins there. -/
theorem usedPage_before {lo hi x : ℕ} {l : List BinderBuffer}
    (h : Tiles BinderBuffer.data lo l hi) (hlo : lo % pageSize = 0)
    (hlast : ∀ c ∈ l.getLast?, c.free = false) (h1 : hi ≤ x + pageSize) (h2 : x < hi) :
    UsedPage l hi x ∨ hi % pageSize = 0 := by
  rcases List.eq_nil_or_concat l with rfl | ⟨l, c, rfl⟩
  · have h : lo = hi := h
    exact Or.inr (h ▸ hlo)
  · rw [List.concat_eq_append] at *
    exact Or.inl (occupied_of_last h (hlast c (by simp)) h1 h2)

/-- The page after an address is occupied, or a page begins there. -/
theorem usedPage_after {lo hi x : ℕ} {l : List BinderBuffer}
    (h : Tiles BinderBuffer.data lo l hi) (hhi : hi % pageSize = 0)
    (hhead : ∀ c ∈ l.head?, c.free = false) (h1 : lo < x + pageSize) (h2 : x ≤ lo) :
    UsedPage l hi x ∨ lo % pageSize = 0 := by
  cases l with
  | nil =>
    have h : lo = hi := h
    exact Or.inr (h ▸ hhi)
  | cons c l => exact Or.inl (occupied_of_head h (hhead c (by simp)) h1 h2)

/-- Of a free stretch from `d` to `e` the first `size` bytes are taken: the pages that become
occupied are those that begin in the stretch. -/
theorem taken_pages {d e size x : ℕ} {X Y : Prop} (hx : x % pageSize = 0) (hsize : 0 < size)
    (hle : d + size ≤ e) (hX : X → x < d) (hY : Y → e < x + pageSize)
    (hX' : d ≤ x + pageSize → x < d → X ∨ d % pageSize = 0)
    (hY' : e < x + pageSize → x ≤ e → Y ∨ e % pageSize = 0) :
    (X ∨ (d < x + pageSize ∧ x < d + size) ∨ Y ↔
      (X ∨ Y) ∨ (pageAlign d ≤ x ∧ x < min (pageAlign (d + size)) (pageMask e))) ∧
    (pageAlign d ≤ x ∧ x < min (pageAlign (d + size)) (pageMask e) → ¬ (X ∨ Y)) := by
  unfold pageAlign pageMask pageSize at *
  by_cases hXp : X <;> by_cases hYp : Y
  all_goals
    simp only [hXp, hYp, true_or, or_true, forall_const, false_or, or_false, IsEmpty.forall_iff,
      not_true_eq_false, not_false_eq_true, implies_true, and_true, true_and] at *
    omega

/-- The page in which a merged buffer began is released: the buffer began at `d`, the one before
that at `c`, and the next one is at `f`. -/
def ToFree (c d f : ℕ) : Prop :=
  pageMask (c - 1) ≠ pageMask d ∧ pageMask f ≠ pageMask d ∧ d % pageSize ≠ 0

/-- A buffer from `d` to `e` is freed, after which nothing is used from `c` to `f`: the previous
buffer is merged with it if `p`, the next one if `n`.  The page at `x` is occupied on the left if
`X`, on the right if `Y`.  Released are the pages inside, the page of `e` and the page of `d`: no page
twice, and what stays is `X` and `Y`. -/
structure Released (c d e f x : ℕ) (X Y p n : Prop) : Prop where
  inside : pageAlign d ≤ x ∧ x < pageMask e → d < x + pageSize ∧ x < e
  next : n ∧ ToFree d e f ∧ x = pageMask e →
    (d < x + pageSize ∧ x < e) ∧ ¬ (pageAlign d ≤ x ∧ x < pageMask e)
  prev : p ∧ ToFree c d f ∧ x = pageMask d →
    ((d < x + pageSize ∧ x < e) ∧ ¬ (pageAlign d ≤ x ∧ x < pageMask e)) ∧
      ¬ (n ∧ ToFree d e f ∧ x = pageMask e)
  left : ((((X ∨ (d < x + pageSize ∧ x < e) ∨ Y) ∧ ¬ (pageAlign d ≤ x ∧ x < pageMask e)) ∧
    ¬ (n ∧ ToFree d e f ∧ x = pageMask e)) ∧ ¬ (p ∧ ToFree c d f ∧ x = pageMask d)) ↔ X ∨ Y

theorem released_of {c d e f x : ℕ} {X Y p n : Prop} (hx : x % pageSize = 0) (hde : d < e)
    (hc0 : 0 < c) (hp : ¬ p → c = d) (hn : ¬ n → f = e) (hp' : p → c < d) (hn' : n → e < f)
    (hX : X → x < c) (hY : Y → f < x + pageSize)
    (hX' : c ≤ x + pageSize → x < c → X ∨ c % pageSize = 0)
    (hY' : f < x + pageSize → x ≤ f → Y ∨ f % pageSize = 0) : Released c d e f x X Y p n := by
  constructor
  · unfold pageAlign pageMask pageSize at *
    omega
  · rintro ⟨-, ⟨-, -, h1⟩, h2⟩
    unfold pageAlign pageMask pageSize at *
    omega
  · rintro ⟨-, ⟨-, -, h1⟩, h2⟩
    refine ⟨?_, ?_⟩
    · unfold pageAlign pageMask pageSize at *
      omega
    · -- with both ends in one page, that page is not released for the next buffer
      rintro ⟨-, ⟨h3, -, -⟩, h4⟩
      unfold pageMask pageSize at *
      omega
  · -- the page at an end that is not released is that of a used neighbour, or begins there
    unfold ToFree pageAlign pageMask pageSize at *
    by_cases hXp : X <;> by_cases hYp : Y <;> by_cases hpp : p <;> by_cases hnp : n
    all_goals
      simp only [hXp, hYp, hpp, hnp, true_or, or_true, forall_const, false_or, or_false,
        IsEmpty.forall_iff, iff_true, iff_false, not_true_eq_false, not_false_eq_true,
        implies_true, and_true, true_and, false_and] at *
      omega

/-! ### The invariant -/

/-- What no merge and no page changes. -/
structure Kept (a a' : BinderAlloc) : Prop where
  vma : a'.vma = a.vma
  vmaVmMm : a'.vmaVmMm = a.vmaVmMm
  buffer : a'.buffer = a.buffer
  userBufferOffset : a'.userBufferOffset = a.userBufferOffset
  bufferSize : a'.bufferSize = a.bufferSize

theorem Kept.refl (a : BinderAlloc) : Kept a a := ⟨rfl, rfl, rfl, rfl, rfl⟩

theorem Kept.trans {a b c : BinderAlloc} (h : Kept a b) (h' : Kept b c) : Kept a c :=
  ⟨h'.vma.trans h.vma, h'.vmaVmMm.trans h.vmaVmMm, h'.buffer.trans h.buffer,
    h'.userBufferOffset.trans h.userBufferOffset, h'.bufferSize.trans h.bufferSize⟩

theorem Kept.top {a a' : BinderAlloc} (h : Kept a a') : a'.top = a.top := by
  unfold BinderAlloc.top
  rw [h.buffer, h.bufferSize]

/-- The pages that an allocated buffer reaches into, by their numbers. -/
def InUse (a : BinderAlloc) (i : ℕ) : Prop := UsedPage a.buffers a.top (a.buffer + i * pageSize)

/-- The region of a mapping. -/
structure Region (a : BinderAlloc) : Prop where
  pos : 0 < a.buffer
  base : a.buffer % pageSize = 0
  size : a.bufferSize % pageSize = 0
  bound : a.top < sizeMod
  pages : a.pages.length = a.bufferSize / pageSize

theorem Region.of_kept {a a' : BinderAlloc} (h : Region a) (hk : Kept a a')
    (hl : a'.pages.length = a.pages.length) : Region a' :=
  ⟨hk.buffer ▸ h.pos, hk.buffer ▸ h.base, hk.bufferSize ▸ h.size, hk.top ▸ h.bound, by
    rw [hl, hk.bufferSize, h.pages]⟩

/-- A buffer that is allocated is as large as its request asks for. -/
def Fits (t : Span BinderBuffer) : Prop :=
  ∃ size, requestSize t.owner.dataSize t.owner.offsetsSize t.owner.extraBuffersSize = some size ∧
    t.hi - t.lo = max size wordSize

structure Wf (a : BinderAlloc) : Prop extends Region a, FreeTree a where
  tiles : Tiles BinderBuffer.data a.buffer a.buffers a.top
  words : ∀ b ∈ a.buffers, b.data % wordSize = 0
  merged : a.buffers.IsChain fun b c => b.free = false ∨ c.free = false
  fits : ∀ t ∈ spans BinderBuffer.data a.buffers a.top, t.owner.free = false → Fits t
  freeTree : (inorder a.freeBuffers).Perm (freeData a.buffers)
  allocated : inorder a.allocatedBuffers = usedData a.buffers
  active : PagesAre a.pages (InUse a)
  quiet : a.warnings = 0

/-- The allocated buffers, with the addresses that they take up. -/
def live (a : BinderAlloc) : List (Span BinderBuffer) :=
  (spans BinderBuffer.data a.buffers a.top).filter fun t => !t.owner.free

theorem at?_of_mem {a : BinderAlloc} {lo hi : ℕ} (h : Tiles BinderBuffer.data lo a.buffers hi)
    {b : BinderBuffer} (hb : b ∈ a.buffers) : a.at? b.data = some b := by
  obtain ⟨pre, post, hsplit⟩ := List.append_of_mem hb
  have hpw := h.pairwise
  unfold BinderAlloc.at?
  rw [hsplit] at hpw ⊢
  exact find_around fun c hc => ((List.pairwise_append.mp hpw).2.2 c hc b (by simp)).ne

/-- The addresses before and after one buffer of a region. -/
theorem ne_around {lo hi : ℕ} {pre post : List BinderBuffer} {b : BinderBuffer}
    (h : Tiles BinderBuffer.data lo (pre ++ b :: post) hi) :
    (∀ c ∈ pre, c.data < b.data) ∧ ∀ c ∈ post, b.data < c.data := by
  have hpw := List.pairwise_append.mp h.pairwise
  exact ⟨fun c hc => hpw.2.2 c hc b (by simp), (List.pairwise_cons.mp hpw.2.1).1⟩

/-- Only the buffer at the address is changed. -/
theorem setAt_around {a : BinderAlloc} {lo hi : ℕ} {pre post : List BinderBuffer} {b : BinderBuffer}
    (hbuf : a.buffers = pre ++ b :: post) (htiles : Tiles BinderBuffer.data lo a.buffers hi)
    (f : BinderBuffer → BinderBuffer) :
    a.setAt b.data f = { a with buffers := pre ++ f b :: post } := by
  obtain ⟨hpre, hpost⟩ := ne_around (hbuf ▸ htiles)
  unfold BinderAlloc.setAt
  rw [hbuf, map_around f (fun c hc => (hpre c hc).ne) fun c hc => (hpost c hc).ne']

theorem size_left {a : BinderAlloc} {pre l : List BinderBuffer} (h : a.buffers = pre ++ l)
    {c : BinderBuffer} (hc : c ∈ pre) : binderAllocBufferSize a c.data =
      bufferSizeIn (stop BinderBuffer.data l a.top) pre c.data := by
  unfold binderAllocBufferSize
  rw [h, bufferSizeIn_left ⟨c, hc, rfl⟩]

theorem size_right {a : BinderAlloc} {pre l : List BinderBuffer} (h : a.buffers = pre ++ l)
    {d : ℕ} (hne : ∀ c ∈ pre, c.data ≠ d) :
    binderAllocBufferSize a d = bufferSizeIn a.top l d := by
  unfold binderAllocBufferSize
  rw [h, bufferSizeIn_right hne]

theorem size_of_span {a : BinderAlloc} {lo : ℕ} (h : Tiles BinderBuffer.data lo a.buffers a.top)
    {t : Span BinderBuffer} (ht : t ∈ spans BinderBuffer.data a.buffers a.top) :
    binderAllocBufferSize a t.lo = t.hi - t.lo := by
  obtain ⟨pre, post, hsplit, hlo, hhi⟩ := mem_spans.mp ht
  rw [hsplit] at h
  unfold binderAllocBufferSize
  rw [hsplit, hlo, hhi, bufferSizeIn_around fun c hc => ((ne_around h).1 c hc).ne]

/-- The tree keeps its order where what is left in it is as it was. -/
theorem FreeTree.of_sublist {a a' : BinderAlloc} (h : FreeTree a)
    (hsub : (inorder a'.freeBuffers).Sublist (inorder a.freeBuffers))
    (hsame : ∀ d ∈ inorder a'.freeBuffers, (∃ b, a'.at? d = some b ∧ b.free = true) ∧
      binderAllocBufferSize a' d = binderAllocBufferSize a d) : FreeTree a' := by
  refine ⟨fun d hd => (hsame d hd).1, ?_⟩
  refine (h.sorted.sublist hsub).imp_of_mem fun hd he hle => ?_
  rw [(hsame _ hd).2, (hsame _ he).2]
  exact hle

end HeadlessAndroid.Binder
