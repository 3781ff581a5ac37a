import HeadlessAndroid.BinderHeap

/-!
# HeadlessAndroid.BinderMerge — a buffer is freed

The freed buffer is merged with a free neighbour on either side.  The pages that go back to the
shrinker are those that no allocated buffer reaches into any more, each of them once; the trees end
up with what is free and what is allocated; the allocated buffers are one less.
-/

namespace HeadlessAndroid.Binder

open Lib.SearchTree Lib.Tiling

variable {a : BinderAlloc}

theorem Region.top_aligned (h : Region a) : a.top % pageSize = 0 := by
  have h1 := h.base
  have h2 := h.size
  unfold BinderAlloc.top pageSize at *
  omega

theorem Region.boundary (h : Region a) {x : ℕ} (hx : x % pageSize = 0) (hlo : a.buffer ≤ x)
    (hhi : x ≤ a.top) : Boundary a x := by
  have h1 := h.base
  have h2 := h.size
  refine ⟨(x - a.buffer) / pageSize, ?_, ?_⟩
  · rw [h.pages]
    exact Nat.div_le_div_right (by unfold BinderAlloc.top at hhi; omega)
  · unfold pageSize at *
    omega

theorem pageMask_aligned (x : ℕ) : pageMask x % pageSize = 0 := Nat.mul_mod_left _ _

theorem pageAlign_aligned (x : ℕ) : pageAlign x % pageSize = 0 := Nat.mul_mod_left _ _

/-- One page of a region, as a range. -/
theorem Region.pagesIn_page (h : Region a) {x i : ℕ} (hx : x % pageSize = 0) :
    PagesIn a x (x + pageSize) i ↔ a.buffer + i * pageSize = x := by
  have h1 := h.base
  unfold PagesIn pageSize at *
  omega

theorem Region.withTree (h : Region a) (t : BinaryTree ℕ) : Region { a with freeBuffers := t } :=
  ⟨h.pos, h.base, h.size, h.bound, h.pages⟩

/-! ### One merge -/

/-- What a merge does not touch. -/
structure Merge (a a' : BinderAlloc) : Prop extends Kept a a' where
  freeAsyncSpace : a'.freeAsyncSpace = a.freeAsyncSpace
  warnings : a'.warnings = a.warnings
  allocatedBuffers : a'.allocatedBuffers = a.allocatedBuffers
  pages : a'.pages.length = a.pages.length

theorem deleteFree_spec {pre post : List BinderBuffer} {p b : BinderBuffer} {U : ℕ → Prop}
    (hreg : Region a) (hbuf : a.buffers = pre ++ p :: b :: post)
    (htiles : Tiles BinderBuffer.data a.buffer a.buffers a.top) (hp : p.free = true)
    (hps : PagesAre a.pages U)
    (hU : ∀ i, ToFree p.data b.data (stop BinderBuffer.data post a.top) ∧
      a.buffer + i * pageSize = pageMask b.data → U i) :
    ∃ a', binderDeleteFreeBuffer a b.data = some a' ∧ Merge a a' ∧
      a'.buffers = pre ++ p :: post ∧ a'.freeBuffers = a.freeBuffers ∧
      PagesAre a'.pages fun i => U i ∧
        ¬ (ToFree p.data b.data (stop BinderBuffer.data post a.top) ∧
          a.buffer + i * pageSize = pageMask b.data) := by
  have hbuf' : a.buffers = (pre ++ [p]) ++ b :: post := by rw [hbuf, List.append_assoc]; rfl
  obtain ⟨hpre, hpost⟩ := ne_around (hbuf' ▸ htiles)
  have hb : b ∈ a.buffers := by simp [hbuf]
  obtain ⟨hlo, hhi⟩ := htiles.start_mem hb
  have htop := hreg.top_aligned
  -- after the last buffer the region ends, and with it a page
  have hnext : (∀ n ∈ post.head?, bufferStartPage n ≠ bufferStartPage b) ↔
      pageMask (stop BinderBuffer.data post a.top) ≠ pageMask b.data := by
    cases post with
    | nil =>
      have hne : pageMask a.top ≠ pageMask b.data := by
        unfold pageMask pageSize at *
        omega
      simpa using hne
    | cons n post => simp [bufferStartPage]
  have hif : (prevBufferEndPage p != bufferStartPage b &&
      (post.head?.all fun n => bufferStartPage n != bufferStartPage b) &&
      b.data % pageSize != 0) = true ↔
      ToFree p.data b.data (stop BinderBuffer.data post a.top) := by
    unfold ToFree
    rw [← hnext]
    simp only [Bool.and_eq_true, bne_iff_ne, ne_eq, Option.all_eq_true, prevBufferEndPage,
      bufferStartPage, and_assoc, Option.mem_def]
  have hdel : listDel ((pre ++ [p]) ++ b :: post) b.data = pre ++ p :: post := by
    rw [listDel_around (fun c hc => (hpre c hc).ne), List.append_assoc]
    rfl
  unfold binderDeleteFreeBuffer
  rw [at?_of_mem htiles hb, hbuf', prev_around (fun c hc => (hpre c hc).ne)
    (fun c hc => (hpost c hc).ne'), next_around (fun c hc => (hpre c hc).ne),
    List.getLast?_concat]
  dsimp only
  rw [if_pos hp]
  by_cases hfree : ToFree p.data b.data (stop BinderBuffer.data post a.top)
  · rw [if_pos (hif.mpr hfree)]
    have hmask : bufferStartPage b % pageSize = 0 := pageMask_aligned b.data
    have hstart : a.buffer ≤ bufferStartPage b := (le_pageMask hreg.base).mpr hlo
    have hend : bufferStartPage b + pageSize ≤ a.top := by
      unfold bufferStartPage pageMask pageSize at *
      omega
    obtain ⟨r, ps, hrun, hl, hP⟩ := freeRange_spec
      (hreg.boundary hmask hstart ((Nat.le_add_right _ _).trans hend))
      (hreg.boundary (by rwa [Nat.add_mod_right]) (hstart.trans (Nat.le_add_right _ _)) hend) hps
      (fun i hi => hU i ⟨hfree, (hreg.pagesIn_page hmask).mp hi⟩)
    rw [hrun]
    refine ⟨{ a with pages := ps, buffers := pre ++ p :: post }, by rw [← hdel, ← hbuf']; rfl,
      ⟨⟨rfl, rfl, rfl, rfl, rfl⟩, rfl, rfl, rfl, hl⟩, rfl, rfl, hP.congr fun i _ => ?_⟩
    rw [hreg.pagesIn_page hmask]
    simp [hfree, bufferStartPage]
  · rw [if_neg (fun h => hfree (hif.mp h))]
    exact ⟨{ a with buffers := pre ++ p :: post }, by rw [← hdel, ← hbuf']; rfl,
      ⟨⟨rfl, rfl, rfl, rfl, rfl⟩, rfl, rfl, rfl, rfl⟩, rfl, rfl, hps.congr fun i _ => by simp [hfree]⟩

/-! ### What a change in the list leaves as it is -/

/-- The buffers on two sides of a change are where they were, and as large. -/
theorem same_of_side {a' : BinderAlloc} {l x y r : List BinderBuffer} {lo : ℕ}
    (hbuf : a.buffers = l ++ (x ++ r)) (hbuf' : a'.buffers = l ++ (y ++ r))
    (htiles : Tiles BinderBuffer.data lo a.buffers a.top)
    (htiles' : Tiles BinderBuffer.data lo a'.buffers a'.top) (htop : a'.top = a.top)
    (hstop : stop BinderBuffer.data (y ++ r) a'.top = stop BinderBuffer.data (x ++ r) a.top)
    {c : BinderBuffer} (hc : c ∈ l ++ r) : a'.at? c.data = some c ∧
      binderAllocBufferSize a' c.data = binderAllocBufferSize a c.data := by
  rcases List.mem_append.mp hc with hc | hc
  · exact ⟨at?_of_mem htiles' (by simp [hbuf', hc]), by
      rw [size_left hbuf hc, size_left hbuf' hc, hstop]⟩
  · have hne : ∀ {m : List BinderBuffer} {hi : ℕ}, Tiles BinderBuffer.data lo (m ++ r) hi →
        ∀ e ∈ m, e.data ≠ c.data := fun ht e he =>
      ((List.pairwise_append.mp ht.pairwise).2.2 e he c hc).ne
    refine ⟨at?_of_mem htiles' (by simp [hbuf', hc]), ?_⟩
    rw [← List.append_assoc] at hbuf hbuf'
    rw [size_right hbuf (hne (hbuf ▸ htiles)), size_right hbuf' (hne (hbuf' ▸ htiles')), htop]

/-- The tree keeps its order when the list changes between two of its sides and the buffers of the
tree are on the sides. -/
theorem FreeTree.of_sides {a' : BinderAlloc} {l x y r : List BinderBuffer} {lo : ℕ}
    (h : FreeTree a) (hbuf : a.buffers = l ++ (x ++ r)) (hbuf' : a'.buffers = l ++ (y ++ r))
    (htiles : Tiles BinderBuffer.data lo a.buffers a.top)
    (htiles' : Tiles BinderBuffer.data lo a'.buffers a'.top) (htop : a'.top = a.top)
    (hstop : stop BinderBuffer.data (y ++ r) a'.top = stop BinderBuffer.data (x ++ r) a.top)
    (hsub : (inorder a'.freeBuffers).Sublist (inorder a.freeBuffers))
    (hperm : (inorder a'.freeBuffers).Perm (freeData l ++ freeData r)) : FreeTree a' := by
  refine h.of_sublist hsub fun d hd => ?_
  rw [← freeData_append] at hperm
  obtain ⟨c, hc, hcf, rfl⟩ := mem_freeData.mp (hperm.mem_iff.mp hd)
  obtain ⟨hat, hsize⟩ := same_of_side hbuf hbuf' htiles htiles' htop hstop hc
  exact ⟨⟨c, hat, hcf⟩, hsize⟩

/-! ### The next buffer -/

/-- What follows a freed buffer once the next one is merged into it, if that is free. -/
def afterFree : List BinderBuffer → List BinderBuffer
  | [] => []
  | n :: rest => if n.free then rest else n :: rest

/-- Nothing that is free follows. -/
def UsedHead (l : List BinderBuffer) : Prop := ∀ c ∈ l.head?, c.free = false

section AfterFree

variable {post : List BinderBuffer}

theorem afterFree_cases (post : List BinderBuffer) :
    (afterFree post = post ∧ UsedHead post) ∨
      ∃ n rest, post = n :: rest ∧ n.free = true ∧ afterFree post = rest := by
  cases post with
  | nil => exact Or.inl ⟨rfl, by simp [UsedHead]⟩
  | cons n rest =>
    by_cases hn : n.free = true
    · exact Or.inr ⟨n, rest, rfl, hn, if_pos hn⟩
    · exact Or.inl ⟨if_neg hn, by simpa [UsedHead] using hn⟩

theorem usedHead_afterFree
    (hchain : post.IsChain fun b c => b.free = false ∨ c.free = false) :
    UsedHead (afterFree post) := by
  rcases afterFree_cases post with ⟨h, hu⟩ | ⟨n, rest, rfl, hn, h⟩
  · rwa [h]
  · rw [h]
    intro c hc
    cases rest with
    | nil => simp at hc
    | cons m rest =>
      rw [List.head?_cons, Option.mem_some_iff] at hc
      subst hc
      exact ((List.isChain_cons_cons.mp hchain).1).resolve_left (by simp [hn])

theorem tiles_afterFree {lo hi : ℕ} (h : Tiles BinderBuffer.data lo post hi) :
    Tiles BinderBuffer.data (stop BinderBuffer.data (afterFree post) hi) (afterFree post) hi := by
  rcases afterFree_cases post with ⟨he, -⟩ | ⟨n, rest, rfl, -, he⟩
  · rw [he, h.stop_eq]
    exact h
  · rw [he]
    exact h.2.2

theorem stop_afterFree {lo hi : ℕ} (h : Tiles BinderBuffer.data lo post hi) :
    (UsedHead post → stop BinderBuffer.data (afterFree post) hi = lo) ∧
      (¬ UsedHead post → lo < stop BinderBuffer.data (afterFree post) hi) := by
  rcases afterFree_cases post with ⟨he, hu⟩ | ⟨n, rest, rfl, hn, he⟩
  · rw [he, h.stop_eq]
    exact ⟨fun _ => rfl, fun hno => absurd hu hno⟩
  · rw [he]
    refine ⟨fun hu => ?_, fun _ => h.2.1⟩
    have := hu n (by simp)
    simp [hn] at this

theorem usedPage_afterFree {hi x : ℕ} : UsedPage (afterFree post) hi x ↔ UsedPage post hi x := by
  rcases afterFree_cases post with ⟨he, -⟩ | ⟨n, rest, rfl, hn, he⟩
  · rw [he]
  · rw [he, UsedPage, UsedPage, occupied_cons]
    simp [hn]

theorem live_afterFree (hi : ℕ) :
    (spans BinderBuffer.data (afterFree post) hi).filter (fun t => !t.owner.free) =
      (spans BinderBuffer.data post hi).filter fun t => !t.owner.free := by
  rcases afterFree_cases post with ⟨he, -⟩ | ⟨n, rest, rfl, hn, he⟩
  · rw [he]
  · rw [he, spans, List.filter_cons_of_neg (by simp [hn])]

theorem usedData_afterFree : usedData (afterFree post) = usedData post := by
  rcases afterFree_cases post with ⟨he, -⟩ | ⟨n, rest, rfl, hn, he⟩
  · rw [he]
  · rw [he, usedData_cons, if_pos hn]

theorem afterFree_suffix (post : List BinderBuffer) : afterFree post <:+ post := by
  rcases afterFree_cases post with ⟨he, -⟩ | ⟨n, rest, rfl, -, he⟩
  · exact ⟨[], by rw [List.nil_append, he]⟩
  · rw [he]
    exact List.suffix_cons n rest

end AfterFree

theorem mergeNext_spec (rb : Rebalance ℕ) {pre post : List BinderBuffer} {b : BinderBuffer}
    {U : ℕ → Prop} (hreg : Region a) (hbuf : a.buffers = pre ++ b :: post)
    (htiles : Tiles BinderBuffer.data a.buffer a.buffers a.top) (htree : FreeTree a)
    (hperm : (inorder a.freeBuffers).Perm (freeData pre ++ freeData post)) (hb : b.free = true)
    (hps : PagesAre a.pages U)
    (hU : ∀ i, ¬ UsedHead post ∧ ToFree b.data (stop BinderBuffer.data post a.top)
      (stop BinderBuffer.data (afterFree post) a.top) ∧
      a.buffer + i * pageSize = pageMask (stop BinderBuffer.data post a.top) → U i) :
    ∃ a', mergeNext rb a b.data = some a' ∧ Merge a a' ∧
      a'.buffers = pre ++ b :: afterFree post ∧ FreeTree a' ∧
      (inorder a'.freeBuffers).Perm (freeData pre ++ freeData (afterFree post)) ∧
      PagesAre a'.pages fun i => U i ∧ ¬ (¬ UsedHead post ∧
        ToFree b.data (stop BinderBuffer.data post a.top)
          (stop BinderBuffer.data (afterFree post) a.top) ∧
        a.buffer + i * pageSize = pageMask (stop BinderBuffer.data post a.top)) := by
  have hpre := (ne_around (hbuf ▸ htiles)).1
  have hnext : binderBufferNext a.buffers b.data = post.head? := by
    rw [hbuf]
    exact next_around fun c hc => (hpre c hc).ne
  unfold mergeNext
  rw [hnext]
  rcases afterFree_cases post with ⟨he, hused⟩ | ⟨n, rest, rfl, hn, he⟩
  · -- nothing to merge
    rw [he]
    refine ⟨a, ?_, ⟨.refl a, rfl, rfl, rfl, rfl⟩, hbuf, htree, hperm,
      hps.congr fun i _ => by simp [hused]⟩
    cases post with
    | nil => rfl
    | cons c post =>
      have hc : c.free = false := hused c (by simp)
      dsimp only [List.head?_cons]
      rw [if_neg (by simp [hc])]
  · have hnot : ¬ UsedHead (n :: rest) := fun hu => by
      have := hu n (by simp)
      simp [hn] at this
    rw [he] at hU ⊢
    dsimp only [List.head?_cons]
    rw [if_pos hn]
    obtain ⟨a', hrun, hm, hbuf', hfree', hP⟩ := deleteFree_spec
      (hreg.withTree (rb.erase n.data a.freeBuffers)) hbuf htiles hb hps
      (fun i h => hU i ⟨hnot, h⟩)
    have hperm' : (inorder a'.freeBuffers).Perm (freeData pre ++ freeData rest) := by
      rw [hfree', rb.inorder_erase]
      rw [freeData_cons, if_pos hn] at hperm
      have := (hperm.trans List.perm_middle).erase n.data
      rwa [List.erase_cons_head] at this
    have htop : a'.top = a.top := hm.toKept.top
    have htiles' : Tiles BinderBuffer.data a.buffer a'.buffers a'.top := by
      obtain ⟨h1, h2, h3⟩ := tiles_split.mp (hbuf ▸ htiles)
      rw [hbuf', htop]
      exact tiles_split.mpr ⟨h1, h2.trans h3.2.1, h3.2.2⟩
    have hsub : (inorder a'.freeBuffers).Sublist (inorder a.freeBuffers) := by
      rw [hfree', rb.inorder_erase]
      exact List.erase_sublist
    refine ⟨a', hrun, ⟨⟨hm.vma, hm.vmaVmMm, hm.buffer, hm.userBufferOffset, hm.bufferSize⟩,
      hm.freeAsyncSpace, hm.warnings, hm.allocatedBuffers, hm.pages⟩, hbuf',
      htree.of_sides (l := pre) (x := [b, n]) (y := [b]) hbuf hbuf' htiles htiles' htop rfl hsub
        hperm', hperm', hP.congr fun i _ => ?_⟩
    simp only [hnot, not_false_eq_true, true_and]
    rfl

/-! ### The previous buffer -/

/-- Nothing that is free comes before. -/
def UsedLast (l : List BinderBuffer) : Prop := ∀ c ∈ l.getLast?, c.free = false

/-- After `pre`, the freed `b` is `m` after `pre1`: it stays what it is, or it is merged into the
last of `pre`. -/
inductive Joined : List BinderBuffer → BinderBuffer → List BinderBuffer → BinderBuffer → Prop
  | alone {pre : List BinderBuffer} {b : BinderBuffer} (h : UsedLast pre) (hb : b.free = true) :
      Joined pre b pre b
  | prev {l : List BinderBuffer} {b m : BinderBuffer} (h : m.free = true) :
      Joined (l ++ [m]) b l m

namespace Joined

variable {pre l : List BinderBuffer} {b m : BinderBuffer}

theorem free (h : Joined pre b l m) : m.free = true := by
  cases h with
  | alone _ hb => exact hb
  | prev h => exact h

theorem not_usedLast (h : m.free = true) : ¬ UsedLast (l ++ [m]) := fun hu => by
  have := hu m (by simp)
  simp [h] at this

theorem data (h : Joined pre b l m) {lo hi : ℕ} {post : List BinderBuffer}
    (ht : Tiles BinderBuffer.data lo (pre ++ b :: post) hi) :
    (UsedLast pre → m.data = b.data) ∧ (¬ UsedLast pre → m.data < b.data) := by
  cases h with
  | alone h => exact ⟨fun _ => rfl, fun hno => absurd h hno⟩
  | prev h =>
    exact ⟨fun hu => absurd hu (not_usedLast h), fun _ => (ne_around ht).1 m (by simp)⟩

theorem tiles (h : Joined pre b l m) {lo hi : ℕ} {post : List BinderBuffer}
    (ht : Tiles BinderBuffer.data lo (pre ++ b :: post) hi) :
    Tiles BinderBuffer.data lo (l ++ m :: post) hi := by
  cases h with
  | alone => exact ht
  | prev =>
    rw [List.append_assoc] at ht
    obtain ⟨h1, h2, h3⟩ := tiles_split.mp ht
    exact tiles_split.mpr ⟨h1, h2.trans h3.2.1, h3.2.2⟩

theorem usedLast (h : Joined pre b l m)
    (hchain : pre.IsChain fun b c => b.free = false ∨ c.free = false) : UsedLast l := by
  cases h with
  | alone h => exact h
  | prev h =>
    intro c hc
    have := (List.isChain_append.mp hchain).2.2 c hc m (by simp)
    exact this.resolve_right (by simp [h])

theorem usedData_eq (h : Joined pre b l m) : usedData pre = usedData l := by
  cases h with
  | alone => rfl
  | prev h => rw [usedData_append, usedData_cons, if_pos h]; simp [usedData]

theorem live_eq (h : Joined pre b l m) :
    (spans BinderBuffer.data pre b.data).filter (fun t => !t.owner.free) =
      (spans BinderBuffer.data l m.data).filter fun t => !t.owner.free := by
  cases h with
  | alone => rfl
  | prev h => rw [spans_split, List.filter_append]; simp [h, spans]

theorem usedPage_iff (h : Joined pre b l m) {x : ℕ} :
    UsedPage pre b.data x ↔ UsedPage l m.data x := by
  cases h with
  | alone => exact Iff.rfl
  | prev h =>
    rw [UsedPage, occupied_append, occupied_cons]
    simp [h, not_occupied_nil]

theorem prefix_of (h : Joined pre b l m) : l <+: pre := by
  cases h with
  | alone => exact List.prefix_refl pre
  | prev => exact List.prefix_append l [m]

end Joined

theorem mergePrev_spec (rb : Rebalance ℕ) {pre post : List BinderBuffer} {b : BinderBuffer}
    {U : ℕ → Prop} (hreg : Region a) (hbuf : a.buffers = pre ++ b :: post)
    (htiles : Tiles BinderBuffer.data a.buffer a.buffers a.top) (htree : FreeTree a)
    (hperm : (inorder a.freeBuffers).Perm (freeData pre ++ freeData post)) (hb : b.free = true)
    (hps : PagesAre a.pages U)
    (hU : ∀ l m, Joined pre b l m → ∀ i, ¬ UsedLast pre ∧
      ToFree m.data b.data (stop BinderBuffer.data post a.top) ∧
      a.buffer + i * pageSize = pageMask b.data → U i) :
    ∃ l m a', mergePrev rb a b.data = some a' ∧ Joined pre b l m ∧ Merge a a' ∧
      a'.buffers = l ++ m :: post ∧ FreeTree a' ∧
      (inorder a'.freeBuffers).Perm (freeData a'.buffers) ∧
      PagesAre a'.pages fun i => U i ∧ ¬ (¬ UsedLast pre ∧
        ToFree m.data b.data (stop BinderBuffer.data post a.top) ∧
        a.buffer + i * pageSize = pageMask b.data) := by
  obtain ⟨hpre, hpost⟩ := ne_around (hbuf ▸ htiles)
  have hprev : binderBufferPrev a.buffers b.data = pre.getLast? := by
    rw [hbuf]
    exact prev_around (fun c hc => (hpre c hc).ne) fun c hc => (hpost c hc).ne'
  -- with nothing to merge, the buffer itself is inserted
  have halone : UsedLast pre → ∃ a', binderInsertFreeBuffer rb a b.data = some a' ∧ Merge a a' ∧
      a'.buffers = pre ++ b :: post ∧ FreeTree a' ∧
      (inorder a'.freeBuffers).Perm (freeData a'.buffers) ∧
      PagesAre a'.pages fun i => U i ∧ ¬ (¬ UsedLast pre ∧
        ToFree b.data b.data (stop BinderBuffer.data post a.top) ∧
        a.buffer + i * pageSize = pageMask b.data) := fun hlast => by
    obtain ⟨t, hrun, hperm', htree'⟩ := insertFree_spec rb
      (at?_of_mem htiles (show b ∈ a.buffers by simp [hbuf])) hb htree
    refine ⟨_, hrun, ⟨⟨rfl, rfl, rfl, rfl, rfl⟩, rfl, rfl, rfl, rfl⟩, hbuf, htree', ?_,
      hps.congr fun i _ => by simp [hlast]⟩
    rw [hbuf, freeData_append, freeData_cons, if_pos hb]
    exact hperm'.trans ((hperm.cons b.data).trans List.perm_middle.symm)
  unfold mergePrev
  rw [hprev]
  rcases List.eq_nil_or_concat pre with rfl | ⟨l, m, rfl⟩
  · have hlast : UsedLast ([] : List BinderBuffer) := by simp [UsedLast]
    obtain ⟨a', hrun, h⟩ := halone hlast
    exact ⟨[], b, a', hrun, .alone hlast hb, h⟩
  rw [List.concat_eq_append] at *
  rw [List.getLast?_concat]
  dsimp only
  by_cases hm : m.free = true
  · rw [if_pos hm]
    have hjoin : Joined (l ++ [m]) b l m := .prev hm
    have hnot := Joined.not_usedLast (l := l) hm
    obtain ⟨a1, hdel, hm1, hbuf1, hfree1, hP⟩ := deleteFree_spec hreg
      (hbuf.trans (List.append_assoc l [m] (b :: post))) htiles hm hps
      (fun i h => hU l m hjoin i ⟨hnot, h⟩)
    rw [hdel]
    dsimp only
    have htop1 : a1.top = a.top := hm1.toKept.top
    have htiles1 : Tiles BinderBuffer.data a.buffer a1.buffers a1.top := by
      rw [hbuf1, htop1]
      exact hjoin.tiles (hbuf ▸ htiles)
    have hperm1 : (inorder (rb.erase m.data a1.freeBuffers)).Perm
        (freeData l ++ freeData post) := by
      rw [rb.inorder_erase, hfree1]
      rw [freeData_append, freeData_cons, if_pos hm, List.append_assoc] at hperm
      have := (hperm.trans List.perm_middle).erase m.data
      rw [List.erase_cons_head] at this
      simpa [freeData] using this
    -- what is left in the tree keeps its place, the buffer that has grown is not in it
    have htree1 : FreeTree { a1 with freeBuffers := rb.erase m.data a1.freeBuffers } :=
      htree.of_sides (x := [m, b]) (y := [m]) (hbuf.trans (List.append_assoc l [m] (b :: post)))
        hbuf1 htiles htiles1 htop1 rfl
        (by
          rw [rb.inorder_erase, hfree1]
          exact List.erase_sublist) hperm1
    have hmem : m ∈ a1.buffers := by simp [hbuf1]
    obtain ⟨t, hrun, hperm2, htree2⟩ := insertFree_spec rb
      (a := { a1 with freeBuffers := rb.erase m.data a1.freeBuffers })
      (at?_of_mem htiles1 hmem) hm htree1
    refine ⟨l, m, _, hrun, hjoin,
      ⟨⟨hm1.vma, hm1.vmaVmMm, hm1.buffer, hm1.userBufferOffset, hm1.bufferSize⟩,
        hm1.freeAsyncSpace, hm1.warnings, hm1.allocatedBuffers, hm1.pages⟩, hbuf1, htree2, ?_,
      hP.congr fun i _ => by simp [hnot]⟩
    have hbuf1 : ({ a1 with freeBuffers := t } : BinderAlloc).buffers = l ++ m :: post := hbuf1
    rw [hbuf1, freeData_append, freeData_cons, if_pos hm]
    exact hperm2.trans ((hperm1.cons m.data).trans List.perm_middle.symm)
  · rw [if_neg hm]
    have hlast : UsedLast (l ++ [m]) := by simpa [UsedLast] using hm
    obtain ⟨a', hrun, h⟩ := halone hlast
    exact ⟨l ++ [m], b, a', hrun, .alone hlast hb, h⟩

theorem exists_joined (pre : List BinderBuffer) {b : BinderBuffer} (hb : b.free = true) :
    ∃ pre1 m, Joined pre b pre1 m := by
  rcases List.eq_nil_or_concat pre with rfl | ⟨pre1, m, rfl⟩
  · exact ⟨[], b, .alone (by simp [UsedLast]) hb⟩
  · rw [List.concat_eq_append]
    by_cases hm : m.free = true
    · exact ⟨pre1, m, .prev hm⟩
    · exact ⟨pre1 ++ [m], b, .alone (by simpa [UsedLast] using hm) hb⟩

/-! ### The whole operation -/

theorem requestSize_some {d o e size : ℕ} (h : requestSize d o e = some size) :
    (align d + align o + align e) % sizeMod = size ∧ size % wordSize = 0 ∧ d ≤ size ∧ o ≤ size ∧
      e ≤ size := by
  unfold requestSize at h
  dsimp only at h
  split at h
  · cases h
  · rename_i h1
    split at h
    · cases h
    · rename_i h2
      have h := Option.some.inj h
      unfold align wordSize sizeMod at *
      omega

/-- `x` rounded up to a pointer, where nothing wraps. -/
def roundUp (x : ℕ) : ℕ := (x + (wordSize - 1)) / wordSize * wordSize

theorem align_cases {x : ℕ} (hx : x < sizeMod) :
    (roundUp x < sizeMod ∧ align x = roundUp x) ∨ (roundUp x = sizeMod ∧ align x = 0) := by
  unfold align roundUp wordSize sizeMod at *
  omega

theorem roundUp_bounds (x : ℕ) :
    x ≤ roundUp x ∧ roundUp x < x + wordSize ∧ roundUp x % wordSize = 0 := by
  unfold roundUp wordSize
  omega

theorem requestSize_eq {d o e : ℕ} (hd : d < sizeMod) (ho : o < sizeMod) (he : e < sizeMod) :
    requestSize d o e = if roundUp d + roundUp o + roundUp e < sizeMod then
      some (roundUp d + roundUp o + roundUp e) else none := by
  have h1 : d ≤ roundUp d ∧ roundUp d < d + wordSize ∧ roundUp d % wordSize = 0 := roundUp_bounds d
  have h2 : o ≤ roundUp o ∧ roundUp o < o + wordSize ∧ roundUp o % wordSize = 0 := roundUp_bounds o
  have h3 : e ≤ roundUp e ∧ roundUp e < e + wordSize ∧ roundUp e % wordSize = 0 := roundUp_bounds e
  have hd' := align_cases hd
  have ho' := align_cases ho
  have he' := align_cases he
  unfold requestSize
  dsimp only
  generalize roundUp d = D at *
  generalize roundUp o = O at *
  generalize roundUp e = E at *
  generalize align d = D' at *
  generalize align o = O' at *
  generalize align e = E' at *
  unfold wordSize sizeMod at *
  split
  · rename_i h
    rw [if_neg]
    omega
  · rename_i h
    split
    · rename_i h'
      rw [if_neg]
      omega
    · rename_i h'
      rw [if_pos (by omega)]
      congr 1
      omega

theorem mem_live {t : Span BinderBuffer} : t ∈ live a ↔
    t ∈ spans BinderBuffer.data a.buffers a.top ∧ t.owner.free = false := by
  simp [live]

/-- The pages around a buffer that is freed. -/
theorem released_around (h : Wf a) {pre post pre1 : List BinderBuffer} {b m : BinderBuffer}
    (hbuf : a.buffers = pre ++ b :: post) (b' : BinderBuffer) (hd : b'.data = b.data)
    (hj : Joined pre b' pre1 m) (i : ℕ) :
    Released m.data b.data (stop BinderBuffer.data post a.top)
      (stop BinderBuffer.data (afterFree post) a.top) (a.buffer + i * pageSize)
      (UsedPage pre b.data (a.buffer + i * pageSize))
      (UsedPage post a.top (a.buffer + i * pageSize)) (¬ UsedLast pre) (¬ UsedHead post) := by
  obtain ⟨hpre, hlt, hpost⟩ := tiles_split.mp (hbuf ▸ h.tiles)
  have hsplit : Tiles BinderBuffer.data a.buffer (pre ++ b' :: post) a.top :=
    tiles_split.mpr (hd.symm ▸ ⟨hpre, hlt, hpost⟩)
  obtain ⟨hch1, hch2, -⟩ := List.isChain_append.mp (hbuf ▸ h.merged)
  have hpre1 := (tiles_split.mp (hj.tiles hsplit)).1
  obtain ⟨hc1, hc2⟩ := hj.data hsplit
  rw [hd] at hc1 hc2
  obtain ⟨hf1, hf2⟩ := stop_afterFree hpost
  have hX := hj.usedPage_iff (x := a.buffer + i * pageSize)
  rw [hd] at hX
  have hx : (a.buffer + i * pageSize) % pageSize = 0 := by
    rw [Nat.add_mul_mod_self_right]
    exact h.base
  refine released_of hx hlt (h.pos.trans_le hpre1.le) (fun hp => hc1 (not_not.mp hp))
    (fun hn => hf1 (not_not.mp hn)) hc2 hf2 ?_ ?_ ?_ ?_
  · exact fun hu => (hpre1.occupied_bounds (hX.mp hu)).2
  · exact fun hu => ((tiles_afterFree hpost).occupied_bounds (usedPage_afterFree.mpr hu)).1
  · exact fun h1 h2 =>
      (usedPage_before hpre1 h.base (hj.usedLast hch1) h1 h2).imp_left hX.mpr
  · exact fun h1 h2 => (usedPage_after (tiles_afterFree hpost) h.top_aligned
      (usedHead_afterFree hch2.tail) h1 h2).imp_left usedPage_afterFree.mp

/-- The space for async transactions after a buffer is freed. -/
def asyncAfterFree (a : BinderAlloc) (b : BinderBuffer) : ℕ :=
  if b.asyncTransaction then (a.freeAsyncSpace + (freedSize b + bufferStructSize)) % sizeMod
  else a.freeAsyncSpace

/-- The occupied pages, from the two sides of one allocated buffer. -/
theorem inUse_around {pre post : List BinderBuffer} {b : BinderBuffer}
    (hbuf : a.buffers = pre ++ b :: post) (hb : b.free = false) (i : ℕ) :
    InUse a i ↔ UsedPage pre b.data (a.buffer + i * pageSize) ∨
      (b.data < a.buffer + i * pageSize + pageSize ∧
        a.buffer + i * pageSize < stop BinderBuffer.data post a.top) ∨
      UsedPage post a.top (a.buffer + i * pageSize) := by
  unfold InUse UsedPage
  rw [hbuf, occupied_append, occupied_cons, stop_cons]
  simp [hb]

/-- The invariant once the freed buffer is merged. -/
theorem wf_joined (h : Wf a) {a' : BinderAlloc} {pre post pre1 : List BinderBuffer}
    {b m : BinderBuffer} (hbuf : a.buffers = pre ++ b :: post) (hb : b.free = false)
    (b' : BinderBuffer) (hd : b'.data = b.data) (hj : Joined pre b' pre1 m) (hk : Kept a a')
    (hbuf' : a'.buffers = pre1 ++ m :: afterFree post) (htree : FreeTree a')
    (hperm : (inorder a'.freeBuffers).Perm (freeData a'.buffers))
    (halloc : inorder a'.allocatedBuffers = usedData pre ++ usedData post)
    (hlen : a'.pages.length = a.pages.length)
    (hpages : PagesAre a'.pages fun i => UsedPage pre b.data (a.buffer + i * pageSize) ∨
      UsedPage post a.top (a.buffer + i * pageSize)) (hquiet : a'.warnings = 0) :
    Wf a' ∧ live a' =
      (spans BinderBuffer.data pre b.data).filter (fun t => !t.owner.free) ++
        (spans BinderBuffer.data post a.top).filter fun t => !t.owner.free := by
  have htop : a'.top = a.top := hk.top
  obtain ⟨hpre, hlt, hpost⟩ := tiles_split.mp (hbuf ▸ h.tiles)
  obtain ⟨hch1, hch2, -⟩ := List.isChain_append.mp (hbuf ▸ h.merged)
  have hafter := tiles_afterFree hpost
  have hle : stop BinderBuffer.data post a.top ≤ stop BinderBuffer.data (afterFree post) a.top := by
    by_cases hu : UsedHead post
    · exact ((stop_afterFree hpost).1 hu).ge
    · exact ((stop_afterFree hpost).2 hu).le
  have htiles : Tiles BinderBuffer.data a.buffer (pre1 ++ m :: afterFree post) a.top :=
    hj.tiles (tiles_split.mpr (hd.symm ▸ ⟨hpre, hlt.trans_le hle, hafter⟩))
  have hlive : live a' = (spans BinderBuffer.data pre b.data).filter (fun t => !t.owner.free) ++
      (spans BinderBuffer.data post a.top).filter fun t => !t.owner.free := by
    unfold live
    rw [hbuf', htop, spans_split, List.filter_append, List.filter_cons_of_neg (by simp [hj.free]),
      live_afterFree, ← hj.live_eq, hd]
  have hmem : ∀ t ∈ live a', t ∈ live a := by
    intro t ht
    rw [hlive] at ht
    unfold live
    rw [hbuf, spans_split, List.filter_append, List.filter_cons_of_pos (by simp [hb])]
    rcases List.mem_append.mp ht with ht | ht
    · exact List.mem_append_left _ ht
    · exact List.mem_append_right _ (List.mem_cons_of_mem _ ht)
  refine ⟨⟨h.toRegion.of_kept hk hlen, htree, ?_, ?_, ?_, ?_, hperm, ?_, ?_, hquiet⟩, hlive⟩
  · rw [hk.buffer, htop, hbuf']; exact htiles
  · -- the addresses are addresses of buffers that there were
    have hmw : m.data % wordSize = 0 := by
      cases hj with
      | alone => rw [hd]; exact h.words b (by simp [hbuf])
      | prev => exact h.words m (by simp [hbuf])
    intro c hc
    rw [hbuf'] at hc
    rcases List.mem_append.mp hc with hc | hc
    · exact h.words c (by simp [hbuf, hj.prefix_of.subset hc])
    · rcases List.mem_cons.mp hc with rfl | hc
      · exact hmw
      · exact h.words c (by simp [hbuf, (afterFree_suffix post).subset hc])
  · rw [hbuf', List.isChain_append]
    have hleft := List.IsChain.prefix hch1 hj.prefix_of
    refine ⟨hleft, ?_, fun c hc e he => ?_⟩
    · cases hl : afterFree post with
      | nil => exact List.isChain_singleton m
      | cons c l =>
        refine List.isChain_cons_cons.mpr ⟨Or.inr ?_, hl ▸ hch2.tail.suffix (afterFree_suffix post)⟩
        exact usedHead_afterFree hch2.tail c (by simp [hl])
    · exact Or.inl (hj.usedLast hch1 c hc)
  · intro t ht hused
    obtain ⟨ht', -⟩ := mem_live.mp (hmem t (mem_live.mpr ⟨ht, hused⟩))
    exact h.fits t ht' hused
  · rw [halloc, hbuf', usedData_append, usedData_cons, if_pos hj.free, usedData_afterFree,
      ← hj.usedData_eq]
  · refine hpages.congr fun i _ => ?_
    unfold InUse UsedPage
    rw [hbuf', htop, hk.buffer, occupied_append, occupied_cons, stop_cons]
    have hX := hj.usedPage_iff (x := a.buffer + i * pageSize)
    have hY : UsedPage (afterFree post) a.top (a.buffer + i * pageSize) ↔
        UsedPage post a.top (a.buffer + i * pageSize) := usedPage_afterFree
    rw [hd] at hX
    unfold UsedPage at hX hY
    simp [hj.free, hX, hY]

/-- None of the five `BUG_ON`s is met for an allocated buffer without a transaction. -/
theorem Wf.no_bug (h : Wf a) {pre post : List BinderBuffer} {b : BinderBuffer}
    (hbuf : a.buffers = pre ++ b :: post) (hused : b.free = false) (htxn : b.transaction = false) :
    ¬ (b.free = true ∨ stop BinderBuffer.data post a.top - b.data < freedSize b ∨
      b.transaction = true ∨ b.data < a.buffer ∨ a.top < b.data) := by
  obtain ⟨hblo, hbhi⟩ := h.tiles.start_mem (show b ∈ a.buffers by simp [hbuf])
  obtain ⟨size, hreq, hfit⟩ := h.fits ⟨b, b.data, stop BinderBuffer.data post a.top⟩
    (mem_spans.mpr ⟨pre, post, hbuf, rfl, rfl⟩) hused
  have hfreed := (requestSize_some hreq).1
  rintro (h1 | h1 | h1 | h1 | h1)
  · simp [hused] at h1
  · unfold freedSize at h1
    rw [hfreed] at h1
    dsimp only at hfit
    omega
  · simp [htxn] at h1
  · omega
  · omega

/-- The pages inside the buffer are released. -/
theorem Wf.freeInside (h : Wf a) {pre post : List BinderBuffer} {b : BinderBuffer}
    (hbuf : a.buffers = pre ++ b :: post) (hused : b.free = false) (async : ℕ) :
    ∃ r ps, binderUpdatePageRange none (pageAlign b.data)
        (pageMask (stop BinderBuffer.data post a.top)) { a with freeAsyncSpace := async } =
        some (r, { a with freeAsyncSpace := async, pages := ps }) ∧ ps.length = a.pages.length ∧
      PagesAre ps fun i => (UsedPage pre b.data (a.buffer + i * pageSize) ∨
        (b.data < a.buffer + i * pageSize + pageSize ∧
          a.buffer + i * pageSize < stop BinderBuffer.data post a.top) ∨
        UsedPage post a.top (a.buffer + i * pageSize)) ∧
        ¬ PagesIn a (pageAlign b.data) (pageMask (stop BinderBuffer.data post a.top)) i := by
  obtain ⟨hpre, hlt, hpost⟩ := tiles_split.mp (hbuf ▸ h.tiles)
  obtain ⟨hblo, hbhi⟩ := h.tiles.start_mem (show b ∈ a.buffers by simp [hbuf])
  obtain ⟨l, m, hj⟩ := exists_joined pre (b := { b with free := true }) rfl
  have hfrom : Boundary a (pageAlign b.data) := h.boundary (pageAlign_aligned _)
    (hblo.trans (by unfold pageAlign pageSize; omega)) ((pageAlign_le h.top_aligned).mpr hbhi.le)
  have hto : Boundary a (pageMask (stop BinderBuffer.data post a.top)) :=
    h.boundary (pageMask_aligned _) ((le_pageMask h.base).mpr (hblo.trans hlt.le))
      (le_trans (by unfold pageMask pageSize; omega) hpost.le)
  exact freeRange_spec (a := { a with freeAsyncSpace := async }) hfrom hto
    (h.active.congr fun i _ => inUse_around hbuf hused i)
    fun i hi => Or.inr (Or.inl ((released_around h hbuf { b with free := true } rfl hj i).inside hi))

/-- The buffer `b` of `a` is marked free in `a2`, its inner pages are released and it is in neither
tree: the two merges bring the invariant back. -/
theorem merge_spec (rb : Rebalance ℕ) (h : Wf a) {a2 : BinderAlloc} {pre post : List BinderBuffer}
    {b : BinderBuffer} (hbuf : a.buffers = pre ++ b :: post) (hused : b.free = false)
    (hk2 : Kept a a2) (hbuf2 : a2.buffers = pre ++ { b with free := true } :: post)
    (htree2 : a2.freeBuffers = a.freeBuffers)
    (halloc2 : a2.allocatedBuffers = rb.erase b.data a.allocatedBuffers)
    (hwarn2 : a2.warnings = a.warnings) (hl : a2.pages.length = a.pages.length)
    (hP : PagesAre a2.pages fun i => (UsedPage pre b.data (a.buffer + i * pageSize) ∨
      (b.data < a.buffer + i * pageSize + pageSize ∧
        a.buffer + i * pageSize < stop BinderBuffer.data post a.top) ∨
      UsedPage post a.top (a.buffer + i * pageSize)) ∧
      ¬ PagesIn a (pageAlign b.data) (pageMask (stop BinderBuffer.data post a.top)) i) :
    ∃ a3 a4, mergeNext rb a2 b.data = some a3 ∧ mergePrev rb a3 b.data = some a4 ∧ Wf a4 ∧
      Kept a a4 ∧ a4.freeAsyncSpace = a2.freeAsyncSpace ∧ live a4 =
        (spans BinderBuffer.data pre b.data).filter (fun t => !t.owner.free) ++
          (spans BinderBuffer.data post a.top).filter fun t => !t.owner.free := by
  have hsplit := hbuf ▸ h.tiles
  obtain ⟨hpre, hlt, hpost⟩ := tiles_split.mp hsplit
  obtain ⟨l0, m0, hj0⟩ := exists_joined pre (b := { b with free := true }) rfl
  have hrel := fun i => released_around h hbuf { b with free := true } rfl hj0 i
  have hreg2 := h.toRegion.of_kept hk2 hl
  have htiles2 : Tiles BinderBuffer.data a.buffer a2.buffers a2.top := by
    rw [hbuf2, hk2.top]
    exact tiles_split.mpr ⟨hpre, hlt, hpost⟩
  have hperm2 : (inorder a2.freeBuffers).Perm (freeData pre ++ freeData post) := by
    have := h.freeTree
    rwa [hbuf, freeData_append, freeData_cons, if_neg (by simp [hused]), ← htree2] at this
  have hfree2 : FreeTree a2 :=
    h.toFreeTree.of_sides (x := [b]) (y := [{ b with free := true }]) hbuf hbuf2 h.tiles htiles2
      hk2.top rfl (by rw [htree2]) hperm2
  obtain ⟨a3, hnext, hm3, hbuf3, hfree3, hperm3, hP3⟩ := mergeNext_spec rb hreg2 hbuf2
    (hk2.buffer.symm ▸ htiles2) hfree2 hperm2 rfl hP (fun i hi => by
      rw [hk2.top, hk2.buffer] at hi
      exact ⟨Or.inr (Or.inl ((hrel i).next hi).1), ((hrel i).next hi).2⟩)
  have htiles3 : Tiles BinderBuffer.data a3.buffer a3.buffers a3.top := by
    rw [hbuf3, hm3.toKept.top, hm3.buffer, hk2.top, hk2.buffer]
    refine tiles_split.mpr ⟨hpre, hlt.trans_le ?_, tiles_afterFree hpost⟩
    by_cases hu : UsedHead post
    · exact ((stop_afterFree hpost).1 hu).ge
    · exact ((stop_afterFree hpost).2 hu).le
  obtain ⟨l, m, a4, hprev, hj, hm4, hbuf4, hfree4, hperm4, hP4⟩ := mergePrev_spec rb
    (hreg2.of_kept hm3.toKept hm3.pages) hbuf3 htiles3 hfree3 hperm3 rfl hP3 (fun l m hj i hi => by
      rw [hm3.toKept.top, hm3.buffer, hk2.top, hk2.buffer] at hi
      have hp := (released_around h hbuf { b with free := true } rfl hj i).prev hi
      rw [hk2.top, hk2.buffer]
      exact ⟨⟨Or.inr (Or.inl hp.1.1), hp.1.2⟩, hp.2⟩)
  have halloc : inorder a4.allocatedBuffers = usedData pre ++ usedData post := by
    rw [hm4.allocatedBuffers, hm3.allocatedBuffers, halloc2, rb.inorder_erase, h.allocated, hbuf,
      usedData_append, usedData_cons, if_neg (by simp [hused]), List.erase_append_right,
      List.erase_cons_head]
    intro hd
    obtain ⟨c, hc, -, hcd⟩ := mem_usedData.mp hd
    exact absurd hcd ((ne_around hsplit).1 c hc).ne
  have hk4 : Kept a a4 := hk2.trans (hm3.toKept.trans hm4.toKept)
  have hleft : PagesAre a4.pages fun i => UsedPage pre b.data (a.buffer + i * pageSize) ∨
      UsedPage post a.top (a.buffer + i * pageSize) := hP4.congr fun i _ => by
    rw [hm3.toKept.top, hm3.buffer, hk2.top, hk2.buffer]
    exact (released_around h hbuf { b with free := true } rfl hj i).left
  obtain ⟨hwf, hlive⟩ := wf_joined h hbuf hused { b with free := true } rfl hj hk4 hbuf4 hfree4
    hperm4 halloc (hm4.pages.trans (hm3.pages.trans hl)) hleft
    (hm4.warnings.trans (hm3.warnings.trans (hwarn2.trans h.quiet)))
  exact ⟨a3, a4, hnext, hprev, hwf, hk4, hm4.freeAsyncSpace.trans hm3.freeAsyncSpace, hlive⟩

theorem freeBuf_spec (rb : Rebalance ℕ) (h : Wf a) {t : Span BinderBuffer} (ht : t ∈ live a)
    (htxn : t.owner.transaction = false) :
    ∃ a' l m, binderAllocFreeBuf rb a t.lo = some a' ∧ Wf a' ∧ Kept a a' ∧
      live a = l ++ t :: m ∧ live a' = l ++ m ∧
      a'.freeAsyncSpace = asyncAfterFree a t.owner := by
  obtain ⟨hspan, hused⟩ := mem_live.mp ht
  obtain ⟨pre, post, hbuf, hlo, hhi⟩ := mem_spans.mp hspan
  obtain ⟨b, tlo, thi⟩ := t
  dsimp only at hbuf hlo hhi hused htxn ⊢
  subst hlo hhi
  have hsplit := hbuf ▸ h.tiles
  obtain ⟨-, hlt, -⟩ := tiles_split.mp hsplit
  have hat := at?_of_mem h.tiles (show b ∈ a.buffers by simp [hbuf])
  have hsize : binderAllocBufferSize a b.data = stop BinderBuffer.data post a.top - b.data :=
    size_of_span h.tiles hspan
  obtain ⟨r, ps, hrange, hl, hP⟩ := h.freeInside hbuf hused (asyncAfterFree a b)
  have hset : BinderAlloc.setAt { a with
      freeAsyncSpace := asyncAfterFree a b
      pages := ps
      allocatedBuffers := rb.erase b.data a.allocatedBuffers } b.data
      (fun b => { b with free := true }) = { a with
      freeAsyncSpace := asyncAfterFree a b
      pages := ps
      allocatedBuffers := rb.erase b.data a.allocatedBuffers
      buffers := pre ++ { b with free := true } :: post } := by
    apply setAt_around
    · exact hbuf
    · exact h.tiles
  have hmarked : Kept a { a with
      freeAsyncSpace := asyncAfterFree a b
      pages := ps
      allocatedBuffers := rb.erase b.data a.allocatedBuffers
      buffers := pre ++ { b with free := true } :: post } := ⟨rfl, rfl, rfl, rfl, rfl⟩
  obtain ⟨a3, a4, hnext, hprev, hwf, hk, hasync, hlive⟩ :=
    merge_spec rb h hbuf hused hmarked rfl rfl rfl rfl hl hP
  refine ⟨a4, _, _, ?_, hwf, hk, ?_, hlive, hasync⟩
  · have hspace : (if b.asyncTransaction then
        { a with freeAsyncSpace := (a.freeAsyncSpace + (freedSize b + bufferStructSize)) % sizeMod }
        else a) = { a with freeAsyncSpace := asyncAfterFree a b } := by
      unfold asyncAfterFree
      split <;> rfl
    unfold binderAllocFreeBuf
    rw [hat]
    dsimp only
    rw [hsize, if_neg (h.no_bug hbuf hused htxn), Nat.add_sub_cancel' hlt.le, hspace, hrange]
    dsimp only
    rw [hset, hnext]
    exact hprev
  · unfold live
    rw [hbuf, spans_split, List.filter_append, List.filter_cons_of_pos (by simp [hused])]

end HeadlessAndroid.Binder
