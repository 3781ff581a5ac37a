import HeadlessAndroid.Lib.SearchTree
import HeadlessAndroid.Lib.Tiling
import Mathlib.Data.Nat.Basic

/-!
# HeadlessAndroid.BinderAlloc — the buffers of docker/android-4.4-p-binder/binder_alloc.c

A process maps one region; the buffers of its transactions are cut out of it.  Allocating, looking
up, freeing and the shrinker run under `alloc->mutex`, so each is a function of the allocator.
`binder_alloc_mmap_handler` and `binder_alloc_vma_close` do not take it.  Until the handler sets
`alloc->vma` requests are refused and there is nothing to free, so it is one function up to there;
`alloc->vma_vm_mm` it sets after that, which is one of its own.  A pointer to a buffer is the address
of its data: it is set once, and no two buffers of a region share it.  `none` is a `BUG_ON` or an
access to what is not there; a `WARN_ON` is counted.  Sizes that come from a request wrap at
`2 ^ 64`; addresses inside the region do not.
-/

namespace HeadlessAndroid.Binder

open Lib.SearchTree Lib.Tiling

/-- The values of a `size_t`. -/
abbrev sizeMod : ℕ := 2 ^ 64

abbrev pageSize : ℕ := 4096

/-- `sizeof(void *)` -/
abbrev wordSize : ℕ := 8

/-- `sizeof(struct binder_buffer)` -/
abbrev bufferStructSize : ℕ := 96

/-- `ALIGN(x, sizeof(void *))`; the mask is a division, the alignment being a power of two. -/
def align (x : ℕ) : ℕ := (x + (wordSize - 1)) % sizeMod / wordSize * wordSize

/-- `PAGE_ALIGN(x)` -/
def pageAlign (x : ℕ) : ℕ := (x + (pageSize - 1)) / pageSize * pageSize

/-- `x & PAGE_MASK` -/
def pageMask (x : ℕ) : ℕ := x / pageSize * pageSize

inductive Errno where
  | eperm
  | einval
  | enospc
  | esrch
  | enomem
  | ebusy
  deriving DecidableEq

structure BinderBuffer where
  data : ℕ
  free : Bool
  allowUserFree : Bool
  asyncTransaction : Bool
  /-- `transaction` is not null. -/
  transaction : Bool
  dataSize : ℕ
  offsetsSize : ℕ
  extraBuffersSize : ℕ
  deriving DecidableEq

/-- A buffer as `kzalloc` makes it, but for its address. -/
def BinderBuffer.zeroed (data : ℕ) (free : Bool) : BinderBuffer :=
  ⟨data, free, false, false, false, 0, 0, 0⟩

structure BinderLruPage where
  /-- `page_ptr` is not null. -/
  pagePtr : Bool
  /-- The page is on `binder_alloc_lru`. -/
  lru : Bool
  deriving DecidableEq

structure BinderAlloc where
  /-- `vma` is not null. -/
  vma : Bool
  /-- `vma_vm_mm` is not null. -/
  vmaVmMm : Bool
  buffer : ℕ
  userBufferOffset : ℕ
  /-- In the order of their addresses. -/
  buffers : List BinderBuffer
  freeBuffers : BinaryTree ℕ
  allocatedBuffers : BinaryTree ℕ
  freeAsyncSpace : ℕ
  pages : List BinderLruPage
  bufferSize : ℕ
  pagesHigh : ℕ
  /-- How many `WARN_ON`s have fired. -/
  warnings : ℕ

namespace BinderAlloc

variable (a : BinderAlloc)

/-- The end of the region. -/
def top : ℕ := a.buffer + a.bufferSize

/-- The buffer that a pointer points to. -/
def at? (d : ℕ) : Option BinderBuffer := a.buffers.find? fun b => b.data == d

def setAt (d : ℕ) (f : BinderBuffer → BinderBuffer) : BinderAlloc :=
  { a with buffers := a.buffers.map fun b => if b.data = d then f b else b }

/-- `WARN_ON(c)` -/
def warnOn (c : Bool) : BinderAlloc := { a with warnings := a.warnings + c.toNat }

end BinderAlloc

/-! ### The list of all buffers -/

/-- `binder_buffer_next`, null for the last one -/
def binderBufferNext : List BinderBuffer → ℕ → Option BinderBuffer
  | [], _ => none
  | b :: rest, d => if b.data = d then rest.head? else binderBufferNext rest d

/-- `binder_buffer_prev`, null for the first one -/
def binderBufferPrev : List BinderBuffer → ℕ → Option BinderBuffer
  | b :: c :: rest, d => if c.data = d then some b else binderBufferPrev (c :: rest) d
  | _, _ => none

def bufferSizeIn (hi : ℕ) : List BinderBuffer → ℕ → ℕ
  | [], _ => 0
  | b :: rest, d =>
    if b.data = d then stop BinderBuffer.data rest hi - b.data else bufferSizeIn hi rest d

/-- `binder_alloc_buffer_size`: up to the next buffer, for the last one to the end of the region -/
def binderAllocBufferSize (a : BinderAlloc) (d : ℕ) : ℕ := bufferSizeIn a.top a.buffers d

/-- `list_add(&new->entry, &buffer->entry)` -/
def listAdd (new : BinderBuffer) : List BinderBuffer → ℕ → List BinderBuffer
  | [], _ => []
  | b :: rest, d => if b.data = d then b :: new :: rest else b :: listAdd new rest d

/-- `list_del` -/
def listDel : List BinderBuffer → ℕ → List BinderBuffer
  | [], _ => []
  | b :: rest, d => if b.data = d then rest else b :: listDel rest d

/-! ### The trees -/

/-- Where `binder_insert_free_buffer` turns: equal sizes go to the right. -/
def freeTurn (a : BinderAlloc) (newBufferSize d : ℕ) : Option Ordering :=
  match a.at? d with
  | none => none
  | some b =>
    if b.free then some (if newBufferSize < binderAllocBufferSize a d then .lt else .gt) else none

def binderInsertFreeBuffer (rb : Rebalance ℕ) (a : BinderAlloc) (d : ℕ) : Option BinderAlloc :=
  match a.at? d with
  | none => none
  | some b =>
    if b.free then
      (link (freeTurn a (binderAllocBufferSize a d)) d a.freeBuffers).map fun t =>
        { a with freeBuffers := rb.insertColor t }
    else none

/-- Where a search by address turns. -/
def addressTurn (a : BinderAlloc) (ptr d : ℕ) : Option Ordering :=
  match a.at? d with
  | none => none
  | some b => if b.free then none else some (compare ptr b.data)

def binderInsertAllocatedBufferLocked (rb : Rebalance ℕ) (a : BinderAlloc) (d : ℕ) :
    Option BinderAlloc :=
  match a.at? d with
  | none => none
  | some b =>
    if b.free then none
    else (link (addressTurn a d) d a.allocatedBuffers).map fun t =>
      { a with allocatedBuffers := rb.insertColor t }

/-- What `binder_alloc_prepare_to_free` returns. -/
inductive Prepared where
  | null
  | err (e : Errno)
  | buffer (d : ℕ)
  deriving DecidableEq

/-- `binder_alloc_prepare_to_free` -/
def binderAllocPrepareToFree (a : BinderAlloc) (userPtr : ℕ) : Option (Prepared × BinderAlloc) :=
  let kernPtr := (userPtr + (sizeMod - a.userBufferOffset % sizeMod)) % sizeMod
  match find (addressTurn a kernPtr) a.allocatedBuffers with
  | none => none
  | some none => some (.null, a)
  | some (some d) =>
    match a.at? d with
    | none => none
    | some b =>
      if !b.allowUserFree then some (.err .eperm, a)
      else some (.buffer d, a.setAt d fun b => { b with allowUserFree := false })

/-! ### The pages -/

/-- What fails for a page. -/
inductive PageFault where
  | allocPage
  | mapKernelRange
  | vmInsertPage
  deriving DecidableEq

/-- What the rest of the kernel answers during one operation. -/
structure Env where
  /-- `mm_users` could be raised and the `mm` is still valid. -/
  mm : Bool
  /-- `alloc->vma` when it is read under `mmap_sem`. -/
  vma : Bool
  page : ℕ → Option PageFault
  /-- `kzalloc` of the struct of the buffer that is split off -/
  newBuffer : Bool

def pageIndex (a : BinderAlloc) (pageAddr : ℕ) : ℕ := (pageAddr - a.buffer) / pageSize

/-- Some of the `n` pages from `pageAddr` on has no `page_ptr`. -/
def needMm (a : BinderAlloc) : ℕ → ℕ → Option Bool
  | 0, _ => some false
  | n + 1, pageAddr =>
    match a.pages[pageIndex a pageAddr]? with
    | none => none
    | some page => if page.pagePtr then needMm a n (pageAddr + pageSize) else some true

/-- One pass of the loop that allocates: the page and whether the loop goes on. -/
def mapPage (env : Env) (vma : Bool) (pageAddr : ℕ) (a : BinderAlloc) :
    Option (Bool × BinderAlloc) :=
  let index := pageIndex a pageAddr
  match a.pages[index]? with
  | none => none
  | some page =>
    if page.pagePtr then
      let a := a.warnOn (!page.lru)
      some (true, { a with pages := a.pages.set index ⟨true, false⟩ })
    else if !vma then some (false, a.warnOn true)
    else
      match env.page index with
      | some .allocPage => some (false, a)
      | some _ => some (false, { a with pages := a.pages.set index ⟨false, false⟩ })
      | none => some (true,
          { a with
            pages := a.pages.set index ⟨true, false⟩
            pagesHigh := max a.pagesHigh (index + 1) })

/-- The loop that allocates, and how many pages it got through. -/
def mapPages (env : Env) (vma : Bool) : ℕ → ℕ → BinderAlloc → Option (ℕ × BinderAlloc)
  | 0, _, a => some (0, a)
  | n + 1, pageAddr, a =>
    match mapPage env vma pageAddr a with
    | none => none
    | some (false, a) => some (0, a)
    | some (true, a) =>
      (mapPages env vma n (pageAddr + pageSize) a).map fun r => (r.1 + 1, r.2)

/-- The loop at `free_range`, from the last of `n` pages back to `start`. -/
def lruAddPages : ℕ → ℕ → BinderAlloc → Option BinderAlloc
  | 0, _, a => some a
  | n + 1, start, a =>
    let index := pageIndex a (start + n * pageSize)
    match a.pages[index]? with
    | none => none
    | some page =>
      let a := a.warnOn page.lru
      lruAddPages n start { a with pages := a.pages.set index { page with lru := true } }

/-- `binder_update_page_range`: pages are freed where `allocate` is `none`; the errno is `none`
for 0. -/
def binderUpdatePageRange (allocate : Option Env) (start last : ℕ) (a : BinderAlloc) :
    Option (Option Errno × BinderAlloc) :=
  if last ≤ start then some (none, a)
  else
    match allocate with
    | some env =>
      let n := (last - start + (pageSize - 1)) / pageSize
      match needMm a n start with
      | none => none
      | some need =>
        -- `mm_users` is read at `vma_vm_mm`
        if need && !a.vmaVmMm then none
        else
          let vma := need && (env.mm && env.vma)
          if !vma && need then some (some .esrch, a)
          else
            match mapPages env vma n start a with
            | none => none
            | some (done, a) =>
              if done = n then some (none, a)
              -- the loop at free_range goes on below the page that failed
              else (lruAddPages done start a).map fun a =>
                (some (if vma then .enomem else .esrch), a)
    -- nobody has set `vma` when the range is freed
    | none => (lruAddPages ((last - start) / pageSize) start a).map fun a => (some .esrch, a)

/-! ### Allocation -/

/-- The size of a request, `none` for the two answers `-EINVAL`. -/
def requestSize (dataSize offsetsSize extraBuffersSize : ℕ) : Option ℕ :=
  let dataOffsetsSize := (align dataSize + align offsetsSize) % sizeMod
  if dataOffsetsSize < dataSize ∨ dataOffsetsSize < offsetsSize then none
  else
    let size := (dataOffsetsSize + align extraBuffersSize) % sizeMod
    if size < dataOffsetsSize ∨ size < extraBuffersSize then none else some size

/-- Where the search for the best fit turns. -/
def fitTurn (a : BinderAlloc) (size d : ℕ) : Option Ordering :=
  match a.at? d with
  | none => none
  | some b => if b.free then some (compare size (binderAllocBufferSize a d)) else none

/-- The rest of a buffer of which `size` bytes are taken becomes a free buffer. -/
def splitBuffer (rb : Rebalance ℕ) (a : BinderAlloc) (d size : ℕ) : Option BinderAlloc :=
  binderInsertFreeBuffer rb
    { a with buffers := listAdd (.zeroed (d + size) true) a.buffers d } (d + size)

/-- The buffer `d` is taken for a request. -/
def takeBuffer (rb : Rebalance ℕ) (a : BinderAlloc)
    (d dataSize offsetsSize extraBuffersSize size : ℕ) (isAsync : Bool) : Option BinderAlloc :=
  let a := { a with freeBuffers := rb.erase d a.freeBuffers }
  let a := a.setAt d fun b => { b with free := false, allowUserFree := false }
  (binderInsertAllocatedBufferLocked rb a d).map fun a =>
    let a := a.setAt d fun b =>
      { b with
        dataSize := dataSize
        offsetsSize := offsetsSize
        asyncTransaction := isAsync
        extraBuffersSize := extraBuffersSize }
    if isAsync then
      { a with
        freeAsyncSpace :=
          (a.freeAsyncSpace + (sizeMod - (size + bufferStructSize) % sizeMod)) % sizeMod }
    else a

/-- `binder_alloc_new_buf_locked` from the best fit `d` on -/
def cutBuffer (rb : Rebalance ℕ) (env : Env) (a : BinderAlloc) (d : ℕ) (exact : Bool)
    (dataSize offsetsSize extraBuffersSize size : ℕ) (isAsync : Bool) :
    Option (Except Errno ℕ × BinderAlloc) :=
  let bufferSize := binderAllocBufferSize a d
  let hasPageAddr := pageMask (d + bufferSize)
  let a := a.warnOn (exact && bufferSize != size)
  let endPageAddr := min (pageAlign (d + size)) hasPageAddr
  match binderUpdatePageRange (some env) (pageAlign d) endPageAddr a with
  | none => none
  | some (some ret, a) => some (.error ret, a)
  | some (none, a) =>
    if bufferSize = size then
      (takeBuffer rb a d dataSize offsetsSize extraBuffersSize size isAsync).map fun a => (.ok d, a)
    else if env.newBuffer then
      match splitBuffer rb a d size with
      | none => none
      | some a =>
        (takeBuffer rb a d dataSize offsetsSize extraBuffersSize size isAsync).map fun a =>
          (.ok d, a)
    else
      (binderUpdatePageRange none (pageAlign d) endPageAddr a).map fun r =>
        (.error .enomem, r.2)

/-- `binder_alloc_new_buf` -/
def binderAllocNewBuf (rb : Rebalance ℕ) (env : Env) (a : BinderAlloc)
    (dataSize offsetsSize extraBuffersSize : ℕ) (isAsync : Bool) :
    Option (Except Errno ℕ × BinderAlloc) :=
  if !a.vma then some (.error .esrch, a)
  else
    match requestSize dataSize offsetsSize extraBuffersSize with
    | none => some (.error .einval, a)
    | some size =>
      if isAsync ∧ a.freeAsyncSpace < (size + bufferStructSize) % sizeMod then
        some (.error .enospc, a)
      else
        -- 0-size buffers are padded so that they get addresses of their own
        let size := max size wordSize
        match bestFit (fitTurn a size) a.freeBuffers none with
        | none => none
        | some (none, _) => some (.error .enospc, a)
        | some (some d, exact) =>
          cutBuffer rb env a d exact dataSize offsetsSize extraBuffersSize size isAsync

/-! ### Freeing -/

def bufferStartPage (b : BinderBuffer) : ℕ := pageMask b.data

/-- The page in which the buffer before `b` ends. -/
def prevBufferEndPage (b : BinderBuffer) : ℕ := pageMask (b.data - 1)

def binderDeleteFreeBuffer (a : BinderAlloc) (d : ℕ) : Option BinderAlloc :=
  match a.at? d, binderBufferPrev a.buffers d with
  | some b, some prev =>
    if prev.free then
      let next := binderBufferNext a.buffers d
      let toFree := prevBufferEndPage prev != bufferStartPage b &&
        (next.all fun n => bufferStartPage n != bufferStartPage b) && b.data % pageSize != 0
      let a? :=
        if toFree then
          (binderUpdatePageRange none (bufferStartPage b) (bufferStartPage b + pageSize) a).map
            Prod.snd
        else some a
      a?.map fun a => { a with buffers := listDel a.buffers d }
    else none
  | _, _ => none

/-- The part of `binder_free_buf_locked` that merges the next buffer into the freed one. -/
def mergeNext (rb : Rebalance ℕ) (a : BinderAlloc) (d : ℕ) : Option BinderAlloc :=
  match binderBufferNext a.buffers d with
  | some next =>
    if next.free then
      binderDeleteFreeBuffer { a with freeBuffers := rb.erase next.data a.freeBuffers } next.data
    else some a
  | none => some a

/-- The part that merges the freed buffer into the previous one, and the insertion of what is
free then. -/
def mergePrev (rb : Rebalance ℕ) (a : BinderAlloc) (d : ℕ) : Option BinderAlloc :=
  match binderBufferPrev a.buffers d with
  | some prev =>
    if prev.free then
      match binderDeleteFreeBuffer a d with
      | none => none
      | some a => binderInsertFreeBuffer rb
          { a with freeBuffers := rb.erase prev.data a.freeBuffers } prev.data
    else binderInsertFreeBuffer rb a d
  | none => binderInsertFreeBuffer rb a d

/-- The size that `binder_free_buf_locked` computes from the request. -/
def freedSize (b : BinderBuffer) : ℕ :=
  (align b.dataSize + align b.offsetsSize + align b.extraBuffersSize) % sizeMod

/-- `binder_alloc_free_buf` -/
def binderAllocFreeBuf (rb : Rebalance ℕ) (a : BinderAlloc) (d : ℕ) : Option BinderAlloc :=
  match a.at? d with
  | none => none
  | some b =>
    let bufferSize := binderAllocBufferSize a d
    let size := freedSize b
    if b.free ∨ bufferSize < size ∨ b.transaction ∨ b.data < a.buffer ∨ a.top < b.data then none
    else
      let a :=
        if b.asyncTransaction then
          { a with freeAsyncSpace := (a.freeAsyncSpace + (size + bufferStructSize)) % sizeMod }
        else a
      match binderUpdatePageRange none (pageAlign b.data) (pageMask (b.data + bufferSize)) a with
      | none => none
      | some (_, a) =>
        let a := { a with allocatedBuffers := rb.erase d a.allocatedBuffers }
        let a := a.setAt d fun b => { b with free := true }
        match mergeNext rb a d with
        | none => none
        | some a => mergePrev rb a d

/-! ### The mapping and its end -/

/-- `binder_alloc_init` of an allocator that `kzalloc` has cleared -/
def binderAllocInit : BinderAlloc := ⟨false, false, 0, 0, [], .nil, .nil, 0, [], 0, 0, 0⟩

/-- What `binder_alloc_mmap_handler` gets from the kernel. -/
structure MmapEnv where
  /-- The address of the area of `get_vm_area`. -/
  area : Option ℕ
  pages : Bool
  buffer : Bool

/-- `binder_alloc_mmap_handler` up to `alloc->vma = vma` -/
def binderAllocMmapHandler (rb : Rebalance ℕ) (env : MmapEnv) (a : BinderAlloc)
    (vmStart vmEnd : ℕ) : Option (Option Errno × BinderAlloc) :=
  if a.buffer ≠ 0 then some (some .ebusy, a)
  else
    match env.area with
    | none => some (some .enomem, a)
    | some addr =>
      let a := { a with
        buffer := addr
        userBufferOffset := (vmStart + (sizeMod - addr % sizeMod)) % sizeMod }
      if !env.pages then some (some .enomem, { a with pages := [], buffer := 0 })
      else
        let a := { a with
          pages := List.replicate ((vmEnd - vmStart) / pageSize) ⟨false, false⟩
          bufferSize := vmEnd - vmStart }
        if !env.buffer then some (some .enomem, { a with pages := [], buffer := 0 })
        else
          let a := { a with buffers := .zeroed a.buffer true :: a.buffers }
          (binderInsertFreeBuffer rb a a.buffer).map fun a =>
            (none, { a with freeAsyncSpace := a.bufferSize / 2, vma := true })

/-- `alloc->vma_vm_mm = vma->vm_mm`, the end of `binder_alloc_mmap_handler` -/
def setVmaVmMm (a : BinderAlloc) : BinderAlloc := { a with vmaVmMm := true }

/-- `binder_alloc_vma_close` -/
def binderAllocVmaClose (a : BinderAlloc) : BinderAlloc := { a with vma := false }

/-- `binder_alloc_free_page`, for a page of the list that the shrinker walks; it gives up where it
does not get the mutex, or `mm_users` and `mmap_sem` (`mm`). -/
def binderAllocFreePage (mutex mm : Bool) (index : ℕ) (a : BinderAlloc) : Option BinderAlloc :=
  match a.pages[index]? with
  | none => none
  | some page =>
    if !mutex || !page.pagePtr then some a
    else if !a.vmaVmMm then none
    else if !mm then some a
    else some { a with pages := a.pages.set index ⟨false, false⟩ }

/-- The loop of `binder_alloc_deferred_release` over the allocated buffers; its `BUG_ON` on the
transaction of a buffer is one of `binder_free_buf_locked` as well. -/
def releaseBuffers (rb : Rebalance ℕ) : ℕ → BinderAlloc → Option BinderAlloc
  | 0, a => some a
  | n + 1, a =>
    match first a.allocatedBuffers with
    | none => some a
    | some d =>
      match binderAllocFreeBuf rb a d with
      | none => none
      | some a => releaseBuffers rb n a

/-- The loop that empties the list of buffers: each must be free, and the last one. -/
def dropBuffers : List BinderBuffer → BinderAlloc → BinderAlloc
  | [], a => { a with buffers := [] }
  | b :: rest, a => dropBuffers rest ((a.warnOn (!b.free)).warnOn (!rest.isEmpty))

/-- `binder_alloc_deferred_release`, with the number of pages it frees; there is no more allocated
buffer than buffers. -/
def binderAllocDeferredRelease (rb : Rebalance ℕ) (a : BinderAlloc) : Option (ℕ × BinderAlloc) :=
  if a.vma then none
  else
    (releaseBuffers rb a.buffers.length a).map fun a =>
      let a := dropBuffers a.buffers a
      ((a.pages.filter BinderLruPage.pagePtr).length, { a with pages := [] })

/-- `binder_alloc_get_allocated_count` -/
def binderAllocGetAllocatedCount (a : BinderAlloc) : ℕ := (inorder a.allocatedBuffers).length

/-- The loop of `binder_alloc_print_pages` over `n` pages from `i` on: active, lru, free -/
def countPages (pages : List BinderLruPage) : ℕ → ℕ → ℕ × ℕ × ℕ → Option (ℕ × ℕ × ℕ)
  | 0, _, r => some r
  | n + 1, i, (active, lru, free) =>
    match pages[i]? with
    | none => none
    | some page =>
      if !page.pagePtr then countPages pages n (i + 1) (active, lru, free + 1)
      else if !page.lru then countPages pages n (i + 1) (active + 1, lru, free)
      else countPages pages n (i + 1) (active, lru + 1, free)

/-- `binder_alloc_print_pages` -/
def binderAllocPrintPages (a : BinderAlloc) : Option (ℕ × ℕ × ℕ) :=
  countPages a.pages (a.bufferSize / pageSize) 0 (0, 0, 0)

end HeadlessAndroid.Binder
