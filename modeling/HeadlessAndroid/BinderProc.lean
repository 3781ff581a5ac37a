import HeadlessAndroid.BinderLife
import HeadlessAndroid.Lib.RangeHeap
import HeadlessAndroid.Lib.StepSystem
import Mathlib.Data.List.Nodup
import Mathlib.Data.Nat.ModEq

/-!
# HeadlessAndroid.BinderProc — who uses the buffers of a process, from binder.c

The threads of the senders allocate, a thread of the process reads a transaction, and any thread may
send `BC_FREE_BUFFER`.  Between looking up a buffer and freeing it `BC_FREE_BUFFER` drops the mutex of
the allocator, so that is two steps, and so is a mapping, which does not take it; the steps of all
threads interleave as they like.  A buffer knows its transaction until that is over, which may be
before anybody has read it.
-/

namespace HeadlessAndroid.Binder

open Lib Lib.SearchTree Lib.Tiling

/-- `SZ_4M` -/
abbrev sz4M : ℕ := 0x400000

/-- `binder_mmap`, for the leader of the thread group or another thread and for flags that are
forbidden or not -/
def binderMmap (rb : Rebalance ℕ) (env : MmapEnv) (leader forbidden : Bool) (a : BinderAlloc)
    (vmStart vmEnd : ℕ) : Option (Option Errno × BinderAlloc) :=
  if !leader then some (some .einval, a)
  else
    let vmEnd := if sz4M < vmEnd - vmStart then vmStart + sz4M else vmEnd
    if forbidden then some (some .eperm, a)
    else binderAllocMmapHandler rb env a vmStart vmEnd

structure Proc where
  alloc : BinderAlloc
  /-- How many areas the kernel has for the mapping, each of which keeps the file open. -/
  areas : ℕ
  /-- The buffers of transactions that nobody has read yet. -/
  inFlight : List ℕ
  /-- The buffers of transactions that have been read and are not over. -/
  delivered : List ℕ
  /-- The buffers of transactions that were over before anybody had read them. -/
  unread : List ℕ
  /-- The buffers that a `BC_FREE_BUFFER` has looked up and not freed yet. -/
  freeing : List ℕ
  /-- How many buffers for async transactions without any data have been freed. -/
  emptyAsync : ℕ
  /-- A `BUG_ON` or an access to what is not there. -/
  crashed : Bool
  released : Bool

inductive Event where
  /-- `binder_mmap` as far as `alloc->vma` -/
  | mmap (env : MmapEnv) (leader forbidden : Bool) (vmStart vmEnd : ℕ)
  /-- `binder_mmap` sets `alloc->vma_vm_mm`. -/
  | mmapDone
  /-- `binder_transaction` allocates the buffer. -/
  | transact (env : Env) (dataSize offsetsSize extraBuffersSize : ℕ) (isAsync : Bool)
  /-- `binder_transaction` fails after that. -/
  | abort (d : ℕ)
  /-- `binder_thread_read` hands the transaction over. -/
  | deliver (d : ℕ)
  /-- `binder_cleanup_transaction`: the read fails with `EFAULT`, or the list that the transaction is
  on is given up. -/
  | cleanup (d : ℕ)
  /-- `binder_free_transaction` of one that has been read, or the thread that it was read by goes. -/
  | endTransaction (d : ℕ)
  /-- `BC_FREE_BUFFER` looks the buffer up. -/
  | freeBuffer (userPtr : ℕ)
  /-- `BC_FREE_BUFFER` takes the buffer from its transaction and frees it. -/
  | finishFree (d : ℕ)
  /-- `binder_shrink_scan` comes to a page of its list. -/
  | shrink (mutex mm : Bool) (index : ℕ)
  /-- `binder_vma_open`: an area is split. -/
  | vmaOpen
  /-- `binder_vma_close` of one of the areas -/
  | vmaClose
  /-- `binder_free_proc` -/
  | release

namespace Proc

def init : Proc := ⟨binderAllocInit, 0, [], [], [], [], 0, false, false⟩

variable (s : Proc)

def after {α : Type} (r : Option α) (k : α → Proc) : Proc :=
  match r with
  | none => { s with crashed := true }
  | some x => k x

/-- What freeing `d` adds to `emptyAsync`. -/
def freesEmpty (d : ℕ) : ℕ :=
  match s.alloc.at? d with
  | none => 0
  | some b => (b.asyncTransaction && freedSize b == 0).toNat

/-- The page is on the list of the shrinker. -/
def onLru (index : ℕ) : Bool :=
  match s.alloc.pages[index]? with
  | none => false
  | some page => page.lru

/-- `binder_alloc_mmap_handler` is between its last two assignments. -/
def publishing : Bool := s.alloc.buffer != 0 && !s.alloc.vmaVmMm

/-- `transaction = NULL` in the buffer at `d` -/
def detach (d : ℕ) : BinderAlloc := s.alloc.setAt d fun b => { b with transaction := false }

end Proc

/-- One step; `none` where nothing like it happens. -/
def procStep (rb : Rebalance ℕ) (s : Proc) (e : Event) : Option Proc :=
  if s.crashed || s.released then none
  else
    match e with
    | .mmap env leader forbidden vmStart vmEnd =>
      -- the kernel maps whole pages, and its area is as large
      if vmStart < vmEnd ∧ (vmEnd - vmStart) % pageSize = 0 ∧
          env.Area (min (vmEnd - vmStart) sz4M) then
        some (s.after (binderMmap rb env leader forbidden s.alloc vmStart vmEnd) fun r =>
          { s with alloc := r.2, areas := s.areas + r.1.isNone.toNat })
      else none
    | .mmapDone => if s.publishing then some { s with alloc := setVmaVmMm s.alloc } else none
    | .transact env dataSize offsetsSize extraBuffersSize isAsync =>
      some (s.after (binderAllocNewBuf rb env s.alloc dataSize offsetsSize extraBuffersSize isAsync)
        fun r =>
          match r.1 with
          | .ok d =>
            { s with
              alloc := r.2.setAt d fun b => { b with transaction := true }
              inFlight := d :: s.inFlight }
          | .error _ => { s with alloc := r.2 })
    | .abort d =>
      if d ∈ s.inFlight then
        some (s.after (binderAllocFreeBuf rb (s.detach d) d) fun a =>
          { s with
            alloc := a
            inFlight := s.inFlight.erase d
            emptyAsync := s.emptyAsync + s.freesEmpty d })
      else none
    | .deliver d =>
      if d ∈ s.inFlight then
        some { s with
          alloc := s.alloc.setAt d fun b => { b with allowUserFree := true }
          inFlight := s.inFlight.erase d
          delivered := d :: s.delivered }
      else none
    | .cleanup d =>
      if d ∈ s.inFlight then
        some { s with
          alloc := s.detach d
          inFlight := s.inFlight.erase d
          unread := d :: s.unread }
      else none
    | .endTransaction d =>
      if d ∈ s.delivered then
        some { s with alloc := s.detach d, delivered := s.delivered.erase d }
      else none
    | .freeBuffer userPtr =>
      some (s.after (binderAllocPrepareToFree s.alloc userPtr) fun r =>
        match r.1 with
        | .buffer d => { s with alloc := r.2, freeing := d :: s.freeing }
        | _ => { s with alloc := r.2 })
    | .finishFree d =>
      -- the transaction forgets the buffer, so that its end comes to nothing after this
      if d ∈ s.freeing then
        some (s.after (binderAllocFreeBuf rb (s.detach d) d) fun a =>
          { s with
            alloc := a
            delivered := s.delivered.erase d
            freeing := s.freeing.erase d
            emptyAsync := s.emptyAsync + s.freesEmpty d })
      else none
    | .shrink mutex mm index =>
      if s.onLru index then
        some (s.after (binderAllocFreePage mutex mm index s.alloc) fun a => { s with alloc := a })
      else none
    -- while an area is being mapped, `mmap_sem` keeps others from splitting or unmapping it
    | .vmaOpen =>
      if s.areas = 0 ∨ s.publishing then none else some { s with areas := s.areas + 1 }
    | .vmaClose =>
      if s.areas = 0 ∨ s.publishing then none
      else some { s with alloc := binderAllocVmaClose s.alloc, areas := s.areas - 1 }
    | .release =>
      -- the file is closed; the threads are gone, with what was on their lists and stacks
      if s.areas = 0 ∧ s.inFlight = [] ∧ s.delivered = [] ∧ s.freeing = [] then
        some (s.after (binderAllocDeferredRelease rb s.alloc) fun r =>
          { s with alloc := r.2, released := true })
      else none

def procSystem (rb : Rebalance ℕ) : StepSystem Proc Event := ⟨procStep rb⟩

/-! ### The invariant -/

/-- The addresses of the buffers that `p` holds of. -/
def addressesOf (p : BinderBuffer → Bool) (l : List (Span BinderBuffer)) : List ℕ :=
  (l.filter fun t => p t.owner).map Span.lo

/-- The user may not free it. -/
abbrev BinderBuffer.held (b : BinderBuffer) : Bool := !b.allowUserFree

section Addresses

variable {p : BinderBuffer → Bool} {l m : List (Span BinderBuffer)} {b : BinderBuffer} {lo hi : ℕ}

theorem addressesOf_append (l m : List (Span BinderBuffer)) :
    addressesOf p (l ++ m) = addressesOf p l ++ addressesOf p m := by
  simp [addressesOf]

theorem addressesOf_cons (t : Span BinderBuffer) (l : List (Span BinderBuffer)) :
    addressesOf p (t :: l) = if p t.owner then t.lo :: addressesOf p l else addressesOf p l := by
  cases h : p t.owner <;> simp [addressesOf, h]

theorem mem_addressesOf {d : ℕ} :
    d ∈ addressesOf p l ↔ ∃ t ∈ l, p t.owner = true ∧ t.lo = d := by
  simp [addressesOf, and_assoc]

theorem addressesOf_mid (h : p b = true) :
    (addressesOf p (l ++ ⟨b, lo, hi⟩ :: m)).Perm (lo :: addressesOf p (l ++ m)) := by
  rw [addressesOf_append, addressesOf_append, addressesOf_cons, if_pos h]
  exact List.perm_middle

theorem addressesOf_skip (h : p b = false) :
    addressesOf p (l ++ ⟨b, lo, hi⟩ :: m) = addressesOf p (l ++ m) := by
  rw [addressesOf_append, addressesOf_append, addressesOf_cons, if_neg (by simp [h])]

/-- A buffer that changes its face keeps its place. -/
theorem addressesOf_same (b : BinderBuffer) (t : Span BinderBuffer) (h : p b = p t.owner) :
    addressesOf p (l ++ ⟨b, t.lo, t.hi⟩ :: m) = addressesOf p (l ++ t :: m) := by
  rw [addressesOf_append, addressesOf_append, addressesOf_cons, addressesOf_cons, h]

end Addresses

/-- A process with a region.  The user may not free the buffers that are in flight or being freed, and
those that nobody has read; a transaction belongs to each buffer that is in flight or delivered. -/
structure Mapped (s : Proc) : Prop where
  wf : Wf s.alloc
  pos : 0 < s.alloc.bufferSize
  le : s.alloc.bufferSize ≤ sz4M
  held : (s.inFlight ++ (s.freeing ++ s.unread)).Perm (addressesOf BinderBuffer.held (live s.alloc))
  attached : (s.inFlight ++ s.delivered).Perm (addressesOf BinderBuffer.transaction (live s.alloc))
  area : s.alloc.vma = true → s.areas ≠ 0
  early : s.alloc.vmaVmMm = false → Fresh s.alloc

/-- A process without a region. -/
structure Bare (s : Proc) : Prop where
  alloc : Unmapped s.alloc
  areas : s.areas = 0
  inFlight : s.inFlight = []
  delivered : s.delivered = []
  unread : s.unread = []
  freeing : s.freeing = []
  emptyAsync : s.emptyAsync = 0

inductive Inv (s : Proc) : Prop
  | unmapped (h : Bare s) (hc : s.crashed = false) (hr : s.released = false)
  | mapped (h : Mapped s) (hr : s.released = false)
  | released (hw : s.alloc.warnings = 0) (hv : s.alloc.vma = false) (hb : s.alloc.buffers = [])
      (hp : s.alloc.pages = []) (hc : s.crashed = false) (hr : s.released = true)

theorem inv_init : Inv .init :=
  .unmapped ⟨⟨rfl, rfl, rfl, rfl, rfl, rfl, rfl, rfl⟩, rfl, rfl, rfl, rfl, rfl, rfl⟩ rfl rfl

/-! ### What one step does -/

theorem going_of_step {rb : Rebalance ℕ} {s s' : Proc} {e : Event}
    (h : procStep rb s e = some s') : s.crashed = false ∧ s.released = false := by
  unfold procStep at h
  split at h
  · cases h
  · rename_i hno
    simpa using hno

theorem Mapped.publishing_iff {s : Proc} (h : Mapped s) :
    s.publishing = true ↔ s.alloc.vmaVmMm = false := by
  have hpos := h.wf.pos
  simp [Proc.publishing, Nat.pos_iff_ne_zero.mp hpos]

/-- The buffer that a free or a delivery names is allocated. -/
theorem Mapped.exists_held {s : Proc} (h : Mapped s) {d : ℕ}
    (hd : d ∈ s.inFlight ++ (s.freeing ++ s.unread)) :
    ∃ t ∈ live s.alloc, t.lo = d ∧ t.owner.allowUserFree = false := by
  obtain ⟨t, ht, hno, hlo⟩ := mem_addressesOf.mp (h.held.mem_iff.mp hd)
  exact ⟨t, ht, hlo, by simpa using hno⟩

theorem Mapped.exists_attached {s : Proc} (h : Mapped s) {d : ℕ}
    (hd : d ∈ s.inFlight ++ s.delivered) :
    ∃ t ∈ live s.alloc, t.lo = d ∧ t.owner.transaction = true := by
  obtain ⟨t, ht, hyes, hlo⟩ := mem_addressesOf.mp (h.attached.mem_iff.mp hd)
  exact ⟨t, ht, hlo, hyes⟩

theorem Wf.live_unique {a : BinderAlloc} (h : Wf a) {t u : Span BinderBuffer} (ht : t ∈ live a)
    (hu : u ∈ live a) (heq : t.lo = u.lo) : t = u :=
  List.inj_on_of_nodup_map (h.live_lo.imp Nat.ne_of_lt) ht hu heq

/-- A buffer in flight has a transaction, and is not the user's to free. -/
theorem Mapped.exists_inFlight {s : Proc} (h : Mapped s) {d : ℕ} (hd : d ∈ s.inFlight) :
    ∃ t l m, live s.alloc = l ++ t :: m ∧ t.lo = d ∧ t.owner.allowUserFree = false ∧
      t.owner.transaction = true := by
  obtain ⟨t, ht, hlo, hno⟩ := h.exists_held (List.mem_append_left _ hd)
  obtain ⟨u, hu, hulo, hyes⟩ := h.exists_attached (List.mem_append_left _ hd)
  obtain rfl := h.wf.live_unique ht hu (hlo.trans hulo.symm)
  obtain ⟨l, m, hl⟩ := List.append_of_mem ht
  exact ⟨t, l, m, hl, hlo, hno, hyes⟩

/-- The events that may leave the buffers and who may free them as they are. -/
def Event.mayIdle : Event → Bool
  | .mmap .. | .transact .. | .freeBuffer _ | .shrink .. => true
  | _ => false

/-- A request that is met before `vma_vm_mm` is set. -/
def TooEarly (s : Proc) : Event → Prop
  | .transact _ ds os es isAsync => s.publishing = true ∧ Wanted s.alloc ds os es isAsync
  | _ => False

/-- The free buffer `t` is cut for a transaction. -/
structure Sent (a a' : BinderAlloc) (t : Span BinderBuffer) (ds os es size : ℕ)
    (isAsync : Bool) : Prop where
  live : ∃ l m, live a = l ++ m ∧
    Binder.live a' = l ++ ⟨(t.owner.taken ds os es isAsync).attach true, t.lo, t.lo + size⟩ :: m
  async : a'.freeAsyncSpace = asyncAfterNew a size isAsync

/-- What a step does to a process with a region, told by the allocated buffers. -/
inductive Happens (s : Proc) : Event → Proc → Prop
  | idle {e : Event} {a : BinderAlloc} (he : e.mayIdle = true) (hok : ¬ TooEarly s e) (hwf : Wf a)
      (hk : Kept s.alloc a) (hl : live a = live s.alloc)
      (ha : a.freeAsyncSpace = s.alloc.freeAsyncSpace)
      (hearly : s.alloc.vmaVmMm = false → a = s.alloc) : Happens s e { s with alloc := a }
  | mmapDone : Happens s .mmapDone { s with alloc := setVmaVmMm s.alloc }
  | crash {env : Env} {ds os es : ℕ} {isAsync : Bool}
      (h : TooEarly s (.transact env ds os es isAsync)) :
      Happens s (.transact env ds os es isAsync) { s with crashed := true }
  | transact {env : Env} {ds os es : ℕ} {isAsync : Bool} {a : BinderAlloc}
      {t : Span BinderBuffer} {sz : ℕ} (hwf : Wf a) (hk : Kept s.alloc a)
      (hmm : s.alloc.vmaVmMm = true) (hs : requestSize ds os es = some sz)
      (ha : ¬ (isAsync = true ∧ s.alloc.freeAsyncSpace < (sz + bufferStructSize) % sizeMod))
      (ht : t ∈ spans BinderBuffer.data s.alloc.buffers s.alloc.top) (hfree : t.owner.free = true)
      (hle : max sz wordSize ≤ t.hi - t.lo)
      (hbest : ∀ u ∈ spans BinderBuffer.data s.alloc.buffers s.alloc.top, u.owner.free = true →
        max sz wordSize ≤ u.hi - u.lo → t.hi - t.lo ≤ u.hi - u.lo)
      (h : Sent s.alloc a t ds os es (max sz wordSize) isAsync) :
      Happens s (.transact env ds os es isAsync)
        { s with alloc := a, inFlight := t.lo :: s.inFlight }
  | abort {a : BinderAlloc} {t : Span BinderBuffer} {l m : List (Span BinderBuffer)} (hwf : Wf a)
      (hk : Kept s.alloc a) (hd : t.lo ∈ s.inFlight) (hno : t.owner.allowUserFree = false)
      (htxn : t.owner.transaction = true) (hl : live s.alloc = l ++ t :: m) (hl' : live a = l ++ m)
      (ha : a.freeAsyncSpace = asyncAfterFree s.alloc t.owner) :
      Happens s (.abort t.lo)
        { s with
          alloc := a
          inFlight := s.inFlight.erase t.lo
          emptyAsync := s.emptyAsync + s.freesEmpty t.lo }
  | deliver {a : BinderAlloc} {t : Span BinderBuffer} {l m : List (Span BinderBuffer)} (hwf : Wf a)
      (hk : Kept s.alloc a) (hd : t.lo ∈ s.inFlight) (hno : t.owner.allowUserFree = false)
      (hl : live s.alloc = l ++ t :: m)
      (hl' : live a = l ++ ⟨t.owner.permit true, t.lo, t.hi⟩ :: m)
      (ha : a.freeAsyncSpace = s.alloc.freeAsyncSpace) :
      Happens s (.deliver t.lo)
        { s with
          alloc := a
          inFlight := s.inFlight.erase t.lo
          delivered := t.lo :: s.delivered }
  | cleanup {a : BinderAlloc} {t : Span BinderBuffer} {l m : List (Span BinderBuffer)} (hwf : Wf a)
      (hk : Kept s.alloc a) (hd : t.lo ∈ s.inFlight) (htxn : t.owner.transaction = true)
      (hl : live s.alloc = l ++ t :: m)
      (hl' : live a = l ++ ⟨t.owner.attach false, t.lo, t.hi⟩ :: m)
      (ha : a.freeAsyncSpace = s.alloc.freeAsyncSpace) :
      Happens s (.cleanup t.lo)
        { s with
          alloc := a
          inFlight := s.inFlight.erase t.lo
          unread := t.lo :: s.unread }
  | endTransaction {a : BinderAlloc} {t : Span BinderBuffer} {l m : List (Span BinderBuffer)}
      (hwf : Wf a) (hk : Kept s.alloc a) (hd : t.lo ∈ s.delivered)
      (htxn : t.owner.transaction = true) (hl : live s.alloc = l ++ t :: m)
      (hl' : live a = l ++ ⟨t.owner.attach false, t.lo, t.hi⟩ :: m)
      (ha : a.freeAsyncSpace = s.alloc.freeAsyncSpace) :
      Happens s (.endTransaction t.lo)
        { s with alloc := a, delivered := s.delivered.erase t.lo }
  | freeBuffer {userPtr : ℕ} {a : BinderAlloc} {t : Span BinderBuffer}
      {l m : List (Span BinderBuffer)} (hwf : Wf a) (hk : Kept s.alloc a)
      (hlo : t.lo = kernPtr s.alloc userPtr) (hyes : t.owner.allowUserFree = true)
      (hl : live s.alloc = l ++ t :: m)
      (hl' : live a = l ++ ⟨t.owner.permit false, t.lo, t.hi⟩ :: m)
      (ha : a.freeAsyncSpace = s.alloc.freeAsyncSpace) :
      Happens s (.freeBuffer userPtr) { s with alloc := a, freeing := t.lo :: s.freeing }
  | finishFree {a : BinderAlloc} {t : Span BinderBuffer} {l m : List (Span BinderBuffer)}
      (hwf : Wf a) (hk : Kept s.alloc a) (hd : t.lo ∈ s.freeing)
      (hno : t.owner.allowUserFree = false) (hl : live s.alloc = l ++ t :: m)
      (hl' : live a = l ++ m) (ha : a.freeAsyncSpace = asyncAfterFree s.alloc t.owner) :
      Happens s (.finishFree t.lo)
        { s with
          alloc := a
          delivered := s.delivered.erase t.lo
          freeing := s.freeing.erase t.lo
          emptyAsync := s.emptyAsync + s.freesEmpty t.lo }
  | vmaOpen : Happens s .vmaOpen { s with areas := s.areas + 1 }
  | vmaClose (h : s.publishing = false) :
      Happens s .vmaClose { s with alloc := binderAllocVmaClose s.alloc, areas := s.areas - 1 }
  | release {a : BinderAlloc} (hf : s.freeing = []) (hv : a.vma = false) (hw : a.warnings = 0)
      (hb : a.buffers = []) (hp : a.pages = []) :
      Happens s .release { s with alloc := a, released := true }

theorem Idle.happens {s : Proc} {a : BinderAlloc} {e : Event} (h : Idle s.alloc a)
    (he : e.mayIdle = true) (hok : ¬ TooEarly s e) (hwf : Wf a)
    (hearly : s.alloc.vmaVmMm = false → a = s.alloc) : Happens s e { s with alloc := a } := by
  obtain ⟨ps, n, rfl⟩ := h
  exact .idle he hok hwf ⟨rfl, rfl, rfl, rfl, rfl⟩ rfl rfl hearly

/-- What is marked or freed is one of the allocated buffers, its transaction gone. -/
theorem detach_eq (s : Proc) (d : ℕ) : s.detach d = s.alloc.setAt d fun b => b.attach false := rfl

theorem mmap_happens {rb : Rebalance ℕ} {s s' : Proc} (h : Mapped s) {env : MmapEnv}
    {leader forbidden : Bool} {vmStart vmEnd : ℕ}
    (hstep : procStep rb s (.mmap env leader forbidden vmStart vmEnd) = some s') :
    Happens s (.mmap env leader forbidden vmStart vmEnd) s' := by
  have hidle : Idle s.alloc s.alloc := ⟨s.alloc.pages, s.alloc.pagesHigh, rfl⟩
  obtain ⟨hc, hr⟩ := going_of_step hstep
  unfold procStep at hstep
  rw [if_neg (by simp [hc, hr])] at hstep
  dsimp only at hstep
  split at hstep
  · have hrun : ∃ r, binderMmap rb env leader forbidden s.alloc vmStart vmEnd =
        some (some r, s.alloc) := by
      unfold binderMmap binderAllocMmapHandler
      dsimp only
      rw [if_pos h.wf.pos.ne']
      cases leader
      · exact ⟨_, rfl⟩
      · cases forbidden
        · exact ⟨_, rfl⟩
        · exact ⟨_, rfl⟩
    obtain ⟨r, hrun⟩ := hrun
    rw [hrun] at hstep
    cases hstep
    exact hidle.happens rfl id h.wf fun _ => rfl
  · cases hstep

theorem transact_happens {rb : Rebalance ℕ} {s s' : Proc} (h : Mapped s) {env : Env}
    {ds os es : ℕ} {isAsync : Bool} (hstep : procStep rb s (.transact env ds os es isAsync) = some s') :
    Happens s (.transact env ds os es isAsync) s' := by
  have hidle : Idle s.alloc s.alloc := ⟨s.alloc.pages, s.alloc.pagesHigh, rfl⟩
  obtain ⟨hc, hr⟩ := going_of_step hstep
  unfold procStep at hstep
  rw [if_neg (by simp [hc, hr])] at hstep
  dsimp only at hstep
  cases hmm : s.alloc.vmaVmMm with
  | false =>
    have hpub := h.publishing_iff.mpr hmm
    rcases newBuf_early rb env h.wf h.pos hmm (h.early hmm) ds os es isAsync with
      ⟨hrun, hw⟩ | ⟨r, hrun, -, hno⟩
    · rw [hrun] at hstep
      cases hstep
      exact .crash ⟨hpub, hw⟩
    · rw [hrun] at hstep
      cases hstep
      exact hidle.happens rfl (fun hw => hno hw.2) h.wf fun _ => rfl
  | true =>
    have hpub : ¬ TooEarly s (.transact env ds os es isAsync) := by
      rintro ⟨hpub, -⟩
      exact absurd (hmm.symm.trans (h.publishing_iff.mp hpub)) (by simp)
    have hset : s.alloc.vmaVmMm = false → False := fun hf => by rw [hmm] at hf; cases hf
    obtain ⟨r, a, hrun, hwf, hk, hnew⟩ := newBuf_spec rb env h.wf hmm ds os es isAsync
    rw [hrun] at hstep
    cases hnew with
    | noVma => cases hstep; exact hidle.happens rfl hpub hwf fun _ => rfl
    | invalid => cases hstep; exact hidle.happens rfl hpub hwf fun _ => rfl
    | noAsync => cases hstep; exact hidle.happens rfl hpub hwf fun _ => rfl
    | noRoom => cases hstep; exact hidle.happens rfl hpub hwf fun _ => rfl
    | noPage _ _ _ _ _ hi => cases hstep; exact hi.happens rfl hpub hwf fun hf => (hset hf).elim
    | @cut sz t _ hv hs ha ht hfree hle hbest hcut =>
      cases hstep
      obtain ⟨l, m, hl, hl'⟩ := hcut.live
      obtain ⟨hwf', hl''⟩ := attach_spec hwf hl' true
      exact .transact hwf' (hk.trans ⟨rfl, rfl, rfl, rfl, rfl⟩) hmm hs ha ht hfree hle hbest
        ⟨⟨l, m, hl, hl''⟩, hcut.async⟩

theorem shrink_happens {rb : Rebalance ℕ} {s s' : Proc} (h : Mapped s) {mutex mm : Bool}
    {index : ℕ} (hstep : procStep rb s (.shrink mutex mm index) = some s') :
    Happens s (.shrink mutex mm index) s' := by
  obtain ⟨hc, hr⟩ := going_of_step hstep
  unfold procStep at hstep
  rw [if_neg (by simp [hc, hr])] at hstep
  dsimp only at hstep
  split at hstep
  · rename_i hlru
    unfold Proc.onLru at hlru
    cases hi : s.alloc.pages[index]? with
    | none => simp [hi] at hlru
    | some page =>
      have hlru : page.lru = true := by simpa [hi] using hlru
      -- a page of the list was mapped, which takes `vma_vm_mm`
      have hset : s.alloc.vmaVmMm = true := by
        by_contra hno
        have hptr := (h.early (by simpa using hno)).pages page (List.mem_of_getElem? hi)
        rw [(h.wf.active index page hi).2 hlru] at hptr
        cases hptr
      obtain ⟨ps, hrun, hwf⟩ := freePage_spec h.wf hset mutex mm hi hlru
      rw [hrun] at hstep
      cases hstep
      exact .idle rfl id hwf ⟨rfl, rfl, rfl, rfl, rfl⟩ rfl rfl fun hf => by
        rw [hset] at hf
        cases hf
  · cases hstep

theorem release_happens {rb : Rebalance ℕ} {s s' : Proc} (h : Mapped s)
    (hstep : procStep rb s .release = some s') : Happens s .release s' := by
  obtain ⟨hc, hr⟩ := going_of_step hstep
  unfold procStep at hstep
  rw [if_neg (by simp [hc, hr])] at hstep
  dsimp only at hstep
  split at hstep
  · rename_i hg
    obtain ⟨hareas, hin, hdel, hf⟩ := hg
    have hv : s.alloc.vma = false := by
      by_contra hno
      exact h.area (by simpa using hno) hareas
    have htxn : ∀ t ∈ live s.alloc, t.owner.transaction = false := by
      intro t ht
      by_contra hno
      have hmem := h.attached.mem_iff.mpr
        (mem_addressesOf.mpr ⟨t, ht, by simpa using hno, rfl⟩)
      simp [hin, hdel] at hmem
    obtain ⟨n, a, hrun, hv', hw, hb, hp⟩ := deferredRelease_spec rb h.wf h.pos hv htxn
    rw [hrun] at hstep
    cases hstep
    exact .release hf hv' hw hb hp
  · cases hstep

theorem step_happens {rb : Rebalance ℕ} {s s' : Proc} {e : Event} (h : Mapped s)
    (hstep : procStep rb s e = some s') : Happens s e s' := by
  have hidle : Idle s.alloc s.alloc := ⟨s.alloc.pages, s.alloc.pagesHigh, rfl⟩
  obtain ⟨hc, hr⟩ := going_of_step hstep
  have hproc := hstep
  unfold procStep at hstep
  rw [if_neg (by simp [hc, hr])] at hstep
  cases e with
  | mmap => exact mmap_happens h hproc
  | mmapDone =>
    dsimp only at hstep
    split at hstep
    · cases hstep
      exact .mmapDone
    · cases hstep
  | transact => exact transact_happens h hproc
  | abort d =>
    dsimp only at hstep
    split at hstep
    · rename_i hd
      obtain ⟨t, l, m, hl, rfl, hno, htxn⟩ := h.exists_inFlight hd
      obtain ⟨a, hrun, hwf, hk, hl', ha⟩ := detachFree_spec rb h.wf hl
      rw [detach_eq, hrun] at hstep
      cases hstep
      exact .abort hwf hk hd hno htxn hl hl' ha
    · cases hstep
  | deliver d =>
    dsimp only at hstep
    split at hstep
    · rename_i hd
      obtain ⟨t, l, m, hl, rfl, hno, -⟩ := h.exists_inFlight hd
      obtain ⟨hwf, hl'⟩ := permit_spec h.wf hl true
      cases hstep
      exact .deliver hwf ⟨rfl, rfl, rfl, rfl, rfl⟩ hd hno hl hl' rfl
    · cases hstep
  | cleanup d =>
    dsimp only at hstep
    split at hstep
    · rename_i hd
      obtain ⟨t, l, m, hl, rfl, -, htxn⟩ := h.exists_inFlight hd
      obtain ⟨hwf, hl'⟩ := attach_spec h.wf hl false
      cases hstep
      exact .cleanup hwf ⟨rfl, rfl, rfl, rfl, rfl⟩ hd htxn hl hl' rfl
    · cases hstep
  | endTransaction d =>
    dsimp only at hstep
    split at hstep
    · rename_i hd
      obtain ⟨t, ht, rfl, htxn⟩ := h.exists_attached (List.mem_append_right _ hd)
      obtain ⟨l, m, hl⟩ := List.append_of_mem ht
      obtain ⟨hwf, hl'⟩ := attach_spec h.wf hl false
      cases hstep
      exact .endTransaction hwf ⟨rfl, rfl, rfl, rfl, rfl⟩ hd htxn hl hl' rfl
    · cases hstep
  | freeBuffer userPtr =>
    dsimp only at hstep
    obtain ⟨r, a, hrun, hwf, hk, hprep⟩ := prepareToFree_spec h.wf userPtr
    rw [hrun] at hstep
    cases hprep with
    | null => cases hstep; exact hidle.happens rfl id hwf fun _ => rfl
    | denied => cases hstep; exact hidle.happens rfl id hwf fun _ => rfl
    | buffer hlo hyes hl hl' ha => cases hstep; exact .freeBuffer hwf hk hlo hyes hl hl' ha
  | finishFree d =>
    dsimp only at hstep
    split at hstep
    · rename_i hd
      obtain ⟨t, ht, rfl, hno⟩ :=
        h.exists_held (List.mem_append_right _ (List.mem_append_left _ hd))
      obtain ⟨l, m, hl⟩ := List.append_of_mem ht
      obtain ⟨a, hrun, hwf, hk, hl', ha⟩ := detachFree_spec rb h.wf hl
      rw [detach_eq, hrun] at hstep
      cases hstep
      exact .finishFree hwf hk hd hno hl hl' ha
    · cases hstep
  | shrink => exact shrink_happens h hproc
  | vmaOpen =>
    dsimp only at hstep
    split at hstep
    · cases hstep
    · cases hstep
      exact .vmaOpen
  | vmaClose =>
    dsimp only at hstep
    split at hstep
    · cases hstep
    · rename_i hno
      cases hstep
      exact .vmaClose (by simpa using (not_or.mp hno).2)
  | release => exact release_happens h hproc

/-! ### Every step keeps the invariant -/

/-- One of the addresses of a list is let go. -/
theorem perm_erase {h k : List ℕ} {d : ℕ} (hp : h.Perm (d :: k)) : (h.erase d).Perm k := by
  have := hp.erase d
  rwa [List.erase_cons_head] at this

/-- One of the addresses of a list moves to another. -/
theorem perm_move {h k : List ℕ} {d : ℕ} (hd : d ∈ h) : (h.erase d ++ d :: k).Perm (h ++ k) :=
  List.perm_middle.trans ((List.perm_cons_erase hd).symm.append_right k)

theorem Mapped.disjoint {s : Proc} (h : Mapped s) {d : ℕ} (hd : d ∈ s.freeing) :
    d ∉ s.inFlight := by
  have hnodup : (s.inFlight ++ (s.freeing ++ s.unread)).Nodup := by
    rw [h.held.nodup_iff]
    have hlo : ((live s.alloc).map Span.lo).Nodup := h.wf.live_lo.imp Nat.ne_of_lt
    exact hlo.sublist (List.filter_sublist.map Span.lo)
  intro hin
  exact (List.nodup_append.mp hnodup).2.2 d hin d (List.mem_append_left _ hd) rfl

/-- The parts of `Mapped` that a step on one buffer leaves alone. -/
theorem Mapped.of_kept {s s' : Proc} (h : Mapped s) (hwf : Wf s'.alloc)
    (hk : Kept s.alloc s'.alloc) (hareas : s'.areas = s.areas)
    (hheld : (s'.inFlight ++ (s'.freeing ++ s'.unread)).Perm (addressesOf BinderBuffer.held (live s'.alloc)))
    (hattached : (s'.inFlight ++ s'.delivered).Perm (addressesOf BinderBuffer.transaction (live s'.alloc)))
    (hearly : s.alloc.vmaVmMm = false → s'.alloc = s.alloc) : Mapped s' :=
  ⟨hwf, hk.bufferSize ▸ h.pos, hk.bufferSize ▸ h.le, hheld, hattached,
    fun hv => hareas ▸ h.area (hk.vma ▸ hv),
    fun hmm => hearly (hk.vmaVmMm ▸ hmm) ▸ h.early (hk.vmaVmMm ▸ hmm)⟩

/-- Where a buffer is allocated, `vma_vm_mm` is set. -/
theorem Mapped.set_of_live {s : Proc} (h : Mapped s) {t : Span BinderBuffer}
    {l m : List (Span BinderBuffer)} (hl : live s.alloc = l ++ t :: m) {a : BinderAlloc}
    (hmm : s.alloc.vmaVmMm = false) : a = s.alloc := by
  have hnil := (h.early hmm).live
  rw [hl] at hnil
  simp at hnil

/-- Nobody has the transaction of a buffer whose transaction is over. -/
theorem Mapped.unattached {s : Proc} (h : Mapped s) {l m : List (Span BinderBuffer)}
    {t : Span BinderBuffer} (hl : live s.alloc = l ++ t :: m) (htxn : t.owner.transaction = false) :
    t.lo ∉ s.inFlight ++ s.delivered := by
  intro hin
  obtain ⟨u, hu, hulo, hyes⟩ := h.exists_attached hin
  obtain rfl := h.wf.live_unique hu (by simp [hl]) hulo
  rw [htxn] at hyes
  cases hyes

theorem Happens.mapped {s s' : Proc} {e : Event} (h : Mapped s) (hh : Happens s e s')
    (he : e ≠ .release) : Mapped s' := by
  have hheld := h.held
  have hatt := h.attached
  cases hh with
  | idle _ _ hwf hk hl _ hearly =>
    exact h.of_kept hwf hk rfl (by rw [hl]; exact hheld) (by rw [hl]; exact hatt) hearly
  | mmapDone =>
    exact ⟨setVmaVmMm_spec h.wf, h.pos, h.le, hheld, hatt, h.area, fun hmm => by cases hmm⟩
  | crash => exact ⟨h.wf, h.pos, h.le, hheld, hatt, h.area, h.early⟩
  | transact hwf hk hmm _ _ _ _ _ _ hsent =>
    obtain ⟨l, m, hl, hl'⟩ := hsent.live
    refine h.of_kept hwf hk rfl ?_ ?_ fun hf => by rw [hmm] at hf; cases hf
    · rw [hl] at hheld
      dsimp only
      rw [hl']
      exact (hheld.cons _).trans (addressesOf_mid rfl).symm
    · rw [hl] at hatt
      dsimp only
      rw [hl']
      exact (hatt.cons _).trans (addressesOf_mid rfl).symm
  | abort hwf hk hd hno htxn hl hl' _ =>
    refine h.of_kept hwf hk rfl ?_ ?_ (h.set_of_live hl)
    · rw [hl] at hheld
      dsimp only
      rw [hl', ← List.erase_append_left _ hd]
      exact perm_erase (hheld.trans (addressesOf_mid (by simp [hno])))
    · rw [hl] at hatt
      dsimp only
      rw [hl', ← List.erase_append_left _ hd]
      exact perm_erase (hatt.trans (addressesOf_mid htxn))
  | @deliver _ t _ _ hwf hk hd hno hl hl' _ =>
    refine h.of_kept hwf hk rfl ?_ ?_ (h.set_of_live hl)
    · rw [hl] at hheld
      dsimp only
      rw [hl', addressesOf_skip rfl, ← List.erase_append_left _ hd]
      exact perm_erase (hheld.trans (addressesOf_mid (by simp [hno])))
    · rw [hl] at hatt
      dsimp only
      rw [hl', addressesOf_same (t.owner.permit true) t rfl]
      exact (perm_move hd).trans hatt
  | @cleanup _ t _ _ hwf hk hd htxn hl hl' _ =>
    refine h.of_kept hwf hk rfl ?_ ?_ (h.set_of_live hl)
    · rw [hl] at hheld
      dsimp only
      rw [hl', addressesOf_same (t.owner.attach false) t rfl]
      exact (List.perm_middle.append_left _).trans ((perm_move hd).trans hheld)
    · rw [hl] at hatt
      dsimp only
      rw [hl', addressesOf_skip rfl, ← List.erase_append_left _ hd]
      exact perm_erase (hatt.trans (addressesOf_mid htxn))
  | @endTransaction _ t _ _ hwf hk hd htxn hl hl' _ =>
    refine h.of_kept hwf hk rfl ?_ ?_ (h.set_of_live hl)
    · rw [hl] at hheld
      dsimp only
      rw [hl', addressesOf_same (t.owner.attach false) t rfl]
      exact hheld
    · rw [hl] at hatt
      dsimp only
      rw [hl', addressesOf_skip rfl]
      refine List.perm_append_comm.trans ?_
      rw [← List.erase_append_left _ hd]
      exact perm_erase (List.perm_append_comm.trans (hatt.trans (addressesOf_mid htxn)))
  | @freeBuffer _ _ t _ _ hwf hk _ hyes hl hl' _ =>
    refine h.of_kept hwf hk rfl ?_ ?_ (h.set_of_live hl)
    · rw [hl, addressesOf_skip (by simp [hyes])] at hheld
      dsimp only
      rw [hl']
      exact List.perm_middle.trans ((hheld.cons _).trans (addressesOf_mid rfl).symm)
    · rw [hl] at hatt
      dsimp only
      rw [hl', addressesOf_same (t.owner.permit false) t rfl]
      exact hatt
  | @finishFree _ t l m hwf hk hd hno hl hl' _ =>
    refine h.of_kept hwf hk rfl ?_ ?_ (h.set_of_live hl)
    · rw [hl] at hheld
      dsimp only
      rw [hl', ← List.erase_append_left _ hd, ← List.erase_append_right _ (h.disjoint hd)]
      exact perm_erase (hheld.trans (addressesOf_mid (by simp [hno])))
    · dsimp only
      rw [hl', ← List.erase_append_right _ (h.disjoint hd)]
      cases htxn : t.owner.transaction with
      | true =>
        rw [hl] at hatt
        exact perm_erase (hatt.trans (addressesOf_mid htxn))
      | false =>
        rw [List.erase_of_not_mem (h.unattached hl htxn)]
        rwa [hl, addressesOf_skip htxn] at hatt
  | vmaOpen => exact ⟨h.wf, h.pos, h.le, hheld, hatt, fun _ => Nat.succ_ne_zero _, h.early⟩
  | vmaClose hpub =>
    refine ⟨vmaClose_spec h.wf, h.pos, h.le, hheld, hatt,
      fun hv => absurd hv Bool.false_ne_true, fun hmm => ?_⟩
    rw [h.publishing_iff.mpr hmm] at hpub
    cases hpub
  | release => exact absurd rfl he

theorem Happens.inv {s s' : Proc} {e : Event} (h : Mapped s) (hc : s.crashed = false)
    (hr : s.released = false) (hh : Happens s e s') : Inv s' := by
  by_cases he : e = .release
  · subst he
    cases hh with
    | idle he => cases he
    | release hf hv hw hb hp => exact .released hw hv hb hp hc rfl
  · have hm := hh.mapped h he
    cases hh with
    | release => exact absurd rfl he
    | _ => exact .mapped hm hr

/-- What a step does to a process without a region. -/
inductive Starts (s : Proc) : Event → Proc → Prop
  | still {e : Event} {a : BinderAlloc} (h : Unmapped a) (hidle : e.mayIdle = true)
      (he : ∀ env vmStart vmEnd, e ≠ .mmap env true false vmStart vmEnd)
      (hb : a.bufferSize = s.alloc.bufferSize) : Starts s e { s with alloc := a }
  | failed {env : MmapEnv} {vmStart vmEnd : ℕ} {a : BinderAlloc} (h : Unmapped a)
      (he : env.complete = false) (hlt : 0 < (vmEnd - vmStart) / pageSize)
      (hb : a.bufferSize = if env.area.isSome && env.pages then min (vmEnd - vmStart) sz4M
        else s.alloc.bufferSize) :
      Starts s (.mmap env true false vmStart vmEnd) { s with alloc := a }
  | mmap {env : MmapEnv} {vmStart vmEnd : ℕ} {a : BinderAlloc} (he : env.complete = true)
      (hwf : Wf a) (hpos : 0 < a.bufferSize) (hle : a.bufferSize ≤ sz4M) (hfresh : Fresh a)
      (ha : a.freeAsyncSpace = a.bufferSize / 2) :
      Starts s (.mmap env true false vmStart vmEnd)
        { s with alloc := a, areas := s.areas + 1 }
  | release {a : BinderAlloc} (hv : a.vma = false) (hw : a.warnings = 0) (hb : a.buffers = [])
      (hp : a.pages = []) : Starts s .release { s with alloc := a, released := true }

theorem Bare.publishing {s : Proc} (h : Bare s) : s.publishing = false := by
  simp [Proc.publishing, h.alloc.buffer]

theorem step_starts {rb : Rebalance ℕ} {s s' : Proc} {e : Event} (hbare : Bare s)
    (hstep : procStep rb s e = some s') : Starts s e s' := by
  have h := hbare.alloc
  obtain ⟨hc, hr⟩ := going_of_step hstep
  unfold procStep at hstep
  rw [if_neg (by simp [hc, hr])] at hstep
  cases e with
  | mmap env leader forbidden vmStart vmEnd =>
    dsimp only at hstep
    split at hstep
    · rename_i hg
      obtain ⟨hlt, hpage, harea⟩ := hg
      unfold binderMmap at hstep
      cases leader
      · cases hstep
        exact .still h rfl (by simp) rfl
      · cases forbidden
        · -- at most 4M of what is asked for is mapped
          obtain ⟨hclamp, hlt'⟩ :
              (if sz4M < vmEnd - vmStart then vmStart + sz4M else vmEnd) - vmStart =
                min (vmEnd - vmStart) sz4M ∧
              vmStart < if sz4M < vmEnd - vmStart then vmStart + sz4M else vmEnd := by
            unfold sz4M
            split <;> omega
          have hpage' : min (vmEnd - vmStart) sz4M % pageSize = 0 := by
            unfold pageSize sz4M at *
            omega
          obtain ⟨r, a, hrun, hres⟩ := mmapHandler_spec rb h hlt' (hclamp ▸ hpage')
            (hclamp ▸ harea)
          simp only [Bool.not_true, Bool.false_eq_true, if_false] at hstep
          rw [hrun] at hstep
          rcases hres with ⟨rfl, hno, hun, hsize⟩ | ⟨rfl, hok, hwf, hfresh, hsize, hasync⟩
          · cases hstep
            rw [hclamp] at hsize
            refine .failed hun hno ?_ hsize
            unfold pageSize at *
            omega
          · cases hstep
            rw [hclamp] at hsize hasync
            exact .mmap hok hwf (by rw [hsize]; omega) (hsize ▸ min_le_right _ _) hfresh
              (by rw [hasync, hsize])
        · cases hstep
          exact .still h rfl (by simp) rfl
    · cases hstep
  | mmapDone => simp [hbare.publishing] at hstep
  | transact env ds os es isAsync =>
    dsimp only at hstep
    unfold binderAllocNewBuf at hstep
    rw [if_pos (by simp [h.vma])] at hstep
    cases hstep
    exact .still h rfl (by simp) rfl
  | abort d => simp [hbare.inFlight] at hstep
  | deliver d => simp [hbare.inFlight] at hstep
  | cleanup d => simp [hbare.inFlight] at hstep
  | endTransaction d => simp [hbare.delivered] at hstep
  | freeBuffer userPtr =>
    dsimp only at hstep
    unfold binderAllocPrepareToFree at hstep
    rw [h.allocatedBuffers] at hstep
    cases hstep
    exact .still h rfl (by simp) rfl
  | finishFree d => simp [hbare.freeing] at hstep
  | shrink mutex mm index =>
    unfold Proc.onLru at hstep
    simp [h.pages] at hstep
  | vmaOpen => simp [hbare.areas] at hstep
  | vmaClose => simp [hbare.areas] at hstep
  | release =>
    dsimp only at hstep
    rw [if_pos ⟨hbare.areas, hbare.inFlight, hbare.delivered, hbare.freeing⟩] at hstep
    obtain ⟨n, a, hrun, hv, hw, hb, hp⟩ := deferredRelease_unmapped rb h
    rw [hrun] at hstep
    cases hstep
    exact .release hv hw hb hp

theorem Starts.inv {s s' : Proc} {e : Event} (hb : Bare s) (hc : s.crashed = false)
    (hr : s.released = false) (h : Starts s e s') : Inv s' := by
  cases h with
  | still h =>
    exact .unmapped ⟨h, hb.areas, hb.inFlight, hb.delivered, hb.unread, hb.freeing, hb.emptyAsync⟩
      hc hr
  | failed h =>
    exact .unmapped ⟨h, hb.areas, hb.inFlight, hb.delivered, hb.unread, hb.freeing, hb.emptyAsync⟩
      hc hr
  | mmap _ hwf hpos hle hfresh ha =>
    refine .mapped ⟨hwf, hpos, hle, ?_, ?_, fun _ => Nat.succ_ne_zero _, fun _ => hfresh⟩ hr
    · dsimp only
      rw [hb.inFlight, hb.freeing, hb.unread, hfresh.live]
      exact List.Perm.refl []
    · dsimp only
      rw [hb.inFlight, hb.delivered, hfresh.live]
      exact List.Perm.refl []
  | release hv hw hnil hp => exact .released hw hv hnil hp hc rfl

theorem procStep_of_released {rb : Rebalance ℕ} {s : Proc} (h : s.released = true) (e : Event) :
    procStep rb s e = none := by
  unfold procStep
  rw [if_pos (by simp [h])]

theorem Inv.step {rb : Rebalance ℕ} {s s' : Proc} {e : Event} (h : Inv s)
    (hstep : procStep rb s e = some s') : Inv s' := by
  obtain ⟨hc, hr⟩ := going_of_step hstep
  cases h with
  | unmapped h => exact (step_starts h hstep).inv h hc hr
  | mapped h => exact (step_happens h hstep).inv h hc hr
  | released _ _ _ _ _ hr => rw [procStep_of_released hr] at hstep; cases hstep

/-- The invariant holds wherever a run leads to. -/
theorem inv_of_run {rb : Rebalance ℕ} {es : List Event} {s : Proc}
    (h : (procSystem rb).run .init es = some s) : Inv s :=
  StepSystem.run_inv (fun _ _ _ hI hs => hI.step hs) inv_init h

end HeadlessAndroid.Binder
