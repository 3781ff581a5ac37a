import Mathlib.Data.Int.Order.Basic
import Mathlib.Tactic.SplitIfs
import Mathlib.Tactic.Tauto

/-!
# HeadlessAndroid.BinderNode — the counts of one node, from docker/android-4.4-p-binder/binder.c

A node is an object of a process that other processes may hold references to.  It counts who needs
it, and what its owner has been told of that: `BR_INCREFS` and `BR_DECREFS` for any need at all,
`BR_ACQUIRE` and `BR_RELEASE` for a strong one.  Here is what happens under the lock of the node;
`none` is a `BUG_ON`.  The counters are integers here; `counts_fit` of `BinderReach` says when the
`int`s of the source have room for them.
-/

namespace HeadlessAndroid.BinderNodes

/-- The list that `node->work` is on, of a thread of the process or of the process. -/
structure Todo where
  proc : ℕ
  thread : Bool
  deriving DecidableEq

structure BinderNode where
  ptr : ℕ
  cookie : ℕ
  /-- Null once the process is released. -/
  proc : Option ℕ
  refs : List ℕ
  internalStrongRefs : ℤ
  localWeakRefs : ℤ
  localStrongRefs : ℤ
  tmpRefs : ℤ
  hasStrongRef : Bool
  pendingStrongRef : Bool
  hasWeakRef : Bool
  pendingWeakRef : Bool
  work : Option Todo
  /-- How often one of its references has lost its strong count because an `int` has wrapped, of which
  the driver keeps no account. -/
  wraps : ℕ
  deriving DecidableEq

/-- What `binder_thread_read` tells the owner of a node. -/
inductive Notice where
  /-- `BR_INCREFS` -/
  | increfs
  /-- `BR_ACQUIRE` -/
  | acquire
  /-- `BR_RELEASE` -/
  | release
  /-- `BR_DECREFS` -/
  | decrefs
  deriving DecidableEq

namespace BinderNode

/-- `binder_init_node_ilocked`, which leaves a temporary reference to the caller -/
def fresh (ptr cookie proc : ℕ) : BinderNode :=
  ⟨ptr, cookie, some proc, [], 0, 0, 0, 1, false, false, false, false, none, 0⟩

variable (node : BinderNode)

/-- The node is taken off the list that it is on, and put on another one. -/
def withWork (work : Option Todo) : BinderNode := { node with work := work }

/-- `binder_ioctl_set_ctx_mgr` keeps the node and sets its flags, of which the owner is not told. -/
def manage : BinderNode :=
  { node with
    localWeakRefs := node.localWeakRefs + 1
    localStrongRefs := node.localStrongRefs + 1
    hasStrongRef := true
    hasWeakRef := true }

/-- `strong` of `binder_thread_read` -/
def strong : Bool := node.internalStrongRefs != 0 || node.localStrongRefs != 0

/-- `weak` of `binder_thread_read` -/
def weak : Bool :=
  !node.refs.isEmpty || node.localWeakRefs != 0 || node.tmpRefs != 0 || node.strong

/-- `proc && (node->has_strong_ref || node->has_weak_ref)` -/
def known : Bool := node.proc.isSome && (node.hasStrongRef || node.hasWeakRef)

/-- Nothing but `internal_strong_refs` is looked at when a node is deleted. -/
def refless : Bool :=
  node.refs.isEmpty && node.localStrongRefs == 0 && node.localWeakRefs == 0 && node.tmpRefs == 0

end BinderNode

/-! ### Counting up -/

/-- `binder_inc_node_nilocked`: whether it succeeds, and the node after it -/
def binderIncNodeNilocked (contextMgr strong internal : Bool) (targetList : Option Todo)
    (node : BinderNode) : Bool × BinderNode :=
  if strong then
    if internal && targetList.isNone && node.internalStrongRefs == 0 &&
        !(node.proc.isSome && contextMgr && node.hasStrongRef) then
      (false, node)
    else
      let node :=
        if internal then { node with internalStrongRefs := node.internalStrongRefs + 1 }
        else { node with localStrongRefs := node.localStrongRefs + 1 }
      let queue := !node.hasStrongRef && targetList.isSome
      (true, if queue then node.withWork targetList else node)
  else
    let node := if internal then node else { node with localWeakRefs := node.localWeakRefs + 1 }
    if !node.hasWeakRef && node.work.isNone then
      (targetList.isSome, node.withWork targetList)
    else (true, node)

/-! ### Counting down -/

/-- The first half of `binder_dec_node_nilocked`. -/
def decCount (strong internal : Bool) (node : BinderNode) : BinderNode :=
  match strong, internal with
  | true, true => { node with internalStrongRefs := node.internalStrongRefs - 1 }
  | true, false => { node with localStrongRefs := node.localStrongRefs - 1 }
  | false, true => node
  | false, false => { node with localWeakRefs := node.localWeakRefs - 1 }

/-- A count that `binder_dec_node_nilocked` waits for is not zero yet. -/
def stillCounted (strong : Bool) (node : BinderNode) : Bool :=
  if strong then node.localStrongRefs != 0 || node.internalStrongRefs != 0
  else node.localWeakRefs != 0 || node.tmpRefs != 0 || !node.refs.isEmpty

/-- `binder_dec_node_nilocked`: whether the node is to be freed, and the node after it -/
def binderDecNodeNilocked (strong internal : Bool) (node : BinderNode) :
    Option (Bool × BinderNode) :=
  let node := decCount strong internal node
  if stillCounted strong node then some (false, node)
  else if node.known then
    -- an owner that knows of the node is to be told, which leads to its end in `readNode`
    some (false, node.withWork (node.work <|> node.proc.map fun p => ⟨p, false⟩))
  else if node.refless then
    if node.proc.isSome then some (true, node.withWork none)
    else if node.work.isSome then none
    else some (true, node)
  else some (false, node)

/-- `binder_dec_node_tmpref` -/
def binderDecNodeTmpref (node : BinderNode) : Option (Bool × BinderNode) :=
  if node.tmpRefs - 1 < 0 then none
  else binderDecNodeNilocked false true { node with tmpRefs := node.tmpRefs - 1 }

/-! ### Telling the owner -/

/-- `BINDER_WORK_NODE` in `binder_thread_read`: whether the node is to be freed, the node after it
and what the owner is told -/
def readNode (node : BinderNode) : Bool × BinderNode × List Notice :=
  let strong := node.strong
  let weak := node.weak
  let hasStrongRef := node.hasStrongRef
  let hasWeakRef := node.hasWeakRef
  let node := node.withWork none
  let node :=
    if weak && !hasWeakRef then
      { node with
        hasWeakRef := true
        pendingWeakRef := true
        localWeakRefs := node.localWeakRefs + 1 }
    else node
  let node :=
    if strong && !hasStrongRef then
      { node with
        hasStrongRef := true
        pendingStrongRef := true
        localStrongRefs := node.localStrongRefs + 1 }
    else node
  let node := if !strong && hasStrongRef then { node with hasStrongRef := false } else node
  let node := if !weak && hasWeakRef then { node with hasWeakRef := false } else node
  (!weak && !strong, node,
    (if weak && !hasWeakRef then [.increfs] else []) ++
      (if strong && !hasStrongRef then [.acquire] else []) ++
      (if !strong && hasStrongRef then [.release] else []) ++
      if !weak && hasWeakRef then [.decrefs] else [])

/-- `BC_INCREFS_DONE` and `BC_ACQUIRE_DONE` under the lock of the node; nothing was asked for where
the answer is `none`. -/
def nodeDone (strong : Bool) (node : BinderNode) : Option (Option (Bool × BinderNode)) :=
  if strong then
    if node.pendingStrongRef then
      (binderDecNodeNilocked true false { node with pendingStrongRef := false }).map some
    else some none
  else if node.pendingWeakRef then
    (binderDecNodeNilocked false false { node with pendingWeakRef := false }).map some
  else some none

/-- What an owner that knew (`weak`, `strong`) of a node knows after a notice; `none` for a notice that
does not fit what it knew. -/
def learn : Bool × Bool → Notice → Option (Bool × Bool)
  | (false, false), .increfs => some (true, false)
  | (true, false), .acquire => some (true, true)
  | (true, true), .release => some (true, false)
  | (true, false), .decrefs => some (false, false)
  | _, _ => none

/-- What the notices of a process say of the node at `ptr`. -/
def viewOf (told : List (ℕ × Notice)) (ptr : ℕ) : Option (Bool × Bool) :=
  (told.filterMap fun x => if x.1 = ptr then some x.2 else none).foldlM learn (false, false)

/-! ### The end of the process -/

/-- `binder_node_release` under the locks: the node is freed (`none`) or is dead from now on. -/
def binderNodeRelease (node : BinderNode) : Option (Option BinderNode) :=
  let node := node.withWork none
  if node.tmpRefs = 0 then none
  else if node.refs.isEmpty && node.tmpRefs == 1 then some none
  else some (some { node with proc := none, localStrongRefs := 0, localWeakRefs := 0 })

/-! ### What they do -/

namespace BinderNode

@[simp] theorem withWork_self (node : BinderNode) : node.withWork node.work = node := rfl

/-- A node that nothing would delete; a strong count inside the driver keeps one that has an owner. -/
def Kept (node : BinderNode) : Prop :=
  node.known = true ∨ node.refless = false ∨ node.proc ≠ none ∧ node.internalStrongRefs ≠ 0

theorem refless_iff {node : BinderNode} : node.refless = true ↔ node.refs = [] ∧
    node.localStrongRefs = 0 ∧ node.localWeakRefs = 0 ∧ node.tmpRefs = 0 := by
  simp [refless, and_assoc]

theorem known_iff {node : BinderNode} : node.known = true ↔
    node.proc ≠ none ∧ (node.hasStrongRef = true ∨ node.hasWeakRef = true) := by
  simp [known, Option.isSome_iff_ne_none]

theorem strong_iff {node : BinderNode} :
    node.strong = true ↔ node.internalStrongRefs ≠ 0 ∨ node.localStrongRefs ≠ 0 := by
  simp [strong]

theorem weak_iff {node : BinderNode} : node.weak = true ↔
    node.refs ≠ [] ∨ node.localWeakRefs ≠ 0 ∨ node.tmpRefs ≠ 0 ∨ node.strong = true := by
  simp [weak, or_assoc]

theorem kept_of_tmpRefs {node : BinderNode} (h : node.tmpRefs ≠ 0) : node.Kept := by
  refine Or.inr (Or.inl (Bool.eq_false_iff.mpr fun hr => ?_))
  exact h (refless_iff.mp hr).2.2.2

theorem weak_of_strong {node : BinderNode} (h : node.strong = true) : node.weak = true :=
  weak_iff.mpr (Or.inr (Or.inr (Or.inr h)))

end BinderNode

open BinderNode

@[simp] theorem decCount_proc (strong internal : Bool) (node : BinderNode) :
    (decCount strong internal node).proc = node.proc := by
  cases strong <;> cases internal <;> rfl

@[simp] theorem decCount_refs (strong internal : Bool) (node : BinderNode) :
    (decCount strong internal node).refs = node.refs := by
  cases strong <;> cases internal <;> rfl

@[simp] theorem decCount_ptr (strong internal : Bool) (node : BinderNode) :
    (decCount strong internal node).ptr = node.ptr := by
  cases strong <;> cases internal <;> rfl

@[simp] theorem decCount_work (strong internal : Bool) (node : BinderNode) :
    (decCount strong internal node).work = node.work := by
  cases strong <;> cases internal <;> rfl

@[simp] theorem decCount_hasStrongRef (strong internal : Bool) (node : BinderNode) :
    (decCount strong internal node).hasStrongRef = node.hasStrongRef := by
  cases strong <;> cases internal <;> rfl

@[simp] theorem decCount_hasWeakRef (strong internal : Bool) (node : BinderNode) :
    (decCount strong internal node).hasWeakRef = node.hasWeakRef := by
  cases strong <;> cases internal <;> rfl

@[simp] theorem decCount_tmpRefs (strong internal : Bool) (node : BinderNode) :
    (decCount strong internal node).tmpRefs = node.tmpRefs := by
  cases strong <;> cases internal <;> rfl

@[simp] theorem decCount_pendingStrongRef (strong internal : Bool) (node : BinderNode) :
    (decCount strong internal node).pendingStrongRef = node.pendingStrongRef := by
  cases strong <;> cases internal <;> rfl

@[simp] theorem decCount_pendingWeakRef (strong internal : Bool) (node : BinderNode) :
    (decCount strong internal node).pendingWeakRef = node.pendingWeakRef := by
  cases strong <;> cases internal <;> rfl

@[simp] theorem decCount_wraps (strong internal : Bool) (node : BinderNode) :
    (decCount strong internal node).wraps = node.wraps := by
  cases strong <;> cases internal <;> rfl

@[simp] theorem decCount_known (strong internal : Bool) (node : BinderNode) :
    (decCount strong internal node).known = node.known := by
  cases strong <;> cases internal <;> rfl

theorem decCount_localStrongRefs (strong : Bool) (node : BinderNode) :
    (decCount strong false node).localStrongRefs = node.localStrongRefs - strong.toNat := by
  cases strong with
  | true => rfl
  | false => exact (Int.sub_zero _).symm

theorem decCount_localWeakRefs (strong : Bool) (node : BinderNode) :
    (decCount strong false node).localWeakRefs = node.localWeakRefs - (!strong).toNat := by
  cases strong with
  | true => exact (Int.sub_zero _).symm
  | false => rfl

theorem decCount_internalStrongRefs {strong internal : Bool} (h : strong = true → internal = false)
    (node : BinderNode) : (decCount strong internal node).internalStrongRefs =
      node.internalStrongRefs := by
  cases strong <;> cases internal <;> first | rfl | simp at h

theorem strong_of_stillCounted {node : BinderNode} (h : stillCounted true node = true) :
    node.strong = true := by
  rw [strong, Bool.or_comm]
  exact h

theorem weak_of_stillCounted {strong : Bool} {node : BinderNode}
    (h : stillCounted strong node = true) : node.weak = true := by
  cases strong with
  | true => exact weak_of_strong (strong_of_stillCounted h)
  | false =>
    have h : (node.localWeakRefs ≠ 0 ∨ node.tmpRefs ≠ 0) ∨ node.refs ≠ [] := by
      simpa [stillCounted] using h
    apply weak_iff.mpr
    tauto

theorem kept_of_stillCounted {strong : Bool} {node : BinderNode}
    (h : stillCounted strong node = true)
    (hdead : strong = true → node.proc = none → node.refless = false) : node.Kept := by
  by_cases hr : node.refless = true
  · obtain ⟨hrefs, hls, hlw, ht⟩ := refless_iff.mp hr
    cases strong with
    | false => simp [stillCounted, hrefs, hlw, ht] at h
    | true =>
      have hi : node.internalStrongRefs ≠ 0 := by simpa [stillCounted, hls] using h
      refine Or.inr (Or.inr ⟨fun hp => ?_, hi⟩)
      rw [hdead rfl hp] at hr
      cases hr
  · exact Or.inr (Or.inl (Bool.eq_false_iff.mpr hr))

/-- How `binder_dec_node_nilocked` goes on when the count is down: the node is freed just when nothing
counts and the owner does not know it; an owner that knows it is told once nothing counts. -/
structure Decremented (strong internal : Bool) (node : BinderNode) (free : Bool) (w : Option Todo) :
    Prop where
  work : w = node.work ∨ (∃ q, w = some q ∧ node.proc = some q.proc) ∨ free = true ∧ w = none
  freed : free = true → node.known = false ∧ (decCount strong internal node).refless = true
  left : free = false → stillCounted strong (decCount strong internal node) = true ∨
    node.known = true ∧ w.isSome = true ∨
      node.known = false ∧ (decCount strong internal node).refless = false

theorem binderDecNodeNilocked_spec (strong internal : Bool) (node : BinderNode)
    (hdead : node.proc = none → node.work = none) : ∃ free w,
    binderDecNodeNilocked strong internal node =
        some (free, (decCount strong internal node).withWork w) ∧
      Decremented strong internal node free w := by
  have hself : (decCount strong internal node).withWork node.work =
      decCount strong internal node := by
    rw [← decCount_work strong internal node, withWork_self]
  unfold binderDecNodeNilocked
  cases hs : stillCounted strong (decCount strong internal node) with
  | true =>
    refine ⟨false, node.work, ?_, Or.inl rfl, nofun, fun _ => Or.inl hs⟩
    simp only [hs, if_true, hself]
  | false =>
    cases hk : node.known with
    | true =>
      obtain ⟨p, hp⟩ := Option.ne_none_iff_exists'.mp (known_iff.mp hk).1
      refine ⟨false, node.work <|> some ⟨p, false⟩, by simp [hs, hk, hp], ?_, nofun, ?_⟩
      · cases hw : node.work with
        | none => exact Or.inr (Or.inl ⟨⟨p, false⟩, rfl, hp⟩)
        | some q => exact Or.inl rfl
      · intro _
        refine Or.inr (Or.inl ⟨hk, ?_⟩)
        cases node.work <;> rfl
    | false =>
      cases hr : (decCount strong internal node).refless with
      | false =>
        refine ⟨false, node.work, ?_, Or.inl rfl, nofun, fun _ => Or.inr (Or.inr ⟨hk, hr⟩)⟩
        simp [hs, hk, hr, hself]
      | true =>
        refine ⟨true, none, ?_, Or.inr (Or.inr ⟨rfl, rfl⟩), fun _ => ⟨hk, hr⟩, nofun⟩
        cases hp : node.proc with
        | none =>
          rw [hdead hp] at hself
          simp [hs, hk, hr, hp, hdead hp, hself]
        | some p => simp [hs, hk, hr, hp]

theorem Decremented.kept {strong internal free : Bool} {node : BinderNode} {w : Option Todo}
    (h : Decremented strong internal node free w) (hf : free = false)
    (hdead : strong = true → node.proc = none →
      (decCount strong internal node).refless = false) :
    ((decCount strong internal node).withWork w).Kept := by
  rcases h.left hf with hst | ⟨hk, -⟩ | ⟨-, hr⟩
  · exact kept_of_stillCounted hst fun hs hp => hdead hs ((decCount_proc ..).symm.trans hp)
  · exact Or.inl ((decCount_known ..).trans hk)
  · exact Or.inr (Or.inl hr)

/-- After it is read, the owner knows of a node what it needs to know. -/
theorem readNode_eq (node : BinderNode) : readNode node =
    (!node.weak,
      { node with
        hasStrongRef := node.strong
        pendingStrongRef := node.pendingStrongRef || (node.strong && !node.hasStrongRef)
        hasWeakRef := node.weak
        pendingWeakRef := node.pendingWeakRef || (node.weak && !node.hasWeakRef)
        localStrongRefs :=
          node.localStrongRefs + (node.strong && !node.hasStrongRef).toNat
        localWeakRefs := node.localWeakRefs + (node.weak && !node.hasWeakRef).toNat
        work := none },
      (readNode node).2.2) := by
  have himp : node.strong = true → node.weak = true := weak_of_strong
  unfold readNode
  cases hs : node.strong <;> cases hw : node.weak <;> cases h1 : node.hasStrongRef <;>
    cases h2 : node.hasWeakRef <;> simp_all [withWork]

theorem readNode_learn {node : BinderNode} (h : node.hasStrongRef = true → node.hasWeakRef = true) :
    (readNode node).2.2.foldlM learn (node.hasWeakRef, node.hasStrongRef) =
      some (node.weak, node.strong) := by
  have himp : node.strong = true → node.weak = true := weak_of_strong
  unfold readNode
  cases hs : node.strong <;> cases hw : node.weak <;> cases h1 : node.hasStrongRef <;>
    cases h2 : node.hasWeakRef <;> simp_all [learn]

/-- Notices of one node say nothing of another one. -/
theorem viewOf_append (told : List (ℕ × Notice)) (ptr : ℕ) (cs : List Notice) (ptr' : ℕ) :
    viewOf (told ++ cs.map fun c => (ptr, c)) ptr' =
      if ptr = ptr' then (viewOf told ptr').bind fun v => cs.foldlM learn v
      else viewOf told ptr' := by
  have hmap : (cs.map fun c => (ptr, c)).filterMap
      (fun x : ℕ × Notice => if x.1 = ptr' then some x.2 else none) =
        if ptr = ptr' then cs else [] := by
    induction cs with
    | nil => simp
    | cons c cs ih =>
      rw [List.map_cons, List.filterMap_cons, ih]
      split_ifs <;> rfl
  unfold viewOf
  rw [List.filterMap_append, hmap, List.foldlM_append]
  split_ifs with h
  · rfl
  · simp

end HeadlessAndroid.BinderNodes
