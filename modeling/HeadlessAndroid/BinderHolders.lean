import HeadlessAndroid.BinderDriver

/-!
# HeadlessAndroid.BinderHolders — who holds what in binder.c, and the invariant

A `Token` is one thing that a thread or a buffer holds and has to give back.  `Inv x T d` says that
the counts of `d` are those of the tokens `T`, whoever has them, so that a step may be looked at in
pieces: it takes the tokens of its job in hand, does one thing after another with them, and leaves
the rest to its job.  `x` is a node that is being counted down and may have nothing left that keeps it.
-/

namespace HeadlessAndroid.BinderNodes

open Lib Lib.SearchTree

inductive Token where
  /-- A temporary reference on a node. -/
  | tmp (n : ℕ)
  /-- A buffer of `p` has `n` as its target node. -/
  | target (n p : ℕ)
  /-- An object in a buffer of `p` that counts at the node with that address. -/
  | object (p ptr : ℕ) (strong : Bool)
  /-- A handle in a buffer of `p`. -/
  | handle (p desc : ℕ) (strong : Bool)
  /-- A temporary reference on a process. -/
  | proc (p : ℕ)
  /-- A thread of `p` is in the driver. -/
  | own (p : ℕ)
  /-- As long as it is there, the node is one of `p`, at the address if one is given. -/
  | bound (n p : ℕ) (ptr : Option ℕ)
  deriving DecidableEq

/-! ### What a job holds -/

namespace Txn

variable (t : Txn)

def strongTokens : Multiset Token :=
  match t.targetNode with
  | some n => {.target n t.toProc}
  | none => 0

def tmpTokens : Multiset Token :=
  match t.targetNode with
  | some n => {.tmp n}
  | none => 0

def objectToken : Object → Token
  | .binder ptr strong => .object t.toProc ptr strong
  | .handle desc strong => .handle t.toProc desc strong

def objectTokens : Multiset Token := (t.objects.map t.objectToken : List Token)

/-- What `binder_transaction` holds between two objects. -/
def sendTokens (p : ℕ) : Multiset Token :=
  .own p ::ₘ .proc t.toProc ::ₘ (t.strongTokens + t.tmpTokens + t.objectTokens)

/-- What is still to be given back. -/
def heldTokens (h : Held) : Multiset Token :=
  .own h.proc ::ₘ ((if h.tmpProc then {.proc t.toProc} else 0) +
    (if h.strong then t.strongTokens else 0) + (if h.tmp then t.tmpTokens else 0) + t.objectTokens)

/-- The address of the object that comes next. -/
def nextPtr : Option ℕ :=
  match t.objects with
  | .binder ptr _ :: _ => some ptr
  | _ => none

end Txn

def Job.tokens : Job → Multiset Token
  | .putNode n => {.tmp n}
  | .putProc p => {.proc p}
  | .done p n _ => {.own p, .tmp n, .bound n p none}
  | .send p t => t.sendTokens p
  | .translate p t n _ fromHandle | .await p t n _ fromHandle =>
    .tmp n ::ₘ ((if fromHandle then 0 else {.bound n p none}) + t.sendTokens p)
  | .buffer t => t.strongTokens + t.objectTokens
  | .release h t | .clean h t => t.heldTokens h
  | .unbind h t n => .tmp n ::ₘ .bound n t.toProc t.nextPtr ::ₘ t.heldTokens h

namespace Driver

variable (d : Driver)

def tokens : Multiset Token := Slots.total Job.tokens d.jobs

/-- How many references of the node have a strong count. -/
def strongOn (n : ℕ) : ℕ :=
  Slots.total (fun ref : BinderRef => if ref.node = n ∧ ref.strong ≠ 0 then 1 else 0) d.refs

/-- The temporary reference that `binder_deferred_release` has on the node. -/
def taken (n : ℕ) (node : BinderNode) : ℕ :=
  if (node.proc.bind d.procs.get).any fun P => P.phase == .node n then 1 else 0

/-- The context manager's node keeps a local reference of each kind. -/
def mgrCount (n : ℕ) : ℕ := if d.contextMgrNode = some n then 1 else 0

/-- Some reference of the node has a count. -/
def counted (n : ℕ) : Prop :=
  ∃ r ref, d.refs.get r = some ref ∧ ref.node = n ∧ (ref.strong ≠ 0 ∨ ref.weak ≠ 0)

theorem running_iff {d : Driver} {p : ℕ} :
    d.running p = true ↔ ∃ P, d.procs.get p = some P ∧ P.phase = .running := by
  unfold running BinderProc.isDead
  cases d.procs.get p <;> simp

end Driver

/-- `binder_deferred_release` holds the process until its last step. -/
def Phase.holds : Phase → ℕ
  | .running | .done => 0
  | .threads | .nodes | .node _ | .refs => 1

/-! ### The invariant -/

/-- The node belongs to `p`, or is dead because `p` is. -/
def Driver.Belongs (d : Driver) (node : BinderNode) (p : ℕ) : Prop :=
  node.proc = some p ∨ node.proc = none ∧ d.running p = false

/-- What a token says of the node, the process or the buffer that it is about. -/
def Token.Valid (d : Driver) : Token → Prop
  | .tmp n => (d.nodes.get n).isSome
  | .target n p => n < d.nodes.length ∧ (d.running p = true → (d.nodes.get n).isSome) ∧
    ∀ node, d.nodes.get n = some node → d.Belongs node p
  | .object p ptr _ => d.running p = true →
    ∃ n node, d.nodes.get n = some node ∧ node.proc = some p ∧ node.ptr = ptr
  | .handle _ _ _ => True
  | .proc p => (d.procs.get p).isSome
  | .own p => d.running p = true
  | .bound n p ptr => n < d.nodes.length ∧
    ∀ node, d.nodes.get n = some node → d.Belongs node p ∧ ∀ x ∈ ptr, node.ptr = x

/-- The reference has a node, which belongs to another process. -/
def Driver.Foreign (d : Driver) (ref : BinderRef) : Prop :=
  ∃ node, d.nodes.get ref.node = some node ∧ node.proc ≠ some ref.proc

/-- Nothing is left to tell, or work is queued. -/
def Due (d : Driver) (n : ℕ) (node : BinderNode) : Prop :=
  node.work = none → (node.internalStrongRefs ≠ 0 → node.hasStrongRef = true) ∧
    (d.counted n → node.hasWeakRef = true) ∧
    (node.hasStrongRef = true → node.strong = true) ∧ (node.hasWeakRef = true → node.weak = true)

/-- A node of a process that runs. -/
structure Owned (T : Multiset Token) (d : Driver) (n : ℕ) (node : BinderNode) (p : ℕ)
    (P : BinderProc) : Prop where
  strong : node.localStrongRefs = T.count (.target n p) + T.count (.object p node.ptr true) +
    node.pendingStrongRef.toNat + d.mgrCount n
  weak : node.localWeakRefs =
    T.count (.object p node.ptr false) + node.pendingWeakRef.toNat + d.mgrCount n
  strong_weak : node.hasStrongRef = true → node.hasWeakRef = true
  pending_strong : node.pendingStrongRef = true → node.hasStrongRef = true
  pending_weak : node.pendingWeakRef = true → node.hasWeakRef = true
  /-- The context manager is not told that its node is kept. -/
  told : ∀ o ∈ P.view node.ptr, ∃ v, o = some v ∧
    (d.mgrCount n = 0 → v = (node.hasWeakRef, node.hasStrongRef))
  manager : d.mgrCount n ≠ 0 → node.hasStrongRef = true
  due : d.lostWork = 0 → node.wraps = 0 → Due d n node

structure NodeOk (T : Multiset Token) (d : Driver) (n : ℕ) (node : BinderNode) : Prop where
  tmp : node.tmpRefs = T.count (.tmp n) + d.taken n node
  internal : node.internalStrongRefs = d.strongOn n + node.wraps
  nodup : node.refs.Nodup
  refs : ∀ r, r ∈ node.refs ↔ ∃ ref, d.refs.get r = some ref ∧ ref.node = n
  owner : ∀ p, node.proc = some p → ∃ P, d.procs.get p = some P ∧
    (n ∈ inorder P.nodes ∨ P.phase = .node n)
  owned : ∀ p P, node.proc = some p → d.procs.get p = some P → P.phase = .running →
    Owned T d n node p P
  dead : node.proc = none → node.work = none ∧ node.localWeakRefs ≤ 0 ∧ node.localStrongRefs ≤ 0 ∧
    (d.lateDrops = 0 → node.localWeakRefs = 0 ∧ node.localStrongRefs = 0)
  work : ∀ q, node.work = some q → node.proc = some q.proc

/-- The reference that the holder of the outer lock is at. -/
def Locked.ref : Locked → ℕ
  | .inc r _ _ _ => r
  | .cleanup r _ => r

structure LockOk (d : Driver) (p : ℕ) (P : BinderProc) (l : Locked) : Prop where
  job : l.job = none → P.phase = .running
  ref : ∃ ref, d.refs.get l.ref = some ref ∧ ref.proc = p ∧
    ∀ r j, l = .cleanup r j → ref.strong = 0 ∧ ref.weak = 0

/-- A reference of a process whose references have all been cleaned up: what it counts is in buffers
that are still being built or taken apart. -/
structure Late (T : Multiset Token) (d : Driver) (p : ℕ) (P : BinderProc) (r : ℕ) (ref : BinderRef) :
    Prop where
  strong : ref.strong ≤ T.count (.handle p ref.desc true)
  weak : ref.weak ≤ T.count (.handle p ref.desc false)
  counts : d.lateFailures = 0 →
    ref.strong ≠ 0 ∨ ref.weak ≠ 0 ∨ ∃ l, P.outerLock = some l ∧ l.ref = r

structure ProcOk (T : Multiset Token) (d : Driver) (p : ℕ) (P : BinderProc) : Prop where
  tmpRef : P.tmpRef = T.count (.proc p) + P.phase.holds
  nodes : Keyed d.ptrOf P.nodes
  mem_nodes : ∀ n ∈ inorder P.nodes, ∃ node, d.nodes.get n = some node ∧ node.proc = some p
  taken : ∀ n, P.phase = .node n →
    n ∉ inorder P.nodes ∧ ∃ node, d.nodes.get n = some node ∧ node.proc = some p
  gone : P.phase = .refs ∨ P.phase = .done → inorder P.nodes = []
  desc : Keyed d.descOf P.refsByDesc
  byNode : Keyed d.nodeOf P.refsByNode
  mem_desc : ∀ r, r ∈ inorder P.refsByDesc ↔ ∃ ref, d.refs.get r = some ref ∧ ref.proc = p
  mem_byNode : ∀ r, r ∈ inorder P.refsByNode ↔ ∃ ref, d.refs.get r = some ref ∧ ref.proc = p
  lock : ∀ l, P.outerLock = some l → LockOk d p P l
  told : P.phase = .running → ∀ ptr, (∀ n ∈ inorder P.nodes, d.ptrOf n ≠ some ptr) →
    ∀ o ∈ P.view ptr, o = some (false, false)
  late : P.phase = .done → ∀ r ref, d.refs.get r = some ref → ref.proc = p → Late T d p P r ref

structure Inv (x : Option ℕ) (T : Multiset Token) (d : Driver) : Prop where
  node : ∀ n node, d.nodes.get n = some node → NodeOk T d n node
  kept : ∀ n node, d.nodes.get n = some node → x ≠ some n → node.Kept
  ref : ∀ r ref, d.refs.get r = some ref → d.Foreign ref
  proc : ∀ p P, d.procs.get p = some P → ProcOk T d p P
  token : ∀ k ∈ T, k.Valid d
  mgr : ∀ n, d.contextMgrNode = some n →
    ∃ node p, d.nodes.get n = some node ∧ node.proc = some p ∧ d.running p = true
  live : d.lateFailures = 0 →
    d.stale = false ∧ ∀ r ref, d.refs.get r = some ref → (d.procs.get ref.proc).isSome
  crashed : d.crashed = false

/-! ### What tokens give -/

namespace Inv

variable {x : Option ℕ} {T : Multiset Token} {d : Driver}

theorem node_of_tmp (h : Inv x T d) {n : ℕ} (hn : .tmp n ∈ T) :
    ∃ node, d.nodes.get n = some node :=
  Option.isSome_iff_exists.mp (h.token _ hn)

theorem proc_of_proc (h : Inv x T d) {p : ℕ} (hp : .proc p ∈ T) :
    ∃ P, d.procs.get p = some P :=
  Option.isSome_iff_exists.mp (h.token _ hp)

/-- Two nodes of one process have different addresses while it runs. -/
theorem ptr_inj (h : Inv x T d) {n m p : ℕ} {node node' : BinderNode} {P : BinderProc}
    (hP : d.procs.get p = some P) (hr : P.phase = .running)
    (hn : d.nodes.get n = some node) (hm : d.nodes.get m = some node')
    (hnp : node.proc = some p) (hmp : node'.proc = some p) (hptr : node.ptr = node'.ptr) : n = m := by
  have hmem : ∀ k nodek, d.nodes.get k = some nodek → nodek.proc = some p → k ∈ inorder P.nodes := by
    intro k nodek hk hkp
    obtain ⟨P', hP', hin⟩ := (h.node k nodek hk).owner p hkp
    rw [hP] at hP'
    cases hP'
    rcases hin with hin | hin
    · exact hin
    · rw [hr] at hin
      cases hin
  refine (h.proc p P hP).nodes.inj (hmem n node hn hnp) (hmem m node' hm hmp) (k := node.ptr) ?_ ?_
  · simp [Driver.ptrOf, hn]
  · simp [Driver.ptrOf, hm, hptr]

end Inv

end HeadlessAndroid.BinderNodes
