import HeadlessAndroid.BinderNode
import HeadlessAndroid.Lib.KeyedTree
import HeadlessAndroid.Lib.StepSystem
import HeadlessAndroid.Lib.Tally

/-!
# HeadlessAndroid.BinderRefs — nodes and references of all processes, from binder.c

A process knows the nodes of others by handles; a handle is a reference (`binder_ref`), which the
process finds by its number or by its node.  What is done under one lock is one step.  A thread that
holds the outer lock of a process may let go of the lock of a node in between, so the process says
what the holder still does (`Locked`); what a thread does with no lock held is a `Job`, and the steps
of all jobs interleave as they like.  Nodes, references, processes and jobs have names that are never
used twice; `none` is a `BUG_ON` or an access to what has been freed.
-/

namespace HeadlessAndroid.BinderNodes

open Lib Lib.SearchTree

/-- `++` of an `int`, as an unsigned number: nobody checks that it stays below its width. -/
def intInc (count : ℕ) : ℕ := (count + 1) % 2 ^ 32

structure BinderRef where
  desc : ℕ
  /-- An `int`, which wraps (`intInc`); the source asks only whether it is zero. -/
  strong : ℕ
  weak : ℕ
  proc : ℕ
  node : ℕ
  deriving DecidableEq

namespace BinderRef

variable (ref : BinderRef) (strong : Bool)

/-- One more count. -/
def raise : BinderRef :=
  if strong then { ref with strong := intInc ref.strong } else { ref with weak := intInc ref.weak }

/-- The strong count is zero again, which the node is not told. -/
def wraps : Bool := strong && intInc ref.strong == 0

/-- No count is left. -/
def idle : Bool := ref.strong == 0 && ref.weak == 0

end BinderRef

/-- What the holder of `outer_lock` does next; `job` is the transaction that holds it, none for a thread
of the process itself. -/
inductive Locked where
  /-- `binder_inc_ref_olocked` -/
  | inc (r : ℕ) (strong : Bool) (targetList : Option Todo) (job : Option ℕ)
  /-- `binder_cleanup_ref_olocked` -/
  | cleanup (r : ℕ) (job : Option ℕ)
  deriving DecidableEq

def Locked.job : Locked → Option ℕ
  | .inc _ _ _ job => job
  | .cleanup _ job => job

/-- How far `binder_deferred_release` has come. -/
inductive Phase where
  | running
  | threads
  | nodes
  /-- The node has been taken out of the tree. -/
  | node (n : ℕ)
  | refs
  | done
  deriving DecidableEq

structure BinderProc where
  nodes : BinaryTree ℕ
  refsByDesc : BinaryTree ℕ
  refsByNode : BinaryTree ℕ
  tmpRef : ℕ
  phase : Phase
  outerLock : Option Locked
  /-- What its threads have been told of its nodes (by `ptr`), the last thing last; none once a read has
  failed, since the process then does not get what was written. -/
  told : Option (List (ℕ × Notice))

namespace BinderProc

def init : BinderProc := ⟨.nil, .nil, .nil, 0, .running, none, some []⟩

/-- `proc->is_dead` -/
def isDead (P : BinderProc) : Bool := P.phase != .running

/-- `RB_EMPTY_ROOT(&proc->threads)` is false. -/
def hasThreads (P : BinderProc) : Bool := P.phase == .running || P.phase == .threads

/-- The notices of the node at `ptr` are written. -/
def tell (P : BinderProc) (ptr : ℕ) (cs : List Notice) : BinderProc :=
  { P with told := P.told.map (· ++ cs.map fun c => (ptr, c)) }

/-- A read fails with `EFAULT`. -/
def fault (P : BinderProc) : BinderProc := { P with told := none }

/-- What the process takes the object at `ptr` to be known as, while it has got all notices. -/
def view (P : BinderProc) (ptr : ℕ) : Option (Option (Bool × Bool)) :=
  P.told.map fun told => viewOf told ptr

end BinderProc

/-- An object in a buffer, as the target process sees it. -/
inductive Object where
  | binder (ptr : ℕ) (strong : Bool)
  | handle (desc : ℕ) (strong : Bool)
  deriving DecidableEq

/-- A transaction and its buffer. -/
structure Txn where
  toProc : ℕ
  /-- Null for a reply. -/
  targetNode : Option ℕ
  /-- The objects that are translated. -/
  objects : List Object

/-- What the thread that takes a buffer apart still has to give back. -/
structure Held where
  /-- The process of the thread. -/
  proc : ℕ
  /-- The local strong reference of the buffer on its target node. -/
  strong : Bool
  /-- The temporary references of `binder_transaction` on the target node, -/
  tmp : Bool
  /-- and on the target process. -/
  tmpProc : Bool

inductive Job where
  /-- `binder_put_node` comes next. -/
  | putNode (n : ℕ)
  /-- `binder_proc_dec_tmpref` comes next. -/
  | putProc (p : ℕ)
  /-- `BC_INCREFS_DONE` or `BC_ACQUIRE_DONE` has found the node. -/
  | done (p n : ℕ) (strong : Bool)
  /-- `binder_transaction` between two objects -/
  | send (p : ℕ) (t : Txn)
  /-- It has the node of the next object, which it was given as a handle or not. -/
  | translate (p : ℕ) (t : Txn) (n : ℕ) (strong fromHandle : Bool)
  /-- It is under the outer lock of the target process. -/
  | await (p : ℕ) (t : Txn) (n : ℕ) (strong fromHandle : Bool)
  /-- A buffer that the target process has been given. -/
  | buffer (t : Txn)
  /-- `binder_transaction_buffer_release` between two objects, and what follows it -/
  | release (h : Held) (t : Txn)
  /-- It has found the node of the next object. -/
  | unbind (h : Held) (t : Txn) (n : ℕ)
  /-- It is under the outer lock of the target process. -/
  | clean (h : Held) (t : Txn)

structure Driver where
  nodes : Slots BinderNode
  refs : Slots BinderRef
  procs : Slots BinderProc
  contextMgrNode : Option ℕ
  jobs : Slots Job
  /-- A `BUG_ON` or `WARN_ON`, or an access to a node, a reference or a process that is freed. -/
  crashed : Bool
  /-- `binder_node_release` has locked the process of a reference after it was freed. -/
  stale : Bool
  /-- How many increments have left a reference without a count (because they failed, or wrapped) to
  a process that had given up its references. -/
  lateFailures : ℕ
  /-- How many local references of buffers have been given back to nodes that were dead by then. -/
  lateDrops : ℕ
  /-- How many nodes were on the list of a thread that went. -/
  lostWork : ℕ

namespace Driver

def init : Driver := ⟨[], [], [], none, [], false, false, 0, 0, 0⟩

variable (d : Driver)

def after {α : Type} (r : Option α) (k : α → Driver) : Driver :=
  match r with
  | none => { d with crashed := true }
  | some x => k x

def setNode (n : ℕ) (node : BinderNode) : Driver := { d with nodes := d.nodes.put n (some node) }

def dropNode (n : ℕ) : Driver := { d with nodes := d.nodes.put n none }

def setRef (r : ℕ) (ref : BinderRef) : Driver := { d with refs := d.refs.put r (some ref) }

def dropRef (r : ℕ) : Driver := { d with refs := d.refs.put r none }

/-- The reference has one more count, which may wrap. -/
def raiseRef (r : ℕ) (ref : BinderRef) (strong : Bool) : Option Driver :=
  (d.nodes.get ref.node).map fun node =>
    (d.setRef r (ref.raise strong)).setNode ref.node { node with
      wraps := node.wraps + (ref.wraps strong).toNat }

def setProc (p : ℕ) (P : BinderProc) : Driver := { d with procs := d.procs.put p (some P) }

def setJob (i : ℕ) (j : Job) : Driver := { d with jobs := d.jobs.put i (some j) }

def endJob (i : ℕ) : Driver := { d with jobs := d.jobs.put i none }

def spawn (j : Job) : Driver := { d with jobs := d.jobs.add j }

/-! ### The keys of the trees -/

def ptrOf (n : ℕ) : Option ℕ := (d.nodes.get n).map BinderNode.ptr

def descOf (r : ℕ) : Option ℕ := (d.refs.get r).map BinderRef.desc

def nodeOf (r : ℕ) : Option ℕ := (d.refs.get r).map BinderRef.node

/-- The process `p` is there and not dead. -/
def running (p : ℕ) : Bool := (d.procs.get p).any fun P => !P.isDead

end Driver

section Nodes

variable (rb : Rebalance ℕ) (d : Driver)

/-- A node that is to be freed leaves the tree of its process, if that is not released yet. -/
def freeNode (n : ℕ) (node : BinderNode) : Option Driver :=
  match node.proc with
  | none => some (d.dropNode n)
  | some p =>
    (d.procs.get p).map fun P => (d.setProc p { P with nodes := rb.erase n P.nodes }).dropNode n

/-- The node `n` after a function that says whether to free it. -/
def applyNode (n : ℕ) (f : BinderNode → Option (Bool × BinderNode)) : Option Driver :=
  match d.nodes.get n with
  | none => none
  | some node =>
    match f node with
    | none => none
    | some (true, node) => freeNode rb d n node
    | some (false, node) => some (d.setNode n node)

/-- `binder_dec_node` -/
def binderDecNode (n : ℕ) (strong internal : Bool) : Option Driver :=
  applyNode rb d n (binderDecNodeNilocked strong internal)

/-- `binder_put_node` -/
def binderPutNode (n : ℕ) : Option Driver := applyNode rb d n binderDecNodeTmpref

/-- `binder_inc_node_tmpref` -/
def binderIncNodeTmpref (n : ℕ) : Option Driver :=
  (d.nodes.get n).map fun node => d.setNode n { node with tmpRefs := node.tmpRefs + 1 }

/-- `binder_inc_node` -/
def binderIncNode (n : ℕ) (strong internal : Bool) (targetList : Option Todo) :
    Option (Bool × Driver) :=
  (d.nodes.get n).map fun node =>
    let r := binderIncNodeNilocked (d.contextMgrNode == some n) strong internal targetList node
    (r.1, d.setNode n r.2)

/-- `binder_get_node`: the answer is `none` where no node has the address. -/
def binderGetNode (p ptr : ℕ) : Option (Option ℕ × Driver) :=
  match d.procs.get p with
  | none => none
  | some P =>
    match find (turn d.ptrOf ptr) P.nodes with
    | none => none
    | some none => some (none, d)
    | some (some n) => (binderIncNodeTmpref d n).map fun d => (some n, d)

/-- `binder_new_node`, which finds the node if another thread was faster -/
def binderNewNode (p ptr cookie : ℕ) : Option (ℕ × Driver) :=
  match d.procs.get p with
  | none => none
  | some P =>
    match find (turn d.ptrOf ptr) P.nodes with
    | none => none
    | some (some n) => (binderIncNodeTmpref d n).map fun d => (n, d)
    | some none =>
      let n := d.nodes.length
      (link (turn d.ptrOf ptr) n P.nodes).map fun t =>
        (n, { d.setProc p { P with nodes := rb.insertColor t } with
          nodes := d.nodes.add (.fresh ptr cookie p) })

end Nodes

section Refs

variable (rb : Rebalance ℕ) (d : Driver)

/-- `binder_get_ref_olocked` -/
def binderGetRefOlocked (P : BinderProc) (desc : ℕ) (needStrongRef : Bool) : Option (Option ℕ) :=
  match find (turn d.descOf desc) P.refsByDesc with
  | none => none
  | some none => some none
  | some (some r) =>
    (d.refs.get r).map fun ref => if needStrongRef && ref.strong == 0 then none else some r

/-- The loop over the references in the order of their numbers: the first number that is free. -/
def newDesc : ℕ → List ℕ → ℕ
  | desc, [] => desc
  | desc, x :: xs => if desc < x then desc else newDesc (x + 1) xs

/-- A new reference of `binder_get_ref_for_node_olocked` goes into both trees and to the node. -/
def insertRef (p n : ℕ) : Option (ℕ × Driver) :=
  match d.procs.get p, d.nodes.get n with
  | some P, some node =>
    let r := d.refs.length
    let desc := newDesc (if d.contextMgrNode == some n then 0 else 1)
      ((inorder P.refsByDesc).filterMap d.descOf)
    match link (turn d.nodeOf n) r P.refsByNode, link (turn d.descOf desc) r P.refsByDesc with
    | some byNode, some byDesc =>
      let d := d.setProc p { P with
        refsByNode := rb.insertColor byNode
        refsByDesc := rb.insertColor byDesc }
      let d := d.setNode n { node with refs := r :: node.refs }
      some (r, { d with refs := d.refs.add ⟨desc, 0, 0, p, n⟩ })
    | _, _ => none
  | _, _ => none

/-- `binder_get_ref_for_node_olocked` with a new reference -/
def binderGetRefForNodeOlocked (p n : ℕ) : Option (ℕ × Driver) :=
  match d.procs.get p with
  | none => none
  | some P =>
    match find (turn d.nodeOf n) P.refsByNode with
    | none => none
    | some (some r) => some (r, d)
    | some none => insertRef rb d p n

/-- `binder_inc_ref_olocked`: the first count also counts at the node. -/
def binderIncRefOlocked (r : ℕ) (strong : Bool) (targetList : Option Todo) :
    Option (Bool × Driver) :=
  match d.refs.get r with
  | none => none
  | some ref =>
    if (if strong then ref.strong else ref.weak) = 0 then
      (binderIncNode d ref.node strong true targetList).bind fun x =>
        if x.1 then (x.2.raiseRef r ref strong).map fun d => (true, d) else some x
    else (d.raiseRef r ref strong).map fun d => (true, d)

/-- `binder_dec_ref_olocked` up to `binder_cleanup_ref_olocked`: whether that comes next.  A count that
is zero is left alone. -/
def binderDecRefOlocked (r : ℕ) (strong : Bool) : Option (Bool × Driver) :=
  match d.refs.get r with
  | none => none
  | some ref =>
    if strong then
      if ref.strong = 0 then some (false, d)
      else
        let d' := d.setRef r { ref with strong := ref.strong - 1 }
        (if ref.strong = 1 then binderDecNode rb d' ref.node true true else some d').map fun d =>
          (ref.strong = 1 ∧ ref.weak = 0, d)
    else if ref.weak = 0 then some (false, d)
    else
      some (ref.strong = 0 ∧ ref.weak = 1, d.setRef r { ref with weak := ref.weak - 1 })

/-- The strong count of a reference that goes leaves the node first; a node that this deletes would be
deleted twice. -/
def dropStrong (ref : BinderRef) (node : BinderNode) : Option BinderNode :=
  if ref.strong = 0 then some node
  else
    match binderDecNodeNilocked true true node with
    | some (false, node) => some node
    | _ => none

/-- `binder_cleanup_ref_olocked` and `binder_free_ref` -/
def binderCleanupRefOlocked (r : ℕ) : Option Driver :=
  match d.refs.get r with
  | none => none
  | some ref =>
    match d.procs.get ref.proc with
    | none => none
    | some P =>
      let d := d.setProc ref.proc { P with
        refsByDesc := rb.erase r P.refsByDesc
        refsByNode := rb.erase r P.refsByNode }
      applyNode rb (d.dropRef r) ref.node fun node =>
        (dropStrong ref node).bind fun node =>
          binderDecNodeNilocked false true { node with refs := node.refs.erase r }

end Refs

end HeadlessAndroid.BinderNodes
