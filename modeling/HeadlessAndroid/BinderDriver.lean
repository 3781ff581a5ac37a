import HeadlessAndroid.BinderRefs

/-!
# HeadlessAndroid.BinderDriver — the steps of binder.c that count nodes and references

The commands of the processes, the regions of `binder_transaction` and
`binder_transaction_buffer_release` between two locks, and the release of a process by the kernel's
worker.  A transaction may fail at any point for a reason that lies outside (memory, a policy, a bad
pointer), so failing is a step of its own.
-/

namespace HeadlessAndroid.BinderNodes

open Lib Lib.SearchTree

namespace Driver

variable (d : Driver)

/-- Nobody holds the outer lock of `p`. -/
def unlocked (p : ℕ) : Bool := (d.procs.get p).any fun P => P.outerLock.isNone

/-- The reference has no count, and its process `P` has given its references up. -/
def leftIdle (P : BinderProc) (r : ℕ) : Bool :=
  P.phase == .done && (d.refs.get r).any BinderRef.idle

def lock (p : ℕ) (l : Option Locked) : Driver :=
  d.after (d.procs.get p) fun P => d.setProc p { P with outerLock := l }

end Driver

/-- The process whose thread is in the driver for a job. -/
def Job.owner : Job → Option ℕ
  | .putNode _ | .putProc _ | .buffer _ => none
  | .done p _ _ | .send p _ | .translate p _ _ _ _ | .await p _ _ _ _ => some p
  | .release h _ | .unbind h _ _ | .clean h _ => some h.proc

/-- The buffers of a process that is released are not given back one by one. -/
def abandon (p : ℕ) (s : Slots Job) : Slots Job :=
  s.map fun o =>
    match o with
    | some (.buffer t) => if t.toProc = p then none else some (.buffer t)
    | o => o

section Commands

variable (rb : Rebalance ℕ) (d : Driver)

/-- `binder_ioctl_set_ctx_mgr` up to `binder_put_node` -/
def binderIoctlSetCtxMgr (p ptr cookie : ℕ) : Option Driver :=
  if !d.running p then none
  else if d.contextMgrNode.isSome then some d
  else
    some (d.after (binderNewNode rb d p ptr cookie) fun x =>
      x.2.after (x.2.nodes.get x.1) fun node =>
        { x.2.setNode x.1 node.manage with contextMgrNode := some x.1 }.spawn (.putNode x.1))

/-- `binder_inc_ref_for_node` as far as the reference; `outer_lock` is kept. -/
def lockRefForNode (p n : ℕ) (strong : Bool) (targetList : Option Todo) (job : Option ℕ) : Driver :=
  d.after (binderGetRefForNodeOlocked rb d p n) fun x =>
    x.2.lock p (some (.inc x.1 strong targetList job))

/-- `BC_INCREFS` and `BC_ACQUIRE` of the handle 0, which go to the node of the context manager. -/
def incManager (p : ℕ) (strong : Bool) : Option Driver :=
  if !d.running p || !d.unlocked p then none
  else
    match d.contextMgrNode with
    | none => none
    | some n =>
      some (d.after (d.nodes.get n) fun node =>
        if node.proc = some p then d else lockRefForNode rb d p n strong none none)

/-- `binder_dec_ref_olocked`; `outer_lock` is kept if the reference is to be cleaned up. -/
def decRef (p r : ℕ) (strong : Bool) (job : Option ℕ) : Option (Bool × Driver) :=
  (binderDecRefOlocked rb d r strong).map fun x =>
    (x.1, if x.1 then x.2.lock p (some (.cleanup r job)) else x.2)

/-- `binder_update_ref_for_handle` -/
def binderUpdateRefForHandle (p desc : ℕ) (increment strong : Bool) : Option Driver :=
  if !d.running p || !d.unlocked p then none
  else
    some (d.after (d.procs.get p) fun P =>
      d.after (binderGetRefOlocked d P desc strong) fun o =>
        match o with
        | none => d
        | some r =>
          if increment then d.after (binderIncRefOlocked d r strong none) Prod.snd
          else d.after (decRef rb d p r strong none) Prod.snd)

/-- `BC_INCREFS_DONE` and `BC_ACQUIRE_DONE` look the node up. -/
def refDone (p : ℕ) (strong : Bool) (ptr cookie : ℕ) : Option Driver :=
  if !d.running p then none
  else
    some (d.after (binderGetNode d p ptr) fun x =>
      match x.1 with
      | none => d
      | some n =>
        x.2.after (x.2.nodes.get n) fun node =>
          x.2.spawn (if cookie = node.cookie then .done p n strong else .putNode n))

/-- `WARN_ON(free_node)` -/
def finishDone (i n : ℕ) (strong : Bool) : Driver :=
  d.after (d.nodes.get n) fun node =>
    d.after (nodeDone strong node) fun o =>
      match o with
      | none => d.setJob i (.putNode n)
      | some (true, _) => { d with crashed := true }
      | some (false, node) => (d.setNode n node).setJob i (.putNode n)

/-- `binder_thread_read` comes to the work of the node; with `fault`, a `binder_put_node_cmd` fails when
the node has its new flags. -/
def binderThreadReadNode (n : ℕ) (fault : Bool) : Option Driver :=
  match d.nodes.get n with
  | none => none
  | some node =>
    match node.work with
    | none => none
    | some q =>
      if !d.running q.proc then none
      else if node.proc ≠ some q.proc then some { d with crashed := true }
      else
        let x := readNode node
        some (d.after (d.procs.get q.proc) fun P =>
          let d := d.setProc q.proc (if fault then P.fault else P.tell node.ptr x.2.2)
          if x.1 then d.after (freeNode rb d n x.2.1) id else d.setNode n x.2.1)

/-- `binder_thread_read` fails at other work, and what it has written is lost. -/
def faultRead (p : ℕ) : Option Driver :=
  if !d.running p then none
  else some (d.after (d.procs.get p) fun P => d.setProc p P.fault)

/-- `binder_release_work` for a thread that goes drops the work of the node. -/
def exitThread (n : ℕ) : Option Driver :=
  match d.nodes.get n with
  | none => none
  | some node =>
    match node.work with
    | some ⟨_, true⟩ =>
      some ({ d with lostWork := d.lostWork + 1 }.setNode n (node.withWork none))
    | _ => none

end Commands

/-! ### Building a transaction -/

section Transactions

variable (rb : Rebalance ℕ) (d : Driver)

/-- `binder_get_node_refs_for_txn`, and the check that the target is another process, which is a
`WARN_ON` for a handle of the process -/
def binderGetNodeRefsForTxn (p n : ℕ) (fromHandle : Bool) : Driver :=
  d.after (d.nodes.get n) fun node =>
    match node.proc with
    | none => d
    | some q =>
      d.after (d.procs.get q) fun Q =>
        let d := d.setNode n { node with
          localStrongRefs := node.localStrongRefs + 1
          tmpRefs := node.tmpRefs + 1 }
        let d := d.setProc q { Q with tmpRef := Q.tmpRef + 1 }
        if q = p then
          { (d.spawn (.putProc q)).spawn (.release ⟨p, true, true, false⟩ ⟨q, some n, []⟩) with
            crashed := d.crashed || fromHandle }
        else d.spawn (.send p ⟨q, some n, []⟩)

/-- `BC_TRANSACTION` looks its target up. -/
def call (p handle : ℕ) : Option Driver :=
  if !d.running p then none
  else if handle = 0 then
    match d.contextMgrNode with
    | none => some d
    | some n => some (binderGetNodeRefsForTxn d p n false)
  else if !d.unlocked p then none
  else
    some (d.after (d.procs.get p) fun P =>
      d.after (binderGetRefOlocked d P handle true) fun o =>
        match o with
        | none => d
        | some r => d.after (d.refs.get r) fun ref => binderGetNodeRefsForTxn d p ref.node true)

/-- `BC_REPLY` to a thread of `q`, which is not `p`: no process has sent itself what it could reply to. -/
def reply (p q : ℕ) : Option Driver :=
  if !d.running p || p = q then none
  else
    match d.procs.get q with
    | none => none
    | some Q =>
      if Q.hasThreads then
        some ((d.setProc q { Q with tmpRef := Q.tmpRef + 1 }).spawn (.send p ⟨q, none, []⟩))
      else none

/-- `BINDER_TYPE_BINDER`: `binder_translate_binder` as far as the node -/
def sendBinder (i p : ℕ) (t : Txn) (ptr cookie : ℕ) (strong : Bool) : Driver :=
  d.after (binderNewNode rb d p ptr cookie) fun x =>
    x.2.after (x.2.nodes.get x.1) fun node =>
      if cookie = node.cookie then x.2.setJob i (.translate p t x.1 strong false)
      else (x.2.setJob i (.release ⟨p, true, true, true⟩ t)).spawn (.putNode x.1)

/-- `BINDER_TYPE_HANDLE`: `binder_get_node_from_ref` -/
def sendHandle (i p : ℕ) (t : Txn) (handle : ℕ) (strong : Bool) : Driver :=
  d.after (d.procs.get p) fun P =>
    d.after (binderGetRefOlocked d P handle strong) fun o =>
      match o with
      | none => d.setJob i (.release ⟨p, true, true, true⟩ t)
      | some r =>
        d.after (d.refs.get r) fun ref =>
          d.after (binderIncNodeTmpref d ref.node) fun d =>
            d.setJob i (.translate p t ref.node strong true)

/-- A node of the target process becomes its own object again; for others the target gets a
reference. -/
def translate (i p : ℕ) (t : Txn) (n : ℕ) (strong fromHandle : Bool) : Option Driver :=
  match d.nodes.get n with
  | none => some { d with crashed := true }
  | some node =>
    if fromHandle && node.proc == some t.toProc then
      let x := binderIncNodeNilocked (d.contextMgrNode == some n) strong false none node
      some (((d.setNode n x.2).setJob i (.send p { t with
        objects := t.objects ++ [.binder node.ptr strong] })).spawn (.putNode n))
    else if !d.unlocked t.toProc then none
    else
      some ((lockRefForNode rb d t.toProc n strong (if fromHandle then none else some ⟨p, true⟩)
        (some i)).setJob i (.await p t n strong fromHandle))

/-- What a transaction does once its object has a reference, or has none. -/
def resume (i : ℕ) (ok : Bool) (desc : ℕ) : Driver :=
  match d.jobs.get i with
  | some (.await p t n strong _) =>
    (d.setJob i (if ok then .send p { t with objects := t.objects ++ [.handle desc strong] }
      else .release ⟨p, true, true, true⟩ t)).spawn (.putNode n)
  | some (.clean h t) => d.setJob i (.release h t)
  | _ => { d with crashed := true }

/-- The holder of the outer lock of `p` goes on and lets go of it. -/
def unlock (p : ℕ) : Option Driver :=
  match d.procs.get p with
  | none => none
  | some P =>
    match P.outerLock with
    | none => none
    | some (.inc r strong targetList job) =>
      some (d.after (d.refs.get r) fun ref =>
        d.after (binderIncRefOlocked d r strong targetList) fun x =>
          let d := x.2.lock p none
          let d := { d with lateFailures := d.lateFailures + (x.2.leftIdle P r).toNat }
          match job with
          | none => d
          | some i => resume d i x.1 ref.desc)
    | some (.cleanup r job) =>
      -- nobody sees the driver between the two
      let d := d.lock p none
      some (d.after (binderCleanupRefOlocked rb d r) fun d =>
        match job with
        | none => d
        | some i => resume d i true 0)

/-- The references that `binder_transaction` takes for itself are put back. -/
def putTargets (t : Txn) (tmp tmpProc : Bool) : Driver :=
  let d := match t.targetNode with
    | some n => if tmp then d.spawn (.putNode n) else d
    | none => d
  if tmpProc then d.spawn (.putProc t.toProc) else d

/-- The transaction is queued, unless the target is dead by now. -/
def deliver (i p : ℕ) (t : Txn) : Driver :=
  d.after (d.procs.get t.toProc) fun Q =>
    if if t.targetNode.isSome then Q.isDead else !Q.hasThreads then
      d.setJob i (.release ⟨p, true, true, true⟩ t)
    else putTargets (if Q.isDead then d.endJob i else d.setJob i (.buffer t)) t true true

/-- `binder_dec_node` for a local reference of a buffer -/
def dropLocal (n : ℕ) (strong : Bool) : Option Driver :=
  (d.nodes.get n).bind fun node =>
    let d := { d with lateDrops := d.lateDrops + node.proc.isNone.toNat }
    binderDecNode rb d n strong false

/-- `binder_transaction_buffer_release` begins with the target node. -/
def dropTarget (i : ℕ) (h : Held) (t : Txn) : Driver :=
  match t.targetNode with
  | none => d.setJob i (.release { h with strong := false } t)
  | some n =>
    d.after (dropLocal rb d n true) fun d => d.setJob i (.release { h with strong := false } t)

/-- `binder_transaction_buffer_release` goes on with the next object. -/
def dropObject (i : ℕ) (h : Held) (t : Txn) : Option Driver :=
  match t.objects with
  | [] => none
  | .binder ptr _ :: rest =>
    some (d.after (binderGetNode d t.toProc ptr) fun x =>
      match x.1 with
      | none => d.setJob i (.release h { t with objects := rest })
      | some n => x.2.setJob i (.unbind h t n))
  | .handle desc strong :: rest =>
    if !d.unlocked t.toProc then none
    else
      some (d.after (d.procs.get t.toProc) fun P =>
        d.after (binderGetRefOlocked d P desc strong) fun o =>
          match o with
          | none => d.setJob i (.release h { t with objects := rest })
          | some r =>
            d.after (decRef rb d t.toProc r strong (some i)) fun x =>
              x.2.setJob i (if x.1 then .clean h { t with objects := rest }
                else .release h { t with objects := rest }))

/-- `binder_proc_dec_tmpref` -/
def binderProcDecTmpref (p : ℕ) : Option Driver :=
  match d.procs.get p with
  | none => none
  | some P =>
    if P.tmpRef = 0 then none
    else if P.isDead && !P.hasThreads && P.tmpRef == 1 then
      some { d with procs := d.procs.put p none }
    else some (d.setProc p { P with tmpRef := P.tmpRef - 1 })

end Transactions

/-! ### The release of a process -/

section Release

variable (rb : Rebalance ℕ) (d : Driver)

/-- `binder_deferred_release` up to `proc->is_dead`, once every thread has left the driver -/
def binderDeferredRelease (p : ℕ) : Option Driver :=
  match d.procs.get p with
  | none => none
  | some P =>
    if P.isDead || d.jobs.any (fun o => o.any fun j => j.owner == some p) ||
        P.outerLock.any (fun l => l.job.isNone) then none
    else
      let mgr := d.contextMgrNode.any fun n => (d.nodes.get n).any fun node => node.proc == some p
      some { d.setProc p { P with phase := .threads, tmpRef := P.tmpRef + 1 } with
        contextMgrNode := if mgr then none else d.contextMgrNode
        jobs := abandon p d.jobs }

/-- Some reference of the node belongs to a process that is freed; a reference that is freed itself
must not be there. -/
def touchesStale : List ℕ → Option Bool
  | [] => some false
  | r :: rs =>
    match d.refs.get r with
    | none => none
    | some ref => (touchesStale rs).map fun b => (d.procs.get ref.proc).isNone || b

/-- `binder_node_release` after `rb_erase` -/
def finishNode (p n : ℕ) (P : BinderProc) : Driver :=
  d.after (d.nodes.get n) fun node =>
    d.after (binderNodeRelease node) fun o =>
      let d := d.setProc p { P with phase := .nodes }
      match o with
      | none => d.dropNode n
      | some node =>
        d.after (touchesStale d node.refs) fun b =>
          { (d.setNode n node).spawn (.putNode n) with stale := d.stale || b }

/-- One turn of the loops of `binder_deferred_release` -/
def binderDeferredStep (p : ℕ) : Option Driver :=
  match d.procs.get p with
  | none => none
  | some P =>
    match P.phase with
    | .running | .done => none
    | .threads => some (d.setProc p { P with phase := .nodes })
    | .nodes =>
      match first P.nodes with
      | none => some (d.setProc p { P with phase := .refs })
      | some n =>
        some (d.after (binderIncNodeTmpref d n) fun d =>
          d.setProc p { P with nodes := rb.erase n P.nodes, phase := .node n })
    | .node n => some (finishNode d p n P)
    | .refs =>
      if P.outerLock.isSome then none
      else
        match first P.refsByDesc with
        | none => some ((d.setProc p { P with phase := .done }).spawn (.putProc p))
        | some r => some (d.after (binderCleanupRefOlocked rb d r) id)

end Release

/-! ### The steps -/

inductive Action where
  | openProc
  | setContextMgr (p ptr cookie : ℕ)
  | incManager (p : ℕ) (strong : Bool)
  | updateRef (p desc : ℕ) (increment strong : Bool)
  | refDone (p : ℕ) (strong : Bool) (ptr cookie : ℕ)
  | readNode (n : ℕ) (fault : Bool)
  | faultRead (p : ℕ)
  | exitThread (n : ℕ)
  | call (p handle : ℕ)
  | reply (p q : ℕ)
  /-- The job goes on with the next object of its transaction, a node or a handle of the sender. -/
  | sendBinder (i ptr cookie : ℕ) (strong : Bool)
  | sendHandle (i handle : ℕ) (strong : Bool)
  /-- The transaction fails, before it has a buffer (`early`) or later. -/
  | fail (i : ℕ) (early : Bool)
  | deliver (i : ℕ)
  | freeBuffer (i : ℕ)
  /-- The job goes on in the one way it can. -/
  | proceed (i : ℕ)
  | unlock (p : ℕ)
  | releaseProc (p : ℕ)
  | releaseStep (p : ℕ)

/-- The next step of a job that has no choice. -/
def proceed (rb : Rebalance ℕ) (d : Driver) (i : ℕ) : Job → Option Driver
  | .putNode n => some (d.after (binderPutNode rb d n) fun d => d.endJob i)
  | .putProc p => some (d.after (binderProcDecTmpref d p) fun d => d.endJob i)
  | .done _ n strong => some (finishDone d i n strong)
  | .translate p t n strong fromHandle => translate rb d i p t n strong fromHandle
  | .release h t =>
    if h.strong then some (dropTarget rb d i h t)
    else if t.objects = [] then some (putTargets (d.endJob i) t h.tmp h.tmpProc)
    else dropObject rb d i h t
  | .unbind h t n =>
    match t.objects with
    | .binder _ strong :: rest =>
      some (d.after (dropLocal rb d n strong) fun d =>
        (d.setJob i (.release h { t with objects := rest })).spawn (.putNode n))
    | _ => none
  | .send _ _ | .await _ _ _ _ _ | .buffer _ | .clean _ _ => none

/-- A transaction that fails is taken apart. -/
def failTxn (d : Driver) (i : ℕ) (early : Bool) : Job → Option Driver
  | .send p t =>
    if early then
      if t.objects = [] then
        some ((d.setJob i (.release ⟨p, true, true, false⟩ t)).spawn (.putProc t.toProc))
      else none
    else some (d.setJob i (.release ⟨p, true, true, true⟩ t))
  | .translate p t n _ _ =>
    if early then none
    else some ((d.setJob i (.release ⟨p, true, true, true⟩ t)).spawn (.putNode n))
  | _ => none

/-- One step; `none` where nothing like it happens. -/
def driverStep (rb : Rebalance ℕ) (d : Driver) (a : Action) : Option Driver :=
  if d.crashed then none
  else
    match a with
    | .openProc => some { d with procs := d.procs.add .init }
    | .setContextMgr p ptr cookie => binderIoctlSetCtxMgr rb d p ptr cookie
    | .incManager p strong => incManager rb d p strong
    | .updateRef p desc increment strong => binderUpdateRefForHandle rb d p desc increment strong
    | .refDone p strong ptr cookie => refDone d p strong ptr cookie
    | .readNode n fault => binderThreadReadNode rb d n fault
    | .faultRead p => faultRead d p
    | .exitThread n => exitThread d n
    | .call p handle => call d p handle
    | .reply p q => reply d p q
    | .sendBinder i ptr cookie strong =>
      match d.jobs.get i with
      | some (.send p t) => some (sendBinder rb d i p t ptr cookie strong)
      | _ => none
    | .sendHandle i handle strong =>
      match d.jobs.get i with
      | some (.send p t) => if d.unlocked p then some (sendHandle d i p t handle strong) else none
      | _ => none
    | .fail i early => (d.jobs.get i).bind (failTxn d i early)
    | .deliver i =>
      match d.jobs.get i with
      | some (.send p t) => some (deliver d i p t)
      | _ => none
    | .freeBuffer i =>
      match d.jobs.get i with
      | some (.buffer t) =>
        if d.running t.toProc then
          some (d.setJob i (.release ⟨t.toProc, true, false, false⟩ t))
        else none
      | _ => none
    | .proceed i => (d.jobs.get i).bind (proceed rb d i)
    | .unlock p => unlock rb d p
    | .releaseProc p => binderDeferredRelease d p
    | .releaseStep p => binderDeferredStep rb d p

def driverSystem (rb : Rebalance ℕ) : StepSystem Driver Action := ⟨driverStep rb⟩

end HeadlessAndroid.BinderNodes
