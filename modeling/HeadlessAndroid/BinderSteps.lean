import Mathlib.Tactic.Abel
import HeadlessAndroid.BinderJobs

/-!
# HeadlessAndroid.BinderSteps — the commands of the processes

Each command is a few of the pieces that the other modules prove, and ends with jobs that hold what
it has taken.
-/

namespace HeadlessAndroid.BinderNodes

open Lib Lib.SearchTree

variable {T T' : Multiset Token} {d d' : Driver} {i : Option ℕ} {k n p : ℕ} {j : Job}
  {node : BinderNode} {P : BinderProc}

/-! ### The pieces, with the tokens in hand -/

theorem Busy.cast (h : Busy i T d) (hT : T = T') : Busy i T' d := hT ▸ h

theorem Busy.valid (h : Busy i T d) {k : Token} (hk : k ∈ T) : k.Valid d :=
  h.inv.token k (Multiset.mem_add.mpr (Or.inl hk))

theorem Busy.addLoose (h : Busy i T d) {k : Token} (hk : k.Loose) (hv : k.Valid d) :
    Busy i (k ::ₘ T) d := by
  refine h.keep (h.inv.retoken (fun x hx => ?_) fun x hx _ => ?_) (Frame.refl d).apart
  · have hne : x ≠ k := fun he => hx (he ▸ hk)
    rw [Multiset.cons_add, Multiset.count_cons_of_ne hne]
  · rw [Multiset.cons_add] at hx
    rcases Multiset.mem_cons.mp hx with rfl | hx
    · exact hv
    · exact h.inv.token x hx

theorem Busy.dropLoose {k : Token} (h : Busy i (k ::ₘ T) d) (hk : k.Loose) : Busy i T d := by
  refine h.keep (h.inv.retoken (fun x hx => ?_) fun x hx _ => ?_) (Frame.refl d).apart
  · have hne : x ≠ k := fun he => hx (he ▸ hk)
    rw [Multiset.cons_add, Multiset.count_cons_of_ne hne]
  · refine h.inv.token x ?_
    rw [Multiset.cons_add]
    exact Multiset.mem_cons_of_mem hx

theorem setNode_get (hn : d.nodes.get n = some node) (node' : BinderNode) (m : ℕ) :
    (d.setNode n node').nodes.get m = if m = n then some node' else d.nodes.get m :=
  Slots.get_put hn _ m

theorem setNode_get_self (hn : d.nodes.get n = some node) (node' : BinderNode) :
    (d.setNode n node').nodes.get n = some node' := (setNode_get hn node' n).trans (if_pos rfl)

theorem incNodeTmpref_eq (hn : d.nodes.get n = some node) : binderIncNodeTmpref d n =
    some (d.setNode n { node with tmpRefs := node.tmpRefs + 1 }) := by
  rw [binderIncNodeTmpref, hn, Option.map_some]

theorem bound_valid (hn : d.nodes.get n = some node) (hp : node.proc = some p) {ptr : Option ℕ}
    (hptr : ∀ x ∈ ptr, node.ptr = x) : Token.Valid d (.bound n p ptr) := by
  refine ⟨Slots.lt_length_of_get hn, fun m hm => ?_⟩
  cases hn.symm.trans hm
  exact ⟨Or.inl hp, hptr⟩

/-- A node that is bound to a process which has a thread in the driver is its own. -/
theorem Busy.owner (h : Busy i T d) (hown : .own p ∈ T) (hbound : .bound n p none ∈ T)
    (hn : d.nodes.get n = some node) : node.proc = some p := by
  have hrun : d.running p = true := h.valid hown
  obtain ⟨-, hnode⟩ := h.valid hbound
  rcases (hnode node hn).1 with hp | ⟨-, hstop⟩
  · exact hp
  · rw [hrun] at hstop
    cases hstop

theorem Busy.takeTmp (h : Busy i T d) (hn : d.nodes.get n = some node) :
    Busy i (.tmp n ::ₘ T) (d.setNode n { node with tmpRefs := node.tmpRefs + 1 }) := by
  refine h.keep ?_ (frame_setNode d n _).apart
  rw [Multiset.cons_add]
  exact h.inv.takeTmp hn

theorem Busy.putTmp (rb : Rebalance ℕ) (h : Busy i (.tmp n ::ₘ T) d) :
    ∃ d', binderPutNode rb d n = some d' ∧ Busy i T d' ∧ Frame d d' := by
  have hinv := h.inv
  rw [Multiset.cons_add] at hinv
  obtain ⟨d', hd', hinv', hf⟩ := hinv.putTmp rb
  exact ⟨d', hd', h.keep hinv' hf.apart, hf⟩

theorem Busy.takeLocal (h : Busy i T d) (hn : d.nodes.get n = some node) (hmem : .tmp n ∈ T)
    {s : Bool} {k : Token} (hk : LocalToken n node p s k) (hv : k.Valid d)
    (hp : node.proc = some p) : Busy i (k ::ₘ T) (d.setNode n (addLocal s node)) := by
  refine h.keep ?_ (frame_setNode d n _).apart
  rw [Multiset.cons_add]
  exact h.inv.takeLocal hn (Multiset.mem_add.mpr (Or.inl hmem)) hk hv hp

theorem Busy.dropLocal (rb : Rebalance ℕ) {s : Bool} {k : Token} (h : Busy i (k ::ₘ T) d)
    (hn : d.nodes.get n = some node) (hk : LocalToken n node p s k) (hbel : d.Belongs node p) :
    ∃ d', BinderNodes.dropLocal rb d n s = some d' ∧ Busy i T d' ∧ Frame d d' := by
  have hinv := h.inv
  rw [Multiset.cons_add] at hinv
  obtain ⟨d', hd', hinv', hf⟩ := hinv.dropLocal rb hn hk hbel
  exact ⟨d', hd', h.keep hinv' hf.apart, hf⟩

theorem Busy.newNode (rb : Rebalance ℕ) (h : Busy i T d) (hP : d.procs.get p = some P)
    (hr : P.phase = .running) (ptr cookie : ℕ) : ∃ n node d',
    binderNewNode rb d p ptr cookie = some (n, d') ∧ d'.nodes.get n = some node ∧
      node.proc = some p ∧ Busy i (.tmp n ::ₘ T) d' ∧ Frame d d' ∧
        d'.contextMgrNode = d.contextMgrNode := by
  obtain ⟨n, node, d', hd', hn, hp, -, hinv, hf, hmgr⟩ := h.inv.newNode rb hP hr ptr cookie
  refine ⟨n, node, d', hd', hn, hp, h.keep ?_ hf.apart, hf, hmgr⟩
  rw [Multiset.cons_add]
  exact hinv

theorem Busy.holdProc (h : Busy i T d) (hP : d.procs.get p = some P) :
    Busy i (.proc p ::ₘ T) (d.setProc p { P with tmpRef := P.tmpRef + 1 }) := by
  refine h.keep ?_ (apart_keep hP Iff.rfl rfl)
  rw [Multiset.cons_add]
  exact h.inv.holdProc hP

theorem Busy.spawnPut (h : Busy none (.tmp n ::ₘ T) d) : Busy none T (d.spawn (.putNode n)) :=
  (h.cast (Multiset.singleton_add _ _).symm).spawn (j := .putNode n) trivial

theorem Busy.spawnPutProc (h : Busy none (.proc p ::ₘ T) d) :
    Busy none T (d.spawn (.putProc p)) :=
  (h.cast (Multiset.singleton_add _ _).symm).spawn (j := .putProc p) trivial

theorem lockOf_none (hP : d.procs.get p = some P) (hun : d.unlocked p = true) :
    P.outerLock = none ∧ d.lockOf p = none := by
  have hout : P.outerLock = none := by simpa [Driver.unlocked, hP] using hun
  exact ⟨hout, by simp [Driver.lockOf, hP, hout]⟩

theorem Busy.lockRefForNode (rb : Rebalance ℕ) (h : Busy i T d) (hn : d.nodes.get n = some node)
    (hself : node.proc ≠ some p) (hP : d.procs.get p = some P) (hun : d.unlocked p = true) (strong : Bool)
    (targetList : Option Todo) (hjob : i = none → P.phase = .running ∧ targetList = none) :
    ∃ r, Busy i T (BinderNodes.lockRefForNode rb d p n strong targetList i) ∧
      Apart (some p) d (BinderNodes.lockRefForNode rb d p n strong targetList i) ∧
      (BinderNodes.lockRefForNode rb d p n strong targetList i).lockOf p =
        some (.inc r strong targetList i) ∧
      (BinderNodes.lockRefForNode rb d p n strong targetList i).nodeOf r = some n := by
  obtain ⟨hout, hnone⟩ := lockOf_none hP hun
  obtain ⟨r, hinv, hapart, hl, hnode⟩ :=
    h.inv.lockRefForNode rb hn hself hP hout strong targetList fun hi => (hjob hi).1
  refine ⟨r, h.under hinv hapart (Slots.lt_length_of_get hP) (by simp [hnone]) fun l hl' => ?_,
    hapart, hl, hnode⟩
  rw [hl] at hl'
  cases hl'
  exact ⟨rfl, fun hi => (hjob hi).2⟩

/-! ### The context manager -/

theorem Sys.setContextMgr (rb : Rebalance ℕ) {ptr cookie : ℕ} (h : Sys d)
    (hs : binderIoctlSetCtxMgr rb d p ptr cookie = some d') : Sys d' := by
  unfold binderIoctlSetCtxMgr at hs
  split_ifs at hs with hr hm
  · cases hs
    exact h
  · cases hs
    obtain ⟨P, hP, hrun⟩ := Driver.running_iff.mp (by simpa using hr : d.running p = true)
    obtain ⟨n, node, e, hnew, hn, hp, hb, hf, hmgr⟩ := Busy.newNode rb h hP hrun ptr cookie
    obtain ⟨P', hP', hphase, -⟩ := hf.proc_some hP
    have hnone : e.contextMgrNode = none := by rw [hmgr]; simpa using hm
    simp only [Driver.after, hnew, hn]
    have hb' : Busy none (.tmp n ::ₘ 0)
        { e.setNode n node.manage with contextMgrNode := some n } :=
      hb.keep (hb.inv.setContextMgr hn hp hP' (hphase.trans hrun) hnone (by simp))
        ⟨rfl, rfl, fun _ => rfl, fun _ _ => rfl, fun _ y hy => Or.inr ⟨y, hy, rfl, rfl⟩⟩
    exact hb'.spawnPut

theorem Sys.incManager (rb : Rebalance ℕ) {strong : Bool} (h : Sys d)
    (hs : incManager rb d p strong = some d') : Sys d' := by
  unfold BinderNodes.incManager at hs
  obtain ⟨hr, hs⟩ := Option.ite_none_left_eq_some.mp hs
  obtain ⟨hrun, hun⟩ : d.running p = true ∧ d.unlocked p = true := by simpa using hr
  obtain ⟨P, hP, hphase⟩ := Driver.running_iff.mp hrun
  rcases hm : d.contextMgrNode with _ | n
  · simp [hm] at hs
  · obtain ⟨node, q, hn, hq, -⟩ := h.inv.mgr n hm
    simp only [hm, hn, Driver.after, Option.some.injEq] at hs
    subst hs
    split_ifs with hself
    · exact h
    · obtain ⟨r, hb, -⟩ := Busy.lockRefForNode rb h hn hself hP hun strong none fun _ =>
        ⟨hphase, rfl⟩
      exact hb

/-! ### References -/

theorem Busy.getRef (h : Busy i T d) (hP : d.procs.get p = some P) (desc : ℕ) (strong : Bool) :
    (∃ r ref node, d.refs.get r = some ref ∧ d.nodes.get ref.node = some node ∧
      node.proc ≠ some p ∧ ref.proc = p ∧ ref.desc = desc ∧
        binderGetRefOlocked d P desc strong = some (some r)) ∨
      binderGetRefOlocked d P desc strong = some none ∧
        ∀ r ref, d.refs.get r = some ref → ref.proc = p → ref.desc = desc →
          strong = true ∧ ref.strong = 0 := by
  rcases (h.inv.proc p P hP).getRef desc strong with ⟨r, ref, hr, hrp, hrd, -, hget⟩ | hno
  · obtain ⟨node, hn, hself⟩ := h.inv.ref r ref hr
    exact Or.inl ⟨r, ref, node, hr, hn, hrp ▸ hself, hrp, hrd, hget⟩
  · exact Or.inr hno

/-- The lock of the process is let go of, or is taken for a reference that has no counts left. -/
theorem Busy.atRef {ref : BinderRef} {r s w : ℕ} {node' : BinderNode} {l : Option Locked}
    (h : Busy i T d) (hr : d.refs.get r = some ref) (hP : d.procs.get ref.proc = some P)
    (hun : P.outerLock = none) (hl : ∀ l', l = some l' → l' = .cleanup r i)
    (hinv : Inv none (T' + d.rest i)
      (d.atRef r { ref with strong := s, weak := w } node' { P with outerLock := l })) :
    Busy i T' (d.atRef r { ref with strong := s, weak := w } node' { P with outerLock := l }) := by
  have hlock : (d.atRef r { ref with strong := s, weak := w } node'
      { P with outerLock := l }).lockOf ref.proc = l := by
    rw [Driver.lockOf, atRef_proc hP, if_pos rfl]
    rfl
  refine h.under hinv (apart_atRef hr hP l) (Slots.lt_length_of_get hP)
    (by simp [Driver.lockOf, hP, hun]) fun l' hl' => ?_
  rw [hlock] at hl'
  cases hl l' hl'
  exact ⟨rfl, fun _ => rfl⟩

theorem Busy.decRef (rb : Rebalance ℕ) {ref : BinderRef} {r : ℕ} (h : Busy i T d)
    (hr : d.refs.get r = some ref) (hn : d.nodes.get ref.node = some node)
    (hP : d.procs.get ref.proc = some P) (hun : P.outerLock = none) (strong : Bool)
    (hjob : i = none → P.phase = .running)
    (hT : T = T' ∨ T = .handle ref.proc ref.desc strong ::ₘ T') :
    ∃ clean d', BinderNodes.decRef rb d ref.proc r strong i = some (clean, d') ∧ Busy i T' d' ∧
      Apart (some ref.proc) d d' ∧ d'.lockOf ref.proc = if clean then some (.cleanup r i) else none := by
  obtain ⟨clean, s, w, x, q, hdec, hinv, hdrop⟩ := h.inv.decRef rb hr hn hP hun strong hjob
  have hinv' := hinv
  refine ⟨clean, _, hdec, h.atRef hr hP hun (fun l' hl' => ?_) ?_,
    apart_atRef hr hP _, ?_⟩
  · cases clean
    · cases hl'
    · cases hl'
      rfl
  · rcases hT with rfl | rfl
    · exact hinv
    · exact hdrop _ (Multiset.cons_add _ _ _)
  · rw [Driver.lockOf, atRef_proc hP, if_pos rfl]
    rfl

theorem Sys.updateRef (rb : Rebalance ℕ) {desc : ℕ} {increment strong : Bool} (h : Sys d)
    (hs : binderUpdateRefForHandle rb d p desc increment strong = some d') : Sys d' := by
  unfold binderUpdateRefForHandle at hs
  obtain ⟨hok, hs⟩ := Option.ite_none_left_eq_some.mp hs
  obtain ⟨hrun, hun⟩ : d.running p = true ∧ d.unlocked p = true := by simpa using hok
  obtain ⟨P, hP, hphase⟩ := Driver.running_iff.mp hrun
  obtain ⟨hout, -⟩ := lockOf_none hP hun
  cases hs
  rcases Busy.getRef h hP desc strong with ⟨r, ref, node, hr, hn, -, rfl, -, hget⟩ | ⟨hget, -⟩
  · simp only [Driver.after, hP, hget]
    cases increment
    · obtain ⟨clean, e, hdec, hb, -⟩ := Busy.decRef rb h hr hn hP hout strong (fun _ => hphase)
        (Or.inl rfl)
      simp only [hdec]
      exact hb
    · -- the user is the holder of what it has acquired
      obtain ⟨ok, s, w, x, z, q, hinc, hinv⟩ :=
        h.inv.incRef hr hn hP (by simp [hout]) strong
          (by simp : ∀ todo, (none : Option Todo) = some todo → node.proc = some todo.proc)
      simp only [hinc, if_true]
      have hP' : { P with outerLock := none } = P := by
        cases P
        cases hout
        rfl
      have hd : d.failed (P.phase == .done && (s == 0 && w == 0)) = d := by
        rw [hphase]
        rfl
      rw [hP', hd] at hinv
      have hkeep : Inv none (0 + d.rest none) (d.atRef r { ref with strong := s, weak := w }
          (node.recount x z q) { P with outerLock := none }) := by
        rw [hP']
        cases ok
        · exact hinv
        · refine Inv.dropHandle hinv fun Q r' ref' hQ hdone => ?_
          have hQ' : (d.atRef r { ref with strong := s, weak := w }
              (node.recount x z q) P).procs.get ref.proc = some P :=
            (atRef_proc hP P.outerLock ref.proc).trans (if_pos rfl)
          cases hQ'.symm.trans hQ
          rw [hphase] at hdone
          cases hdone
      have hb := Busy.atRef h hr hP hout (by simp) hkeep
      rw [hP'] at hb
      exact hb
  · simp only [Driver.after, hP, hget]
    exact h

/-! ### What user space is told, and what it answers -/

theorem Sys.refDone {strong : Bool} {ptr cookie : ℕ} (h : Sys d)
    (hs : refDone d p strong ptr cookie = some d') : Sys d' := by
  unfold BinderNodes.refDone at hs
  obtain ⟨hr, hs⟩ := Option.ite_none_left_eq_some.mp hs
  have hrun : d.running p = true := by simpa using hr
  obtain ⟨P, hP, -⟩ := Driver.running_iff.mp hrun
  cases hs
  rcases h.inv.getNode hP ptr with ⟨n, node, hn, hp, -, hget⟩ | ⟨-, hget⟩
  · have hb := Busy.takeTmp h hn
    have hn' := setNode_get_self hn { node with tmpRefs := node.tmpRefs + 1 }
    simp only [Driver.after, hget, hn']
    split_ifs with hc
    · have hrun' := ((frame_setNode d n { node with tmpRefs := node.tmpRefs + 1 }).running p).trans hrun
      have hb' := (hb.addLoose (k := .bound n p none) trivial (bound_valid hn' hp (by simp))).addLoose
        (k := .own p) trivial hrun'
      refine (hb'.cast ?_).spawn (j := .done p n strong) trivial
      simp only [Job.tokens, Multiset.insert_eq_cons, ← Multiset.singleton_add]
      abel
    · exact hb.spawnPut
  · simp only [Driver.after, hget]
    exact h

theorem Sys.readNode (rb : Rebalance ℕ) {fault : Bool} (h : Sys d)
    (hs : binderThreadReadNode rb d n fault = some d') : Sys d' := by
  have hs' := hs
  unfold binderThreadReadNode at hs'
  rcases hn : d.nodes.get n with _ | node
  · simp [hn] at hs'
  rcases hw : node.work with _ | q
  · simp [hn, hw] at hs'
  have hr : d.running q.proc = true := by
    by_contra hno
    simp [hn, hw, hno] at hs'
  obtain ⟨e, he, hinv, hf⟩ := h.inv.readNode rb hn hw hr fault
  cases he.symm.trans hs
  exact Busy.keep h hinv hf.apart

theorem Sys.faultRead (h : Sys d) (hs : faultRead d p = some d') : Sys d' := by
  unfold BinderNodes.faultRead at hs
  obtain ⟨hr, hs⟩ := Option.ite_none_left_eq_some.mp hs
  obtain ⟨P, hP, -⟩ := Driver.running_iff.mp (by simpa using hr : d.running p = true)
  cases hs
  simp only [Driver.after, hP]
  exact Busy.keep h (h.inv.faultRead hP) (apart_keep hP Iff.rfl rfl)

theorem Sys.exitThread (h : Sys d) (hs : exitThread d n = some d') : Sys d' := by
  unfold BinderNodes.exitThread at hs
  rcases hn : d.nodes.get n with _ | node
  · simp [hn] at hs
  rw [hn] at hs
  have hinv := h.inv.loseWork hn
  have hf : Frame d ({ d with lostWork := d.lostWork + 1 }.setNode n (node.withWork none)) :=
    ⟨rfl, rfl, rfl, fun _ => rfl⟩
  rcases hw : node.work with _ | ⟨q, _ | _⟩
  · simp [hw] at hs
  · simp [hw] at hs
  · simp only [hw, Option.some.injEq] at hs
    subst hs
    exact Busy.keep h hinv hf.apart

/-! ### The target of a transaction -/

theorem Busy.getNodeRefsForTxn (h : Sys d) (hn : d.nodes.get n = some node)
    (hrun : d.running p = true) {fromHandle : Bool} (hself : fromHandle = true → node.proc ≠ some p) :
    Sys (binderGetNodeRefsForTxn d p n fromHandle) := by
  simp only [binderGetNodeRefsForTxn, Driver.after, hn]
  rcases hq : node.proc with _ | q
  · exact h
  obtain ⟨Q, hQ, -⟩ := (h.inv.node n node hn).owner q hq
  simp only [hQ]
  have hb := (Busy.addLoose h (k := .own p) trivial hrun).takeTmp hn
  have hn' := setNode_get_self hn { node with tmpRefs := node.tmpRefs + 1 }
  have hv : Token.Valid (d.setNode n { node with tmpRefs := node.tmpRefs + 1 }) (.target n q) := by
    refine ⟨Slots.lt_length_of_get hn', fun _ => ?_, fun m hm => ?_⟩
    · rw [hn']
      rfl
    · cases hn'.symm.trans hm
      exact Or.inl hq
  have hb' := hb.takeLocal hn' (by simp) (LocalToken.target (p := q)) hv hq
  have he : (d.setNode n { node with tmpRefs := node.tmpRefs + 1 }).setNode n
      (addLocal true { node with tmpRefs := node.tmpRefs + 1 }) = d.setNode n { node with
        localStrongRefs := node.localStrongRefs + 1, tmpRefs := node.tmpRefs + 1 } := by
    simp [Driver.setNode, Slots.put, addLocal]
  rw [he] at hb'
  have hb'' := hb'.holdProc (p := q) (P := Q) hQ
  rw [hq] at hb''
  have hlen := Slots.lt_length_of_get
    ((setProc_get hQ { Q with tmpRef := Q.tmpRef + 1 } q).trans (if_pos rfl))
  split_ifs with hqp
  · subst hqp
    have hfalse : fromHandle = false := Bool.eq_false_iff.mpr fun ht => hself ht hq
    subst hfalse
    simp only [Bool.or_false]
    refine (hb''.spawnPutProc.cast ?_).spawn (j := .release ⟨q, true, true, false⟩ ⟨q, some n, []⟩)
      ⟨hlen, ⟨Or.inl rfl, Or.inr (Or.inl rfl)⟩⟩
    simp only [Job.tokens, Txn.heldTokens, Txn.strongTokens, Txn.tmpTokens, Txn.objectTokens,
      ← Multiset.singleton_add, reduceIte, Bool.false_eq_true, List.map_nil, Multiset.coe_nil]
    abel
  · refine (hb''.cast ?_).spawn (j := .send p ⟨q, some n, []⟩) ⟨hlen, hqp⟩
    simp only [Job.tokens, Txn.sendTokens, Txn.strongTokens, Txn.tmpTokens, Txn.objectTokens,
      ← Multiset.singleton_add, List.map_nil, Multiset.coe_nil]
    abel

theorem Sys.call {handle : ℕ} (h : Sys d) (hs : call d p handle = some d') : Sys d' := by
  unfold BinderNodes.call at hs
  obtain ⟨hr, hs⟩ := Option.ite_none_left_eq_some.mp hs
  have hrun : d.running p = true := by simpa using hr
  split_ifs at hs with hz hun
  · rcases hm : d.contextMgrNode with _ | n
    · simp only [hm, Option.some.injEq] at hs
      exact hs ▸ h
    · obtain ⟨node, q, hn, -⟩ := h.inv.mgr n hm
      simp only [hm, Option.some.injEq] at hs
      exact hs ▸ Busy.getNodeRefsForTxn h hn hrun (by simp)
  · obtain ⟨P, hP, -⟩ := Driver.running_iff.mp hrun
    cases hs
    rcases Busy.getRef h hP handle true with ⟨r, ref, node, hr, hn, hself, -, -, hget⟩ | ⟨hget, -⟩
    · simp only [Driver.after, hP, hget, hr]
      exact Busy.getNodeRefsForTxn h hn hrun fun _ => hself
    · simp only [Driver.after, hP, hget]
      exact h

theorem Sys.reply {q : ℕ} (h : Sys d) (hs : reply d p q = some d') : Sys d' := by
  unfold BinderNodes.reply at hs
  obtain ⟨hr, hs⟩ := Option.ite_none_left_eq_some.mp hs
  obtain ⟨hrun, hne⟩ : d.running p = true ∧ ¬ p = q := by simpa using hr
  rcases hQ : d.procs.get q with _ | Q
  · simp [hQ] at hs
  simp only [hQ] at hs
  obtain ⟨-, hs⟩ := Option.ite_none_right_eq_some.mp hs
  cases hs
  have hb := (Busy.addLoose h (k := .own p) trivial hrun).holdProc hQ
  have hlen := Slots.lt_length_of_get
    ((setProc_get hQ { Q with tmpRef := Q.tmpRef + 1 } q).trans (if_pos rfl))
  refine (hb.cast ?_).spawn (j := .send p ⟨q, none, []⟩) ⟨hlen, Ne.symm hne⟩
  simp [Job.tokens, Txn.sendTokens, Txn.strongTokens, Txn.tmpTokens, Txn.objectTokens]
  exact Multiset.cons_swap _ _ _

end HeadlessAndroid.BinderNodes
