import HeadlessAndroid.BinderSafe

/-!
# HeadlessAndroid.BinderReach — what every run of the driver comes to

The invariant of `BinderSafe` read off for the users of the driver: nothing crashes, counts are
holders, a handle names one reference, owners are told what others do with their nodes, and the locks
do not deadlock.
-/

namespace HeadlessAndroid.BinderNodes

open Lib Lib.SearchTree

variable {rb : Rebalance ℕ} {es : List Action} {d : Driver} {k n p : ℕ} {node : BinderNode}
  {P : BinderProc} {j : Job}

theorem Sys.inv_tokens (h : Sys d) : Inv none d.tokens d := by
  have hinv := h.inv
  rwa [zero_add] at hinv

/-- Process 1 sends an object of its own to the context manager, which is process 0. -/
def objectRun : List Action :=
  [.openProc, .openProc, .setContextMgr 0 8 80, .proceed 0, .call 1 0, .sendBinder 1 16 160 true,
    .proceed 1, .unlock 0, .proceed 2, .deliver 1]

/-- Process 1 sends process 2 a handle on a node of process 0, and meanwhile gives its own strong
reference back while process 2 is released.  The new reference has no counts and nobody to clean it
up when process 0 goes. -/
def lateRun : List Action :=
  [.openProc, .openProc, .openProc, .setContextMgr 0 8 80, .proceed 0,
    -- process 1 gets the handle
    .reply 0 1, .sendBinder 1 16 160 true, .proceed 1, .unlock 1, .proceed 2, .deliver 1,
    .proceed 3, .reply 1 2, .sendHandle 4 1 true,
    -- and frees the buffer it came in
    .freeBuffer 1, .proceed 1, .proceed 1, .unlock 1, .proceed 1,
    .releaseProc 2, .releaseStep 2, .releaseStep 2, .releaseStep 2,
    .proceed 4, .unlock 2, .proceed 6, .proceed 4, .proceed 4, .proceed 5, .proceed 7,
    .releaseProc 0, .releaseStep 0, .releaseStep 0, .releaseStep 0, .releaseStep 0, .releaseStep 0]

/-- Process 0 is released while a transaction of process 1 for its node is under way; the transaction
fails after that, and gives the strong count of its buffer back to the dead node. -/
def leakRun : List Action :=
  [.openProc, .openProc, .setContextMgr 0 8 80, .proceed 0, .call 1 0,
    .releaseProc 0, .releaseStep 0, .releaseStep 0, .releaseStep 0, .proceed 2,
    .fail 1 false, .proceed 1, .proceed 1, .proceed 3]

/-- **The lock of a freed process.**  A reference outlives its process, and `binder_node_release`
takes the lock of a process that is freed, only after an increment has left one without a count,
because it failed or wrapped, to a process that had given up its references. -/
theorem stale_after_late_failure (h : (driverSystem rb).run .init es = some d)
    (hs : d.stale = true ∨ ∃ r ref, d.refs.get r = some ref ∧ d.procs.get ref.proc = none) :
    d.lateFailures ≠ 0 := by
  intro hl
  obtain ⟨hstale, hrefs⟩ := (Sys.run rb h).inv.live hl
  rcases hs with hs | ⟨r, ref, hr, hp⟩
  · rw [hstale] at hs
    cases hs
  · have hsome := hrefs r ref hr
    rw [hp] at hsome
    cases hsome

theorem stale_after_late_failure_reached : ∃ d,
    (driverSystem Rebalance.plain).run .init lateRun = some d ∧ d.stale = true ∧
      d.lateFailures ≠ 0 := by
  obtain ⟨d, h, hs⟩ : ∃ d, (driverSystem Rebalance.plain).run .init lateRun = some d ∧
      d.stale = true := ⟨_, rfl, rfl⟩
  exact ⟨d, h, hs, stale_after_late_failure h (Or.inl hs)⟩

/-- **A handle names one reference.**  A process finds a reference under a handle just when it is its
own and has that number, and has no two references to one node. -/
theorem handle_names_reference (h : (driverSystem rb).run .init es = some d)
    (hP : d.procs.get p = some P) :
    (∀ desc r, binderGetRefOlocked d P desc false = some (some r) ↔
      ∃ ref, d.refs.get r = some ref ∧ ref.proc = p ∧ ref.desc = desc) ∧
    ∀ r r' ref ref', d.refs.get r = some ref → d.refs.get r' = some ref' → ref.proc = p →
      ref'.proc = p → ref.node = ref'.node → r = r' := by
  have hok := (Sys.run rb h).inv_tokens.proc p P hP
  refine ⟨fun desc r => ⟨fun hget => ?_, ?_⟩, fun r r' ref ref' hr hr' hp hp' hnode => ?_⟩
  · rcases hok.getRef desc false with ⟨r', ref, hr, hp, hd, -, hget'⟩ | ⟨hget', -⟩
    · cases hget.symm.trans hget'
      exact ⟨ref, hr, hp, hd⟩
    · cases hget.symm.trans hget'
  · rintro ⟨ref, hr, hp, hd⟩
    rcases hok.getRef desc false with ⟨r', ref', hr', hp', hd', -, hget'⟩ | ⟨-, hno⟩
    · have hrr : r' = r := hok.desc.inj ((hok.mem_desc r').mpr ⟨ref', hr', hp'⟩)
        ((hok.mem_desc r).mpr ⟨ref, hr, hp⟩) (k := desc) (by simp [Driver.descOf, hr', hd'])
        (by simp [Driver.descOf, hr, hd])
      rw [hget', hrr]
    · exact absurd (hno r ref hr hp hd).1 (by simp)
  · exact hok.byNode.inj ((hok.mem_byNode r).mpr ⟨ref, hr, hp⟩)
      ((hok.mem_byNode r').mpr ⟨ref', hr', hp'⟩) (k := ref.node) (by simp [Driver.nodeOf, hr])
      (by simp [Driver.nodeOf, hr', hnode])

theorem handle_names_reference_manager : ∃ d P ref,
    (driverSystem Rebalance.plain).run .init objectRun = some d ∧ d.procs.get 0 = some P ∧
      d.refs.get 0 = some ref ∧ binderGetRefOlocked d P ref.desc false = some (some 0) := by
  obtain ⟨d, P, ref, h, hP, hr, hp⟩ : ∃ d P ref,
      (driverSystem Rebalance.plain).run .init objectRun = some d ∧ d.procs.get 0 = some P ∧
        d.refs.get 0 = some ref ∧ ref.proc = 0 := ⟨_, _, _, rfl, rfl, rfl, rfl⟩
  exact ⟨d, P, ref, h, hP, hr, ((handle_names_reference h hP).1 ref.desc 0).mpr ⟨ref, hr, hp, rfl⟩⟩

/-- **Handles are as small as they can be.**  A process that has no reference to a node gets one whose
number is the least that none of its references has, from 0 for the context manager and from 1 for
others. -/
theorem new_handle_is_least (h : (driverSystem rb).run .init es = some d)
    (hP : d.procs.get p = some P) (hn : d.nodes.get n = some node)
    (hno : ∀ r ref, d.refs.get r = some ref → ref.proc = p → ref.node ≠ n) :
    ∃ d' desc, binderGetRefForNodeOlocked rb d p n = some (d.refs.length, d') ∧
      d'.refs.get d.refs.length = some ⟨desc, 0, 0, p, n⟩ ∧
      IsLeast { m | (if d.contextMgrNode = some n then 0 else 1) ≤ m ∧
        ∀ r ref, d.refs.get r = some ref → ref.proc = p → ref.desc ≠ m } desc := by
  have hok := (Sys.run rb h).inv_tokens.proc p P hP
  rcases hok.byNode.find n with ⟨r, hin, hkey, -⟩ | ⟨hnone, hfind⟩
  · obtain ⟨ref, hr, hp⟩ := (hok.mem_byNode r).mp hin
    exact absurd (by simpa [Driver.nodeOf, hr] using hkey) (hno r ref hr hp)
  let start := if d.contextMgrNode = some n then 0 else 1
  obtain ⟨hnew, hle, hbelow⟩ := newDesc_spec start hok.desc.keys fun y _ => by
    change (if d.contextMgrNode = some n then 0 else 1) ≤ _
    split_ifs <;> omega
  obtain ⟨byDesc, hlinkd, -⟩ := hok.desc.link d.refs.length
    fun r hr hk => hnew (List.mem_filterMap.mpr ⟨r, hr, hk⟩)
  obtain ⟨byNode, hlinkn, -⟩ := hok.byNode.link d.refs.length hnone
  have heq : binderGetRefForNodeOlocked rb d p n = some (d.refs.length,
      d.addRef p n (newDesc start ((inorder P.refsByDesc).filterMap d.descOf)) node { P with
        refsByNode := rb.insertColor byNode
        refsByDesc := rb.insertColor byDesc }) := by
    have hstart : (if d.contextMgrNode == some n then 0 else 1) = start := by
      change _ = if d.contextMgrNode = some n then 0 else 1
      simp
    simp only [binderGetRefForNodeOlocked, insertRef, hP, hfind, hn, hstart, hlinkn, hlinkd]
    rfl
  refine ⟨_, _, heq, (addRef_ref _).trans (if_pos rfl), ⟨hle, fun r ref hr hp hd => ?_⟩, ?_⟩
  · exact hnew (List.mem_filterMap.mpr
      ⟨r, (hok.mem_desc r).mpr ⟨ref, hr, hp⟩, by simp [Driver.descOf, hr, hd]⟩)
  · -- a smaller number is in use
    rintro m ⟨hm, hfree⟩
    by_contra hlt
    obtain ⟨r, hin, hd⟩ := List.mem_filterMap.mp (hbelow m hm (not_le.mp hlt))
    obtain ⟨ref, hr, hp⟩ := (hok.mem_desc r).mp hin
    exact hfree r ref hr hp (by simpa [Driver.descOf, hr] using hd)

theorem new_handle_is_least_manager : ∃ d d' desc,
    (driverSystem Rebalance.plain).run .init objectRun = some d ∧
      binderGetRefForNodeOlocked Rebalance.plain d 1 0 = some (d.refs.length, d') ∧
        d'.refs.get d.refs.length = some ⟨desc, 0, 0, 1, 0⟩ := by
  obtain ⟨d, P, node, h, hP, hn, hrefs⟩ : ∃ d P node,
      (driverSystem Rebalance.plain).run .init objectRun = some d ∧ d.procs.get 1 = some P ∧
        d.nodes.get 0 = some node ∧ d.refs = [some ⟨1, 1, 0, 0, 1⟩] := ⟨_, _, _, rfl, rfl, rfl, rfl⟩
  have hno : ∀ r ref, d.refs.get r = some ref → ref.proc = 1 → ref.node ≠ 0 := by
    intro r ref hr hp
    rw [hrefs] at hr
    cases r with
    | zero =>
      cases hr
      cases hp
    | succ r => cases hr
  obtain ⟨d', desc, hget, hnew, -⟩ := new_handle_is_least h hP hn hno
  exact ⟨d, d', desc, h, hget, hnew⟩

/-- What the owner of a node other than the context manager's was told says what its flags say. -/
theorem Owned.view {T : Multiset Token} (ho : Owned T d n node p P) {told : List (ℕ × Notice)}
    (ht : P.told = some told) (hm : d.contextMgrNode ≠ some n) :
    viewOf told node.ptr = some (node.hasWeakRef, node.hasStrongRef) := by
  obtain ⟨v, hv, hflags⟩ := ho.told (viewOf told node.ptr) (by simp [BinderProc.view, ht])
  rw [hv, hflags (Driver.mgrCount_eq_zero.mpr hm)]

/-- **Nothing in use is freed, and nothing else is kept.**  A node stays while a reference or a count
is on it or its owner knows of it, and no longer, but for a strong count inside the driver that has
been lost to a wrap; the node of a reference is there and lists it; and so is all that the steps under
way and the buffers of running processes hold. -/
theorem kept_while_in_use (h : (driverSystem rb).run .init es = some d) :
    (∀ n node, d.nodes.get n = some node → node.known = true ∨ node.refless = false ∨
      node.wraps ≠ 0 ∧ node.proc ≠ none ∧ node.internalStrongRefs ≠ 0) ∧
    (∀ r ref, d.refs.get r = some ref → ∃ node, d.nodes.get ref.node = some node ∧ r ∈ node.refs) ∧
    ∀ x ∈ d.tokens, x.Valid d := by
  have hinv := (Sys.run rb h).inv_tokens
  refine ⟨fun n node hn => ?_, fun r ref hr => ?_, hinv.token⟩
  · refine (hinv.kept n node hn (by simp)).imp id fun hk => ?_
    refine (em (node.refless = false)).imp id fun hr => ?_
    obtain ⟨hp, hi⟩ := hk.resolve_left hr
    have hnil := (BinderNode.refless_iff.mp (Bool.not_eq_false _ ▸ hr)).1
    exact ⟨fun hz => hi ((hinv.node n node hn).internal_of_nil hnil hz), hp, hi⟩
  obtain ⟨node, hn, -⟩ := hinv.ref r ref hr
  exact ⟨node, hn, ((hinv.node _ node hn).refs r).mpr ⟨ref, hr, rfl⟩⟩

theorem kept_while_in_use_object : ∃ d node,
    (driverSystem Rebalance.plain).run .init objectRun = some d ∧ d.nodes.get 1 = some node ∧
      (node.known = true ∨ node.refless = false ∨
        node.wraps ≠ 0 ∧ node.proc ≠ none ∧ node.internalStrongRefs ≠ 0) := by
  obtain ⟨d, node, h, hn⟩ : ∃ d node, (driverSystem Rebalance.plain).run .init objectRun = some d ∧
      d.nodes.get 1 = some node := ⟨_, _, rfl, rfl⟩
  exact ⟨d, node, h, hn, (kept_while_in_use h).1 1 node hn⟩

/-- **Dead nodes that are leaked.**  A dead node is still there with no references, temporary or other,
only after a local reference has been given back to a node that was dead by then, and so took its
count below zero. -/
theorem leaked_after_late_drop (h : (driverSystem rb).run .init es = some d)
    (hn : d.nodes.get n = some node) (hp : node.proc = none) (hrefs : node.refs = [])
    (htmp : node.tmpRefs = 0) :
    d.lateDrops ≠ 0 ∧ (node.localStrongRefs < 0 ∨ node.localWeakRefs < 0) := by
  have hinv := (Sys.run rb h).inv_tokens
  obtain ⟨-, hweak, hstrong, hzero⟩ := (hinv.node n node hn).dead hp
  have hcounts : ¬ (node.localStrongRefs = 0 ∧ node.localWeakRefs = 0) := by
    rintro ⟨hs, hw⟩
    rcases hinv.kept n node hn (by simp) with hk | hr | ⟨hk, -⟩
    · simp [BinderNode.known, hp] at hk
    · simp [BinderNode.refless, hrefs, hs, hw, htmp] at hr
    · exact hk hp
  refine ⟨fun hd => hcounts ⟨(hzero hd).2, (hzero hd).1⟩, ?_⟩
  omega

theorem leaked_after_late_drop_reached : ∃ d node,
    (driverSystem Rebalance.plain).run .init leakRun = some d ∧ d.nodes.get 0 = some node ∧
      node.proc = none ∧ node.localStrongRefs = -1 ∧ d.lateDrops ≠ 0 := by
  obtain ⟨d, node, h, hn, hp, hrefs, htmp, hs⟩ : ∃ d node,
      (driverSystem Rebalance.plain).run .init leakRun = some d ∧ d.nodes.get 0 = some node ∧
        node.proc = none ∧ node.refs = [] ∧ node.tmpRefs = 0 ∧ node.localStrongRefs = -1 :=
    ⟨_, _, rfl, rfl, rfl, rfl, rfl, rfl⟩
  exact ⟨d, node, h, hn, hp, hs, (leaked_after_late_drop h hn hp hrefs htmp).1⟩

/-! ### No deadlock -/

/-- The process that the transaction of the job goes to. -/
def Job.target : Job → Option ℕ
  | .putNode _ | .putProc _ | .done _ _ _ => none
  | .send _ t | .translate _ t _ _ _ | .await _ t _ _ _ | .buffer t => some t.toProc
  | .release _ t | .unbind _ t _ | .clean _ t => some t.toProc

/-- The job can take its next step, or it waits for the outer lock of its target, whose holder can go
on. -/
def GoesOn (rb : Rebalance ℕ) (d : Driver) (k : ℕ) (j : Job) : Prop :=
  ∃ a d', driverStep rb d a = some d' ∧ (a = .proceed k ∨ a = .deliver k ∨ a = .freeBuffer k ∨
    ∃ p l, j.target = some p ∧ d.lockOf p = some l ∧ a = .unlock p)

theorem unlock_enabled (rb : Rebalance ℕ) {l : Locked} (hc : d.crashed = false) (hl : d.lockOf p = some l) :
    ∃ d', driverStep rb d (.unlock p) = some d' := by
  obtain ⟨P, hP, hout⟩ := Option.bind_eq_some_iff.mp hl
  cases l with
  | inc r strong targetList job => simp [driverStep, hc, unlock, hP, hout]
  | cleanup r job => simp [driverStep, hc, unlock, hP, hout]

theorem lockOf_some (hP : d.procs.get p = some P) (hun : ¬ d.unlocked p = true) :
    ∃ l, d.lockOf p = some l := by
  have hout : P.outerLock ≠ none := by simpa [Driver.unlocked, hP] using hun
  obtain ⟨l, hl⟩ := Option.ne_none_iff_exists'.mp hout
  exact ⟨l, by rw [Driver.lockOf, hP, Option.bind_some, hl]⟩

theorem Sys.goesOn (rb : Rebalance ℕ) (h : Sys d) (hk : d.jobs.get k = some j) : GoesOn rb d k j := by
  have hc := h.inv.crashed
  have hstep : (BinderNodes.proceed rb d k j).isSome → GoesOn rb d k j := by
    intro hsome
    obtain ⟨d', hs⟩ := Option.isSome_iff_exists.mp hsome
    exact ⟨.proceed k, d', by simp [driverStep, hc, hk, hs], Or.inl rfl⟩
  have hunlock : ∀ q, j.target = some q → (∃ l, d.lockOf q = some l) → GoesOn rb d k j := by
    rintro q hq ⟨l, hl⟩
    obtain ⟨d', hs⟩ := unlock_enabled rb hc hl
    exact ⟨.unlock q, d', hs, Or.inr (Or.inr (Or.inr ⟨q, l, hq, hl, rfl⟩))⟩
  obtain ⟨hb, hfits⟩ := h.begin hk
  cases j with
  | putNode n => exact hstep rfl
  | putProc p => exact hstep rfl
  | done p n strong => exact hstep rfl
  | send p t =>
    exact ⟨.deliver k, BinderNodes.deliver d k p t, by simp [driverStep, hc, hk], Or.inr (Or.inl rfl)⟩
  | translate p t n strong fromHandle =>
    obtain ⟨P, hP⟩ := Option.isSome_iff_exists.mp
      (hb.valid (k := .proc t.toProc) (by simp [Job.tokens, Txn.sendTokens]))
    obtain ⟨node, hn⟩ := Option.isSome_iff_exists.mp
      (hb.valid (k := .tmp n) (by simp [Job.tokens]))
    by_cases hun : d.unlocked t.toProc = true
    · refine hstep ?_
      simp only [BinderNodes.proceed, BinderNodes.translate, hn]
      by_cases hself : (fromHandle && node.proc == some t.toProc) = true
      · rw [if_pos hself]
        rfl
      · rw [if_neg hself, if_neg (by simp [hun])]
        rfl
    · exact hunlock _ rfl (lockOf_some hP hun)
  | await p t n strong fromHandle =>
    obtain ⟨-, -, r, hl, -⟩ := hfits
    exact hunlock _ rfl ⟨_, hl⟩
  | buffer t =>
    refine ⟨.freeBuffer k, d.setJob k (.release ⟨t.toProc, true, false, false⟩ t), ?_,
      Or.inr (Or.inr (Or.inl rfl))⟩
    simp [driverStep, hc, hk, hfits.2]
  | release h' t =>
    by_cases hst : h'.strong = true
    · refine hstep ?_
      rw [BinderNodes.proceed, if_pos hst]
      rfl
    by_cases hnil : t.objects = []
    · refine hstep ?_
      rw [BinderNodes.proceed, if_neg hst, if_pos hnil]
      rfl
    obtain ⟨P, hP⟩ := Busy.backs_proc hb hfits.2 hnil
    by_cases hun : d.unlocked t.toProc = true
    · refine hstep ?_
      rcases ho : t.objects with _ | ⟨⟨ptr, s⟩ | ⟨desc, s⟩, rest⟩
      · exact absurd ho hnil
      · simp [BinderNodes.proceed, hst, ho, BinderNodes.dropObject]
      · simp [BinderNodes.proceed, hst, ho, BinderNodes.dropObject, hun]
    · exact hunlock _ rfl (lockOf_some hP hun)
  | unbind h' t n =>
    refine hstep ?_
    rcases ho : t.objects with _ | ⟨⟨ptr, s⟩ | ⟨desc, s⟩, rest⟩
    · exact absurd (by simp [Txn.nextPtr, ho]) hfits.2.2
    · simp [BinderNodes.proceed, ho]
    · exact absurd (by simp [Txn.nextPtr, ho]) hfits.2.2
  | clean h' t =>
    obtain ⟨-, -, -, r, hl⟩ := hfits
    exact hunlock _ rfl ⟨_, hl⟩

theorem Sys.releaseGoesOn (rb : Rebalance ℕ) (h : Sys d) (hP : d.procs.get p = some P)
    (hph : P.phase ≠ .running ∧ P.phase ≠ .done) :
    ∃ a d', driverStep rb d a = some d' ∧ (a = .releaseStep p ∨ a = .unlock p) := by
  have hc := h.inv.crashed
  by_cases hun : d.unlocked p = true
  · obtain ⟨hout, -⟩ := lockOf_none hP hun
    refine ⟨.releaseStep p, ?_⟩
    rcases hphase : P.phase with _ | _ | _ | n | _ | _
    · exact absurd hphase hph.1
    · simp [driverStep, hc, binderDeferredStep, hP, hphase]
    · rcases hf : first P.nodes with _ | n <;>
        simp [driverStep, hc, binderDeferredStep, hP, hphase, hf]
    · simp [driverStep, hc, binderDeferredStep, hP, hphase]
    · rcases hf : first P.refsByDesc with _ | r <;>
        simp [driverStep, hc, binderDeferredStep, hP, hphase, hout, hf]
    · exact absurd hphase hph.2
  · obtain ⟨l, hl⟩ := lockOf_some hP hun
    obtain ⟨d', hs⟩ := unlock_enabled rb hc hl
    exact ⟨.unlock p, d', hs, Or.inr rfl⟩

/-- **No deadlock.**  The locks of nodes and the inner locks lie within steps; of the locks only the
outer one of a process is held from one step to another.  Every job can take its next step, or the
holder of the one lock that it may wait for can go on; and so can the release of a process until it
is done. -/
theorem no_deadlock (h : (driverSystem rb).run .init es = some d) :
    (∀ k j, d.jobs.get k = some j → GoesOn rb d k j) ∧
    ∀ p P, d.procs.get p = some P → P.phase ≠ .running ∧ P.phase ≠ .done →
      ∃ a d', driverStep rb d a = some d' ∧ (a = .releaseStep p ∨ a = .unlock p) :=
  ⟨fun _ _ hk => (Sys.run rb h).goesOn rb hk, fun _ _ hP hph => (Sys.run rb h).releaseGoesOn rb hP hph⟩

theorem no_deadlock_buffer : ∃ d j,
    (driverSystem Rebalance.plain).run .init objectRun = some d ∧ d.jobs.get 1 = some j ∧
      GoesOn Rebalance.plain d 1 j := by
  obtain ⟨d, j, h, hk⟩ : ∃ d j, (driverSystem Rebalance.plain).run .init objectRun = some d ∧
      d.jobs.get 1 = some j := ⟨_, _, rfl, rfl⟩
  exact ⟨d, j, h, hk, (no_deadlock h).1 1 j hk⟩

end HeadlessAndroid.BinderNodes
