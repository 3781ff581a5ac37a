import HeadlessAndroid.BinderHolders

/-!
# HeadlessAndroid.BinderFrames — what a change of the driver leaves alone

Each clause of the invariant is about one node or one process.  The rules here say what of the driver
and of the tokens such a clause looks at, so that a step has to be checked only where it works.
-/

namespace HeadlessAndroid.BinderNodes

open Lib Lib.SearchTree

variable {x : Option ℕ} {T T' : Multiset Token} {d d' : Driver}

/-! ### Tokens -/

/-- What the tokens look at. -/
structure SameOwners (d d' : Driver) : Prop where
  node : ∀ n node, d.nodes.get n = some node → ∃ node', d'.nodes.get n = some node' ∧
    node'.proc = node.proc ∧ node'.ptr = node.ptr
  proc : ∀ p P, d.procs.get p = some P → ∃ P', d'.procs.get p = some P' ∧
    (P'.phase = .running ↔ P.phase = .running)
  new : ∀ p, d.procs.get p = none → d'.running p = false
  length : d.nodes.length ≤ d'.nodes.length
  old : ∀ n node', d'.nodes.get n = some node' → n < d.nodes.length → ∃ node,
    d.nodes.get n = some node ∧ node'.proc = node.proc ∧ node'.ptr = node.ptr

theorem SameOwners.running (h : SameOwners d d') (p : ℕ) : d'.running p = d.running p := by
  rw [Bool.eq_iff_iff, Driver.running_iff, Driver.running_iff]
  cases hP : d.procs.get p with
  | none =>
    have hno := h.new p hP
    constructor
    · intro hr
      rw [← Driver.running_iff, hno] at hr
      cases hr
    · rintro ⟨P, hP', -⟩
      cases hP'
  | some P =>
    obtain ⟨P', hP', hr⟩ := h.proc p P hP
    rw [hP']
    simp [hr]

theorem SameOwners.belongs (h : SameOwners d d') {node node' : BinderNode} {p : ℕ}
    (hp : node'.proc = node.proc) (hb : d.Belongs node p) : d'.Belongs node' p := by
  unfold Driver.Belongs at *
  rw [hp, h.running]
  exact hb

theorem Driver.Foreign.mono (h : SameOwners d d') {ref : BinderRef} (hf : d.Foreign ref) :
    d'.Foreign ref := by
  obtain ⟨node, hn, hp⟩ := hf
  obtain ⟨node', hn', hp', -⟩ := h.node ref.node node hn
  exact ⟨node', hn', hp' ▸ hp⟩

theorem Token.Valid.mono (h : SameOwners d d') {k : Token} (hk : k.Valid d) : k.Valid d' := by
  cases k with
  | tmp n =>
    obtain ⟨node, hn⟩ := Option.isSome_iff_exists.mp hk
    obtain ⟨node', hn', -⟩ := h.node n node hn
    simp [Token.Valid, hn']
  | target n p =>
    refine ⟨lt_of_lt_of_le hk.1 h.length, fun hr => ?_, fun node' hn' => ?_⟩
    · obtain ⟨node, hn⟩ := Option.isSome_iff_exists.mp (hk.2.1 (h.running p ▸ hr))
      obtain ⟨node', hn', -⟩ := h.node n node hn
      simp [hn']
    · obtain ⟨node, hn, hp', -⟩ := h.old n node' hn' hk.1
      exact h.belongs hp' (hk.2.2 node hn)
  | object p ptr strong =>
    intro hr
    obtain ⟨n, node, hn, hp, hptr⟩ := hk (h.running p ▸ hr)
    obtain ⟨node', hn', hp', hptr'⟩ := h.node n node hn
    exact ⟨n, node', hn', hp'.trans hp, hptr'.trans hptr⟩
  | handle p desc strong => trivial
  | proc p =>
    obtain ⟨P, hP⟩ := Option.isSome_iff_exists.mp hk
    obtain ⟨P', hP', -⟩ := h.proc p P hP
    simp [Token.Valid, hP']
  | own p => exact (h.running p).trans hk
  | bound n p ptr =>
    refine ⟨lt_of_lt_of_le hk.1 h.length, fun node' hn' => ?_⟩
    obtain ⟨node, hn, hp', hptr'⟩ := h.old n node' hn' hk.1
    obtain ⟨hp, hptr⟩ := hk.2 node hn
    exact ⟨h.belongs hp' hp, fun y hy => hptr'.trans (hptr y hy)⟩

/-! ### Nodes -/

theorem seen_congr {P P' : BinderProc} (h : P'.told = P.told) {ptr : ℕ}
    {o : Option (Bool × Bool)} (ho : o ∈ P'.view ptr) : o ∈ P.view ptr := by
  rwa [BinderProc.view, h] at ho

/-- What the clause of the node `n` looks at, but for the tokens. -/
structure SameNode (d d' : Driver) (n : ℕ) (node : BinderNode) : Prop where
  refs : ∀ r, (∃ ref, d'.refs.get r = some ref ∧ ref.node = n) ↔
    ∃ ref, d.refs.get r = some ref ∧ ref.node = n
  strongOn : d'.strongOn n = d.strongOn n
  counted : d'.counted n → d.counted n
  proc : ∀ p P, node.proc = some p → d.procs.get p = some P → ∃ P', d'.procs.get p = some P' ∧
    (n ∈ inorder P.nodes ∨ P.phase = .node n → n ∈ inorder P'.nodes ∨ P'.phase = .node n) ∧
    (P'.phase = .running → P.phase = .running ∧ ∀ o ∈ P'.view node.ptr, o ∈ P.view node.ptr)
  taken : d'.taken n node = d.taken n node
  mgr : d'.mgrCount n = d.mgrCount n
  drops : d'.lateDrops = 0 → d.lateDrops = 0
  lost : d'.lostWork = 0 → d.lostWork = 0

theorem NodeOk.congr {n : ℕ} {node : BinderNode} (h : NodeOk T d n node) (hd : SameNode d d' n node)
    (htmp : T'.count (.tmp n) = T.count (.tmp n))
    (htok : ∀ p, node.proc = some p → d'.running p = true →
      T'.count (.target n p) = T.count (.target n p) ∧
        ∀ s, T'.count (.object p node.ptr s) = T.count (.object p node.ptr s)) :
    NodeOk T' d' n node where
  tmp := by rw [hd.taken, htmp]; exact h.tmp
  internal := by rw [hd.strongOn]; exact h.internal
  nodup := h.nodup
  refs r := by rw [hd.refs]; exact h.refs r
  owner p hp := by
    obtain ⟨P, hP, hin⟩ := h.owner p hp
    obtain ⟨P', hP', hin', -⟩ := hd.proc p P hp hP
    exact ⟨P', hP', hin' hin⟩
  owned p P' hp hP' hr := by
    obtain ⟨P, hP, -⟩ := h.owner p hp
    obtain ⟨P'', hP'', -, hrun⟩ := hd.proc p P hp hP
    cases hP'.symm.trans hP''
    obtain ⟨hrP, htold⟩ := hrun hr
    have ho := h.owned p P hp hP hrP
    obtain ⟨htarget, hobject⟩ := htok p hp (Driver.running_iff.mpr ⟨P', hP', hr⟩)
    refine ⟨?_, ?_, ho.strong_weak, ho.pending_strong, ho.pending_weak, ?_, ?_, ?_⟩
    · rw [htarget, hobject, hd.mgr]
      exact ho.strong
    · rw [hobject, hd.mgr]
      exact ho.weak
    · rw [hd.mgr]
      exact fun o hseen => ho.told o (htold o hseen)
    · rw [hd.mgr]
      exact ho.manager
    · intro hl hwraps hw
      obtain ⟨h1, h2, h3⟩ := ho.due (hd.lost hl) hwraps hw
      exact ⟨h1, fun hc => h2 (hd.counted hc), h3⟩
  dead hp := by
    obtain ⟨hw, h1, h2, h3⟩ := h.dead hp
    exact ⟨hw, h1, h2, fun hl => h3 (hd.drops hl)⟩
  work := h.work

/-- Nothing changes but nodes and jobs. -/
theorem SameNode.of_nodes {n : ℕ} {node : BinderNode} (hrefs : d'.refs = d.refs)
    (hprocs : d'.procs = d.procs) (hmgr : d'.contextMgrNode = d.contextMgrNode)
    (hdrops : d'.lateDrops = 0 → d.lateDrops = 0) (hlost : d'.lostWork = 0 → d.lostWork = 0) :
    SameNode d d' n node where
  refs r := by rw [hrefs]
  strongOn := by simp [Driver.strongOn, hrefs]
  counted := by simp [Driver.counted, hrefs]
  proc p P _ hP := ⟨P, hprocs ▸ hP, id, fun hr => ⟨hr, fun _ => id⟩⟩
  taken := by simp [Driver.taken, hprocs]
  mgr := by simp [Driver.mgrCount, hmgr]
  drops := hdrops
  lost := hlost

/-! ### Processes -/

/-- What the clause of the process `p` looks at, but for its own record and the tokens. -/
structure SameProc (d d' : Driver) (p : ℕ) : Prop where
  node : ∀ n node, d.nodes.get n = some node → node.proc = some p → ∃ node',
    d'.nodes.get n = some node' ∧ node'.proc = some p ∧ node'.ptr = node.ptr
  refs : ∀ r ref, d'.refs.get r = some ref ∧ ref.proc = p ↔ d.refs.get r = some ref ∧ ref.proc = p
  late : d'.lateFailures = 0 → d.lateFailures = 0

theorem SameProc.ptrOf {p : ℕ} {P : BinderProc} (hd : SameProc d d' p) (h : ProcOk T d p P) {n : ℕ}
    (hn : n ∈ inorder P.nodes) : d'.ptrOf n = d.ptrOf n := by
  obtain ⟨node, hget, hp⟩ := h.mem_nodes n hn
  obtain ⟨node', hget', -, hptr⟩ := hd.node n node hget hp
  simp [Driver.ptrOf, hget, hget', hptr]

theorem SameProc.ref {p r : ℕ} {ref : BinderRef} (hd : SameProc d d' p)
    (hr : d.refs.get r = some ref) (hp : ref.proc = p) : d'.refs.get r = some ref :=
  ((hd.refs r ref).mpr ⟨hr, hp⟩).1

theorem SameProc.exists_ref {p : ℕ} (hd : SameProc d d' p) (r : ℕ) :
    (∃ ref, d'.refs.get r = some ref ∧ ref.proc = p) ↔
      ∃ ref, d.refs.get r = some ref ∧ ref.proc = p :=
  exists_congr fun ref => hd.refs r ref

theorem LockOk.congr {p : ℕ} {P P' : BinderProc} {l : Locked} (h : LockOk d p P l)
    (hd : SameProc d d' p) (hphase : P.phase = .running → P'.phase = .running) :
    LockOk d' p P' l := by
  obtain ⟨hjob, ref, hr, hp, hz⟩ := h
  exact ⟨fun hj => hphase (hjob hj), ref, hd.ref hr hp, hp, hz⟩

/-- The record of `p` may change but for what the trees and the lock say. -/
theorem ProcOk.congr {p : ℕ} {P P' : BinderProc} (h : ProcOk T d p P) (hd : SameProc d d' p)
    (htmp : P'.tmpRef = T'.count (.proc p) + P'.phase.holds)
    (hhandle : ∀ desc s, T.count (.handle p desc s) ≤ T'.count (.handle p desc s))
    (hnodes : P'.nodes = P.nodes) (hdesc : P'.refsByDesc = P.refsByDesc)
    (hbyNode : P'.refsByNode = P.refsByNode) (hphase : P'.phase = P.phase)
    (hlock : P'.outerLock = P.outerLock)
    (htold : P'.told = P.told ∨ ∀ ptr, (∀ n ∈ inorder P.nodes, d.ptrOf n ≠ some ptr) →
      ∀ o ∈ P'.view ptr, o ∈ P.view ptr) : ProcOk T' d' p P' where
  tmpRef := htmp
  nodes := by
    rw [hnodes]
    exact h.nodes.congr fun n hn => hd.ptrOf h hn
  mem_nodes n hn := by
    rw [hnodes] at hn
    obtain ⟨node, hget, hp⟩ := h.mem_nodes n hn
    obtain ⟨node', hget', hp', -⟩ := hd.node n node hget hp
    exact ⟨node', hget', hp'⟩
  taken n hn := by
    rw [hphase] at hn
    obtain ⟨hnot, node, hget, hp⟩ := h.taken n hn
    obtain ⟨node', hget', hp', -⟩ := hd.node n node hget hp
    exact ⟨hnodes ▸ hnot, node', hget', hp'⟩
  gone := by rw [hphase, hnodes]; exact h.gone
  desc := by
    rw [hdesc]
    refine h.desc.congr fun r hr => ?_
    obtain ⟨ref, hget, hp⟩ := (h.mem_desc r).mp hr
    simp [Driver.descOf, hget, hd.ref hget hp]
  byNode := by
    rw [hbyNode]
    refine h.byNode.congr fun r hr => ?_
    obtain ⟨ref, hget, hp⟩ := (h.mem_byNode r).mp hr
    simp [Driver.nodeOf, hget, hd.ref hget hp]
  mem_desc r := by rw [hdesc, h.mem_desc r, hd.exists_ref]
  mem_byNode r := by rw [hbyNode, h.mem_byNode r, hd.exists_ref]
  lock l hl := (h.lock l (hlock ▸ hl)).congr hd fun hr => hphase.trans hr
  told hr ptr hnot := by
    have hnot' : ∀ n ∈ inorder P.nodes, d.ptrOf n ≠ some ptr := by
      intro n hn
      rw [← hd.ptrOf h hn]
      exact hnot n (hnodes ▸ hn)
    have hold := h.told (hphase ▸ hr) ptr hnot'
    rcases htold with htold | htold
    · rw [BinderProc.view, htold]
      exact hold
    · exact fun o hseen => hold o (htold ptr hnot' o hseen)
  late hr r ref hget hp := by
    obtain ⟨hget, -⟩ := (hd.refs r ref).mp ⟨hget, hp⟩
    obtain ⟨h1, h2, h3⟩ := h.late (hphase ▸ hr) r ref hget hp
    refine ⟨h1.trans (hhandle _ _), h2.trans (hhandle _ _), fun hl => ?_⟩
    rw [hlock]
    exact h3 (hd.late hl)

/-! ### What no clause looks at -/

/-- The tokens that are not counted anywhere. -/
def Token.Loose : Token → Prop
  | .own _ | .bound _ _ _ => True
  | _ => False

/-- Loose tokens come and go as long as what they say is true. -/
theorem Inv.retoken (h : Inv x T d) (hc : ∀ k, ¬ k.Loose → T'.count k = T.count k)
    (hv : ∀ k ∈ T', k.Loose → k.Valid d) : Inv x T' d where
  node n node hn := (h.node n node hn).congr (.of_nodes rfl rfl rfl id id) (hc _ id)
    fun _ _ _ => ⟨hc _ id, fun _ => hc _ id⟩
  kept := h.kept
  ref := h.ref
  proc p P hP := by
    have hok := h.proc p P hP
    refine hok.congr ⟨fun n node hn hp => ⟨node, hn, hp, rfl⟩, fun _ _ => Iff.rfl, id⟩ ?_
      (fun _ _ => (hc _ id).ge) rfl rfl rfl rfl rfl (.inl rfl)
    rw [hc _ id]
    exact hok.tmpRef
  token k hk := by
    by_cases hl : k.Loose
    · exact hv k hk hl
    · exact h.token k (Multiset.count_pos.mp (hc k hl ▸ Multiset.count_pos.mpr hk))
  mgr := h.mgr
  live := h.live
  crashed := h.crashed

/-- Only jobs change, and counters go up. -/
structure SameCore (d d' : Driver) : Prop where
  nodes : d'.nodes = d.nodes
  refs : d'.refs = d.refs
  procs : d'.procs = d.procs
  mgr : d'.contextMgrNode = d.contextMgrNode
  crashed : d'.crashed = d.crashed
  stale : d'.lateFailures = 0 → d'.stale = d.stale
  failures : d'.lateFailures = 0 → d.lateFailures = 0
  drops : d'.lateDrops = 0 → d.lateDrops = 0
  lost : d'.lostWork = 0 → d.lostWork = 0

theorem SameCore.owners (h : SameCore d d') : SameOwners d d' where
  node n node hn := ⟨node, h.nodes ▸ hn, rfl, rfl⟩
  proc p P hP := ⟨P, h.procs ▸ hP, Iff.rfl⟩
  new p hp := by rw [Driver.running, h.procs, hp]; rfl
  length := by rw [h.nodes]
  old n node hn _ := ⟨node, h.nodes ▸ hn, rfl, rfl⟩

theorem Inv.congr (h : Inv x T d) (hd : SameCore d d') : Inv x T d' where
  node n node hn := (h.node n node (hd.nodes ▸ hn)).congr
    (.of_nodes hd.refs hd.procs hd.mgr hd.drops hd.lost) rfl fun _ _ _ => ⟨rfl, fun _ => rfl⟩
  kept n node hn := h.kept n node (hd.nodes ▸ hn)
  ref r ref hr := (h.ref r ref (hd.refs ▸ hr)).mono hd.owners
  proc p P hP := by
    have hok := h.proc p P (hd.procs ▸ hP)
    refine hok.congr ⟨fun n node hn hp => ⟨node, hd.nodes ▸ hn, hp, rfl⟩, fun r ref => ?_,
      hd.failures⟩ hok.tmpRef (fun _ _ => le_rfl) rfl rfl rfl rfl rfl (.inl rfl)
    rw [hd.refs]
  token k hk := (h.token k hk).mono hd.owners
  mgr n hn := by
    obtain ⟨node, p, hget, hp, hr⟩ := h.mgr n (hd.mgr ▸ hn)
    exact ⟨node, p, hd.nodes ▸ hget, hp, (hd.owners.running p).trans hr⟩
  live hl := by
    rw [hd.stale hl, hd.refs, hd.procs]
    exact h.live (hd.failures hl)
  crashed := hd.crashed.trans h.crashed

end HeadlessAndroid.BinderNodes
