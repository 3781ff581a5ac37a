import HeadlessAndroid.BinderFrames

/-!
# HeadlessAndroid.BinderMoves — steps at one node

A step under the lock of a node moves tokens to or from that node (`Moves`).  `Inv.setNode` is the one
rule for all of them; a node that nothing keeps any more is then freed (`Inv.freeNode`).
-/

namespace HeadlessAndroid.BinderNodes

open Lib Lib.SearchTree

variable {x x' : Option ℕ} {T T' : Multiset Token} {d d' : Driver} {n : ℕ}
  {node node' : BinderNode}

/-- `T` and `T'` agree on everything but the node `n`. -/
structure Elsewhere (d : Driver) (n : ℕ) (node : BinderNode) (T T' : Multiset Token) : Prop where
  tmp : ∀ m, m ≠ n → T'.count (.tmp m) = T.count (.tmp m)
  target : ∀ m p, m ≠ n → T'.count (.target m p) = T.count (.target m p)
  object : ∀ p ptr s, d.running p = true → (node.proc = some p → node.ptr ≠ ptr) →
    T'.count (.object p ptr s) = T.count (.object p ptr s)
  proc : ∀ p, T'.count (.proc p) = T.count (.proc p)
  handle : ∀ p desc s, T'.count (.handle p desc s) = T.count (.handle p desc s)

/-- A step at the node `n` makes `T'` of `T`. -/
structure Moves (d : Driver) (n : ℕ) (node : BinderNode) (T T' : Multiset Token) : Prop
    extends Elsewhere d n node T T' where
  valid : ∀ k ∈ T', k ∈ T ∨ k.Valid d

theorem Elsewhere.symm (h : Elsewhere d n node T T') : Elsewhere d n node T' T :=
  ⟨fun m hm => (h.tmp m hm).symm, fun m p hm => (h.target m p hm).symm,
    fun p ptr s hr hp => (h.object p ptr s hr hp).symm, fun p => (h.proc p).symm,
    fun p desc s => (h.handle p desc s).symm⟩

theorem Elsewhere.trans {T'' : Multiset Token} (h : Elsewhere d n node T T')
    (h' : Elsewhere d n node T' T'') : Elsewhere d n node T T'' :=
  ⟨fun m hm => (h'.tmp m hm).trans (h.tmp m hm),
    fun m p hm => (h'.target m p hm).trans (h.target m p hm),
    fun p ptr s hr hp => (h'.object p ptr s hr hp).trans (h.object p ptr s hr hp),
    fun p => (h'.proc p).trans (h.proc p),
    fun p desc s => (h'.handle p desc s).trans (h.handle p desc s)⟩

theorem Moves.refl (d : Driver) (n : ℕ) (node : BinderNode) (T : Multiset Token) :
    Moves d n node T T :=
  ⟨⟨fun _ _ => rfl, fun _ _ _ => rfl, fun _ _ _ _ _ => rfl, fun _ => rfl, fun _ _ _ => rfl⟩,
    fun _ hk => Or.inl hk⟩

theorem Moves.trans {T'' : Multiset Token} (h : Moves d n node T T') (h' : Moves d n node T' T'') :
    Moves d n node T T'' where
  toElsewhere := h.toElsewhere.trans h'.toElsewhere
  valid k hk := by
    rcases h'.valid k hk with hk | hv
    · exact h.valid k hk
    · exact Or.inr hv

theorem Inv.valid (h : Inv x T d) (hM : Moves d n node T T') : ∀ k ∈ T', k.Valid d := by
  intro k hk
  rcases hM.valid k hk with hT | hv
  · exact h.token k hT
  · exact hv

/-- What is taken depends on the phases alone. -/
theorem taken_congr (hphase : ∀ p, (d'.procs.get p).map BinderProc.phase =
    (d.procs.get p).map BinderProc.phase) (n : ℕ) (node : BinderNode) :
    d'.taken n node = d.taken n node := by
  unfold Driver.taken
  cases hp : node.proc with
  | none => rfl
  | some p =>
    have hany : ∀ o : Option BinderProc, (o.any fun P => P.phase == .node n) =
        (o.map BinderProc.phase).any (· == .node n) := by
      intro o
      cases o <;> rfl
    rw [Option.bind_some, Option.bind_some, hany, hany, hphase]

/-- The node `n` gets a new record, and no node changes its process or its address. -/
structure Here (d d' : Driver) (n : ℕ) (node node' : BinderNode) : Prop where
  nodes : d'.nodes = d.nodes.put n (some node')
  ptr : node'.ptr = node.ptr
  proc : node'.proc = node.proc
  phase : ∀ p, (d'.procs.get p).map BinderProc.phase = (d.procs.get p).map BinderProc.phase

section Here

variable (hd : Here d d' n node node') (hn : d.nodes.get n = some node)

include hd

theorem Here.proc_some {p : ℕ} {P : BinderProc} (hP : d.procs.get p = some P) :
    ∃ P', d'.procs.get p = some P' ∧ P'.phase = P.phase := by
  have hphase := hd.phase p
  rw [hP] at hphase
  cases hP' : d'.procs.get p with
  | none => simp [hP'] at hphase
  | some P' =>
    rw [hP'] at hphase
    exact ⟨P', rfl, Option.some.inj hphase⟩

theorem Here.taken : d'.taken n node' = d.taken n node := by
  rw [← taken_congr hd.phase n node]
  unfold Driver.taken
  rw [hd.proc]

include hn

theorem Here.get (m : ℕ) : d'.nodes.get m = if m = n then some node' else d.nodes.get m := by
  rw [hd.nodes, Slots.get_put hn]

theorem Here.owners : SameOwners d d' where
  node m nodem hm := by
    rw [hd.get hn]
    split_ifs with hmn
    · rw [hmn, hn] at hm
      cases hm
      exact ⟨node', rfl, hd.proc, hd.ptr⟩
    · exact ⟨nodem, hm, rfl, rfl⟩
  proc p P hP := by
    obtain ⟨P', hP', hphase⟩ := hd.proc_some hP
    exact ⟨P', hP', by rw [hphase]⟩
  new p hp := by
    have hP' : d'.procs.get p = none := by simpa [hp] using hd.phase p
    simp [Driver.running, hP']
  length := by simp [hd.nodes, Slots.put]
  old m nodem' hm _ := by
    rw [hd.get hn] at hm
    split_ifs at hm with hmn
    · cases hm
      exact ⟨node, hmn ▸ hn, hd.proc, hd.ptr⟩
    · exact ⟨nodem', hm, rfl, rfl⟩

theorem Here.owned_node (p : ℕ) : ∀ m nodem, d.nodes.get m = some nodem → nodem.proc = some p →
    ∃ nodem', d'.nodes.get m = some nodem' ∧ nodem'.proc = some p ∧ nodem'.ptr = nodem.ptr := by
  intro m nodem hm hp
  obtain ⟨nodem', hm', hp', hptr'⟩ := (hd.owners hn).node m nodem hm
  exact ⟨nodem', hm', hp'.trans hp, hptr'⟩

/-- What a step at the node `n` has to show: its own clause, that the other nodes look at nothing that
changes, and the clauses of the processes. -/
theorem Inv.here (h : Inv x T d) (hM : Moves d n node T T') (hok : NodeOk T' d' n node')
    (hother : ∀ m nodem, m ≠ n → d.nodes.get m = some nodem →
      (∀ p, nodem.proc = some p → d.running p = true → node.proc = some p →
        node.ptr ≠ nodem.ptr) → SameNode d d' m nodem)
    (hkept : x' ≠ some n → node'.Kept) (hx : ∀ m, m ≠ n → x' ≠ some m → x ≠ some m)
    (href : ∀ r ref, d'.refs.get r = some ref → d.Foreign ref)
    (hproc : ∀ p P, d'.procs.get p = some P → ProcOk T' d' p P)
    (hmgr : ∀ m, d'.contextMgrNode = some m → d.contextMgrNode = some m ∨
      m = n ∧ ∃ p, node.proc = some p ∧ d.running p = true)
    (hlive : d'.lateFailures = 0 →
      d'.stale = false ∧ ∀ r ref, d'.refs.get r = some ref → (d'.procs.get ref.proc).isSome)
    (hcrashed : d'.crashed = false) : Inv x' T' d' := by
  have hget := hd.get hn
  have howners := hd.owners hn
  have hdiff : ∀ m nodem, m ≠ n → d.nodes.get m = some nodem → ∀ p, nodem.proc = some p →
      d.running p = true → node.proc = some p → node.ptr ≠ nodem.ptr := by
    intro m nodem hmn hm p hp hr hnp hptr'
    obtain ⟨P, hP, hrun⟩ := Driver.running_iff.mp hr
    exact hmn (h.ptr_inj hP hrun hn hm hnp hp hptr').symm
  refine ⟨?_, ?_, ?_, hproc, ?_, ?_, hlive, hcrashed⟩
  · intro m nodem hm
    rw [hget] at hm
    split_ifs at hm with hmn
    · cases hm
      exact hmn ▸ hok
    · have hptr' := hdiff m nodem hmn hm
      refine (h.node m nodem hm).congr (hother m nodem hmn hm hptr') (hM.tmp m hmn) ?_
      intro p hp hr
      rw [howners.running] at hr
      exact ⟨hM.target m p hmn, fun s => hM.object p _ s hr (hptr' p hp hr)⟩
  · intro m nodem hm hxm
    rw [hget] at hm
    split_ifs at hm with hmn
    · cases hm
      exact hkept (hmn ▸ hxm)
    · exact h.kept m nodem hm (hx m hmn hxm)
  · exact fun r ref hr => (href r ref hr).mono howners
  · exact fun k hk => (h.valid hM k hk).mono howners
  · intro m hm
    rcases hmgr m hm with hm | ⟨rfl, p, hp, hr⟩
    · obtain ⟨nodem, p, hgetm, hp, hr⟩ := h.mgr m hm
      obtain ⟨nodem', hgetm', hp', -⟩ := howners.node m nodem hgetm
      exact ⟨nodem', p, hgetm', hp'.trans hp, (howners.running p).trans hr⟩
    · exact ⟨node', p, by rw [hget, if_pos rfl], hd.proc.trans hp, (howners.running p).trans hr⟩

end Here

theorem here_setNode (hptr : node'.ptr = node.ptr) (hproc : node'.proc = node.proc) :
    Here d (d.setNode n node') n node node' :=
  ⟨rfl, hptr, hproc, fun _ => rfl⟩

/-- What a step under the lock of the node `n` has to show. -/
theorem Inv.setNode (h : Inv x T d) (hn : d.nodes.get n = some node)
    (hptr : node'.ptr = node.ptr) (hproc : node'.proc = node.proc)
    (hrefs : node'.refs = node.refs) (hint : node'.internalStrongRefs = node.internalStrongRefs)
    (hwraps : node'.wraps = node.wraps) (hM : Moves d n node T T')
    (htmp : node'.tmpRefs - T'.count (.tmp n) = node.tmpRefs - T.count (.tmp n))
    (howned : ∀ p P, node.proc = some p → d.procs.get p = some P → P.phase = .running →
      Owned T d n node p P → Owned T' d n node' p P)
    (hdead : node.proc = none → node.work = none ∧ node.localWeakRefs ≤ 0 ∧
      node.localStrongRefs ≤ 0 ∧
        (d.lateDrops = 0 → node.localWeakRefs = 0 ∧ node.localStrongRefs = 0) →
      node'.work = none ∧ node'.localWeakRefs ≤ 0 ∧ node'.localStrongRefs ≤ 0 ∧
        (d.lateDrops = 0 → node'.localWeakRefs = 0 ∧ node'.localStrongRefs = 0))
    (hwork : ∀ q, node'.work = some q → node.proc = some q.proc)
    (hkept : x' ≠ some n → node'.Kept) (hx : ∀ m, m ≠ n → x' ≠ some m → x ≠ some m) :
    Inv x' T' (d.setNode n node') := by
  have hd := here_setNode (d := d) (n := n) hptr hproc
  have hok := h.node n node hn
  refine h.here hd hn hM ?_ (fun m nodem _ _ _ => .of_nodes rfl rfl rfl id id) hkept hx h.ref ?_
    (fun m hm => Or.inl hm) h.live h.crashed
  · refine ⟨?_, hint.trans (hwraps ▸ hok.internal), hrefs ▸ hok.nodup, fun r => hrefs ▸ hok.refs r,
      fun p hp => hok.owner p (hproc ▸ hp), fun p P hp hP hr => ?_,
      fun hp => hdead (hproc ▸ hp) (hok.dead (hproc ▸ hp)), fun q hq => hproc ▸ hwork q hq⟩
    · rw [hd.taken]
      have := hok.tmp
      omega
    · rw [hproc] at hp
      obtain ⟨h1, h2, h3, h4, h5, h6, h7, h8⟩ := howned p P hp hP hr (hok.owned p P hp hP hr)
      exact ⟨h1, h2, h3, h4, h5, h6, h7, h8⟩
  · intro p P hP
    refine (h.proc p P hP).congr ⟨hd.owned_node hn p, fun _ _ => Iff.rfl, id⟩ ?_ ?_
      rfl rfl rfl rfl rfl (.inl rfl)
    · rw [hM.proc]
      exact (h.proc p P hP).tmpRef
    · exact fun desc s => (hM.handle p desc s).ge

/-! ### Freeing a node -/

/-- Nothing changes but nodes, and the trees that they are in. -/
structure Frame (d d' : Driver) : Prop where
  jobs : d'.jobs = d.jobs
  refs : d'.refs = d.refs
  length : d'.procs.length = d.procs.length
  proc : ∀ p, (d'.procs.get p).map (fun P => (P.phase, P.outerLock)) =
    (d.procs.get p).map fun P => (P.phase, P.outerLock)

theorem Frame.refl (d : Driver) : Frame d d := ⟨rfl, rfl, rfl, fun _ => rfl⟩

theorem Frame.trans {d'' : Driver} (h : Frame d d') (h' : Frame d' d'') : Frame d d'' :=
  ⟨h'.jobs.trans h.jobs, h'.refs.trans h.refs, h'.length.trans h.length, fun p => (h'.proc p).trans (h.proc p)⟩

theorem frame_setNode (d : Driver) (n : ℕ) (node : BinderNode) : Frame d (d.setNode n node) :=
  ⟨rfl, rfl, rfl, fun _ => rfl⟩

theorem Frame.proc_some (h : Frame d d') {p : ℕ} {P : BinderProc} (hP : d.procs.get p = some P) :
    ∃ P', d'.procs.get p = some P' ∧ P'.phase = P.phase ∧ P'.outerLock = P.outerLock := by
  have hp := h.proc p
  rw [hP] at hp
  cases hP' : d'.procs.get p with
  | none => simp [hP'] at hp
  | some P' =>
    rw [hP'] at hp
    obtain ⟨h1, h2⟩ := Prod.mk.inj (Option.some.inj hp)
    exact ⟨P', rfl, h1, h2⟩

theorem Frame.symm (h : Frame d d') : Frame d' d :=
  ⟨h.jobs.symm, h.refs.symm, h.length.symm, fun p => (h.proc p).symm⟩

theorem Frame.running (h : Frame d d') (p : ℕ) : d'.running p = d.running p := by
  rw [Bool.eq_iff_iff, Driver.running_iff, Driver.running_iff]
  constructor
  · rintro ⟨P, hP, hr⟩
    obtain ⟨P', hP', hphase, -⟩ := h.symm.proc_some hP
    exact ⟨P', hP', hphase.trans hr⟩
  · rintro ⟨P, hP, hr⟩
    obtain ⟨P', hP', hphase, -⟩ := h.proc_some hP
    exact ⟨P', hP', hphase.trans hr⟩

theorem Driver.mgrCount_eq_zero : d.mgrCount n = 0 ↔ d.contextMgrNode ≠ some n := by
  simp [Driver.mgrCount]

/-- Nothing that is held is about the node, and its owner knows of no reference on it. -/
structure Unheld (T : Multiset Token) (d : Driver) (n : ℕ) (node : BinderNode) : Prop where
  tmp : .tmp n ∉ T
  ref : ∀ r ref, d.refs.get r = some ref → ref.node ≠ n
  target : ∀ p, node.proc = some p → d.running p = true → .target n p ∉ T
  object : ∀ p s, node.proc = some p → d.running p = true → .object p node.ptr s ∉ T
  mgr : ∀ p, node.proc = some p → d.running p = true → d.contextMgrNode ≠ some n
  view : ∀ p P, node.proc = some p → d.procs.get p = some P → P.phase = .running →
    ∀ o ∈ P.view node.ptr, o = some (false, false)

/-- No token is about a node that nothing keeps. -/
theorem Inv.unheld (h : Inv x T d) (hn : d.nodes.get n = some node)
    (hr : node.refless = true) (hk : node.known = false) : Unheld T d n node := by
  obtain ⟨hrefs, hls, hlw, htmp⟩ := BinderNode.refless_iff.mp hr
  have hok := h.node n node hn
  have hzero : ∀ p, node.proc = some p → d.running p = true → T.count (.target n p) = 0 ∧
      (∀ s, T.count (.object p node.ptr s) = 0) ∧ d.mgrCount n = 0 := by
    intro p hp hrun
    obtain ⟨P, hP, hphase⟩ := Driver.running_iff.mp hrun
    have ho := hok.owned p P hp hP hphase
    have hs := ho.strong
    have hw := ho.weak
    refine ⟨by omega, fun s => ?_, by omega⟩
    cases s <;> omega
  refine ⟨?_, ?_, ?_, ?_, ?_, ?_⟩
  · have := hok.tmp
    rw [← Multiset.count_eq_zero]
    omega
  · rintro r ref hget rfl
    have hmem := (hok.refs r).mpr ⟨ref, hget, rfl⟩
    rw [hrefs] at hmem
    cases hmem
  · exact fun p hp hrun => Multiset.count_eq_zero.mp (hzero p hp hrun).1
  · exact fun p s hp hrun => Multiset.count_eq_zero.mp ((hzero p hp hrun).2.1 s)
  · exact fun p hp hrun => Driver.mgrCount_eq_zero.mp (hzero p hp hrun).2.2
  · intro p P hp hP hphase o hseen
    have hflags : node.hasStrongRef = false ∧ node.hasWeakRef = false := by
      simpa [BinderNode.known, hp] using hk
    obtain ⟨v, rfl, hv⟩ := (hok.owned p P hp hP hphase).told o hseen
    rw [hv (hzero p hp (Driver.running_iff.mpr ⟨P, hP, hphase⟩)).2.2, hflags.1, hflags.2]

/-- The node is out of the tree of its process and out of memory. -/
structure Freed (d d' : Driver) (n : ℕ) : Prop where
  nodes : d'.nodes = d.nodes.put n none
  length : d'.procs.length = d.procs.length
  rest : d' = { d with nodes := d'.nodes, procs := d'.procs }
  none : ∀ p, d.procs.get p = none → d'.procs.get p = none
  some : ∀ p P, d.procs.get p = some P → ∃ t, d'.procs.get p = some { P with nodes := t } ∧
    Keyed d.ptrOf t ∧ ∀ m, m ∈ inorder t ↔ m ≠ n ∧ m ∈ inorder P.nodes

theorem Inv.freed (rb : Rebalance ℕ) (h : Inv x T d) (hn : d.nodes.get n = some node)
    (hproc : node'.proc = node.proc) : ∃ d', freeNode rb d n node' = some d' ∧ Freed d d' n := by
  -- the node is in no other tree
  have hother : ∀ q Q, d.procs.get q = some Q → node.proc ≠ some q →
      ∀ m, m ∈ inorder Q.nodes ↔ m ≠ n ∧ m ∈ inorder Q.nodes := by
    intro q Q hQ hne m
    refine ⟨fun hm => ⟨?_, hm⟩, fun hm => hm.2⟩
    rintro rfl
    obtain ⟨nodem, hgetm, hp⟩ := (h.proc q Q hQ).mem_nodes m hm
    rw [hn] at hgetm
    cases hgetm
    exact hne hp
  unfold BinderNodes.freeNode
  rw [hproc]
  cases hp : node.proc with
  | none =>
    refine ⟨_, rfl, rfl, rfl, rfl, fun _ hq => hq, fun q Q hQ => ⟨Q.nodes, hQ, ?_, ?_⟩⟩
    · exact (h.proc q Q hQ).nodes
    · exact hother q Q hQ (by simp [hp])
  | some p =>
    obtain ⟨P, hP, -⟩ := (h.node n node hn).owner p hp
    have hput : ∀ q, Slots.get (Slots.put d.procs p
        (some { P with nodes := rb.erase n P.nodes })) q =
          if q = p then some { P with nodes := rb.erase n P.nodes } else d.procs.get q :=
      fun q => Slots.get_put hP _ q
    have hkeyed := (h.proc p P hP).nodes
    refine ⟨_, by simp [hP]; rfl, rfl, List.length_set, rfl, fun q hq => ?_, fun q Q hQ => ?_⟩
    · refine (hput q).trans ?_
      rw [if_neg, hq]
      rintro rfl
      rw [hP] at hq
      cases hq
    · by_cases hqp : q = p
      · subst hqp
        rw [hP] at hQ
        cases hQ
        exact ⟨_, (hput q).trans (if_pos rfl), hkeyed.erase rb n, hkeyed.mem_erase rb n⟩
      · refine ⟨Q.nodes, (hput q).trans ((if_neg hqp).trans hQ), (h.proc q Q hQ).nodes, ?_⟩
        exact hother q Q hQ (by rw [hp]; simpa using Ne.symm hqp)

theorem Freed.get (hf : Freed d d' n) (hn : d.nodes.get n = .some node) (m : ℕ) :
    d'.nodes.get m = if m = n then .none else d.nodes.get m := by
  rw [hf.nodes, Slots.get_put hn]

theorem Freed.frame (hf : Freed d d' n) : Frame d d' := by
  refine ⟨by rw [hf.rest], by rw [hf.rest], hf.length, fun p => ?_⟩
  cases hP : d.procs.get p with
  | none => rw [hf.none p hP]
  | some P =>
    obtain ⟨t, ht, -⟩ := hf.some p P hP
    rw [ht]
    rfl

theorem Freed.sameNode (hf : Freed d d' n) {m : ℕ} {nodem : BinderNode} (hm : m ≠ n) :
    SameNode d d' m nodem where
  refs r := by rw [hf.frame.refs]
  strongOn := by simp [Driver.strongOn, hf.frame.refs]
  counted := by simp [Driver.counted, hf.frame.refs]
  proc p P _ hP := by
    obtain ⟨t, ht, -, hmem⟩ := hf.some p P hP
    exact ⟨_, ht, fun hin => hin.imp (fun hin => (hmem m).mpr ⟨hm, hin⟩) id,
      fun hr => ⟨hr, fun _ => id⟩⟩
  taken := by
    unfold Driver.taken
    cases hp : nodem.proc with
    | none => rfl
    | some p =>
      cases hP : d.procs.get p with
      | none => simp [hP, hf.none p hP]
      | some P =>
        obtain ⟨t, ht, -⟩ := hf.some p P hP
        simp [hP, ht]
  mgr := by rw [hf.rest]; rfl
  drops := by rw [hf.rest]; exact id
  lost := by rw [hf.rest]; exact id

theorem Freed.other (hf : Freed d d' n) (hn : d.nodes.get n = .some node) {m : ℕ}
    {nodem : BinderNode} (hm : d.nodes.get m = .some nodem) (hne : m ≠ n) :
    d'.nodes.get m = .some nodem := by
  rw [hf.get hn, if_neg hne, hm]

theorem Freed.isSome_proc (hf : Freed d d' n) (p : ℕ) :
    (d'.procs.get p).isSome = (d.procs.get p).isSome := by
  cases hP : d.procs.get p with
  | none => rw [hf.none p hP]
  | some P =>
    obtain ⟨t, ht, -⟩ := hf.some p P hP
    rw [ht]
    rfl

theorem Freed.belongs (hf : Freed d d' n) {nodem : BinderNode} {p : ℕ} :
    d'.Belongs nodem p ↔ d.Belongs nodem p := by
  unfold Driver.Belongs
  rw [hf.frame.running]

/-- What is held is about other nodes. -/
theorem Inv.token_freed (h : Inv x T d) (hf : Freed d d' n) (hn : d.nodes.get n = some node)
    (hu : Unheld T d n node) {k : Token} (hk : k ∈ T) : k.Valid d' := by
  have hv := h.token k hk
  have hlen : d'.nodes.length = d.nodes.length := by
    rw [hf.nodes]
    exact List.length_set
  cases k with
  | tmp m =>
    obtain ⟨nodem, hm⟩ := Option.isSome_iff_exists.mp hv
    have hmn : m ≠ n := fun he => hu.tmp (he ▸ hk)
    simp [Token.Valid, hf.other hn hm hmn]
  | target m p =>
    obtain ⟨hlt, hlive, hbel⟩ := hv
    refine ⟨hlen ▸ hlt, fun hr => ?_, fun nodem hm => ?_⟩
    · rw [hf.frame.running] at hr
      have hmn : m ≠ n := by
        rintro rfl
        rcases hbel node hn with hp | ⟨-, hp⟩
        · exact hu.target p hp hr hk
        · rw [hp] at hr
          cases hr
      rw [hf.get hn, if_neg hmn]
      exact hlive hr
    · rw [hf.get hn] at hm
      split_ifs at hm
      exact hf.belongs.mpr (hbel nodem hm)
  | object p ptr s =>
    intro hr
    rw [hf.frame.running] at hr
    obtain ⟨m, nodem, hm, hp, hptr⟩ := hv hr
    refine ⟨m, nodem, hf.other hn hm ?_, hp, hptr⟩
    rintro rfl
    cases hn.symm.trans hm
    exact hu.object p s hp hr (hptr ▸ hk)
  | handle p desc s => trivial
  | proc p => exact (hf.isSome_proc p).trans hv
  | own p => exact (hf.frame.running p).trans hv
  | bound m p ptr =>
    refine ⟨hlen ▸ hv.1, fun nodem hm => ?_⟩
    rw [hf.get hn] at hm
    split_ifs at hm
    obtain ⟨hb, hptr⟩ := hv.2 nodem hm
    exact ⟨hf.belongs.mpr hb, hptr⟩

/-- The process of the node, and the others, lose nothing but the node. -/
theorem Inv.proc_freed (h : Inv x T d) (hf : Freed d d' n) (hn : d.nodes.get n = some node)
    (hr : node.refless = true) (hu : Unheld T d n node) {p : ℕ} {P' : BinderProc}
    (hP' : d'.procs.get p = some P') : ProcOk T d' p P' := by
  have hrefs : d'.refs = d.refs := hf.frame.refs
  have hptr : ∀ m, m ≠ n → d'.ptrOf m = d.ptrOf m := by
    intro m hm
    simp [Driver.ptrOf, hf.get hn, hm]
  cases hP : d.procs.get p with
  | none =>
    rw [hf.none p hP] at hP'
    cases hP'
  | some P =>
    obtain ⟨t, ht, hkeyed, hmem⟩ := hf.some p P hP
    rw [ht] at hP'
    cases hP'
    have hok := h.proc p P hP
    refine ⟨hok.tmpRef, hkeyed.congr fun m hm => hptr m ((hmem m).mp hm).1, ?_, ?_, ?_, ?_, ?_,
      by rw [hrefs]; exact hok.mem_desc, by rw [hrefs]; exact hok.mem_byNode, ?_, ?_, ?_⟩
    · intro m hm
      obtain ⟨hmn, hm⟩ := (hmem m).mp hm
      obtain ⟨nodem, hgetm, hp⟩ := hok.mem_nodes m hm
      exact ⟨nodem, hf.other hn hgetm hmn, hp⟩
    · intro k hk
      have hk : P.phase = .node k := hk
      obtain ⟨hnot, nodek, hgetk, hp⟩ := hok.taken k hk
      refine ⟨fun hin => hnot ((hmem k).mp hin).2, nodek, hf.other hn hgetk ?_, hp⟩
      -- the node that the worker has taken is held by it
      rintro rfl
      cases hn.symm.trans hgetk
      obtain ⟨-, -, -, hz⟩ := BinderNode.refless_iff.mp hr
      have htmp := (h.node k node hn).tmp
      simp [Driver.taken, hp, hP, hk] at htmp
      omega
    · intro hphase
      apply List.eq_nil_iff_forall_not_mem.mpr
      intro m hm
      have hin := ((hmem m).mp hm).2
      rw [hok.gone hphase] at hin
      cases hin
    · unfold Driver.descOf
      rw [hrefs]
      exact hok.desc
    · unfold Driver.nodeOf
      rw [hrefs]
      exact hok.byNode
    · intro l hl
      obtain ⟨hjob, ref⟩ := hok.lock l hl
      exact ⟨hjob, by rw [hrefs]; exact ref⟩
    · intro hphase ptr hnot
      by_cases hex : ∃ m ∈ inorder P.nodes, d.ptrOf m = some ptr
      · obtain ⟨m, hm, hptrm⟩ := hex
        obtain ⟨nodem, hgetm, hp⟩ := hok.mem_nodes m hm
        by_cases hmn : m = n
        · subst hmn
          cases hn.symm.trans hgetm
          have : node.ptr = ptr := by simpa [Driver.ptrOf, hn] using hptrm
          rw [← this]
          exact hu.view p P hp hP hphase
        · exact absurd ((hptr m hmn).trans hptrm) (hnot m ((hmem m).mpr ⟨hmn, hm⟩))
      · exact hok.told hphase ptr fun m hm hptrm => hex ⟨m, hm, hptrm⟩
    · intro hphase r ref hget hp
      rw [hrefs] at hget
      obtain ⟨h1, h2, h3⟩ := hok.late hphase r ref hget hp
      exact ⟨h1, h2, fun hl => h3 (by rw [hf.rest] at hl; exact hl)⟩

/-- A node is freed when nothing keeps it. -/
theorem Inv.free (h : Inv (some n) T d) (hf : Freed d d' n) (hn : d.nodes.get n = some node)
    (hr : node.refless = true) (hk : node.known = false) : Inv none T d' := by
  have hu := h.unheld hn hr hk
  refine ⟨?_, ?_, ?_, fun p P' hP' => h.proc_freed hf hn hr hu hP', fun k hk => h.token_freed hf hn hu hk,
    ?_, ?_, by rw [hf.rest]; exact h.crashed⟩
  · intro m nodem hm
    rw [hf.get hn] at hm
    split_ifs at hm with hmn
    exact (h.node m nodem hm).congr (hf.sameNode hmn) rfl fun p _ _ => ⟨rfl, fun _ => rfl⟩
  · intro m nodem hm _
    rw [hf.get hn] at hm
    split_ifs at hm with hmn
    exact h.kept m nodem hm fun he => hmn (Option.some.inj he).symm
  · intro r ref hr
    rw [hf.frame.refs] at hr
    obtain ⟨nodem, hm, hp⟩ := h.ref r ref hr
    exact ⟨nodem, hf.other hn hm (hu.ref r ref hr), hp⟩
  · intro m hm
    have hm : d.contextMgrNode = some m := by rw [hf.rest] at hm; exact hm
    obtain ⟨nodem, p, hgetm, hp, hrun⟩ := h.mgr m hm
    refine ⟨nodem, p, hf.other hn hgetm ?_, hp, (hf.frame.running p).trans hrun⟩
    rintro rfl
    cases hn.symm.trans hgetm
    exact hu.mgr p hp hrun hm
  · intro hl
    obtain ⟨hstale, hlive⟩ := h.live (by rw [hf.rest] at hl; exact hl)
    refine ⟨by rw [hf.rest]; exact hstale, fun r ref hget => ?_⟩
    rw [hf.frame.refs] at hget
    rw [hf.isSome_proc]
    exact hlive r ref hget

/-! ### Counting down -/

theorem freeNode_setNode (rb : Rebalance ℕ) (d : Driver) (n : ℕ) (node node' : BinderNode) :
    freeNode rb (d.setNode n node) n node' = freeNode rb d n node' := by
  have hset : ∀ s : Slots BinderNode, (s.put n (some node)).put n none = s.put n none :=
    fun s => List.set_set _
  unfold freeNode
  cases node'.proc with
  | none => simp [Driver.dropNode, Driver.setNode, hset]
  | some p =>
    cases hP : d.procs.get p with
    | none => simp [Driver.setNode, hP]
    | some P => simp [Driver.dropNode, Driver.setNode, Driver.setProc, hset, hP]

theorem Inv.settle (h : Inv (some n) T d) (hn : d.nodes.get n = some node) (hk : node.Kept) :
    Inv none T d := by
  refine { h with kept := fun m nodem hm _ => ?_ }
  by_cases hmn : m = n
  · subst hmn
    rw [hn] at hm
    cases hm
    exact hk
  · exact h.kept m nodem hm fun he => hmn (Option.some.inj he).symm

/-- The end of a step that counts a node down. -/
theorem Inv.applyNode (rb : Rebalance ℕ) {f : BinderNode → Option (Bool × BinderNode)} {free : Bool}
    (hn : d.nodes.get n = some node) (hf : f node = some (free, node'))
    (h : Inv (some n) T (d.setNode n node'))
    (hfree : free = true → node'.refless = true ∧ node'.known = false)
    (hkept : free = false → node'.Kept) :
    ∃ d', applyNode rb d n f = some d' ∧ Inv none T d' ∧ Frame d d' := by
  have hn' : (d.setNode n node').nodes.get n = some node' := by
    rw [show (d.setNode n node').nodes.get n = _ from Slots.get_put hn _ n, if_pos rfl]
  cases free with
  | false =>
    refine ⟨d.setNode n node', ?_, h.settle hn' (hkept rfl), frame_setNode d n node'⟩
    simp [BinderNodes.applyNode, hn, hf]
  | true =>
    obtain ⟨hr, hk⟩ := hfree rfl
    obtain ⟨d', hd', hfreed⟩ := h.freed rb hn' rfl
    refine ⟨d', ?_, h.free hfreed hn' hr hk, (frame_setNode d n node').trans hfreed.frame⟩
    rw [freeNode_setNode] at hd'
    simp [BinderNodes.applyNode, hn, hf, hd']

theorem NodeOk.internal_of_nil (h : NodeOk T d n node) (hrefs : node.refs = [])
    (hwraps : node.wraps = 0) : node.internalStrongRefs = 0 := by
  rw [h.internal, hwraps]
  by_contra hne
  obtain ⟨r, ref, hget, hpos⟩ := Slots.exists_of_total_pos
    (Nat.pos_of_ne_zero (by simpa using hne : d.strongOn n ≠ 0))
  have hrn : ref.node = n := by
    by_contra hrn
    simp [hrn] at hpos
  have hmem := (h.refs r).mpr ⟨ref, hget, hrn⟩
  rw [hrefs] at hmem
  cases hmem

theorem NodeOk.not_counted (h : NodeOk T d n node) (hrefs : node.refs = []) : ¬ d.counted n := by
  rintro ⟨r, ref, hget, hrn, -⟩
  have hmem := (h.refs r).mpr ⟨ref, hget, hrn⟩
  rw [hrefs] at hmem
  cases hmem

/-- What is due stays due: a count that goes to zero queues work if the owner knows the node. -/
theorem Due.dec {node₀ : BinderNode} {strong internal free : Bool} {w : Option Todo}
    (h : Due d n node) (hdec : Decremented strong internal node₀ free w)
    (hc : d'.counted n → d.counted n)
    (hs : node₀.hasStrongRef = node.hasStrongRef) (hw : node₀.hasWeakRef = node.hasWeakRef)
    (hwork : node₀.work = node.work) (hproc : node₀.proc ≠ none)
    (hint : (decCount strong internal node₀).internalStrongRefs ≠ 0 → node.internalStrongRefs ≠ 0)
    (hstrong : strong = false → (decCount strong internal node₀).strong = node.strong)
    (hnil : node₀.refs = [] →
      (decCount strong internal node₀).internalStrongRefs = 0 ∧ ¬ d'.counted n) :
    Due d' n ((decCount strong internal node₀).withWork w) := by
  intro hnone
  have hnone : w = none := hnone
  have hknown : node₀.known = false → node₀.hasStrongRef = false ∧ node₀.hasWeakRef = false := by
    intro hk
    rw [BinderNode.known, Option.isSome_iff_ne_none.mpr hproc, Bool.true_and] at hk
    simpa using hk
  have g1 : ((decCount strong internal node₀).withWork w).hasStrongRef = node₀.hasStrongRef :=
    decCount_hasStrongRef ..
  have g2 : ((decCount strong internal node₀).withWork w).hasWeakRef = node₀.hasWeakRef :=
    decCount_hasWeakRef ..
  rw [g1, g2]
  cases free with
  | true =>
    obtain ⟨hk, hr⟩ := hdec.freed rfl
    obtain ⟨h1, h2⟩ := hnil (by simpa using (BinderNode.refless_iff.mp hr).1)
    obtain ⟨h3, h4⟩ := hknown hk
    rw [h3, h4]
    exact ⟨fun hne => absurd h1 hne, fun hcd => absurd hcd h2, by simp, by simp⟩
  | false =>
    have hold : node.work = none := by
      rcases hdec.work with hw1 | ⟨q, hw1, -⟩ | ⟨hf, -⟩
      · rw [← hwork, ← hw1, hnone]
      · rw [hnone] at hw1
        cases hw1
      · cases hf
    obtain ⟨h1, h2, h3, h4⟩ := h hold
    rw [hs, hw]
    refine ⟨fun hne => h1 (hint hne), fun hcd => h2 (hc hcd), fun ht => ?_, fun ht => ?_⟩
    · rcases hdec.left rfl with hst | ⟨-, hsome⟩ | ⟨hk, -⟩
      · cases strong with
        | false => exact (hstrong rfl).trans (h3 ht)
        | true => exact strong_of_stillCounted hst
      · rw [hnone] at hsome
        cases hsome
      · rw [← hs, (hknown hk).1] at ht
        cases ht
    · rcases hdec.left rfl with hst | ⟨-, hsome⟩ | ⟨hk, -⟩
      · exact weak_of_stillCounted hst
      · rw [hnone] at hsome
        cases hsome
      · rw [← hw, (hknown hk).2] at ht
        cases ht

/-- `node₀` is `node` but for temporary references and for what is pending. -/
structure SameFace (node node₀ : BinderNode) : Prop where
  ptr : node₀.ptr = node.ptr
  proc : node₀.proc = node.proc
  refs : node₀.refs = node.refs
  internal : node₀.internalStrongRefs = node.internalStrongRefs
  localStrong : node₀.localStrongRefs = node.localStrongRefs
  hasStrong : node₀.hasStrongRef = node.hasStrongRef
  hasWeak : node₀.hasWeakRef = node.hasWeakRef
  work : node₀.work = node.work
  pendingStrong : node₀.pendingStrongRef = true → node.pendingStrongRef = true
  pendingWeak : node₀.pendingWeakRef = true → node.pendingWeakRef = true
  wraps : node₀.wraps = node.wraps

theorem SameFace.refl (node : BinderNode) : SameFace node node :=
  ⟨rfl, rfl, rfl, rfl, rfl, rfl, rfl, rfl, id, id, rfl⟩

/-- The local counts of a node and what is pending agree with the tokens. -/
structure Balanced (T : Multiset Token) (d : Driver) (n : ℕ) (node : BinderNode) (p : ℕ) : Prop where
  strong : node.localStrongRefs = T.count (.target n p) + T.count (.object p node.ptr true) +
    node.pendingStrongRef.toNat + d.mgrCount n
  weak : node.localWeakRefs =
    T.count (.object p node.ptr false) + node.pendingWeakRef.toNat + d.mgrCount n

theorem Owned.balanced {p : ℕ} {P : BinderProc} (h : Owned T d n node p P) :
    Balanced T d n node p :=
  ⟨h.strong, h.weak⟩

theorem Owned.dec {p : ℕ} {P : BinderProc} {node₀ : BinderNode} {strong internal free : Bool}
    {w : Option Todo} (ho : Owned T d n node p P) (hok : NodeOk T d n node)
    (hdec : Decremented strong internal node₀ free w) (hint : strong = true → internal = false)
    (hsame : SameFace node node₀) (hp : node.proc = some p)
    (hbal : Balanced T' d n (decCount strong internal node₀) p) :
    Owned T' d n ((decCount strong internal node₀).withWork w) p P := by
  have hi : (decCount strong internal node₀).internalStrongRefs = node.internalStrongRefs :=
    (decCount_internalStrongRefs hint node₀).trans hsame.internal
  have g1 : (decCount strong internal node₀).hasStrongRef = node.hasStrongRef :=
    (decCount_hasStrongRef ..).trans hsame.hasStrong
  have g2 : (decCount strong internal node₀).hasWeakRef = node.hasWeakRef :=
    (decCount_hasWeakRef ..).trans hsame.hasWeak
  have g3 := decCount_pendingStrongRef strong internal node₀
  have g4 := decCount_pendingWeakRef strong internal node₀
  have g5 : (decCount strong internal node₀).ptr = node.ptr := (decCount_ptr ..).trans hsame.ptr
  refine ⟨hbal.strong, hbal.weak, fun ht => g2.trans (ho.strong_weak (g1.symm.trans ht)),
    fun ht => g1.trans (ho.pending_strong (hsame.pendingStrong (g3.symm.trans ht))),
    fun ht => g2.trans (ho.pending_weak (hsame.pendingWeak (g4.symm.trans ht))),
    fun o hseen => ?_, fun hm => g1.trans (ho.manager hm), fun hl hwraps => ?_⟩
  · have hseen : o ∈ P.view (decCount strong internal node₀).ptr := hseen
    rw [g5] at hseen
    obtain ⟨v, hv, hflags⟩ := ho.told o hseen
    exact ⟨v, hv, fun hz => (hflags hz).trans (Prod.ext g2.symm g1.symm)⟩
  · have hwraps : node.wraps = 0 :=
      hsame.wraps.symm.trans ((decCount_wraps ..).symm.trans hwraps)
    refine (ho.due hl hwraps).dec hdec id hsame.hasStrong hsame.hasWeak hsame.work ?_ ?_ ?_ ?_
    · rw [hsame.proc, hp]
      simp
    · rw [hi]
      exact id
    · rintro rfl
      have hls : (decCount false internal node₀).localStrongRefs = node.localStrongRefs := by
        cases internal <;> exact hsame.localStrong
      unfold BinderNode.strong
      rw [hi, hls]
    · intro hnil
      rw [hsame.refs] at hnil
      exact ⟨hi.trans (hok.internal_of_nil hnil hwraps), hok.not_counted hnil⟩

/-- One count of a node goes down that is not one of its references. -/
theorem Inv.dec (h : Inv none T d) (hn : d.nodes.get n = some node) {node₀ : BinderNode}
    (strong internal : Bool) (hint : strong = true → internal = false)
    (hsame : SameFace node node₀) (hM : Moves d n node T T')
    (htmp : node₀.tmpRefs - T'.count (.tmp n) = node.tmpRefs - T.count (.tmp n))
    (hbal : ∀ p, node.proc = some p → d.running p = true → Balanced T d n node p →
      Balanced T' d n (decCount strong internal node₀) p)
    (hdead : node.proc = none → node.localWeakRefs ≤ 0 ∧ node.localStrongRefs ≤ 0 ∧
        (d.lateDrops = 0 → node.localWeakRefs = 0 ∧ node.localStrongRefs = 0) →
      (decCount strong internal node₀).localWeakRefs ≤ 0 ∧
        (decCount strong internal node₀).localStrongRefs ≤ 0 ∧ (d.lateDrops = 0 →
          (decCount strong internal node₀).localWeakRefs = 0 ∧
            (decCount strong internal node₀).localStrongRefs = 0)) :
    ∃ free node', binderDecNodeNilocked strong internal node₀ = some (free, node') ∧
      Inv (some n) T' (d.setNode n node') ∧
      (free = true → node'.refless = true ∧ node'.known = false) ∧
      (free = false → node'.Kept) := by
  have hok := h.node n node hn
  have hi := (decCount_internalStrongRefs hint node₀).trans hsame.internal
  obtain ⟨free, w, hrun, hdec⟩ := binderDecNodeNilocked_spec strong internal node₀
    (by rw [hsame.proc, hsame.work]; exact fun hp => (hok.dead hp).1)
  -- a dead node that gives a local reference back has less than none
  have hminus : strong = true → node₀.proc = none →
      (decCount strong internal node₀).refless = false := by
    rintro rfl hp
    have hle := (hok.dead (hsame.proc.symm.trans hp)).2.2.1
    have hls : (decCount true internal node₀).localStrongRefs = node.localStrongRefs - 1 := by
      rw [hint rfl, ← hsame.localStrong]
      rfl
    rw [Bool.eq_false_iff]
    intro hr
    have hz := (BinderNode.refless_iff.mp hr).2.1
    omega
  refine ⟨free, _, hrun, ?_, fun hf => ⟨(hdec.freed hf).2, (decCount_known ..).trans
    (hdec.freed hf).1⟩, fun hf => hdec.kept hf hminus⟩
  refine h.setNode hn ((decCount_ptr ..).trans hsame.ptr) ((decCount_proc ..).trans hsame.proc)
    ((decCount_refs ..).trans hsame.refs) hi ((decCount_wraps ..).trans hsame.wraps) hM ?_ ?_ ?_ ?_
    (fun hx => absurd rfl hx) (fun m _ _ => nofun)
  · rw [← htmp]
    exact congrArg (· - _) (decCount_tmpRefs ..)
  · intro p P hp hP hr ho
    exact ho.dec hok hdec hint hsame hp (hbal p hp (Driver.running_iff.mpr ⟨P, hP, hr⟩)
      ho.balanced)
  · intro hp hd
    refine ⟨?_, hdead hp hd.2⟩
    rcases hdec.work with hw | ⟨q, -, hq⟩ | ⟨-, hw⟩
    · exact hw.trans (hsame.work.trans hd.1)
    · rw [hsame.proc, hp] at hq
      cases hq
    · exact hw
  · intro q hq
    have hq : w = some q := hq
    rcases hdec.work with hw | ⟨q', hw, hp⟩ | ⟨-, hw⟩
    · exact hok.work q (hsame.work.symm.trans (hw.symm.trans hq))
    · rw [hw] at hq
      cases hq
      exact hsame.proc.symm.trans hp
    · rw [hw] at hq
      cases hq

end HeadlessAndroid.BinderNodes
