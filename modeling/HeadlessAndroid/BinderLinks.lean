import HeadlessAndroid.BinderHandles

/-!
# HeadlessAndroid.BinderLinks — references come and go

A new reference gets the least number that its process does not use, goes into both trees and is put
on the list of its node; a reference that is cleaned up leaves all three, and its node if nothing else
keeps it.
-/

namespace HeadlessAndroid.BinderNodes

open Lib Lib.SearchTree

variable {x : Option ℕ} {T : Multiset Token} {d : Driver} {n p r : ℕ} {node : BinderNode}
  {ref : BinderRef} {P : BinderProc}

/-! ### What stays -/

/-- What holds the outer lock of `q`. -/
def Driver.lockOf (d : Driver) (q : ℕ) : Option Locked := (d.procs.get q).bind BinderProc.outerLock

/-- Of the locks only that of `p` changes, and new references belong to `p`. -/
structure Apart (p : Option ℕ) (d d' : Driver) : Prop where
  jobs : d'.jobs = d.jobs
  length : d'.procs.length = d.procs.length
  running : ∀ q, d'.running q = d.running q
  lock : ∀ q, p ≠ some q → d'.lockOf q = d.lockOf q
  ref : ∀ r y', d'.refs.get r = some y' → p = some y'.proc ∨
    ∃ y, d.refs.get r = some y ∧ y'.node = y.node ∧ y'.proc = y.proc

theorem Frame.apart {d' : Driver} (h : Frame d d') : Apart none d d' := by
  refine ⟨h.jobs, h.length, h.running, fun q _ => ?_, fun r y' hy => ?_⟩
  · have hq := congrArg (fun o => o.bind Prod.snd) (h.proc q)
    simpa [Driver.lockOf, Option.bind_map, Function.comp_def] using hq
  · exact Or.inr ⟨y', h.refs ▸ hy, rfl, rfl⟩

theorem Apart.mono {d' : Driver} (h : Apart none d d') (p : Option ℕ) : Apart p d d' :=
  ⟨h.jobs, h.length, h.running, fun q _ => h.lock q (by simp), fun r y' hy =>
    Or.inr ((h.ref r y' hy).resolve_left (by simp))⟩

theorem Apart.trans {d' d'' : Driver} {p : Option ℕ} (h : Apart p d d') (h' : Apart p d' d'') :
    Apart p d d'' := by
  refine ⟨h'.jobs.trans h.jobs, h'.length.trans h.length, fun q => (h'.running q).trans (h.running q),
    fun q hq => (h'.lock q hq).trans (h.lock q hq), fun r y'' hy => ?_⟩
  rcases h'.ref r y'' hy with hp | ⟨y', hy', hn', hp'⟩
  · exact Or.inl hp
  · rcases h.ref r y' hy' with hp | ⟨y, hy, hn, hp⟩
    · exact Or.inl (hp.trans (congrArg some hp'.symm))
    · exact Or.inr ⟨y, hy, hn'.trans hn, hp'.trans hp⟩

/-- A new record for one process keeps the others apart. -/
theorem apart_setProc {P' : BinderProc} (hP : d.procs.get p = some P)
    (hrun : P'.phase = .running ↔ P.phase = .running) : Apart (some p) d (d.setProc p P') := by
  have hget : ∀ q, (d.setProc p P').procs.get q = if q = p then some P' else d.procs.get q :=
    fun q => Slots.get_put hP _ q
  refine ⟨rfl, List.length_set, fun q => ?_, fun q hq => ?_, fun r y' hy => Or.inr ⟨y', hy, rfl, rfl⟩⟩
  · rw [Bool.eq_iff_iff, Driver.running_iff, Driver.running_iff, hget]
    split_ifs with hqp
    · rw [hqp, hP]
      simpa using hrun
    · rfl
  · unfold Driver.lockOf
    rw [hget, if_neg fun he => hq (congrArg some he.symm)]

theorem apart_atRef {s w : ℕ} {node' : BinderNode} (hr : d.refs.get r = some ref)
    (hP : d.procs.get ref.proc = some P) (l : Option Locked) : Apart (some ref.proc) d
      (d.atRef r { ref with strong := s, weak := w } node' { P with outerLock := l }) := by
  have hbase : Apart (some ref.proc) d (d.setProc ref.proc { P with outerLock := l }) :=
    apart_setProc hP Iff.rfl
  refine ⟨rfl, hbase.length, hbase.running, hbase.lock, fun r' y' hy => Or.inr ?_⟩
  rw [atRef_ref hr] at hy
  split_ifs at hy with hrr
  · cases hy
    exact ⟨ref, hrr ▸ hr, rfl, rfl⟩
  · exact ⟨y', hy, rfl, rfl⟩

/-! ### The number of a new reference -/

theorem newDesc_spec (desc : ℕ) {xs : List ℕ} (hxs : xs.Pairwise (· < ·))
    (hle : ∀ y ∈ xs, desc ≤ y + 1) : newDesc desc xs ∉ xs ∧ desc ≤ newDesc desc xs ∧
      ∀ k, desc ≤ k → k < newDesc desc xs → k ∈ xs := by
  induction xs generalizing desc with
  | nil => exact ⟨(by simp), le_rfl, fun k h1 h2 => absurd h2 (Nat.not_lt.mpr h1)⟩
  | cons y ys ih =>
    obtain ⟨hy, hys⟩ := List.pairwise_cons.mp hxs
    unfold newDesc
    split_ifs with hlt
    · refine ⟨fun hmem => ?_, le_rfl, fun k h1 h2 => absurd h2 (Nat.not_lt.mpr h1)⟩
      rcases List.mem_cons.mp hmem with he | hmem
      · omega
      · have := hy _ hmem
        omega
    · obtain ⟨h1, h2, h3⟩ := ih (y + 1) hys fun z hz => by
        have := hy z hz
        omega
      have hdesc := hle y List.mem_cons_self
      refine ⟨fun hmem => ?_, by omega, fun k hk1 hk2 => ?_⟩
      · rcases List.mem_cons.mp hmem with he | hmem
        · omega
        · exact h1 hmem
      · rcases Nat.lt_or_ge y k with hk | hk
        · exact List.mem_cons_of_mem y (h3 k hk hk2)
        · exact List.mem_cons.mpr (Or.inl (by omega))

/-! ### A new reference -/

/-- The reference of `p` to `n` that comes next, and what holds the lock for it. -/
def Driver.addRef (d : Driver) (p n desc : ℕ) (node : BinderNode) (P : BinderProc) : Driver :=
  { (d.setProc p P).setNode n { node with refs := d.refs.length :: node.refs } with
    refs := d.refs.add ⟨desc, 0, 0, p, n⟩ }

section AddRef

variable {desc : ℕ} {P' : BinderProc}

theorem addRef_ref (r : ℕ) : (d.addRef p n desc node P').refs.get r =
    if r = d.refs.length then some ⟨desc, 0, 0, p, n⟩ else d.refs.get r :=
  Slots.get_add _ _ r

theorem addRef_old (hr : d.refs.get r = some ref) :
    (d.addRef p n desc node P').refs.get r = some ref := by
  rw [addRef_ref, if_neg (Nat.ne_of_lt (Slots.lt_length_of_get hr)), hr]

theorem addRef_proc (hP : d.procs.get p = some P) (q : ℕ) :
    (d.addRef p n desc node P').procs.get q = if q = p then some P' else d.procs.get q :=
  Slots.get_put hP _ q

theorem here_addRef (hP : d.procs.get p = some P) (hphase : P'.phase = P.phase) :
    Here d (d.addRef p n desc node P') n node
      { node with refs := d.refs.length :: node.refs } := by
  refine ⟨rfl, rfl, rfl, fun q => ?_⟩
  rw [addRef_proc hP]
  split_ifs with hq
  · rw [hq, hP]
    exact congrArg some hphase
  · rfl

theorem exists_addRef (f : BinderRef → Prop) (r : ℕ) :
    (∃ y, (d.addRef p n desc node P').refs.get r = some y ∧ f y) ↔
      (r = d.refs.length ∧ f ⟨desc, 0, 0, p, n⟩) ∨ ∃ y, d.refs.get r = some y ∧ f y := by
  have hnone : d.refs.get d.refs.length = none := by
    simp [Slots.get]
  rw [addRef_ref]
  split_ifs with hr
  · subst hr
    simp [hnone]
  · simp [hr]

theorem strongOn_addRef (m : ℕ) :
    (d.addRef p n desc node P').strongOn m = d.strongOn m := by
  refine (Slots.total_add _ d.refs _).trans ?_
  simp [Driver.strongOn]

theorem counted_addRef {m : ℕ} (hc : (d.addRef p n desc node P').counted m) : d.counted m := by
  obtain ⟨r, y, hy, hym, hpos⟩ := hc
  rw [addRef_ref] at hy
  split_ifs at hy
  · cases hy
    simp at hpos
  · exact ⟨r, y, hy, hym, hpos⟩

/-- The trees of the process after the reference is in. -/
structure Linked (d : Driver) (desc n : ℕ) (P P' : BinderProc) : Prop where
  rest : P' = { P with
    refsByDesc := P'.refsByDesc, refsByNode := P'.refsByNode, outerLock := P'.outerLock }
  desc : ∀ key', (∀ r ∈ inorder P.refsByDesc, key' r = d.descOf r) →
    key' d.refs.length = some desc → Keyed key' P'.refsByDesc
  byNode : ∀ key', (∀ r ∈ inorder P.refsByNode, key' r = d.nodeOf r) →
    key' d.refs.length = some n → Keyed key' P'.refsByNode
  mem_desc : ∀ r, r ∈ inorder P'.refsByDesc ↔ r = d.refs.length ∨ r ∈ inorder P.refsByDesc
  mem_byNode : ∀ r, r ∈ inorder P'.refsByNode ↔ r = d.refs.length ∨ r ∈ inorder P.refsByNode

theorem Inv.proc_addRef (h : Inv none T d) (hn : d.nodes.get n = some node)
    (hP : d.procs.get p = some P) (hlinked : Linked d desc n P P') (hun : P.outerLock = none)
    {l : Locked} (hl : P'.outerLock = some l) (hlr : l.ref = d.refs.length)
    (hjob : l.job = none → P.phase = .running) (hclean : ∀ r j, l ≠ .cleanup r j) (q : ℕ)
    {Q : BinderProc} (hQ : (d.addRef p n desc node P').procs.get q = some Q) :
    ProcOk T (d.addRef p n desc node P') q Q := by
  have hphase : P'.phase = P.phase := by rw [hlinked.rest]
  have hd : Here d (d.addRef p n desc node P') n node
      { node with refs := d.refs.length :: node.refs } := here_addRef hP hphase
  have howned := hd.owned_node hn
  rw [addRef_proc hP] at hQ
  split_ifs at hQ with hqp
  · cases hQ
    subst hqp
    have hok := h.proc q P hP
    have hnodes : P'.nodes = P.nodes := by rw [hlinked.rest]
    have hmem : ∀ r, (∃ y, (d.addRef q n desc node P').refs.get r = some y ∧ y.proc = q) ↔
        (r = d.refs.length ∧ q = q) ∨ ∃ y, d.refs.get r = some y ∧ y.proc = q :=
      exists_addRef fun y => y.proc = q
    refine ⟨?_, ?_, ?_, ?_, ?_, ?_, ?_, fun r => ?_, fun r => ?_, ?_, ?_, ?_⟩
    · rw [hlinked.rest]
      exact hok.tmpRef
    · rw [hnodes]
      refine hok.nodes.congr fun m hm => ?_
      obtain ⟨nodem, hgetm, hp⟩ := hok.mem_nodes m hm
      obtain ⟨nodem', hgetm', -, hptr⟩ := howned q m nodem hgetm hp
      simp [Driver.ptrOf, hgetm, hgetm', hptr]
    · intro m hm
      rw [hnodes] at hm
      obtain ⟨nodem, hgetm, hp⟩ := hok.mem_nodes m hm
      obtain ⟨nodem', hgetm', hp', -⟩ := howned q m nodem hgetm hp
      exact ⟨nodem', hgetm', hp'⟩
    · intro m hm
      rw [hphase] at hm
      obtain ⟨hnot, nodem, hgetm, hp⟩ := hok.taken m hm
      obtain ⟨nodem', hgetm', hp', -⟩ := howned q m nodem hgetm hp
      exact ⟨hnodes ▸ hnot, nodem', hgetm', hp'⟩
    · rw [hphase, hnodes]
      exact hok.gone
    · refine hlinked.desc _ (fun r hr => ?_) ?_
      · obtain ⟨y, hy, -⟩ := (hok.mem_desc r).mp hr
        simp [Driver.descOf, addRef_old hy, hy]
      · simp [Driver.descOf, addRef_ref]
    · refine hlinked.byNode _ (fun r hr => ?_) ?_
      · obtain ⟨y, hy, -⟩ := (hok.mem_byNode r).mp hr
        simp [Driver.nodeOf, addRef_old hy, hy]
      · simp [Driver.nodeOf, addRef_ref]
    · rw [hlinked.mem_desc, hmem, hok.mem_desc]
      simp
    · rw [hlinked.mem_byNode, hmem, hok.mem_byNode]
      simp
    · intro l' hl'
      cases hl.symm.trans hl'
      refine ⟨fun hj => hphase.trans (hjob hj), _, (addRef_ref _).trans (if_pos hlr), rfl, ?_⟩
      exact fun r j he => absurd he (hclean r j)
    · intro hrun ptr hno o hseen
      have htold : P'.told = P.told := by rw [hlinked.rest]
      refine hok.told (hphase ▸ hrun) ptr (fun m hm => ?_) o (seen_congr htold hseen)
      obtain ⟨nodem, hgetm, hp⟩ := hok.mem_nodes m hm
      obtain ⟨nodem', hgetm', -, hptr⟩ := howned q m nodem hgetm hp
      have hnot := hno m (hnodes ▸ hm)
      simp only [Driver.ptrOf, hgetm', hgetm, Option.map_some, hptr] at hnot ⊢
      exact hnot
    · intro hdone r y hy hyp
      rw [hphase] at hdone
      rw [addRef_ref] at hy
      split_ifs at hy with hr
      · cases hy
        exact ⟨Nat.zero_le _, Nat.zero_le _, fun _ => Or.inr (Or.inr ⟨l, hl, hlr.trans hr.symm⟩)⟩
      · obtain ⟨h1, h2, h3⟩ := hok.late hdone r y hy hyp
        refine ⟨h1, h2, fun hl => ?_⟩
        rcases h3 hl with h3 | h3 | ⟨l', hl', -⟩
        · exact Or.inl h3
        · exact Or.inr (Or.inl h3)
        · exact absurd (hun.symm.trans hl') (by simp)
  · refine (h.proc q Q hQ).congr ⟨howned q, fun r y => ?_, id⟩ (h.proc q Q hQ).tmpRef
      (fun _ _ => le_rfl) rfl rfl rfl rfl rfl (.inl rfl)
    rw [addRef_ref]
    split_ifs with hr
    · subst hr
      constructor
      · rintro ⟨he, hyp⟩
        cases he
        exact absurd hyp.symm hqp
      · rintro ⟨he, -⟩
        exact absurd (Slots.lt_length_of_get he) (lt_irrefl _)
    · rfl

theorem Inv.addRef (h : Inv none T d) (hn : d.nodes.get n = some node) (hself : node.proc ≠ some p)
    (hP : d.procs.get p = some P) (hlinked : Linked d desc n P P') (hun : P.outerLock = none)
    {l : Locked} (hl : P'.outerLock = some l) (hlr : l.ref = d.refs.length)
    (hjob : l.job = none → P.phase = .running) (hclean : ∀ r j, l ≠ .cleanup r j) :
    Inv none T (d.addRef p n desc node P') := by
  have hphase : P'.phase = P.phase := by rw [hlinked.rest]
  have hd : Here d (d.addRef p n desc node P') n node
      { node with refs := d.refs.length :: node.refs } := here_addRef hP hphase
  have hok := h.node n node hn
  have hmem : ∀ m r, (∃ y, (d.addRef p n desc node P').refs.get r = some y ∧ y.node = m) ↔
      (r = d.refs.length ∧ n = m) ∨ ∃ y, d.refs.get r = some y ∧ y.node = m :=
    fun m => exists_addRef fun y => y.node = m
  have htold : P'.told = P.told := by rw [hlinked.rest]
  have hnodes : P'.nodes = P.nodes := by rw [hlinked.rest]
  have hfresh : d.refs.length ∉ node.refs := by
    intro hin
    obtain ⟨y, hy, -⟩ := (hok.refs _).mp hin
    exact absurd (Slots.lt_length_of_get hy) (lt_irrefl _)
  have hproc : ∀ q Q, d.procs.get q = some Q → ∃ Q', (d.addRef p n desc node P').procs.get q =
      some Q' ∧ Q'.phase = Q.phase ∧ Q'.told = Q.told ∧ Q'.nodes = Q.nodes := by
    intro q Q hQ
    rw [addRef_proc hP]
    split_ifs with hqp
    · subst hqp
      cases hP.symm.trans hQ
      exact ⟨P', rfl, hphase, htold, hnodes⟩
    · exact ⟨Q, hQ, rfl, rfl, rfl⟩
  refine h.here hd hn (.refl d n node T) ?_ ?_ (fun _ => ?_) (fun _ _ _ => by simp) ?_
    (fun q Q hQ => h.proc_addRef hn hP hlinked hun hl hlr hjob hclean q hQ)
    (fun m hm => Or.inl hm) ?_ h.crashed
  · refine ⟨?_, ?_, List.nodup_cons.mpr ⟨hfresh, hok.nodup⟩, fun r => ?_, ?_, ?_, hok.dead,
      hok.work⟩
    · rw [hd.taken]
      exact hok.tmp
    · rw [strongOn_addRef]
      exact hok.internal
    · rw [hmem n r, List.mem_cons, hok.refs r]
      simp
    · intro q hq
      obtain ⟨Q, hQ, hin⟩ := hok.owner q hq
      obtain ⟨Q', hQ', hph, -, hnd⟩ := hproc q Q hQ
      exact ⟨Q', hQ', by rw [hph, hnd]; exact hin⟩
    · intro q Q' hq hQ' hrun
      obtain ⟨Q, hQ, -⟩ := hok.owner q hq
      obtain ⟨Q'', hQ'', hph, htl, -⟩ := hproc q Q hQ
      cases hQ'.symm.trans hQ''
      have ho := hok.owned q Q hq hQ (hph ▸ hrun)
      refine ⟨ho.strong, ho.weak, ho.strong_weak, ho.pending_strong, ho.pending_weak,
        fun o hseen => ho.told o (seen_congr htl hseen), ho.manager, fun hlost hwraps hnone => ?_⟩
      obtain ⟨h1, h2, h3, -⟩ := ho.due hlost hwraps hnone
      exact ⟨h1, fun hc => h2 (counted_addRef hc), h3, fun _ => BinderNode.weak_iff.mpr
        (Or.inl (List.cons_ne_nil _ _))⟩
  · intro m nodem hmn hm _
    refine ⟨fun r => ?_, strongOn_addRef m, counted_addRef, fun q Q _ hQ => ?_,
      taken_congr hd.phase m nodem, rfl, id, id⟩
    · rw [hmem m r]
      simp [hmn.symm]
    · obtain ⟨Q', hQ', hph, htl, hnd⟩ := hproc q Q hQ
      exact ⟨Q', hQ', by rw [hph, hnd]; exact id, fun hrun => ⟨hph ▸ hrun, fun _ => seen_congr htl⟩⟩
  · refine Or.inr (Or.inl ?_)
    simp [BinderNode.refless]
  · intro r y hy
    rw [addRef_ref] at hy
    split_ifs at hy
    · cases hy
      exact ⟨node, hn, hself⟩
    · exact h.ref r y hy
  · intro hl'
    refine ⟨(h.live hl').1, fun r y hy => ?_⟩
    have hlive : (d.procs.get y.proc).isSome := by
      rw [addRef_ref] at hy
      split_ifs at hy
      · cases hy
        simp [hP]
      · exact (h.live hl').2 r y hy
    obtain ⟨Q, hQ⟩ := Option.isSome_iff_exists.mp hlive
    obtain ⟨Q', hQ', -⟩ := hproc _ Q hQ
    simp [hQ']

theorem apart_addRef (hP : d.procs.get p = some P) (hphase : P'.phase = P.phase) :
    Apart (some p) d (d.addRef p n desc node P') := by
  have hbase := apart_setProc (d := d) hP (by rw [hphase])
  refine ⟨rfl, hbase.length, hbase.running, hbase.lock, fun r' y' hy => ?_⟩
  rw [addRef_ref] at hy
  split_ifs at hy
  · cases hy
    exact Or.inl rfl
  · exact Or.inr ⟨y', hy, rfl, rfl⟩

end AddRef

/-- The lock of the process of a reference is taken for the reference. -/
theorem Inv.takeLock (h : Inv none T d) (hr : d.refs.get r = some ref)
    (hn : d.nodes.get ref.node = some node) (hP : d.procs.get ref.proc = some P)
    (hun : P.outerLock = none) {l : Locked} (hlr : l.ref = r)
    (hjob : l.job = none → P.phase = .running) (hclean : ∀ r' j, l ≠ .cleanup r' j) :
    Inv none T (d.setProc ref.proc { P with outerLock := some l }) := by
  have hflat : d.atRef r { ref with strong := ref.strong, weak := ref.weak }
      (node.recount node.internalStrongRefs node.wraps node.work)
      { P with outerLock := some l } = d.setProc ref.proc { P with outerLock := some l } := by
    unfold Driver.atRef
    have hnode : d.setNode ref.node
        (node.recount node.internalStrongRefs node.wraps node.work) = d :=
      Driver.setNode_self hn
    rw [hnode, Driver.setRef_self hr]
  rw [← hflat]
  refine Inv.atRef hr hn hP h rfl (Or.inl rfl) (fun q Q _ ho hl hz => ?_) (fun l' hl' => ?_) ?_ ?_
  · exact (ho.due hl hz).lower hr le_rfl le_rfl
  · cases hl'
    exact ⟨hjob, hlr, fun r' j he => absurd he (hclean r' j)⟩
  · rw [hun]
    simp
  · rintro - ⟨h1, h2, -⟩
    exact ⟨h1, h2, fun _ => Or.inr (Or.inr ⟨l, rfl, hlr⟩)⟩

/-- `binder_inc_ref_for_node` up to the increment -/
theorem Inv.lockRefForNode (rb : Rebalance ℕ) (h : Inv none T d) (hn : d.nodes.get n = some node)
    (hself : node.proc ≠ some p) (hP : d.procs.get p = some P) (hun : P.outerLock = none) (strong : Bool)
    (targetList : Option Todo) {job : Option ℕ} (hjob : job = none → P.phase = .running) :
    ∃ r, Inv none T (lockRefForNode rb d p n strong targetList job) ∧
      Apart (some p) d (lockRefForNode rb d p n strong targetList job) ∧
      (lockRefForNode rb d p n strong targetList job).lockOf p =
        some (.inc r strong targetList job) ∧
      (lockRefForNode rb d p n strong targetList job).nodeOf r = some n := by
  have hok := h.proc p P hP
  rcases hok.byNode.find n with ⟨r, hin, hkey, hfind⟩ | ⟨hno, hfind⟩
  · obtain ⟨ref, hr, rfl⟩ := (hok.mem_byNode r).mp hin
    have hrn : ref.node = n := by simpa [Driver.nodeOf, hr] using hkey
    subst hrn
    have heq : BinderNodes.lockRefForNode rb d ref.proc ref.node strong targetList job =
        d.setProc ref.proc { P with outerLock := some (.inc r strong targetList job) } := by
      simp [BinderNodes.lockRefForNode, binderGetRefForNodeOlocked, hP, hfind, Driver.after,
        Driver.lock]
    rw [heq]
    refine ⟨r, h.takeLock hr hn hP hun rfl hjob (by simp), apart_setProc hP Iff.rfl, ?_, hkey⟩
    have hget := (Slots.get_put hP (some { P with
      outerLock := some (.inc r strong targetList job) }) ref.proc).trans (if_pos rfl)
    unfold Driver.lockOf
    rw [show (d.setProc ref.proc _).procs.get ref.proc = _ from hget]
    rfl
  · let start := if d.contextMgrNode = some n then 0 else 1
    let desc := newDesc start ((inorder P.refsByDesc).filterMap d.descOf)
    obtain ⟨hnew, -, -⟩ := newDesc_spec start hok.desc.keys fun y _ => by
      change (if d.contextMgrNode = some n then 0 else 1) ≤ _
      split_ifs <;> omega
    have hnew : ∀ r ∈ inorder P.refsByDesc, d.descOf r ≠ some desc :=
      fun r hr hk => hnew (List.mem_filterMap.mpr ⟨r, hr, hk⟩)
    obtain ⟨byDesc, hlinkd, hmemd, hkeyd⟩ := hok.desc.link d.refs.length hnew
    obtain ⟨byNode, hlinkn, hmemn, hkeyn⟩ := hok.byNode.link d.refs.length hno
    let P' : BinderProc := { P with
      refsByNode := rb.insertColor byNode
      refsByDesc := rb.insertColor byDesc
      outerLock := some (.inc d.refs.length strong targetList job) }
    have hlinked : Linked d desc n P P' := by
      refine ⟨rfl, fun key' h1 h2 => Keyed.insertColor rb (hkeyd key' h1 h2),
        fun key' h1 h2 => Keyed.insertColor rb (hkeyn key' h1 h2), fun r => ?_, fun r => ?_⟩
      · change r ∈ inorder (rb.insertColor byDesc) ↔ _
        rw [rb.inorder_insertColor, hmemd]
      · change r ∈ inorder (rb.insertColor byNode) ↔ _
        rw [rb.inorder_insertColor, hmemn]
    have hput := fun P₁ : BinderProc => (Slots.get_put hP (some P₁) p).trans (if_pos rfl)
    have heq : BinderNodes.lockRefForNode rb d p n strong targetList job =
        d.addRef p n desc node P' := by
      have hstart : (if d.contextMgrNode == some n then 0 else 1) = start := by
        change _ = if d.contextMgrNode = some n then 0 else 1
        simp
      have hlinkd' : link (turn d.descOf (newDesc start ((inorder P.refsByDesc).filterMap d.descOf)))
          d.refs.length P.refsByDesc = some byDesc := hlinkd
      simp only [BinderNodes.lockRefForNode, binderGetRefForNodeOlocked, insertRef, hP, hfind, hn,
        hstart, hlinkn, hlinkd']
      simp only [Driver.after, Driver.lock, Driver.setNode, Driver.setProc, hput]
      simp [Driver.addRef, Driver.setNode, Driver.setProc, Slots.put, P', desc]
    rw [heq]
    refine ⟨d.refs.length, h.addRef hn hself hP hlinked hun rfl rfl hjob (by simp),
      apart_addRef hP rfl, ?_, ?_⟩
    · unfold Driver.lockOf
      rw [addRef_proc hP, if_pos rfl]
      rfl
    · simp [Driver.nodeOf, addRef_ref]

/-! ### A reference that goes -/

/-- The reference is out of the trees of its process and out of memory, and the lock is let go of. -/
def Driver.cutRef (rb : Rebalance ℕ) (d : Driver) (r : ℕ) (ref : BinderRef) (P : BinderProc) :
    Driver :=
  (d.setProc ref.proc { P with
    refsByDesc := rb.erase r P.refsByDesc
    refsByNode := rb.erase r P.refsByNode
    outerLock := none }).dropRef r

section CutRef

variable (rb : Rebalance ℕ) {node' : BinderNode} (hr : d.refs.get r = some ref)
  (hP : d.procs.get ref.proc = some P)

include hr in
theorem cutRef_ref (r' : ℕ) :
    (d.cutRef rb r ref P).refs.get r' = if r' = r then none else d.refs.get r' :=
  Slots.get_put hr _ r'

include hP in
theorem cutRef_proc (q : ℕ) : (d.cutRef rb r ref P).procs.get q =
    if q = ref.proc then some { P with
      refsByDesc := rb.erase r P.refsByDesc
      refsByNode := rb.erase r P.refsByNode
      outerLock := none } else d.procs.get q :=
  Slots.get_put hP _ q

include hr in
theorem exists_cutRef (f : BinderRef → Prop) (r' : ℕ) :
    (∃ y, (d.cutRef rb r ref P).refs.get r' = some y ∧ f y) ↔
      r' ≠ r ∧ ∃ y, d.refs.get r' = some y ∧ f y := by
  rw [cutRef_ref rb hr]
  split_ifs with hrr <;> simp [hrr]

include hr in
theorem strongOn_cutRef (m : ℕ) : (d.cutRef rb r ref P).strongOn m +
    (if ref.node = m ∧ ref.strong ≠ 0 then 1 else 0) = d.strongOn m := by
  obtain ⟨k, hk, hput⟩ := Slots.total_split
    (fun y : BinderRef => if y.node = m ∧ y.strong ≠ 0 then 1 else 0) hr
  have hput := hput none
  unfold Driver.strongOn
  change Slots.total _ (Slots.put d.refs r none) + _ = _
  rw [hk, hput]
  simp only [Option.elim_none]
  omega

include hr hP in
theorem apart_cutRef : Apart (some ref.proc) d (d.cutRef rb r ref P) := by
  have hbase : Apart (some ref.proc) d (d.setProc ref.proc { P with
      refsByDesc := rb.erase r P.refsByDesc
      refsByNode := rb.erase r P.refsByNode
      outerLock := none }) := apart_setProc hP Iff.rfl
  refine ⟨rfl, hbase.length, hbase.running, hbase.lock, fun r' y' hy => Or.inr ?_⟩
  rw [cutRef_ref rb hr] at hy
  split_ifs at hy
  exact ⟨y', hy, rfl, rfl⟩

include hP in
theorem here_cutRef (hptr : node'.ptr = node.ptr) (hproc : node'.proc = node.proc) :
    Here d ((d.cutRef rb r ref P).setNode ref.node node') ref.node node node' := by
  refine ⟨rfl, hptr, hproc, fun q => ?_⟩
  change ((d.cutRef rb r ref P).procs.get q).map _ = _
  rw [cutRef_proc rb hP]
  split_ifs with hq
  · rw [hq, hP]
    rfl
  · rfl

include hr hP in
theorem Inv.proc_cutRef (h : Inv none T d)
    (hd : Here d ((d.cutRef rb r ref P).setNode ref.node node') ref.node node node')
    (hn : d.nodes.get ref.node = some node) (hold : ∀ l, P.outerLock = some l → l.ref = r) (q : ℕ)
    {Q : BinderProc} (hQ : ((d.cutRef rb r ref P).setNode ref.node node').procs.get q = some Q) :
    ProcOk T ((d.cutRef rb r ref P).setNode ref.node node') q Q := by
  have hget : ∀ r', ((d.cutRef rb r ref P).setNode ref.node node').refs.get r' =
      if r' = r then none else d.refs.get r' := cutRef_ref rb hr
  have howned := hd.owned_node hn
  have hQ : (d.cutRef rb r ref P).procs.get q = some Q := hQ
  rw [cutRef_proc rb hP] at hQ
  split_ifs at hQ with hqp
  · cases hQ
    subst hqp
    have hok := h.proc _ P hP
    have hmem := exists_cutRef (P := P) rb hr fun y => y.proc = ref.proc
    refine ⟨hok.tmpRef, ?_, ?_, ?_, hok.gone, ?_, ?_, fun r' => ?_, fun r' => ?_, ?_, ?_, ?_⟩
    · refine hok.nodes.congr fun m hm => ?_
      obtain ⟨nodem, hgetm, hp⟩ := hok.mem_nodes m hm
      obtain ⟨nodem', hgetm', -, hptr⟩ := howned _ m nodem hgetm hp
      simp [Driver.ptrOf, hgetm, hgetm', hptr]
    · intro m hm
      obtain ⟨nodem, hgetm, hp⟩ := hok.mem_nodes m hm
      obtain ⟨nodem', hgetm', hp', -⟩ := howned _ m nodem hgetm hp
      exact ⟨nodem', hgetm', hp'⟩
    · intro m hm
      obtain ⟨hnot, nodem, hgetm, hp⟩ := hok.taken m hm
      obtain ⟨nodem', hgetm', hp', -⟩ := howned _ m nodem hgetm hp
      exact ⟨hnot, nodem', hgetm', hp'⟩
    · refine (hok.desc.erase rb r).congr fun r' hr' => ?_
      have hne := ((hok.desc.mem_erase rb r r').mp hr').1
      simp [Driver.descOf, hget, hne]
    · refine (hok.byNode.erase rb r).congr fun r' hr' => ?_
      have hne := ((hok.byNode.mem_erase rb r r').mp hr').1
      simp [Driver.nodeOf, hget, hne]
    · rw [hok.desc.mem_erase, hok.mem_desc]
      exact (hmem r').symm
    · rw [hok.byNode.mem_erase, hok.mem_byNode]
      exact (hmem r').symm
    · intro l hl
      cases hl
    · intro hrun ptr hno
      refine hok.told hrun ptr fun m hm => ?_
      obtain ⟨nodem, hgetm, hp⟩ := hok.mem_nodes m hm
      obtain ⟨nodem', hgetm', -, hptr⟩ := howned _ m nodem hgetm hp
      have hnot := hno m hm
      simp only [Driver.ptrOf, hgetm', hgetm, Option.map_some, hptr] at hnot ⊢
      exact hnot
    · intro hdone r' y hy hyp
      rw [hget] at hy
      split_ifs at hy with hrr
      obtain ⟨h1, h2, h3⟩ := hok.late hdone r' y hy hyp
      refine ⟨h1, h2, fun hl => ?_⟩
      rcases h3 hl with h3 | h3 | ⟨l, hl', hlr⟩
      · exact Or.inl h3
      · exact Or.inr (Or.inl h3)
      · exact absurd (hlr.symm.trans (hold l hl')) hrr
  · refine (h.proc q Q hQ).congr ⟨howned q, fun r' y => ?_, id⟩ (h.proc q Q hQ).tmpRef
      (fun _ _ => le_rfl) rfl rfl rfl rfl rfl (.inl rfl)
    rw [hget]
    split_ifs with hrr
    · subst hrr
      constructor
      · rintro ⟨he, -⟩
        cases he
      · rintro ⟨he, hyp⟩
        cases hr.symm.trans he
        exact absurd hyp.symm hqp
    · rfl

/-- The node of a reference that goes, between the two times that it is counted down. -/
theorem dropStrong_spec (hok : NodeOk T d ref.node node) (hr : d.refs.get r = some ref) :
    ∃ i q, dropStrong ref node = some (node.recount i node.wraps q) ∧
      i + (if ref.strong ≠ 0 then 1 else 0) = node.internalStrongRefs ∧
      (q = node.work ∨ ∃ todo, q = some todo ∧ node.proc = some todo.proc) ∧
      (node.proc ≠ none → Due d ref.node node →
        Due d ref.node (node.recount i node.wraps q)) := by
  by_cases hz : ref.strong = 0
  · exact ⟨node.internalStrongRefs, node.work, by simp [dropStrong, hz, BinderNode.recount],
      by simp [hz], Or.inl rfl, fun _ => id⟩
  · obtain ⟨free, q, hdec, hd⟩ := binderDecNodeNilocked_spec true true node
      fun hp => (hok.dead hp).1
    have hne := hok.refs_ne_nil hr
    cases free with
    | true =>
      obtain ⟨-, hrl⟩ := hd.freed rfl
      exact absurd ((decCount_refs true true node).symm.trans
        (BinderNode.refless_iff.mp hrl).1) hne
    | false =>
      refine ⟨node.internalStrongRefs - 1, q, ?_, by simp [hz], ?_,
        fun hp h => h.dec hd id rfl rfl rfl hp (fun _ => ?_) (by simp) fun hnil => absurd hnil hne⟩
      · simp [dropStrong, hz, hdec, decCount, BinderNode.recount, BinderNode.withWork]
      · rcases hd.work with hq | hq | ⟨hq, -⟩
        · exact Or.inl hq
        · exact Or.inr hq
        · cases hq
      · have := hok.internal_pos hr hz
        omega

/-- The node without the reference, and with what `dropStrong` makes of its count and its list. -/
def BinderNode.cut (node : BinderNode) (r : ℕ) (i : ℤ) (q : Option Todo) : BinderNode :=
  { node.recount i node.wraps q with refs := node.refs.erase r }

include hr in
theorem mem_refs_cut (hok : NodeOk T d ref.node node) (i : ℤ) (q : Option Todo) (r' : ℕ) :
    r' ∈ (node.cut r i q).refs ↔
      ∃ y, (d.cutRef rb r ref P).refs.get r' = some y ∧ y.node = ref.node := by
  rw [exists_cutRef rb hr (fun y => y.node = ref.node), ← hok.refs r']
  exact hok.nodup.mem_erase_iff

include hr in
theorem counted_cutRef {m : ℕ} (hc : (d.cutRef rb r ref P).counted m) : d.counted m := by
  obtain ⟨r', y, hy, hym, hpos⟩ := hc
  rw [cutRef_ref rb hr] at hy
  split_ifs at hy
  exact ⟨r', y, hy, hym, hpos⟩

include hr in
/-- The strong count of the node is that of the references that are left. -/
theorem internal_cut (hok : NodeOk T d ref.node node) {i : ℤ}
    (hi : i + (if ref.strong ≠ 0 then 1 else 0) = node.internalStrongRefs) :
    i = (d.cutRef rb r ref P).strongOn ref.node + node.wraps := by
  have hint := hok.internal
  have hstrong := strongOn_cutRef (P := P) rb hr ref.node
  simp only [true_and] at hstrong
  split_ifs at hi hstrong <;> omega

include hr in
theorem not_counted_cut (hok : NodeOk T d ref.node node) {i : ℤ} {q : Option Todo}
    (hi : i + (if ref.strong ≠ 0 then 1 else 0) = node.internalStrongRefs)
    (hwraps : node.wraps = 0) (hnil : (node.cut r i q).refs = []) :
    i = 0 ∧ ¬ (d.cutRef rb r ref P).counted ref.node := by
  have hno : ∀ r' y, (d.cutRef rb r ref P).refs.get r' = some y → y.node ≠ ref.node := by
    intro r' y hy hyn
    have hin := (mem_refs_cut rb hr hok i q r').mpr ⟨y, hy, hyn⟩
    rw [hnil] at hin
    cases hin
  refine ⟨?_, ?_⟩
  · rw [internal_cut (P := P) rb hr hok hi, Driver.strongOn_of_none hno, hwraps]
    rfl
  · rintro ⟨r', y, hy, hyn, -⟩
    exact hno r' y hy hyn

include hP in
theorem cutRef_proc_some (p : ℕ) {Q : BinderProc} (hQ : d.procs.get p = some Q) :
    ∃ Q', (d.cutRef rb r ref P).procs.get p = some Q' ∧
      Q'.phase = Q.phase ∧ Q'.told = Q.told ∧ Q'.nodes = Q.nodes := by
  rw [cutRef_proc rb hP]
  split_ifs with hqp
  · subst hqp
    cases hP.symm.trans hQ
    exact ⟨_, rfl, rfl, rfl, rfl⟩
  · exact ⟨Q, hQ, rfl, rfl, rfl⟩

include hr hP in
/-- The clause of the node that loses the reference. -/
theorem Inv.node_cutRef (h : Inv none T d) (hn : d.nodes.get ref.node = some node) {i : ℤ}
    {q w : Option Todo} (hi : i + (if ref.strong ≠ 0 then 1 else 0) = node.internalStrongRefs)
    (hwork : w = node.work ∨ (∃ todo, w = some todo ∧ node.proc = some todo.proc) ∨ w = none)
    (hdue : node.proc ≠ none → Due d ref.node node → node.wraps = 0 →
      Due (d.cutRef rb r ref P) ref.node ((node.cut r i q).withWork w)) :
    NodeOk T ((d.cutRef rb r ref P).setNode ref.node ((node.cut r i q).withWork w)) ref.node
      ((node.cut r i q).withWork w) := by
  have hok := h.node ref.node node hn
  have hhere : Here d ((d.cutRef rb r ref P).setNode ref.node ((node.cut r i q).withWork w)) ref.node
      node ((node.cut r i q).withWork w) := here_cutRef rb hP rfl rfl
  refine ⟨?_, internal_cut rb hr hok hi, hok.nodup.erase r, mem_refs_cut rb hr hok i q, ?_, ?_, ?_, ?_⟩
  · rw [hhere.taken]
    exact hok.tmp
  · intro p hp
    obtain ⟨Q, hQ, hin⟩ := hok.owner p hp
    obtain ⟨Q', hQ', hph, -, hnd⟩ := cutRef_proc_some (r := r) rb hP p hQ
    exact ⟨Q', hQ', by rw [hph, hnd]; exact hin⟩
  · intro p Q' hp hQ' hrun
    obtain ⟨Q, hQ, -⟩ := hok.owner p hp
    obtain ⟨Q'', hQ'', hph, htl, -⟩ := cutRef_proc_some (r := r) rb hP p hQ
    cases hQ'.symm.trans hQ''
    have ho := hok.owned p Q hp hQ (hph ▸ hrun)
    have hpn : node.proc ≠ none := fun hnone => absurd (hnone.symm.trans hp) (by simp)
    exact ⟨ho.strong, ho.weak, ho.strong_weak, ho.pending_strong, ho.pending_weak,
      fun o hseen => ho.told o (seen_congr htl hseen), ho.manager,
      fun hl hz => hdue hpn (ho.due hl hz) hz⟩
  · intro hp
    have hp : node.proc = none := hp
    obtain ⟨hw, hrest⟩ := hok.dead hp
    refine ⟨?_, hrest⟩
    rcases hwork with he | ⟨todo, -, he⟩ | he
    · exact he.trans hw
    · exact absurd (hp.symm.trans he) (by simp)
    · exact he
  · intro todo ht
    have ht : w = some todo := ht
    rcases hwork with he | ⟨todo', he, hp⟩ | he
    · exact hok.work todo (he.symm.trans ht)
    · cases he.symm.trans ht
      exact hp
    · exact absurd (he.symm.trans ht) (by simp)

include hr hP in
/-- Other nodes do not see that the reference goes. -/
theorem sameNode_cutRef {node' nodem : BinderNode} {m : ℕ} (hmn : m ≠ ref.node)
    (hhere : Here d ((d.cutRef rb r ref P).setNode ref.node node') ref.node node node') :
    SameNode d ((d.cutRef rb r ref P).setNode ref.node node') m nodem := by
  refine ⟨fun r' => ?_, ?_, counted_cutRef rb hr, fun p Q _ hQ => ?_, taken_congr hhere.phase m nodem,
    rfl, id, id⟩
  · refine (exists_cutRef (P := P) rb hr (fun y => y.node = m) r').trans ?_
    refine ⟨fun hx => hx.2, fun hx => ⟨?_, hx⟩⟩
    rintro rfl
    obtain ⟨y, hy, hym⟩ := hx
    cases hr.symm.trans hy
    exact hmn hym.symm
  · have hm' := strongOn_cutRef (P := P) rb hr m
    rw [if_neg fun he => hmn he.1.symm] at hm'
    exact hm'
  · obtain ⟨Q', hQ', hph, htl, hnd⟩ := cutRef_proc_some (r := r) rb hP p hQ
    exact ⟨Q', hQ', by rw [hph, hnd]; exact id, fun hrun => ⟨hph ▸ hrun, fun _ => seen_congr htl⟩⟩

include hr hP in
/-- The reference is out, and its node may have nothing left that keeps it. -/
theorem Inv.cutRef (h : Inv none T d) (hn : d.nodes.get ref.node = some node)
    (hold : ∀ l, P.outerLock = some l → l.ref = r) {i : ℤ} {q w : Option Todo}
    (hi : i + (if ref.strong ≠ 0 then 1 else 0) = node.internalStrongRefs)
    (hwork : w = node.work ∨ (∃ todo, w = some todo ∧ node.proc = some todo.proc) ∨ w = none)
    (hdue : node.proc ≠ none → Due d ref.node node → node.wraps = 0 →
      Due (d.cutRef rb r ref P) ref.node ((node.cut r i q).withWork w)) :
    Inv (some ref.node) T
      ((d.cutRef rb r ref P).setNode ref.node ((node.cut r i q).withWork w)) := by
  have hhere : Here d ((d.cutRef rb r ref P).setNode ref.node ((node.cut r i q).withWork w)) ref.node
      node ((node.cut r i q).withWork w) := here_cutRef rb hP rfl rfl
  have hget : ∀ r' y, ((d.cutRef rb r ref P).setNode ref.node
      ((node.cut r i q).withWork w)).refs.get r' = some y → d.refs.get r' = some y := by
    intro r' y hy
    have hy : (d.cutRef rb r ref P).refs.get r' = some y := hy
    rw [cutRef_ref rb hr] at hy
    split_ifs at hy
    exact hy
  refine h.here hhere hn (.refl d ref.node node T) (h.node_cutRef rb hr hP hn hi hwork hdue)
    (fun m nodem hmn _ _ => sameNode_cutRef rb hr hP hmn hhere) (fun he => absurd rfl he)
    (fun _ _ _ => by simp) (fun r' y hy => h.ref r' y (hget r' y hy))
    (fun p Q hQ => h.proc_cutRef rb hr hP hhere hn hold p hQ) (fun m hm => Or.inl hm) (fun hl => ?_)
    h.crashed
  refine ⟨(h.live hl).1, fun r' y hy => ?_⟩
  obtain ⟨Q, hQ⟩ := Option.isSome_iff_exists.mp ((h.live hl).2 r' y (hget r' y hy))
  obtain ⟨Q', hQ', -⟩ := cutRef_proc_some (r := r) rb hP _ hQ
  exact Option.isSome_iff_exists.mpr ⟨Q', hQ'⟩

include hr hP in
/-- `binder_cleanup_ref_olocked` of a reference whose process has nothing else in hand. -/
theorem Inv.cleanupRef (h : Inv none T d) (hold : ∀ l, P.outerLock = some l → l.ref = r) :
    ∃ d', binderCleanupRefOlocked rb (d.setProc ref.proc { P with outerLock := none }) r = some d' ∧
      Inv none T d' ∧ Apart (some ref.proc) d d' ∧ d'.lockOf ref.proc = none := by
  obtain ⟨node, hn, -⟩ := h.ref r ref hr
  have hok := h.node ref.node node hn
  -- the strong count goes first, then the reference itself
  obtain ⟨i, q, hdrop, hi, hq, hdue⟩ := dropStrong_spec hok hr
  obtain ⟨free, w, hdec, hd⟩ := binderDecNodeNilocked_spec false true (node.cut r i q) (by
    intro hp
    have hp : node.proc = none := hp
    rcases hq with hq | ⟨todo, -, hq⟩
    · exact hq.trans (hok.dead hp).1
    · exact absurd (hp.symm.trans hq) (by simp))
  have hwork : w = node.work ∨ (∃ todo, w = some todo ∧ node.proc = some todo.proc) ∨
      w = none := by
    rcases hd.work with hw | hw | ⟨-, hw⟩
    · rcases hq with hq | ⟨todo, hq, hp⟩
      · exact Or.inl (hw.trans hq)
      · exact Or.inr (Or.inl ⟨todo, hw.trans hq, hp⟩)
    · exact Or.inr (Or.inl hw)
    · exact Or.inr (Or.inr hw)
  have hinv := h.cutRef rb hr hP hn hold hi hwork fun hpn hold' hz =>
    (hdue hpn hold').dec hd (counted_cutRef rb hr) rfl rfl rfl hpn id (fun _ => rfl)
      fun hnil => not_counted_cut rb hr hok hi hz hnil
  have hn₁ : (d.cutRef rb r ref P).nodes.get ref.node = some node := hn
  have hf : ((dropStrong ref node).bind fun node =>
      binderDecNodeNilocked false true { node with refs := node.refs.erase r }) =
        some (free, (node.cut r i q).withWork w) := by
    rw [hdrop, Option.bind_some]
    exact hdec
  obtain ⟨d', hd', hinv', hframe⟩ := Inv.applyNode (d := d.cutRef rb r ref P) rb hn₁
    (f := fun node => (dropStrong ref node).bind fun node =>
      binderDecNodeNilocked false true { node with refs := node.refs.erase r }) hf hinv
    (fun hf => ⟨(hd.freed hf).2, (hd.freed hf).1⟩) fun hf => hd.kept hf (by simp)
  refine ⟨d', ?_, hinv', (apart_cutRef rb hr hP).trans (hframe.apart.mono _), ?_⟩
  · have hget := (Slots.get_put hP (some { P with outerLock := none }) ref.proc).trans (if_pos rfl)
    have hset : ∀ P₁ P₂ : BinderProc, Slots.put (Slots.put d.procs ref.proc (some P₁)) ref.proc
        (some P₂) = Slots.put d.procs ref.proc (some P₂) := fun _ _ => List.set_set _
    unfold binderCleanupRefOlocked
    simp only [Driver.setProc, hr, hget, hset]
    exact hd'
  · rw [hframe.apart.lock _ (by simp)]
    unfold Driver.lockOf
    rw [cutRef_proc rb hP, if_pos rfl]
    rfl

end CutRef

end HeadlessAndroid.BinderNodes
