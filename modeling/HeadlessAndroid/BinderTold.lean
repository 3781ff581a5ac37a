import HeadlessAndroid.BinderGive

/-!
# HeadlessAndroid.BinderTold — what the owner of a node learns, and new nodes

The owner reads the work of a node and knows from then on what it needs to know, or the node is gone;
the context manager learns at once that its node is kept.  A new node is one that the owner knows
nothing of.
-/

namespace HeadlessAndroid.BinderNodes

open Lib Lib.SearchTree

variable {x : Option ℕ} {T : Multiset Token} {d : Driver} {n p : ℕ} {node node' : BinderNode}
  {P : BinderProc}

/-- The process `p` is told something of its node `n`, and `mgr` is the context manager's node. -/
def Driver.tell (d : Driver) (p : ℕ) (P : BinderProc) (told : Option (List (ℕ × Notice))) (mgr : Option ℕ)
    (n : ℕ) (node : BinderNode) : Driver :=
  { d.setProc p { P with told := told } with contextMgrNode := mgr }.setNode n node

theorem tell_proc (hP : d.procs.get p = some P) (told : Option (List (ℕ × Notice))) (mgr : Option ℕ) (q : ℕ) :
    (d.tell p P told mgr n node).procs.get q =
      if q = p then some { P with told := told } else d.procs.get q :=
  Slots.get_put hP _ q

theorem here_tell (hP : d.procs.get p = some P) (told : Option (List (ℕ × Notice))) (mgr : Option ℕ)
    (hptr : node'.ptr = node.ptr) (hproc : node'.proc = node.proc) :
    Here d (d.tell p P told mgr n node') n node node' := by
  refine ⟨rfl, hptr, hproc, fun q => ?_⟩
  rw [tell_proc hP]
  split_ifs with hq
  · rw [hq, hP]
    rfl
  · rfl

theorem frame_tell (hP : d.procs.get p = some P) (told : Option (List (ℕ × Notice))) (mgr : Option ℕ) :
    Frame d (d.tell p P told mgr n node) := by
  refine ⟨rfl, rfl, List.length_set, fun q => ?_⟩
  rw [tell_proc hP]
  split_ifs with hq
  · rw [hq, hP]
    rfl
  · rfl

/-- A step that tells the owner of the node `n` something. -/
theorem Inv.tell (h : Inv none T d) (hn : d.nodes.get n = some node) (hp : node.proc = some p)
    (hP : d.procs.get p = some P) (hr : P.phase = .running)
    {told : Option (List (ℕ × Notice))} {mgr : Option ℕ} (hptr : node'.ptr = node.ptr)
    (hproc : node'.proc = node.proc)
    (hrefs : node'.refs = node.refs) (hint : node'.internalStrongRefs = node.internalStrongRefs)
    (hwraps : node'.wraps = node.wraps) (htmp : node'.tmpRefs = node.tmpRefs)
    (htold : ∀ ptr, ptr ≠ node.ptr →
      ∀ o ∈ ({ P with told := told } : BinderProc).view ptr, o ∈ P.view ptr)
    (hmgr : mgr = d.contextMgrNode ∨ d.contextMgrNode = none ∧ mgr = some n)
    (hwork : ∀ q, node'.work = some q → node.proc = some q.proc)
    (howned : Owned T d n node p P →
      Owned T (d.tell p P told mgr n node') n node' p { P with told := told })
    (hkept : x ≠ some n → node'.Kept) : Inv x T (d.tell p P told mgr n node') := by
  have hd := here_tell (n := n) hP told mgr hptr hproc
  have hok := h.node n node hn
  have hget : ∀ q, (d.tell p P told mgr n node').procs.get q =
      if q = p then some { P with told := told } else d.procs.get q := tell_proc hP told mgr
  have hin : n ∈ inorder P.nodes := by
    obtain ⟨P', hP', hin⟩ := hok.owner p hp
    cases hP.symm.trans hP'
    rw [hr] at hin
    exact hin.resolve_right (by simp)
  refine h.here hd hn (.refl d n node T) ?_ ?_ hkept (fun _ _ _ => by simp) h.ref ?_ ?_ ?_ h.crashed
  · refine ⟨?_, hint.trans (hwraps ▸ hok.internal), hrefs ▸ hok.nodup, fun r => hrefs ▸ hok.refs r, ?_, ?_, ?_,
      fun q hq => hproc ▸ hwork q hq⟩
    · rw [hd.taken, htmp]
      exact hok.tmp
    · intro q hq
      rw [hproc, hp] at hq
      cases hq
      exact ⟨_, (hget p).trans (if_pos rfl), Or.inl hin⟩
    · intro q Q hq hQ _
      rw [hproc, hp] at hq
      cases hq
      rw [hget, if_pos rfl] at hQ
      cases hQ
      exact howned (hok.owned p P hp hP hr)
    · intro hnone
      rw [hproc, hp] at hnone
      cases hnone
  · intro m nodem hmn hm hdiff
    refine ⟨fun _ => Iff.rfl, rfl, id, fun q Q hq hQ => ?_, ?_, ?_, id, id⟩
    · by_cases hqp : q = p
      · subst hqp
        cases hP.symm.trans hQ
        refine ⟨_, (hget q).trans (if_pos rfl), id, fun hrun => ⟨hrun, htold _ ?_⟩⟩
        exact (hdiff q hq (Driver.running_iff.mpr ⟨P, hP, hr⟩) hp).symm
      · exact ⟨Q, (hget q).trans ((if_neg hqp).trans hQ), id, fun hrun => ⟨hrun, fun _ => id⟩⟩
    · exact taken_congr hd.phase m nodem
    · change (if mgr = some m then 1 else 0) = if d.contextMgrNode = some m then 1 else 0
      rcases hmgr with rfl | ⟨hnone, rfl⟩
      · rfl
      · have hne : some n ≠ some m := fun he => hmn (Option.some.inj he).symm
        rw [hnone, if_neg hne]
        rfl
  · intro q Q hQ
    have hsame : SameProc d (d.tell p P told mgr n node') q :=
      ⟨hd.owned_node hn q, fun _ _ => Iff.rfl, id⟩
    rw [hget] at hQ
    split_ifs at hQ with hqp
    · cases hQ
      subst hqp
      refine (h.proc q P hP).congr hsame (h.proc q P hP).tmpRef (fun _ _ => le_rfl) rfl rfl rfl rfl
        rfl (.inr fun ptr hno => htold ptr ?_)
      rintro rfl
      exact hno n hin (by simp [Driver.ptrOf, hn])
    · exact (h.proc q Q hQ).congr hsame (h.proc q Q hQ).tmpRef (fun _ _ => le_rfl) rfl rfl rfl rfl
        rfl (.inl rfl)
  · intro m hm
    have hm : mgr = some m := hm
    rcases hmgr with rfl | ⟨-, rfl⟩
    · exact Or.inl hm
    · exact Or.inr ⟨(Option.some.inj hm).symm, p, hp, Driver.running_iff.mpr ⟨P, hP, hr⟩⟩
  · intro hl
    refine ⟨(h.live hl).1, fun r ref href => ?_⟩
    have hlive := (h.live hl).2 r ref href
    rw [hget]
    split_ifs
    · rfl
    · exact hlive

/-! ### What is read -/

/-- What the process takes an object to be known as after more notices. -/
theorem view_tell (P : BinderProc) (ptr : ℕ) (cs : List Notice) (ptr' : ℕ) :
    (P.tell ptr cs).view ptr' =
      if ptr = ptr' then (P.view ptr').map fun o => o.bind fun v => cs.foldlM learn v
      else P.view ptr' := by
  have happend : ∀ l, viewOf (l ++ cs.map fun c => (ptr, c)) ptr' =
      if ptr = ptr' then (viewOf l ptr').bind fun v => cs.foldlM learn v else viewOf l ptr' :=
    fun l => viewOf_append l ptr cs ptr'
  unfold BinderProc.view BinderProc.tell
  cases P.told with
  | none => split_ifs <;> rfl
  | some l =>
    rw [Option.map_some, Option.map_some, Option.map_some, happend]
    split_ifs <;> rfl

/-- A node whose flags are set and that is needed gives nothing to tell. -/
theorem readNode_quiet (hs : node.strong = true) (h1 : node.hasStrongRef = true)
    (h2 : node.hasWeakRef = true) : (readNode node).2.2 = [] := by
  simp [readNode, hs, h1, h2, BinderNode.weak_of_strong hs]

/-- The owner of a node other than the context manager's knows after a read what it needs to know. -/
theorem Owned.read (ho : Owned T d n node p P) (fault : Bool) :
    ∀ o ∈ (if fault then P.fault else P.tell node.ptr (readNode node).2.2).view node.ptr,
      ∃ v, o = some v ∧ (d.mgrCount n = 0 → v = (node.weak, node.strong)) := by
  intro o hseen
  cases fault with
  | true => cases hseen
  | false =>
    rw [if_neg (by simp), view_tell, if_pos rfl] at hseen
    obtain ⟨o', ho', rfl⟩ := Option.map_eq_some_iff.mp hseen
    obtain ⟨v, rfl, hv⟩ := ho.told o' ho'
    rw [Option.bind_some]
    by_cases hz : d.mgrCount n = 0
    · rw [hv hz]
      exact ⟨_, readNode_learn ho.strong_weak, fun _ => rfl⟩
    · have hflag := ho.manager hz
      have hs : node.strong = true := by
        refine BinderNode.strong_iff.mpr (Or.inr ?_)
        have := ho.strong
        omega
      rw [readNode_quiet hs hflag (ho.strong_weak hflag)]
      exact ⟨v, rfl, fun hz' => absurd hz' hz⟩

/-- A node that is needed is needed after it is read. -/
theorem readNode_needed (node : BinderNode) (hs : 0 ≤ node.localStrongRefs) (hw : 0 ≤ node.localWeakRefs) :
    (node.strong = true → (readNode node).2.1.strong = true) ∧
      (node.weak = true → (readNode node).2.1.weak = true) := by
  have hafter : (readNode node).2.1 = _ := congrArg (fun y => y.2.1) (readNode_eq node)
  have hstrong : node.strong = true → (readNode node).2.1.strong = true := by
    rw [hafter, BinderNode.strong_iff, BinderNode.strong_iff]
    refine Or.imp id fun hne => ?_
    change node.localStrongRefs + ((_ : ℕ) : ℤ) ≠ 0
    omega
  refine ⟨hstrong, ?_⟩
  rw [BinderNode.weak_iff, BinderNode.weak_iff]
  rw [hafter] at hstrong ⊢
  refine Or.imp id (Or.imp (fun hne => ?_) (Or.imp id hstrong))
  change node.localWeakRefs + ((_ : ℕ) : ℤ) ≠ 0
  omega

/-- A node that is not needed is as good as gone after it is read. -/
theorem readNode_gone (hweak : node.weak = false) :
    (readNode node).2.1.refless = true ∧ (readNode node).2.1.known = false := by
  have hafter : (readNode node).2.1 = _ := congrArg (fun y => y.2.1) (readNode_eq node)
  have hstrong : node.strong = false := by
    rw [Bool.eq_false_iff] at hweak ⊢
    exact fun hs => hweak (BinderNode.weak_of_strong hs)
  have hno := mt BinderNode.weak_iff.mpr (Bool.eq_false_iff.mp hweak)
  have hno' := mt BinderNode.strong_iff.mpr (Bool.eq_false_iff.mp hstrong)
  push Not at hno hno'
  obtain ⟨hrefs, hlw, htmp, -⟩ := hno
  rw [hafter]
  constructor
  · rw [BinderNode.refless_iff]
    simp [hrefs, hlw, htmp, hno'.2, hweak, hstrong]
  · simp [BinderNode.known, hweak, hstrong]

/-- The node is accounted for after the read, whatever of it reached its owner. -/
theorem Owned.after_read (ho : Owned T d n node p P) (hok : NodeOk T d n node)
    {told : Option (List (ℕ × Notice))}
    (htold : ∀ o ∈ ({ P with told := told } : BinderProc).view node.ptr,
      ∃ v, o = some v ∧ (d.mgrCount n = 0 → v = (node.weak, node.strong))) :
    Owned T (d.tell p P told d.contextMgrNode n (readNode node).2.1) n (readNode node).2.1 p
      { P with told := told } := by
  have hs := ho.strong
  have hw := ho.weak
  have hps := ho.pending_strong
  have hpw := ho.pending_weak
  obtain ⟨hstrong, hweak⟩ := readNode_needed node (by omega) (by omega)
  rw [show (readNode node).2.1 = _ from congrArg (fun y => y.2.1) (readNode_eq node)] at hstrong hweak ⊢
  refine ⟨?_, ?_, BinderNode.weak_of_strong, ?_, ?_, htold, ?_, ?_⟩
  · change node.localStrongRefs + _ = (T.count _ : ℤ) + T.count _ + _ + d.mgrCount n
    rw [hs]
    cases hpend : node.pendingStrongRef with
    | true => simp [hps hpend]
    | false => simp; ring
  · change node.localWeakRefs + _ = (T.count _ : ℤ) + _ + d.mgrCount n
    rw [hw]
    cases hpend : node.pendingWeakRef with
    | true => simp [hpw hpend]
    | false => simp; ring
  · intro ht
    change (node.pendingStrongRef || node.strong && !node.hasStrongRef) = true at ht
    cases hpend : node.pendingStrongRef with
    | true =>
      rw [hpend] at hs
      exact BinderNode.strong_iff.mpr (Or.inr (by simp at hs; omega))
    | false =>
      rw [hpend, Bool.false_or, Bool.and_eq_true] at ht
      exact ht.1
  · intro ht
    change (node.pendingWeakRef || node.weak && !node.hasWeakRef) = true at ht
    cases hpend : node.pendingWeakRef with
    | true =>
      rw [hpend] at hw
      exact BinderNode.weak_iff.mpr (Or.inr (Or.inl (by simp at hw; omega)))
    | false =>
      rw [hpend, Bool.false_or, Bool.and_eq_true] at ht
      exact ht.1
  · intro hm
    refine BinderNode.strong_iff.mpr (Or.inr ?_)
    change d.mgrCount n ≠ 0 at hm
    omega
  · intro _ _ _
    refine ⟨fun hne => BinderNode.strong_iff.mpr (Or.inl hne), fun hc => ?_, hstrong, hweak⟩
    refine BinderNode.weak_iff.mpr (Or.inl fun hnil => ?_)
    exact hok.not_counted hnil hc

/-- `binder_thread_read` comes to the work of a node of a process that runs. -/
theorem Inv.readNode (rb : Rebalance ℕ) (h : Inv none T d) (hn : d.nodes.get n = some node)
    {q : Todo} (hq : node.work = some q) (hr : d.running q.proc = true) (fault : Bool) :
    ∃ d', binderThreadReadNode rb d n fault = some d' ∧ Inv none T d' ∧ Frame d d' := by
  obtain ⟨P, hP, hphase⟩ := Driver.running_iff.mp hr
  have hok := h.node n node hn
  have hp := hok.work q hq
  have ho := hok.owned q.proc P hp hP hphase
  obtain ⟨told, hP'⟩ : ∃ told, (if fault then P.fault
      else P.tell node.ptr (BinderNodes.readNode node).2.2) = { P with told := told } := by
    cases fault <;> exact ⟨_, rfl⟩
  have hother : ∀ ptr, ptr ≠ node.ptr → ∀ o ∈ ({ P with told := told } : BinderProc).view ptr,
      o ∈ P.view ptr := by
    intro ptr hne o hseen
    rw [← hP'] at hseen
    cases fault with
    | true => cases hseen
    | false => rwa [if_neg (by simp), view_tell, if_neg hne.symm] at hseen
  let after := (BinderNodes.readNode node).2.1
  have hafter : after = _ := congrArg (fun y => y.2.1) (readNode_eq node)
  have hfree : (BinderNodes.readNode node).1 = !node.weak :=
    congrArg (fun y => y.1) (readNode_eq node)
  have hinv : ∀ y, (y ≠ some n → after.Kept) →
      Inv y T (d.tell q.proc P told d.contextMgrNode n after) := by
    intro y hkept
    refine h.tell hn hp hP hphase (by rw [hafter]) (by rw [hafter]) (by rw [hafter])
      (by rw [hafter]) (by rw [hafter]) (by rw [hafter]) hother (Or.inl rfl) ?_ ?_ hkept
    · rw [hafter]
      simp
    · intro _
      have htold := ho.read fault
      rw [hP'] at htold
      exact ho.after_read hok htold
  have hframe : Frame d (d.tell q.proc P told d.contextMgrNode n after) :=
    frame_tell hP told d.contextMgrNode
  have hn' : (d.tell q.proc P told d.contextMgrNode n after).nodes.get n = some after := by
    rw [show (d.tell q.proc P told d.contextMgrNode n after).nodes.get n = _ from
      Slots.get_put hn _ n, if_pos rfl]
  have hstep : binderThreadReadNode rb d n fault = some (if (BinderNodes.readNode node).1 then
      (d.setProc q.proc { P with told := told }).after
        (freeNode rb (d.setProc q.proc { P with told := told }) n after) id
      else d.tell q.proc P told d.contextMgrNode n after) := by
    unfold binderThreadReadNode
    simp only [hn, hq, hr, hp, hP, hP', Driver.after, Bool.not_true, Bool.false_eq_true, if_false,
      ne_eq, not_true_eq_false]
    rfl
  rw [hstep, hfree]
  cases hwk : node.weak with
  | true =>
    refine ⟨_, rfl, hinv none fun _ => Or.inl (BinderNode.known_iff.mpr ⟨?_, Or.inr ?_⟩), hframe⟩
    · rw [hafter]
      simp [hp]
    · rw [hafter]
      exact hwk
  | false =>
    obtain ⟨hrl, hkn⟩ := readNode_gone hwk
    obtain ⟨d', hd', hfreed⟩ := (hinv (some n) fun hne => absurd rfl hne).freed rb hn' rfl
    refine ⟨d', ?_, (hinv (some n) fun hne => absurd rfl hne).free hfreed hn' hrl hkn,
      hframe.trans hfreed.frame⟩
    have hd' : freeNode rb ((d.setProc q.proc { P with told := told }).setNode n after) n after =
      some d' := hd'
    rw [freeNode_setNode] at hd'
    rw [hd']
    rfl

/-! ### Nodes by their address -/

/-- `binder_get_node` -/
theorem Inv.getNode (h : Inv none T d) (hP : d.procs.get p = some P) (ptr : ℕ) :
    (∃ n node, d.nodes.get n = some node ∧ node.proc = some p ∧ node.ptr = ptr ∧
      binderGetNode d p ptr =
        some (some n, d.setNode n { node with tmpRefs := node.tmpRefs + 1 })) ∨
      (∀ n ∈ inorder P.nodes, d.ptrOf n ≠ some ptr) ∧ binderGetNode d p ptr = some (none, d) := by
  have hok := h.proc p P hP
  rcases hok.nodes.find ptr with ⟨n, hin, hkey, hfind⟩ | ⟨hno, hfind⟩
  · obtain ⟨node, hn, hp⟩ := hok.mem_nodes n hin
    refine Or.inl ⟨n, node, hn, hp, by simpa [Driver.ptrOf, hn] using hkey, ?_⟩
    simp [binderGetNode, binderIncNodeTmpref, hP, hfind, hn]
  · exact Or.inr ⟨hno, by simp [binderGetNode, hP, hfind]⟩

/-- The node of a new address, with the temporary reference of the caller. -/
def Driver.addNode (d : Driver) (p : ℕ) (P : BinderProc) (t : BinaryTree ℕ) (ptr cookie : ℕ) :
    Driver :=
  { d.setProc p { P with nodes := t } with nodes := d.nodes.add (.fresh ptr cookie p) }

section New

variable {t : BinaryTree ℕ} {ptr : ℕ}

theorem addNode_get (t : BinaryTree ℕ) (ptr cookie m : ℕ) :
    (d.addNode p P t ptr cookie).nodes.get m =
      if m = d.nodes.length then some (.fresh ptr cookie p) else d.nodes.get m :=
  Slots.get_add _ _ m

theorem addNode_proc (hP : d.procs.get p = some P) (t : BinaryTree ℕ) (ptr cookie q : ℕ) :
    (d.addNode p P t ptr cookie).procs.get q =
      if q = p then some { P with nodes := t } else d.procs.get q :=
  Slots.get_put hP _ q

theorem addNode_old (cookie : ℕ) {m : ℕ} {nodem : BinderNode} (hm : d.nodes.get m = some nodem) :
    (d.addNode p P t ptr cookie).nodes.get m = some nodem := by
  rw [addNode_get, if_neg (Nat.ne_of_lt (Slots.lt_length_of_get hm)), hm]

theorem frame_addNode (hP : d.procs.get p = some P) (t : BinaryTree ℕ) (ptr cookie : ℕ) :
    Frame d (d.addNode p P t ptr cookie) := by
  refine ⟨rfl, rfl, List.length_set, fun q => ?_⟩
  rw [addNode_proc hP]
  split_ifs with hq
  · rw [hq, hP]
    rfl
  · rfl

theorem owners_addNode (hP : d.procs.get p = some P) (cookie : ℕ) :
    SameOwners d (d.addNode p P t ptr cookie) where
  node m nodem hm := ⟨nodem, addNode_old cookie hm, rfl, rfl⟩
  proc q Q hQ := by
    obtain ⟨Q', hQ', hphase, -⟩ := (frame_addNode hP t ptr cookie).proc_some hQ
    exact ⟨Q', hQ', by rw [hphase]⟩
  new q hq := by
    rw [(frame_addNode hP t ptr cookie).running]
    simp [Driver.running, hq]
  length := by simp [Driver.addNode, Slots.add]
  old m nodem hm hlt := by
    rw [addNode_get, if_neg (Nat.ne_of_lt hlt)] at hm
    exact ⟨nodem, hm, rfl, rfl⟩

/-- No token and no reference is about a node that is not there yet. -/
theorem Inv.no_new_tokens (h : Inv x T d) : .tmp d.nodes.length ∉ T ∧
    (∀ p, .target d.nodes.length p ∉ T) ∧
      ∀ r ref, d.refs.get r = some ref → ref.node ≠ d.nodes.length := by
  refine ⟨fun hk => ?_, fun p hk => ?_, fun r ref hr he => ?_⟩
  · obtain ⟨node, hn⟩ := h.node_of_tmp hk
    exact absurd (Slots.lt_length_of_get hn) (lt_irrefl _)
  · exact absurd (h.token _ hk).1 (lt_irrefl _)
  · obtain ⟨node, hn, -⟩ := h.ref r ref hr
    rw [he] at hn
    exact absurd (Slots.lt_length_of_get hn) (lt_irrefl _)

theorem Driver.strongOn_of_none (hno : ∀ r ref, d.refs.get r = some ref → ref.node ≠ n) :
    d.strongOn n = 0 := by
  by_contra hne
  obtain ⟨r, ref, hget, hpos⟩ := Slots.exists_of_total_pos (Nat.pos_of_ne_zero hne)
  simp [hno r ref hget] at hpos

theorem Inv.fresh (h : Inv none T d) (hP : d.procs.get p = some P) (hr : P.phase = .running)
    (hnew : ∀ n ∈ inorder P.nodes, d.ptrOf n ≠ some ptr) (cookie : ℕ)
    (hmem : d.nodes.length ∈ inorder t) :
    NodeOk (.tmp d.nodes.length ::ₘ T) (d.addNode p P t ptr cookie) d.nodes.length
      (.fresh ptr cookie p) := by
  obtain ⟨htmp, htarget, href⟩ := h.no_new_tokens
  have hproc := addNode_proc hP t ptr cookie p
  rw [if_pos rfl] at hproc
  have hcounted : ¬ (d.addNode p P t ptr cookie).counted d.nodes.length := by
    rintro ⟨r, ref, hget, hrn, -⟩
    exact href r ref hget hrn
  have hobject : ∀ s, T.count (.object p ptr s) = 0 := by
    intro s
    refine Multiset.count_eq_zero.mpr fun hk => ?_
    obtain ⟨m, nodem, hm, hp, hptr⟩ := h.token _ hk (Driver.running_iff.mpr ⟨P, hP, hr⟩)
    obtain ⟨P', hP', hin⟩ := (h.node m nodem hm).owner p hp
    cases hP.symm.trans hP'
    rw [hr] at hin
    exact hnew m (hin.resolve_right (by simp)) (by simp [Driver.ptrOf, hm, hptr])
  have hmgr : (d.addNode p P t ptr cookie).mgrCount d.nodes.length = 0 := by
    refine if_neg fun he => ?_
    obtain ⟨node, q, hn, -⟩ := h.mgr _ he
    exact absurd (Slots.lt_length_of_get hn) (lt_irrefl _)
  refine ⟨?_, ?_, List.nodup_nil, fun r => ?_, ?_, ?_,
    (fun hp => by cases hp), (fun q hq => by cases hq)⟩
  · rw [Multiset.count_cons_self, Multiset.count_eq_zero.mpr htmp]
    simp [Driver.taken, BinderNode.fresh, hproc, hr]
  · have hz : (d.addNode p P t ptr cookie).strongOn d.nodes.length = 0 :=
      Driver.strongOn_of_none href
    rw [hz]
    rfl
  · constructor
    · intro hmem
      cases hmem
    · rintro ⟨ref, hget, hrn⟩
      exact absurd hrn (href r ref hget)
  · intro q hq
    cases hq
    exact ⟨_, hproc, Or.inl hmem⟩
  · intro q Q hq hQ _
    cases hq
    rw [hproc] at hQ
    cases hQ
    refine ⟨?_, ?_, (fun ht => by cases ht), (fun ht => by cases ht), (fun ht => by cases ht),
      fun o hseen => ?_, fun hm => absurd hmgr hm, fun _ _ _ => ?_⟩
    · rw [hmgr]
      simp [BinderNode.fresh, hobject, Multiset.count_eq_zero.mpr (htarget p)]
    · rw [hmgr]
      simp [BinderNode.fresh, hobject]
    · exact ⟨_, (h.proc p P hP).told hr ptr hnew o hseen, fun _ => rfl⟩
    · exact ⟨fun hne => absurd rfl hne, fun hc => absurd hc hcounted,
        (fun ht => by cases ht), (fun ht => by cases ht)⟩

/-- `binder_new_node` with an address that the process has not used. -/
theorem Inv.addNode (h : Inv none T d) (hP : d.procs.get p = some P) (hr : P.phase = .running)
    (hnew : ∀ n ∈ inorder P.nodes, d.ptrOf n ≠ some ptr) (cookie : ℕ)
    (hmem : ∀ n, n ∈ inorder t ↔ n = d.nodes.length ∨ n ∈ inorder P.nodes)
    (hkeyed : Keyed (d.addNode p P t ptr cookie).ptrOf t) :
    Inv none (.tmp d.nodes.length ::ₘ T) (d.addNode p P t ptr cookie) := by
  have hget := addNode_get (d := d) (p := p) (P := P) t ptr cookie
  have hproc := addNode_proc hP t ptr cookie
  have howners : SameOwners d (d.addNode p P t ptr cookie) := owners_addNode hP cookie
  have hframe := frame_addNode hP t ptr cookie
  have hphase : ∀ q, ((d.addNode p P t ptr cookie).procs.get q).map BinderProc.phase =
      (d.procs.get q).map BinderProc.phase := by
    intro q
    rw [hproc]
    split_ifs with hq
    · rw [hq, hP]
      rfl
    · rfl
  refine ⟨?_, ?_, ?_, ?_, ?_, ?_, ?_, h.crashed⟩
  · intro m nodem hm
    rw [hget] at hm
    split_ifs at hm with hmn
    · cases hm
      subst hmn
      exact h.fresh hP hr hnew cookie ((hmem _).mpr (Or.inl rfl))
    · refine (h.node m nodem hm).congr ⟨fun _ => Iff.rfl, rfl, id, fun q Q hq hQ => ?_,
        taken_congr hphase m nodem, rfl, id, id⟩ ?_ fun q _ _ => ⟨?_, fun s => ?_⟩
      · by_cases hqp : q = p
        · subst hqp
          cases hP.symm.trans hQ
          refine ⟨_, (hproc q).trans (if_pos rfl), ?_, fun hrun => ⟨hrun, fun _ => id⟩⟩
          exact Or.imp (fun hin => (hmem m).mpr (Or.inr hin)) id
        · exact ⟨Q, (hproc q).trans ((if_neg hqp).trans hQ), id, fun hrun => ⟨hrun, fun _ => id⟩⟩
      · simp [hmn]
      · simp
      · simp
  · intro m nodem hm _
    rw [hget] at hm
    split_ifs at hm
    · cases hm
      exact Or.inr (Or.inl rfl)
    · exact h.kept m nodem hm (by simp)
  · exact fun r ref hget' => (h.ref r ref hget').mono howners
  · intro q Q hQ
    rw [hproc] at hQ
    split_ifs at hQ with hqp
    · cases hQ
      subst hqp
      have hok := h.proc q P hP
      refine ⟨?_, hkeyed, ?_, ?_, ?_, hok.desc, hok.byNode, hok.mem_desc, hok.mem_byNode, ?_, ?_, ?_⟩
      · simpa [Multiset.count_cons] using hok.tmpRef
      · intro m hm
        rcases (hmem m).mp hm with rfl | hm
        · exact ⟨_, (hget _).trans (if_pos rfl), rfl⟩
        · obtain ⟨nodem, hgetm, hp⟩ := hok.mem_nodes m hm
          exact ⟨nodem, addNode_old cookie hgetm, hp⟩
      · intro m hm
        have hm : P.phase = .node m := hm
        rw [hr] at hm
        cases hm
      · intro hgone
        have hgone : P.phase = .refs ∨ P.phase = .done := hgone
        rw [hr] at hgone
        rcases hgone with hgone | hgone <;> cases hgone
      · intro l hl
        obtain ⟨hjob, ref⟩ := hok.lock l hl
        exact ⟨hjob, ref⟩
      · intro _ ptr' hno
        refine hok.told hr ptr' fun m hm => ?_
        obtain ⟨nodem, hgetm, -⟩ := hok.mem_nodes m hm
        have hnot := hno m ((hmem m).mpr (Or.inr hm))
        simp only [Driver.ptrOf, addNode_old cookie hgetm, hgetm] at hnot ⊢
        exact hnot
      · intro hdone
        have hdone : P.phase = .done := hdone
        rw [hr] at hdone
        cases hdone
    · refine (h.proc q Q hQ).congr ⟨fun m nodem hm hp => ⟨nodem, addNode_old cookie hm, hp, rfl⟩,
        fun _ _ => Iff.rfl, id⟩ ?_ (fun desc s => ?_) rfl rfl rfl rfl rfl (.inl rfl)
      · simpa [Multiset.count_cons] using (h.proc q Q hQ).tmpRef
      · simp
  · intro k hk
    rcases Multiset.mem_cons.mp hk with rfl | hk
    · simp [Token.Valid, hget]
    · exact (h.token k hk).mono howners
  · intro m hm
    obtain ⟨nodem, q, hgetm, hq, hrun⟩ := h.mgr m hm
    exact ⟨nodem, q, addNode_old cookie hgetm, hq, (hframe.running q).trans hrun⟩
  · intro hl
    refine ⟨(h.live hl).1, fun r ref hget' => ?_⟩
    have hlive := (h.live hl).2 r ref hget'
    rw [hproc]
    split_ifs
    · rfl
    · exact hlive

/-- `binder_new_node` -/
theorem Inv.newNode (rb : Rebalance ℕ) (h : Inv none T d) (hP : d.procs.get p = some P)
    (hr : P.phase = .running) (ptr cookie : ℕ) : ∃ n node d',
    binderNewNode rb d p ptr cookie = some (n, d') ∧ d'.nodes.get n = some node ∧
      node.proc = some p ∧ node.ptr = ptr ∧ Inv none (.tmp n ::ₘ T) d' ∧ Frame d d' ∧
        d'.contextMgrNode = d.contextMgrNode := by
  have hok := h.proc p P hP
  unfold binderNewNode
  rw [hP]
  rcases hok.nodes.find ptr with ⟨n, hin, hkey, hfind⟩ | ⟨hno, hfind⟩
  · obtain ⟨node, hn, hp⟩ := hok.mem_nodes n hin
    have hn' := (Slots.get_put hn (some { node with tmpRefs := node.tmpRefs + 1 }) n).trans
      (if_pos rfl)
    refine ⟨n, { node with tmpRefs := node.tmpRefs + 1 }, _, ?_, hn', hp, ?_, h.takeTmp hn,
      frame_setNode d n _, rfl⟩
    · simp [hfind, binderIncNodeTmpref, hn]
    · simpa [Driver.ptrOf, hn] using hkey
  · obtain ⟨t, hlink, hmem, hkeyed⟩ := hok.nodes.link d.nodes.length hno
    have hmem' : ∀ n, n ∈ inorder (rb.insertColor t) ↔
        n = d.nodes.length ∨ n ∈ inorder P.nodes := by
      rw [rb.inorder_insertColor]
      exact hmem
    refine ⟨d.nodes.length, .fresh ptr cookie p, d.addNode p P (rb.insertColor t) ptr cookie, ?_, ?_,
      rfl, rfl, ?_, frame_addNode hP _ ptr cookie, rfl⟩
    · simp [hfind, hlink, Driver.addNode]
    · rw [addNode_get, if_pos rfl]
    · refine h.addNode hP hr hno cookie hmem' (Keyed.insertColor rb (hkeyed _ ?_ ?_))
      · intro m hm
        obtain ⟨nodem, hgetm, -⟩ := hok.mem_nodes m hm
        simp [Driver.ptrOf, addNode_old cookie hgetm, hgetm]
      · simp [Driver.ptrOf, addNode_get, BinderNode.fresh]

end New

/-- `binder_ioctl_set_ctx_mgr` once the node is there. -/
theorem Inv.setContextMgr (h : Inv none T d) (hn : d.nodes.get n = some node)
    (hp : node.proc = some p) (hP : d.procs.get p = some P) (hr : P.phase = .running)
    (hnone : d.contextMgrNode = none) (hmem : .tmp n ∈ T) :
    Inv none T { d.setNode n node.manage with contextMgrNode := some n } := by
  have hok := h.node n node hn
  have heq : d.tell p P P.told (some n) n node.manage =
      { d.setNode n node.manage with contextMgrNode := some n } := by
    have hput : Slots.put d.procs p (some P) = d.procs := Slots.put_self hP
    simp [Driver.tell, Driver.setProc, Driver.setNode, hput]
  rw [← heq]
  refine h.tell hn hp hP hr rfl rfl rfl rfl rfl rfl (fun _ _ _ => id) (Or.inr ⟨hnone, rfl⟩) hok.work
    ?_ fun _ => h.kept_of_tmp hn hmem rfl
  intro ho
  have hs := ho.strong
  have hw := ho.weak
  have hz : d.mgrCount n = 0 := if_neg (by simp [hnone])
  have hone : (d.tell p P P.told (some n) n node.manage).mgrCount n = 1 := if_pos rfl
  have hstrong : node.manage.strong = true := by
    refine BinderNode.strong_iff.mpr (Or.inr ?_)
    change node.localStrongRefs + 1 ≠ 0
    omega
  refine ⟨?_, ?_, fun _ => rfl, fun _ => rfl, fun _ => rfl, fun o hseen => ?_, fun _ => rfl,
    fun _ _ _ => ?_⟩
  · rw [hone]
    change node.localStrongRefs + 1 = (T.count (.target n p) : ℤ) +
      T.count (.object p node.ptr true) + node.pendingStrongRef.toNat + _
    omega
  · rw [hone]
    change node.localWeakRefs + 1 =
      (T.count (.object p node.ptr false) : ℤ) + node.pendingWeakRef.toNat + _
    omega
  · obtain ⟨v, hv, -⟩ := ho.told o hseen
    exact ⟨v, hv, fun hno => absurd (hone.symm.trans hno) (by simp)⟩
  · exact ⟨fun _ => rfl, fun _ => rfl, fun _ => hstrong,
      fun _ => BinderNode.weak_of_strong hstrong⟩

end HeadlessAndroid.BinderNodes
