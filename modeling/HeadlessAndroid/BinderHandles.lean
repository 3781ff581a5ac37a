import HeadlessAndroid.BinderTold

/-!
# HeadlessAndroid.BinderHandles — the counts of references

The first count of a reference counts at its node, the last one no longer does, and a reference with
no count is cleaned up under the same hold of the lock.  `Inv.atRef` is the one rule for a change of the
counts of a reference, its node and the lock of its process.
-/

namespace HeadlessAndroid.BinderNodes

open Lib Lib.SearchTree

variable {x : Option ℕ} {T : Multiset Token} {d : Driver} {n p r : ℕ} {node : BinderNode}
  {ref : BinderRef} {P : BinderProc}

/-! ### Handles in buffers -/

/-- A handle more in a buffer counts nowhere by itself. -/
theorem Inv.addHandle (h : Inv x T d) (p desc : ℕ) (s : Bool) : Inv x (.handle p desc s ::ₘ T) d where
  node n node hn := (h.node n node hn).congr (.of_nodes rfl rfl rfl id id) (by simp)
    fun _ _ _ => ⟨by simp, fun _ => by simp⟩
  kept := h.kept
  ref := h.ref
  proc q Q hQ := by
    have hok := h.proc q Q hQ
    refine hok.congr ⟨fun n node hn hp => ⟨node, hn, hp, rfl⟩, fun _ _ => Iff.rfl, id⟩ ?_
      (fun _ _ => Multiset.count_le_count_cons _ _ _) rfl rfl rfl rfl rfl (.inl rfl)
    simpa [Multiset.count_cons] using hok.tmpRef
  token k hk := by
    rcases Multiset.mem_cons.mp hk with rfl | hk
    · trivial
    · exact h.token k hk
  mgr := h.mgr
  live := h.live
  crashed := h.crashed

/-- A handle goes that the reference does not count any more. -/
theorem Inv.dropHandle {desc : ℕ} {s : Bool} (h : Inv x (.handle p desc s ::ₘ T) d)
    (hle : ∀ P r ref, d.procs.get p = some P → P.phase = .done → d.refs.get r = some ref →
      ref.proc = p → ref.desc = desc →
        (if s then ref.strong else ref.weak) ≤ T.count (.handle p desc s)) : Inv x T d where
  node n node hn := (h.node n node hn).congr (.of_nodes rfl rfl rfl id id) (by simp)
    fun _ _ _ => ⟨by simp, fun _ => by simp⟩
  kept := h.kept
  ref := h.ref
  proc q Q hQ := by
    have hok := h.proc q Q hQ
    obtain ⟨htmp, h1, h2, h3, h4, h5, h6, h7, h8, h9, h10, hlate⟩ := hok
    refine ⟨by simpa [Multiset.count_cons] using htmp, h1, h2, h3, h4, h5, h6, h7, h8, h9, h10, ?_⟩
    intro hdone r ref hr hp
    obtain ⟨hs, hw, hc⟩ := hlate hdone r ref hr hp
    by_cases hthis : q = p ∧ ref.desc = desc
    · obtain ⟨rfl, rfl⟩ := hthis
      have hle := hle Q r ref hQ hdone hr hp rfl
      cases s with
      | true => exact ⟨hle, by simpa using hw, hc⟩
      | false => exact ⟨by simpa using hs, hle, hc⟩
    · have hne : ∀ s', Token.handle q ref.desc s' ≠ .handle p desc s := by
        intro s' he
        injection he with h1 h2
        exact hthis ⟨h1, h2⟩
      rw [Multiset.count_cons_of_ne (hne _)] at hs hw
      exact ⟨hs, hw, hc⟩
  token k hk := h.token k (Multiset.mem_cons_of_mem hk)
  mgr := h.mgr
  live := h.live
  crashed := h.crashed

/-! ### The counts of one reference -/

/-- The node has another strong count of its references, of which `z` have wrapped, and is on the list
`q`. -/
def BinderNode.recount (node : BinderNode) (i : ℤ) (z : ℕ) (q : Option Todo) : BinderNode :=
  { node with internalStrongRefs := i, wraps := z, work := q }

namespace Driver

/-- The reference `r` has a new record, and so have its node and its process. -/
def atRef (d : Driver) (r : ℕ) (ref : BinderRef) (node : BinderNode) (P : BinderProc) : Driver :=
  ((d.setNode ref.node node).setRef r ref).setProc ref.proc P

theorem exists_put_ref {s : Slots BinderRef} (hr : s.get r = some ref) (ref' : BinderRef)
    (f : BinderRef → Prop) (hf : f ref' ↔ f ref) (r' : ℕ) :
    (∃ y, (s.put r (some ref')).get r' = some y ∧ f y) ↔ ∃ y, s.get r' = some y ∧ f y := by
  rw [Slots.get_put hr]
  split_ifs with hrr
  · subst hrr
    rw [hr]
    simpa using hf
  · rfl

theorem strongOn_atRef {s w : ℕ} {node' : BinderNode} {P' : BinderProc}
    (hr : d.refs.get r = some ref) :
    (d.atRef r { ref with strong := s, weak := w } node' P').strongOn ref.node +
        (if ref.strong ≠ 0 then 1 else 0) =
      d.strongOn ref.node + if s ≠ 0 then 1 else 0 := by
  obtain ⟨m, hm, hput⟩ := Slots.total_split
    (fun y : BinderRef => if y.node = ref.node ∧ y.strong ≠ 0 then 1 else 0) hr
  have hput := hput (some { ref with strong := s, weak := w })
  unfold strongOn atRef
  simp only [true_and, Option.elim_some] at hm hput
  change Slots.total _ (Slots.put d.refs r _) + _ = _
  rw [hm, hput]
  omega

theorem strongOn_atRef_of_ne {s w : ℕ} {node' : BinderNode} {P' : BinderProc}
    (hr : d.refs.get r = some ref) (hn : n ≠ ref.node) :
    (d.atRef r { ref with strong := s, weak := w } node' P').strongOn n = d.strongOn n := by
  refine Slots.total_put_of_eq _ hr ?_
  simp [hn.symm]

theorem counted_atRef {s w : ℕ} {node' : BinderNode} {P' : BinderProc}
    (hr : d.refs.get r = some ref)
    (hc : (d.atRef r { ref with strong := s, weak := w } node' P').counted n) :
    d.counted n ∨ n = ref.node ∧ (s ≠ 0 ∨ w ≠ 0) := by
  obtain ⟨r', y, hy, hyn, hpos⟩ := hc
  change Slots.get (Slots.put d.refs r _) r' = _ at hy
  rw [Slots.get_put hr] at hy
  split_ifs at hy
  · cases hy
    exact Or.inr ⟨hyn.symm, hpos⟩
  · exact Or.inl ⟨r', y, hy, hyn, hpos⟩

end Driver

section AtRef

variable {s w : ℕ} {node' : BinderNode} {l : Option Locked} (hr : d.refs.get r = some ref)
  (hn : d.nodes.get ref.node = some node) (hP : d.procs.get ref.proc = some P)

include hr in
theorem atRef_ref (r' : ℕ) : (d.atRef r { ref with strong := s, weak := w } node' P).refs.get r' =
    if r' = r then some { ref with strong := s, weak := w } else d.refs.get r' :=
  Slots.get_put hr _ r'

include hP in
theorem atRef_proc (l : Option Locked) (q : ℕ) :
    (d.atRef r { ref with strong := s, weak := w } node' { P with outerLock := l }).procs.get q =
      if q = ref.proc then some { P with outerLock := l } else d.procs.get q :=
  Slots.get_put hP _ q

include hP in
theorem here_atRef (hptr : node'.ptr = node.ptr) (hproc : node'.proc = node.proc) :
    Here d (d.atRef r { ref with strong := s, weak := w } node' { P with outerLock := l })
      ref.node node node' := by
  refine ⟨rfl, hptr, hproc, fun q => ?_⟩
  rw [atRef_proc hP]
  split_ifs with hq
  · rw [hq, hP]
    rfl
  · rfl

include hr hP in
/-- The process of the reference, and the others, look at nothing that changes but the counts. -/
theorem Inv.proc_atRef (h : Inv none T d)
    (hd : Here d (d.atRef r { ref with strong := s, weak := w } node' { P with outerLock := l })
      ref.node node node') (hn : d.nodes.get ref.node = some node)
    (hlock : ∀ l', l = some l' → (l'.job = none → P.phase = .running) ∧ l'.ref = r ∧
      ∀ r' j, l' = .cleanup r' j → s = 0 ∧ w = 0)
    (hold : ∀ l', P.outerLock = some l' → l'.ref = r)
    (hlate : P.phase = .done → Late T d ref.proc P r ref →
      s ≤ T.count (.handle ref.proc ref.desc true) ∧
        w ≤ T.count (.handle ref.proc ref.desc false) ∧
          (d.lateFailures = 0 → s ≠ 0 ∨ w ≠ 0 ∨ ∃ l', l = some l' ∧ l'.ref = r)) (q : ℕ)
    {Q : BinderProc} (hQ : (d.atRef r { ref with strong := s, weak := w } node'
      { P with outerLock := l }).procs.get q = some Q) :
    ProcOk T (d.atRef r { ref with strong := s, weak := w } node' { P with outerLock := l }) q Q := by
  have hget : ∀ r', (d.atRef r { ref with strong := s, weak := w } node'
      { P with outerLock := l }).refs.get r' =
        if r' = r then some { ref with strong := s, weak := w } else d.refs.get r' := atRef_ref hr
  rw [atRef_proc hP] at hQ
  split_ifs at hQ with hqp
  · cases hQ
    subst hqp
    have hok := h.proc _ P hP
    have howned := hd.owned_node hn ref.proc
    have hrefs := Driver.exists_put_ref hr { ref with strong := s, weak := w }
      (fun y => y.proc = ref.proc) (by simp)
    refine ⟨hok.tmpRef, ?_, ?_, ?_, hok.gone, ?_, ?_, fun r' => (hok.mem_desc r').trans
      (hrefs r').symm, fun r' => (hok.mem_byNode r').trans (hrefs r').symm, ?_, ?_, ?_⟩
    · refine hok.nodes.congr fun m hm => ?_
      obtain ⟨nodem, hgetm, hp⟩ := hok.mem_nodes m hm
      obtain ⟨nodem', hgetm', -, hptr⟩ := howned m nodem hgetm hp
      simp [Driver.ptrOf, hgetm, hgetm', hptr]
    · intro m hm
      obtain ⟨nodem, hgetm, hp⟩ := hok.mem_nodes m hm
      obtain ⟨nodem', hgetm', hp', -⟩ := howned m nodem hgetm hp
      exact ⟨nodem', hgetm', hp'⟩
    · intro m hm
      obtain ⟨hnot, nodem, hgetm, hp⟩ := hok.taken m hm
      obtain ⟨nodem', hgetm', hp', -⟩ := howned m nodem hgetm hp
      exact ⟨hnot, nodem', hgetm', hp'⟩
    · refine hok.desc.congr fun r' _ => ?_
      unfold Driver.descOf
      rw [hget]
      split_ifs with hrr
      · rw [hrr, hr]
        rfl
      · rfl
    · refine hok.byNode.congr fun r' _ => ?_
      unfold Driver.nodeOf
      rw [hget]
      split_ifs with hrr
      · rw [hrr, hr]
        rfl
      · rfl
    · intro l' hl'
      obtain ⟨hjob, hlr, hz⟩ := hlock l' hl'
      exact ⟨hjob, _, (hget l'.ref).trans (if_pos hlr), rfl, hz⟩
    · intro hrun ptr hno
      refine hok.told hrun ptr fun m hm => ?_
      obtain ⟨nodem, hgetm, hp⟩ := hok.mem_nodes m hm
      obtain ⟨nodem', hgetm', -, hptr⟩ := howned m nodem hgetm hp
      have hnot := hno m hm
      simp only [Driver.ptrOf, hgetm', hgetm, Option.map_some, hptr] at hnot ⊢
      exact hnot
    · intro hdone r' y hy hyp
      rw [hget] at hy
      split_ifs at hy with hrr
      · cases hy
        subst hrr
        obtain ⟨h1, h2, h3⟩ := hlate hdone (hok.late hdone r' ref hr rfl)
        exact ⟨h1, h2, h3⟩
      · obtain ⟨h1, h2, h3⟩ := hok.late hdone r' y hy hyp
        refine ⟨h1, h2, fun hl => ?_⟩
        rcases h3 hl with h3 | h3 | ⟨l', hl', hlr⟩
        · exact Or.inl h3
        · exact Or.inr (Or.inl h3)
        · exact absurd (hlr.symm.trans (hold l' hl')) hrr
  · refine (h.proc q Q hQ).congr ⟨hd.owned_node hn q, fun r' y => ?_, id⟩ (h.proc q Q hQ).tmpRef
      (fun _ _ => le_rfl) rfl rfl rfl rfl rfl (.inl rfl)
    rw [hget]
    split_ifs with hrr
    · subst hrr
      rw [hr]
      constructor
      · rintro ⟨he, hyp⟩
        cases he
        exact absurd hyp.symm hqp
      · rintro ⟨he, hyp⟩
        cases he
        exact absurd hyp.symm hqp
    · rfl

theorem NodeOk.refs_ne_nil (h : NodeOk T d ref.node node) (hr : d.refs.get r = some ref) :
    node.refs ≠ [] := by
  intro hnil
  have hmem := (h.refs r).mpr ⟨ref, hr, rfl⟩
  rw [hnil] at hmem
  cases hmem

theorem NodeOk.not_refless (h : NodeOk T d ref.node node) (hr : d.refs.get r = some ref)
    {node' : BinderNode} (hrefs : node'.refs = node.refs) : node'.refless = false :=
  Bool.eq_false_iff.mpr fun hl =>
    h.refs_ne_nil hr (hrefs.symm.trans (BinderNode.refless_iff.mp hl).1)

include hr hn hP in
theorem Inv.atRef (h : Inv none T d) {i : ℤ} {z : ℕ} {q : Option Todo}
    (hi : i + node.wraps + (if ref.strong ≠ 0 then 1 else 0) =
      node.internalStrongRefs + z + if s ≠ 0 then 1 else 0)
    (hq : q = node.work ∨ ∃ todo, q = some todo ∧ node.proc = some todo.proc)
    (hdue : ∀ p Q, node.proc = some p → Owned T d ref.node node p Q → d.lostWork = 0 →
      z = 0 → Due (d.atRef r { ref with strong := s, weak := w } (node.recount i z q)
        { P with outerLock := l }) ref.node (node.recount i z q))
    (hlock : ∀ l', l = some l' → (l'.job = none → P.phase = .running) ∧ l'.ref = r ∧
      ∀ r' j, l' = .cleanup r' j → s = 0 ∧ w = 0)
    (hold : ∀ l', P.outerLock = some l' → l'.ref = r)
    (hlate : P.phase = .done → Late T d ref.proc P r ref →
      s ≤ T.count (.handle ref.proc ref.desc true) ∧
        w ≤ T.count (.handle ref.proc ref.desc false) ∧
          (d.lateFailures = 0 → s ≠ 0 ∨ w ≠ 0 ∨ ∃ l', l = some l' ∧ l'.ref = r)) :
    Inv none T (d.atRef r { ref with strong := s, weak := w } (node.recount i z q)
      { P with outerLock := l }) := by
  let node' := node.recount i z q
  let P' := { P with outerLock := l }
  have hd : Here d (d.atRef r { ref with strong := s, weak := w } node' P') ref.node node node' :=
    here_atRef hP rfl rfl
  have hok := h.node ref.node node hn
  have hget : ∀ r', (d.atRef r { ref with strong := s, weak := w } node' P').refs.get r' =
      if r' = r then some { ref with strong := s, weak := w } else d.refs.get r' := atRef_ref hr
  have hproc : ∀ q, (d.atRef r { ref with strong := s, weak := w } node' P').procs.get q =
      if q = ref.proc then some P' else d.procs.get q := atRef_proc hP l
  have hrefs := fun m r' => Driver.exists_put_ref hr { ref with strong := s, weak := w }
    (fun y => y.node = m) (by simp) r'
  have hstrong : (d.atRef r { ref with strong := s, weak := w } node' P').strongOn ref.node +
      (if ref.strong ≠ 0 then 1 else 0) = d.strongOn ref.node + if s ≠ 0 then 1 else 0 :=
    Driver.strongOn_atRef hr
  refine h.here hd hn (.refl d ref.node node T) ?_ ?_ (fun _ => ?_) (fun _ _ _ => by simp) ?_ ?_ ?_
    ?_ h.crashed
  · refine ⟨?_, ?_, hok.nodup, fun r' => (hok.refs r').trans (hrefs ref.node r').symm, ?_, ?_, ?_, ?_⟩
    · rw [hd.taken]
      exact hok.tmp
    · have hint := hok.internal
      change i = ((d.atRef r { ref with strong := s, weak := w } node' P').strongOn ref.node : ℤ) + z
      split_ifs at hi hstrong <;> omega
    · intro p hp
      obtain ⟨Q, hQ, hin⟩ := hok.owner p hp
      rw [hproc]
      split_ifs with hpp
      · subst hpp
        cases hP.symm.trans hQ
        exact ⟨_, rfl, hin⟩
      · exact ⟨Q, hQ, hin⟩
    · intro p Q hp hQ hrun
      have hQ' : ∃ Q', d.procs.get p = some Q' ∧ Q'.phase = .running ∧ Q'.told = Q.told := by
        rw [hproc] at hQ
        split_ifs at hQ with hpp
        · cases hQ
          exact ⟨P, hpp ▸ hP, hrun, rfl⟩
        · exact ⟨Q, hQ, hrun, rfl⟩
      obtain ⟨Q', hQ', hrun', htold⟩ := hQ'
      have ho := hok.owned p Q' hp hQ' hrun'
      exact ⟨ho.strong, ho.weak, ho.strong_weak, ho.pending_strong, ho.pending_weak,
        fun o hseen => ho.told o (seen_congr htold.symm hseen), ho.manager, hdue p Q' hp ho⟩
    · intro hp
      obtain ⟨hw, hrest⟩ := hok.dead hp
      refine ⟨?_, hrest⟩
      rcases hq with rfl | ⟨todo, -, ht⟩
      · exact hw
      · exact absurd (hp.symm.trans ht) (by simp)
    · intro todo ht
      rcases hq with rfl | ⟨todo', rfl, hp⟩
      · exact hok.work todo ht
      · cases ht
        exact hp
  · intro m nodem hmn hm _
    refine ⟨hrefs m, Driver.strongOn_atRef_of_ne hr hmn, fun hc => ?_, fun p Q _ hQ => ?_,
      taken_congr hd.phase m nodem, rfl, id, id⟩
    · exact (Driver.counted_atRef hr hc).resolve_right fun he => hmn he.1
    · rw [hproc]
      split_ifs with hpp
      · subst hpp
        cases hP.symm.trans hQ
        exact ⟨_, rfl, id, fun hrun => ⟨hrun, fun _ => id⟩⟩
      · exact ⟨Q, hQ, id, fun hrun => ⟨hrun, fun _ => id⟩⟩
  · exact Or.inr (Or.inl (hok.not_refless hr rfl))
  · intro r' y hy
    rw [hget] at hy
    split_ifs at hy
    · cases hy
      exact h.ref r ref hr
    · exact h.ref r' y hy
  · exact fun q' Q hQ => h.proc_atRef hr hP hd hn hlock hold hlate q' hQ
  · exact fun m hm => Or.inl hm
  · intro hl
    refine ⟨(h.live hl).1, fun r' y hy => ?_⟩
    have hlive : (d.procs.get y.proc).isSome := by
      rw [hget] at hy
      split_ifs at hy
      · cases hy
        exact (h.live hl).2 r ref hr
      · exact (h.live hl).2 r' y hy
    rw [hproc]
    split_ifs
    · rfl
    · exact hlive

end AtRef

/-! ### Finding a reference -/

/-- `binder_get_ref_olocked` finds the reference of the process with that number, unless it needs a
strong one and this is none. -/
theorem ProcOk.getRef (h : ProcOk T d p P) (desc : ℕ) (needStrongRef : Bool) :
    (∃ r ref, d.refs.get r = some ref ∧ ref.proc = p ∧ ref.desc = desc ∧
      (needStrongRef = true → ref.strong ≠ 0) ∧
        binderGetRefOlocked d P desc needStrongRef = some (some r)) ∨
      binderGetRefOlocked d P desc needStrongRef = some none ∧
        ∀ r ref, d.refs.get r = some ref → ref.proc = p → ref.desc = desc →
          needStrongRef = true ∧ ref.strong = 0 := by
  rcases h.desc.find desc with ⟨r, hin, hkey, hfind⟩ | ⟨hno, hfind⟩
  · obtain ⟨ref, hr, hp⟩ := (h.mem_desc r).mp hin
    have hdesc : ref.desc = desc := by simpa [Driver.descOf, hr] using hkey
    by_cases hweak : needStrongRef = true ∧ ref.strong = 0
    · refine Or.inr ⟨by simp [binderGetRefOlocked, hfind, hr, hweak.1, hweak.2], ?_⟩
      intro r' ref' hr' hp' hdesc'
      have hin' := (h.mem_desc r').mpr ⟨ref', hr', hp'⟩
      have hrr := h.desc.inj hin' hin (by simp [Driver.descOf, hr', hdesc']) hkey
      rw [hrr, hr] at hr'
      cases hr'
      exact hweak
    · refine Or.inl ⟨r, ref, hr, hp, hdesc, fun hs hz => hweak ⟨hs, hz⟩, ?_⟩
      have hcond : needStrongRef = true → ref.strong ≠ 0 := fun hs hz => hweak ⟨hs, hz⟩
      simpa [binderGetRefOlocked, hfind, hr] using hcond
  · refine Or.inr ⟨by simp [binderGetRefOlocked, hfind], fun r ref hr hp hdesc => ?_⟩
    exact absurd (by simp [Driver.descOf, hr, hdesc]) (hno r ((h.mem_desc r).mpr ⟨ref, hr, hp⟩))

/-! ### Counting up -/

/-- The first count of a reference at its node fails only for want of a list for the work; otherwise
the owner is to be told, or knows. -/
theorem binderIncNodeNilocked_internal (mgr strong : Bool) (targetList : Option Todo)
    (node : BinderNode) : ∃ ok q, binderIncNodeNilocked mgr strong true targetList node =
        (ok, { node with internalStrongRefs :=
          node.internalStrongRefs + if ok && strong then 1 else 0 }.withWork q) ∧
      (q = node.work ∨ ∃ todo, targetList = some todo ∧ q = some todo) ∧
      (ok = false → q = node.work) ∧
      (ok = true → q = none → if strong then
        node.internalStrongRefs ≠ 0 ∨ node.hasStrongRef = true else node.hasWeakRef = true) := by
  unfold binderIncNodeNilocked
  cases strong with
  | true =>
    rw [if_pos rfl]
    by_cases hfail : (true && targetList.isNone && node.internalStrongRefs == 0 &&
        !(node.proc.isSome && mgr && node.hasStrongRef)) = true
    · rw [if_pos hfail]
      exact ⟨false, node.work, by simp, Or.inl rfl, fun _ => rfl, (by simp)⟩
    · rw [if_neg hfail]
      cases htl : targetList with
      | none =>
        refine ⟨true, node.work, by simp, Or.inl rfl, (by simp), fun _ _ => ?_⟩
        by_contra hno
        rw [if_pos rfl, not_or, not_not] at hno
        rw [htl] at hfail
        simp [hno.1, hno.2] at hfail
      | some todo =>
        cases hs : node.hasStrongRef with
        | false => exact ⟨true, some todo, by simp, Or.inr ⟨todo, rfl, rfl⟩, (by simp), (by simp)⟩
        | true => exact ⟨true, node.work, by simp, Or.inl rfl, (by simp), fun _ _ => Or.inr rfl⟩
  | false =>
    rw [if_neg (by simp)]
    by_cases hqueue : (!node.hasWeakRef && node.work.isNone) = true
    · obtain ⟨hw, hnone⟩ : node.hasWeakRef = false ∧ node.work = none := by simpa using hqueue
      cases htl : targetList with
      | none =>
        exact ⟨false, none, by simp [hw, hnone, BinderNode.withWork], Or.inl hnone.symm,
          fun _ => hnone.symm, (by simp)⟩
      | some todo =>
        exact ⟨true, some todo, by simp [hw, hnone, BinderNode.withWork], Or.inr ⟨todo, rfl, rfl⟩,
          (by simp), (by simp)⟩
    · refine ⟨true, node.work, by simp [hqueue], Or.inl rfl, (by simp), fun _ hnone => ?_⟩
      rw [if_neg (by simp)]
      simpa [hnone] using hqueue

theorem Driver.setNode_self (hn : d.nodes.get n = some node) : d.setNode n node = d := by
  unfold Driver.setNode
  rw [Slots.put_self hn]

theorem Driver.setProc_self (hP : d.procs.get p = some P) : d.setProc p P = d := by
  unfold Driver.setProc
  rw [Slots.put_self hP]

theorem Driver.setRef_self (hr : d.refs.get r = some ref) : d.setRef r ref = d := by
  unfold Driver.setRef
  rw [Slots.put_self hr]

@[simp] theorem Driver.setNode_setNode (node node' : BinderNode) :
    (d.setNode n node).setNode n node' = d.setNode n node' := by
  simp [Driver.setNode, Slots.put]

theorem intInc_le (count : ℕ) : intInc count ≤ count + 1 := Nat.mod_le _ _

/-- What an increment makes of the counts `s` and `w` of a reference, of the strong count `i` of its
node, of those `z` that have wrapped, and of the list `q` that the node is on. -/
structure Raised (strong ok : Bool) (targetList : Option Todo) (ref : BinderRef) (node : BinderNode)
    (s w : ℕ) (i : ℤ) (z : ℕ) (q : Option Todo) : Prop where
  refStrong : s = if ok && strong then intInc ref.strong else ref.strong
  refWeak : w = if ok && !strong then intInc ref.weak else ref.weak
  internal : i + node.wraps + (if ref.strong ≠ 0 then 1 else 0) =
    node.internalStrongRefs + z + if s ≠ 0 then 1 else 0
  wraps : z = 0 → node.wraps = 0 ∧ (ref.strong ≠ 0 → s ≠ 0)
  work : q = node.work ∨ ∃ todo, targetList = some todo ∧ q = some todo
  told : ok = true → q = none → ref.strong = 0 → ref.weak = 0 ∨ strong = true → if strong then
    node.internalStrongRefs ≠ 0 ∨ node.hasStrongRef = true else node.hasWeakRef = true

theorem raiseRef_eq (hn : d.nodes.get ref.node = some node) (strong : Bool) :
    d.raiseRef r ref strong = some ((d.setNode ref.node { node with
      wraps := node.wraps + (ref.wraps strong).toNat }).setRef r (ref.raise strong)) := by
  rw [Driver.raiseRef, hn]
  rfl

theorem raise_eq (ref : BinderRef) (strong : Bool) : ref.raise strong = { ref with
    strong := if true && strong then intInc ref.strong else ref.strong
    weak := if true && !strong then intInc ref.weak else ref.weak } := by
  cases strong <;> rfl

/-- The first count does not wrap. -/
theorem wraps_of_zero {strong : Bool} (hz : (if strong then ref.strong else ref.weak) = 0) :
    ref.wraps strong = false := by
  cases strong with
  | true =>
    rw [if_pos rfl] at hz
    simp [BinderRef.wraps, hz, intInc]
  | false => rfl

/-- `binder_inc_ref_olocked` -/
theorem binderIncRefOlocked_spec (hr : d.refs.get r = some ref)
    (hn : d.nodes.get ref.node = some node) (hP : d.procs.get ref.proc = some P) (strong : Bool)
    (targetList : Option Todo) : ∃ ok s w i z q, binderIncRefOlocked d r strong targetList =
        some (ok, d.atRef r { ref with strong := s, weak := w } (node.recount i z q) P) ∧
      Raised strong ok targetList ref node s w i z q := by
  have hflat : ∀ s w node', d.atRef r { ref with strong := s, weak := w } node' P =
      (d.setNode ref.node node').setRef r { ref with strong := s, weak := w } :=
    fun _ _ _ => Driver.setProc_self hP
  simp only [hflat]
  unfold binderIncRefOlocked
  rw [hr]
  by_cases hfirst : (if strong = true then ref.strong else ref.weak) = 0
  · obtain ⟨ok, q, hinc, hwork, hfail, htold⟩ := binderIncNodeNilocked_internal
      (d.contextMgrNode == some ref.node) strong targetList node
    have hn' : ∀ node', (d.setNode ref.node node').nodes.get ref.node = some node' := fun node' =>
      (Slots.get_put hn _ _).trans (if_pos rfl)
    refine ⟨ok, if ok && strong then intInc ref.strong else ref.strong,
      if ok && !strong then intInc ref.weak else ref.weak,
      node.internalStrongRefs + if ok && strong then 1 else 0, node.wraps, q, ?_, rfl, rfl, ?_, ?_,
      hwork, fun hok hnone _ _ => htold hok hnone⟩
    · simp only [hfirst, if_true, binderIncNode, hn, Option.map_some, hinc, Option.bind_some]
      cases ok with
      | false =>
        have hr' : (d.setNode ref.node node).refs.get r = some ref := hr
        simp [hfail rfl, BinderNode.recount, Driver.setRef_self hr', BinderNode.withWork]
      | true =>
        simp only [if_true, raiseRef_eq (hn' _), wraps_of_zero hfirst, raise_eq,
          Driver.setNode_setNode, Option.map_some]
        rfl
    · cases strong with
      | true =>
        rw [if_pos rfl] at hfirst
        cases ok with
        | false => simp [hfirst]
        | true =>
          simp [hfirst, intInc]
          omega
      | false => simp
    · refine fun hz => ⟨hz, fun hne => ?_⟩
      cases strong with
      | true => exact absurd hfirst hne
      | false => simpa using hne
  · refine ⟨true, if true && strong then intInc ref.strong else ref.strong,
      if true && !strong then intInc ref.weak else ref.weak, node.internalStrongRefs,
      node.wraps + (ref.wraps strong).toNat, node.work, ?_, rfl, rfl, ?_, ?_, Or.inl rfl, ?_⟩
    · simp only [hfirst, if_false, raiseRef_eq hn, raise_eq, Option.map_some]
      rfl
    · cases strong with
      | true =>
        rw [if_pos rfl] at hfirst
        by_cases hwrap : intInc ref.strong = 0
        · simp [hfirst, BinderRef.wraps, hwrap, add_assoc]
        · simp [hfirst, BinderRef.wraps, hwrap]
      | false => simp [BinderRef.wraps]
    · intro hz
      obtain ⟨hz, hno⟩ := Nat.add_eq_zero_iff.mp hz
      refine ⟨hz, fun hne => ?_⟩
      cases strong with
      | true => simpa [BinderRef.wraps] using hno
      | false => simpa using hne
    · intro _ _ hs hw
      cases strong with
      | true => exact absurd hs (by simpa using hfirst)
      | false => exact absurd (hw.resolve_right (by simp)) (by simpa using hfirst)

theorem Raised.due {s w : ℕ} {i : ℤ} {z : ℕ} {q : Option Todo} {strong ok : Bool}
    {targetList : Option Todo} {P' : BinderProc}
    (h : Raised strong ok targetList ref node s w i z q)
    (hr : d.refs.get r = some ref) (hok : NodeOk T d ref.node node)
    (hsw : node.hasStrongRef = true → node.hasWeakRef = true) (hz : z = 0)
    (hdue : node.wraps = 0 → Due d ref.node node) :
    Due (d.atRef r { ref with strong := s, weak := w } (node.recount i z q) P') ref.node
      (node.recount i z q) := by
  intro hnone
  have hnone : q = none := hnone
  have hwork : node.work = none := by
    rcases h.work with hq | ⟨todo, -, hq⟩
    · exact hq ▸ hnone
    · exact absurd (hq.symm.trans hnone) (by simp)
  obtain ⟨hzero, hkeep⟩ := h.wraps hz
  obtain ⟨h1, h2, h3, h4⟩ := hdue hzero hwork
  have hint := hok.internal
  have hi := h.internal
  have hs := h.refStrong
  have hw := h.refWeak
  rw [hz, hzero] at hi
  have hup : node.internalStrongRefs ≤ i := by
    by_cases hne : ref.strong = 0
    · rw [hne] at hi
      split_ifs at hi <;> simp at hi <;> omega
    · rw [if_pos hne, if_pos (hkeep hne)] at hi
      omega
  have hcount : ref.strong ≠ 0 ∨ ref.weak ≠ 0 → node.hasWeakRef = true :=
    fun hpos => h2 ⟨r, ref, hr, rfl, hpos⟩
  -- a count that is the first one
  have hfirst : ref.strong = 0 → ok = true → strong = true → node.hasStrongRef = true := by
    intro hz hok' hst
    have htold := h.told hok' hnone hz (Or.inr hst)
    rw [if_pos hst] at htold
    exact htold.elim h1 id
  have hstrong : node.strong = true → (node.recount i z q).strong = true := by
    rw [BinderNode.strong_iff, BinderNode.strong_iff]
    refine Or.imp (fun hne => ?_) id
    change i ≠ 0
    omega
  refine ⟨fun hne => ?_, fun hc => ?_, fun ht => hstrong (h3 ht), fun ht => ?_⟩
  · have hne : i ≠ 0 := hne
    by_cases hz : ref.strong = 0
    · cases hos : ok && strong with
      | true =>
        rw [Bool.and_eq_true] at hos
        exact hfirst hz hos.1 hos.2
      | false =>
        rw [hos] at hs
        refine h1 ?_
        simp [hs, hz] at hi
        omega
    · refine h1 ?_
      rw [if_pos hz, if_pos (hkeep hz)] at hi
      omega
  · rcases Driver.counted_atRef hr hc with hc | ⟨-, hpos⟩
    · exact h2 hc
    · by_cases hold : ref.strong ≠ 0 ∨ ref.weak ≠ 0
      · exact hcount hold
      · rw [not_or, not_not, not_not] at hold
        have hok' : ok = true := by
          cases ok with
          | true => rfl
          | false =>
            simp [hs, hw, hold.1, hold.2] at hpos
        cases hst : strong with
        | true => exact hsw (hfirst hold.1 hok' hst)
        | false =>
          have htold := h.told hok' hnone hold.1 (Or.inl hold.2)
          rw [hst] at htold
          exact htold
  · refine BinderNode.weak_iff.mpr ((BinderNode.weak_iff.mp (h4 ht)).imp id ?_)
    exact Or.imp id (Or.imp id hstrong)

/-- An increment is over, and `late` says that it has left the reference without a count to a process
that had given up its references. -/
def Driver.failed (d : Driver) (late : Bool) : Driver :=
  { d with lateFailures := d.lateFailures + late.toNat }

/-- `binder_inc_ref_olocked`, and the lock is let go of. -/
theorem Inv.incRef (h : Inv none T d) (hr : d.refs.get r = some ref)
    (hn : d.nodes.get ref.node = some node) (hP : d.procs.get ref.proc = some P)
    (hold : ∀ l, P.outerLock = some l → l.ref = r) (strong : Bool) {targetList : Option Todo}
    (htarget : ∀ todo, targetList = some todo → node.proc = some todo.proc) :
    ∃ ok s w i z q, binderIncRefOlocked d r strong targetList =
        some (ok, d.atRef r { ref with strong := s, weak := w } (node.recount i z q) P) ∧
      Inv none (if ok then .handle ref.proc ref.desc strong ::ₘ T else T)
        ((d.failed (P.phase == .done && (s == 0 && w == 0))).atRef r
          { ref with strong := s, weak := w } (node.recount i z q)
          { P with outerLock := none }) := by
  obtain ⟨ok, s, w, i, z, q, hinc, hraised⟩ := binderIncRefOlocked_spec hr hn hP strong targetList
  refine ⟨ok, s, w, i, z, q, hinc, ?_⟩
  let e := d.failed (P.phase == .done && (s == 0 && w == 0))
  have he : Inv none (if ok then .handle ref.proc ref.desc strong ::ₘ T else T) e := by
    have hcore : Inv none T e :=
      h.congr ⟨rfl, rfl, rfl, rfl, rfl, fun _ => rfl, fun hl => (Nat.add_eq_zero_iff.mp hl).1, id, id⟩
    cases ok with
    | true => exact hcore.addHandle ref.proc ref.desc strong
    | false => exact hcore
  have hok := he.node ref.node node hn
  refine Inv.atRef (d := e) (l := none) hr hn hP he hraised.internal ?_ ?_ (fun _ => by simp) hold ?_
  · rcases hraised.work with hq | ⟨todo, ht, hq⟩
    · exact Or.inl hq
    · exact Or.inr ⟨todo, hq, htarget todo ht⟩
  · intro p Q hp ho hl hz
    exact hraised.due (d := e) hr hok ho.strong_weak hz (ho.due hl)
  · intro hdone _
    obtain ⟨h1, h2, -⟩ := (h.proc _ P hP).late hdone r ref hr rfl
    have hs := hraised.refStrong
    have hw := hraised.refWeak
    have hincs := intInc_le ref.strong
    have hincw := intInc_le ref.weak
    refine ⟨?_, ?_, fun hl => ?_⟩
    · cases ok <;> cases strong <;> simp at hs ⊢ <;> omega
    · cases ok <;> cases strong <;> simp at hw ⊢ <;> omega
    · have hl : d.lateFailures + (P.phase == .done && (s == 0 && w == 0)).toNat = 0 := hl
      by_cases hzero : s = 0 ∧ w = 0
      · simp [hdone, hzero] at hl
      · omega

/-! ### Counting down -/

/-- What a decrement makes of the counts; `clean` says that the reference is to be cleaned up. -/
structure Lowered (strong clean : Bool) (ref : BinderRef) (node : BinderNode) (s w : ℕ) (i : ℤ)
    (q : Option Todo) : Prop where
  refStrong : s = ref.strong - strong.toNat
  refWeak : w = ref.weak - (!strong).toNat
  internal : i + (if ref.strong ≠ 0 then 1 else 0) =
    node.internalStrongRefs + if s ≠ 0 then 1 else 0
  work : q = node.work ∨ ∃ todo, q = some todo ∧ node.proc = some todo.proc
  cleaned : clean = true → s = 0 ∧ w = 0
  counts : clean = false → ref.strong ≠ 0 ∨ ref.weak ≠ 0 → s ≠ 0 ∨ w ≠ 0

theorem NodeOk.internal_pos (h : NodeOk T d ref.node node) (hr : d.refs.get r = some ref)
    (hs : ref.strong ≠ 0) : 0 < node.internalStrongRefs := by
  have hle := Slots.le_total
    (f := fun y : BinderRef => if y.node = ref.node ∧ y.strong ≠ 0 then 1 else 0) hr
  have hint := h.internal
  simp only [hs, ne_eq, not_false_eq_true, and_self, if_true] at hle
  unfold Driver.strongOn at hint
  simp only [ne_eq] at hint
  omega

/-- What is due is no more than before if only counts of the reference go down. -/
theorem Due.lower {s w : ℕ} {P' : BinderProc} (h : Due d ref.node node)
    (hr : d.refs.get r = some ref) (hs : s ≤ ref.strong) (hw : w ≤ ref.weak) :
    Due (d.atRef r { ref with strong := s, weak := w } node P') ref.node node := by
  intro hnone
  obtain ⟨h1, h2, h3⟩ := h hnone
  refine ⟨h1, fun hc => h2 ?_, h3⟩
  rcases Driver.counted_atRef hr hc with hc | ⟨-, hpos⟩
  · exact hc
  · exact ⟨r, ref, hr, rfl, by omega⟩

/-- `binder_dec_ref_olocked` up to `binder_cleanup_ref_olocked` -/
theorem binderDecRefOlocked_spec (rb : Rebalance ℕ) (hr : d.refs.get r = some ref)
    (hn : d.nodes.get ref.node = some node) (hP : d.procs.get ref.proc = some P)
    (hok : NodeOk T d ref.node node) (strong : Bool) :
    ∃ clean s w i q, binderDecRefOlocked rb d r strong =
        some (clean, d.atRef r { ref with strong := s, weak := w }
          (node.recount i node.wraps q) P) ∧
      Lowered strong clean ref node s w i q ∧
      ∀ P', node.proc ≠ none → Due d ref.node node →
        Due (d.atRef r { ref with strong := s, weak := w }
          (node.recount i node.wraps q) P') ref.node
          (node.recount i node.wraps q) := by
  have hflat : ∀ s w node', d.atRef r { ref with strong := s, weak := w } node' P =
      (d.setNode ref.node node').setRef r { ref with strong := s, weak := w } :=
    fun _ _ _ => Driver.setProc_self hP
  have hnode : d.setNode ref.node (node.recount node.internalStrongRefs node.wraps node.work) = d :=
    Driver.setNode_self hn
  have hdue : ∀ s w, s ≤ ref.strong → w ≤ ref.weak → ∀ P', node.proc ≠ none →
      Due d ref.node node → Due (d.atRef r { ref with strong := s, weak := w }
        (node.recount node.internalStrongRefs node.wraps node.work) P')
        ref.node (node.recount node.internalStrongRefs node.wraps node.work) :=
    fun s w hs hw P' _ h => h.lower hr hs hw
  unfold binderDecRefOlocked
  rw [hr]
  cases strong with
  | true =>
    by_cases hz : ref.strong = 0
    · refine ⟨false, ref.strong, ref.weak, node.internalStrongRefs, node.work, ?_,
        ⟨by simp [hz], rfl, rfl, Or.inl rfl, (by simp), fun _ => id⟩, hdue _ _ le_rfl le_rfl⟩
      rw [hflat, hnode, Driver.setRef_self hr]
      simp [hz]
    · by_cases hone : ref.strong = 1
      · obtain ⟨free, q, hdec, hd⟩ := binderDecNodeNilocked_spec true true node
          fun hp => (hok.dead hp).1
        have hne := hok.refs_ne_nil hr
        have hfree : free = false := by
          cases free with
          | false => rfl
          | true =>
            obtain ⟨-, hrl⟩ := hd.freed rfl
            exact absurd ((decCount_refs true true node).symm.trans
              (BinderNode.refless_iff.mp hrl).1) hne
        subst hfree
        refine ⟨decide (ref.weak = 0), 0, ref.weak, node.internalStrongRefs - 1, q, ?_,
          ⟨by simp [hone], rfl, by simp [hone], ?_, by simp,
            fun hc _ => Or.inr (of_decide_eq_false hc)⟩, ?_⟩
        · rw [hflat]
          have hn' : (d.setRef r { ref with strong := ref.strong - 1 }).nodes.get ref.node =
            some node := hn
          simp [hone, binderDecNode, applyNode, hn, hdec, Driver.setRef, Driver.setNode, decCount,
            BinderNode.recount, BinderNode.withWork]
        · rcases hd.work with hq | hq | ⟨hq, -⟩
          · exact Or.inl hq
          · exact Or.inr hq
          · cases hq
        · intro P' hp h
          refine h.dec hd (fun hc => ?_) rfl rfl rfl hp (fun _ => ?_) (by simp) fun hnil =>
            absurd hnil hne
          · rcases Driver.counted_atRef hr hc with hc | -
            · exact hc
            · exact ⟨r, ref, hr, rfl, Or.inl hz⟩
          · have := hok.internal_pos hr hz
            omega
      · refine ⟨false, ref.strong - 1, ref.weak, node.internalStrongRefs, node.work, ?_,
          ⟨rfl, rfl, ?_, Or.inl rfl, (by simp), fun _ _ => Or.inl (by omega)⟩,
          hdue _ _ (Nat.sub_le _ _) le_rfl⟩
        · rw [hflat, hnode]
          simp [hz, hone]
        · rw [if_pos hz, if_pos (by omega)]
  | false =>
    by_cases hz : ref.weak = 0
    · refine ⟨false, ref.strong, ref.weak, node.internalStrongRefs, node.work, ?_,
        ⟨rfl, by simp [hz], rfl, Or.inl rfl, (by simp), fun _ => id⟩, hdue _ _ le_rfl le_rfl⟩
      rw [hflat, hnode, Driver.setRef_self hr]
      simp [hz]
    · refine ⟨decide (ref.strong = 0 ∧ ref.weak = 1), ref.strong, ref.weak - 1,
        node.internalStrongRefs, node.work, ?_, ⟨rfl, rfl, rfl, Or.inl rfl, ?_, ?_⟩,
        hdue _ _ le_rfl (Nat.sub_le _ _)⟩
      · rw [hflat, hnode]
        simp [hz]
      · intro hc
        have hc := of_decide_eq_true hc
        omega
      · intro hc _
        have hc := of_decide_eq_false hc
        omega

/-- `binder_dec_ref_olocked`, which keeps the lock if the reference is to be cleaned up.  A handle that
a buffer gives back with this counts no more. -/
theorem Inv.decRef (rb : Rebalance ℕ) (h : Inv none T d) (hr : d.refs.get r = some ref)
    (hn : d.nodes.get ref.node = some node) (hP : d.procs.get ref.proc = some P)
    (hun : P.outerLock = none) (strong : Bool) {job : Option ℕ}
    (hjob : job = none → P.phase = .running) :
    ∃ clean s w i q, decRef rb d ref.proc r strong job =
        some (clean, d.atRef r { ref with strong := s, weak := w }
          (node.recount i node.wraps q)
          { P with outerLock := if clean then some (.cleanup r job) else none }) ∧
      Inv none T (d.atRef r { ref with strong := s, weak := w }
        (node.recount i node.wraps q)
        { P with outerLock := if clean then some (.cleanup r job) else none }) ∧
      ∀ T', T = .handle ref.proc ref.desc strong ::ₘ T' →
        Inv none T' (d.atRef r { ref with strong := s, weak := w }
          (node.recount i node.wraps q)
          { P with outerLock := if clean then some (.cleanup r job) else none }) := by
  have hok := h.node ref.node node hn
  obtain ⟨clean, s, w, i, q, hdec, hlow, hdue⟩ :=
    binderDecRefOlocked_spec rb hr hn hP hok strong
  have hs := hlow.refStrong
  have hw := hlow.refWeak
  have hinv : Inv none T (d.atRef r { ref with strong := s, weak := w }
      (node.recount i node.wraps q)
      { P with outerLock := if clean then some (.cleanup r job) else none }) := by
    refine Inv.atRef hr hn hP h (by have hi := hlow.internal; omega) hlow.work ?_ ?_ ?_ ?_
    · intro p Q hp ho hl hz
      exact hdue _ (by simp [hp]) (ho.due hl hz)
    · intro l hl
      cases clean with
      | false => cases hl
      | true =>
        cases hl
        exact ⟨hjob, rfl, fun _ _ _ => hlow.cleaned rfl⟩
    · rw [hun]
      simp
    · rintro - ⟨h1, h2, h3⟩
      refine ⟨by omega, by omega, fun hl => ?_⟩
      cases clean with
      | true => exact Or.inr (Or.inr ⟨_, rfl, rfl⟩)
      | false =>
        rcases h3 hl with h3 | h3 | ⟨l, hl', -⟩
        · exact (hlow.counts rfl (Or.inl h3)).imp id Or.inl
        · exact (hlow.counts rfl (Or.inr h3)).imp id Or.inl
        · exact absurd (hun.symm.trans hl') (by simp)
  refine ⟨clean, s, w, i, q, ?_, hinv, ?_⟩
  · unfold BinderNodes.decRef
    rw [hdec, Option.map_some]
    cases clean with
    | false =>
      have hsame : ({ P with outerLock := none } : BinderProc) = P := by rw [← hun]
      simp [hsame]
    | true =>
      have hget : (d.atRef r { ref with strong := s, weak := w }
          (node.recount i node.wraps q) P).procs.get ref.proc = some P :=
        (Slots.get_put hP _ _).trans (if_pos rfl)
      simp only [if_true, Driver.lock, hget, Driver.after]
      simp [Driver.atRef, Driver.setProc, Driver.setRef, Driver.setNode, Slots.put]
  · rintro T' rfl
    refine hinv.dropHandle fun Q r' y hQ hdone hy hyp hyd => ?_
    -- no other reference of the process has the number
    have hQ' : P.phase = .done := by
      have hget := (Slots.get_put hP (some { P with
        outerLock := if clean then some (.cleanup r job) else none }) ref.proc).trans (if_pos rfl)
      cases hget.symm.trans hQ
      exact hdone
    have hthis : r' = r := by
      by_contra hne
      have hy : d.refs.get r' = some y := by
        have hget := Slots.get_put hr (some { ref with strong := s, weak := w }) r'
        rw [if_neg hne] at hget
        exact hget.symm.trans hy
      have hpok := h.proc ref.proc P hP
      exact hne (hpok.desc.inj ((hpok.mem_desc r').mpr ⟨y, hy, hyp⟩)
        ((hpok.mem_desc r).mpr ⟨ref, hr, rfl⟩) (k := ref.desc) (by simp [Driver.descOf, hy, hyd])
        (by simp [Driver.descOf, hr]))
    subst hthis
    have hget := (Slots.get_put hr (some { ref with strong := s, weak := w }) r').trans (if_pos rfl)
    cases hget.symm.trans hy
    obtain ⟨h1, h2, -⟩ := (h.proc _ P hP).late hQ' r' ref hr rfl
    cases strong with
    | true =>
      rw [Multiset.count_cons_self] at h1
      simp at hs
      simp
      omega
    | false =>
      rw [Multiset.count_cons_self] at h2
      simp at hw
      simp
      omega

end HeadlessAndroid.BinderNodes
