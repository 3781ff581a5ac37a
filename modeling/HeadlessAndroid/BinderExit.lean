import HeadlessAndroid.BinderLinks

/-!
# HeadlessAndroid.BinderExit — processes are held, released and freed

A process is kept by its temporary references and, while the worker releases it, by the worker.  The
worker takes its nodes one by one, which die or go, and then its references.
-/

namespace HeadlessAndroid.BinderNodes

open Lib Lib.SearchTree

variable {x : Option ℕ} {T T' : Multiset Token} {d : Driver} {n p : ℕ} {node : BinderNode}
  {P P' : BinderProc}

theorem setProc_get (hP : d.procs.get p = some P) (P' : BinderProc) (q : ℕ) :
    (d.setProc p P').procs.get q = if q = p then some P' else d.procs.get q :=
  Slots.get_put hP _ q

theorem taken_of_proc (hp : node.proc = some p) (hP : d.procs.get p = some P) :
    d.taken n node = if P.phase = .node n then 1 else 0 := by
  simp [Driver.taken, hp, hP]

theorem taken_setProc (hP : d.procs.get p = some P) (P' : BinderProc) (hne : node.proc ≠ some p) :
    (d.setProc p P').taken n node = d.taken n node := by
  unfold Driver.taken
  cases hp : node.proc with
  | none => rfl
  | some q =>
    have hq : q ≠ p := by
      rintro rfl
      exact hne hp
    rw [Option.bind_some, Option.bind_some, setProc_get hP, if_neg hq]

/-- What a new record for the process `p` has to show, if it runs as much as before. -/
theorem Inv.setProc (h : Inv x T d) (hP : d.procs.get p = some P)
    (hrun : P'.phase = .running ↔ P.phase = .running)
    (htold : ∀ ptr, ∀ o ∈ P'.view ptr, o ∈ P.view ptr)
    (hin : ∀ n, n ∈ inorder P.nodes ∨ P.phase = .node n →
      n ∈ inorder P'.nodes ∨ P'.phase = .node n)
    (htok : ∀ k, k ≠ .proc p → (∀ n, k ≠ .tmp n) → T'.count k = T.count k)
    (htmp : ∀ n node, d.nodes.get n = some node → node.proc ≠ some p →
      T'.count (.tmp n) = T.count (.tmp n))
    (hown : ∀ n node, d.nodes.get n = some node → node.proc = some p →
      T'.count (.tmp n) + (if P'.phase = .node n then 1 else 0) =
        T.count (.tmp n) + if P.phase = .node n then 1 else 0)
    (hvalid : ∀ k ∈ T', k ∈ T ∨ k = .proc p) (hok : ProcOk T' (d.setProc p P') p P') :
    Inv x T' (d.setProc p P') := by
  have hget := setProc_get hP P'
  have howners : SameOwners d (d.setProc p P') := by
    refine ⟨fun m nodem hm => ⟨nodem, hm, rfl, rfl⟩, fun q Q hQ => ?_, fun q hq => ?_, le_rfl,
      fun m nodem hm _ => ⟨nodem, hm, rfl, rfl⟩⟩
    · rw [hget]
      split_ifs with hqp
      · subst hqp
        cases hP.symm.trans hQ
        exact ⟨P', rfl, hrun⟩
      · exact ⟨Q, hQ, Iff.rfl⟩
    · have hqp : q ≠ p := by
        rintro rfl
        rw [hP] at hq
        cases hq
      simp [Driver.running, hget, hqp, hq]
  refine ⟨fun m nodem hm => ?_, h.kept, h.ref, fun q Q hQ => ?_, fun k hk => ?_, fun m hm => ?_,
    fun hl => ⟨(h.live hl).1, fun r ref hr => ?_⟩, h.crashed⟩
  · have hnode := h.node m nodem hm
    refine ⟨?_, hnode.internal, hnode.nodup, hnode.refs, fun q hq => ?_, fun q Q hq hQ hr => ?_,
      hnode.dead, hnode.work⟩
    · have ht := hnode.tmp
      by_cases hp : nodem.proc = some p
      · have h1 := hown m nodem hm hp
        rw [taken_of_proc hp ((hget p).trans (if_pos rfl))]
        rw [taken_of_proc hp hP] at ht
        omega
      · rw [taken_setProc hP P' hp, htmp m nodem hm hp]
        exact ht
    · obtain ⟨Q, hQ, hmem⟩ := hnode.owner q hq
      rw [hget]
      split_ifs with hqp
      · subst hqp
        cases hP.symm.trans hQ
        exact ⟨P', rfl, hin m hmem⟩
      · exact ⟨Q, hQ, hmem⟩
    · have hold : ∃ Q', d.procs.get q = some Q' ∧ Q'.phase = .running ∧
          ∀ ptr, ∀ o ∈ Q.view ptr, o ∈ Q'.view ptr := by
        rw [hget] at hQ
        split_ifs at hQ with hqp
        · cases hQ
          exact ⟨P, hqp ▸ hP, hrun.mp hr, htold⟩
        · exact ⟨Q, hQ, hr, fun _ _ => id⟩
      obtain ⟨Q', hQ', hr', ht⟩ := hold
      obtain ⟨h1, h2, h3, h4, h5, h6, h7, h8⟩ := hnode.owned q Q' hq hQ' hr'
      refine ⟨?_, ?_, h3, h4, h5, fun o hseen => h6 o (ht _ o hseen), h7, h8⟩
      · rw [htok _ (by simp) (by simp), htok _ (by simp) (by simp)]
        exact h1
      · rw [htok _ (by simp) (by simp)]
        exact h2
  · rw [hget] at hQ
    split_ifs at hQ with hqp
    · cases hQ
      exact hqp ▸ hok
    · refine (h.proc q Q hQ).congr ⟨fun m nodem hm hp => ⟨nodem, hm, hp, rfl⟩, fun _ _ => Iff.rfl,
        id⟩ ?_ (fun desc s => ?_) rfl rfl rfl rfl rfl (.inl rfl)
      · rw [htok _ (by simpa using hqp) (by simp)]
        exact (h.proc q Q hQ).tmpRef
      · rw [htok _ (by simp) (by simp)]
  · rcases hvalid k hk with hk | rfl
    · exact (h.token k hk).mono howners
    · simp [Token.Valid, hget]
  · obtain ⟨nodem, q, hgetm, hq, hr⟩ := h.mgr m hm
    exact ⟨nodem, q, hgetm, hq, (howners.running q).trans hr⟩
  · have hlive := (h.live hl).2 r ref hr
    rw [hget]
    split_ifs
    · rfl
    · exact hlive

/-- The trees and the lock of a process stay, whatever else becomes of its record. -/
theorem ProcOk.setProc (h : ProcOk T d p P)
    (hrest : P' = { P with phase := P'.phase, tmpRef := P'.tmpRef })
    (htmp : P'.tmpRef = T'.count (.proc p) + P'.phase.holds)
    (htaken : ∀ n, P'.phase = .node n → P.phase = .node n)
    (hgone : P'.phase = .refs ∨ P'.phase = .done → inorder P.nodes = [])
    (hlock : ∀ l, P.outerLock = some l → l.job = none → P'.phase = .running)
    (htold : P'.phase = .running → P.phase = .running)
    (hlate : P'.phase = .done → ∀ r ref, d.refs.get r = some ref → ref.proc = p →
      Late T' (d.setProc p P') p P' r ref) : ProcOk T' (d.setProc p P') p P' := by
  rw [hrest] at *
  refine ⟨htmp, h.nodes, h.mem_nodes, fun n hn => h.taken n (htaken n hn), hgone, h.desc, h.byNode,
    h.mem_desc, h.mem_byNode, fun l hl => ?_, fun hr => h.told (htold hr), hlate⟩
  obtain ⟨-, href⟩ := h.lock l hl
  exact ⟨hlock l hl, href⟩

/-- `binder_thread_read` fails at other work. -/
theorem Inv.faultRead (h : Inv none T d) (hP : d.procs.get p = some P) :
    Inv none T (d.setProc p P.fault) := by
  refine h.setProc hP Iff.rfl (fun _ _ hseen => by cases hseen) (fun _ => id) (fun _ _ _ => rfl)
    (fun _ _ _ _ => rfl) (fun _ _ _ _ => rfl) (fun _ => Or.inl) ?_
  exact (h.proc p P hP).congr ⟨fun n node hn hp => ⟨node, hn, hp, rfl⟩, fun _ _ => Iff.rfl, id⟩
    (h.proc p P hP).tmpRef (fun _ _ => le_rfl) rfl rfl rfl rfl rfl
    (.inr fun _ _ _ hseen => by cases hseen)

/-! ### Temporary references on a process -/

theorem Late.congr {d' : Driver} {r : ℕ} {ref : BinderRef} (h : Late T d p P r ref)
    (hc : ∀ s, T.count (.handle p ref.desc s) ≤ T'.count (.handle p ref.desc s))
    (hl : d'.lateFailures = 0 → d.lateFailures = 0) (hlock : P'.outerLock = P.outerLock) :
    Late T' d' p P' r ref := by
  obtain ⟨h1, h2, h3⟩ := h
  refine ⟨h1.trans (hc true), h2.trans (hc false), fun h0 => ?_⟩
  rw [hlock]
  exact h3 (hl h0)

theorem Inv.holdProc (h : Inv none T d) (hP : d.procs.get p = some P) :
    Inv none (.proc p ::ₘ T) (d.setProc p { P with tmpRef := P.tmpRef + 1 }) := by
  have hok := h.proc p P hP
  refine h.setProc hP Iff.rfl (fun _ _ => id) (fun _ => id) (fun k hk _ => ?_) (fun m _ _ _ => by simp)
    (fun m _ _ _ => by simp) (fun k hk => ?_) (hok.setProc rfl ?_ (fun _ => id) hok.gone
      (fun l hl => (hok.lock l hl).job) id fun hdone r ref hr hp => ?_)
  · rw [Multiset.count_cons_of_ne hk]
  · exact (Multiset.mem_cons.mp hk).symm
  · have ht := hok.tmpRef
    simp only [Multiset.count_cons_self]
    omega
  · exact (hok.late hdone r ref hr hp).congr (fun s => Multiset.count_le_count_cons _ _ _) id rfl

/-- The last reference on a process: nothing is about it any more. -/
theorem Inv.freeProc (h : Inv none (.proc p ::ₘ T) d) (hP : d.procs.get p = some P)
    (hdone : P.phase = .done) (hcount : T.count (.proc p) = 0) (hun : P.outerLock = none)
    (hhandle : ∀ desc s, .handle p desc s ∉ T) :
    Inv none T { d with procs := d.procs.put p none } := by
  have hok := h.proc p P hP
  have hget : ∀ q, Slots.get (Slots.put d.procs p none) q = if q = p then none else d.procs.get q :=
    fun q => Slots.get_put hP _ q
  have hnot : d.running p = false := by
    simp [Driver.running, hP, BinderProc.isDead, hdone]
  have hrun : ∀ q, ({ d with procs := d.procs.put p none } : Driver).running q = d.running q := by
    intro q
    by_cases hq : q = p
    · subst hq
      rw [hnot]
      unfold Driver.running
      rw [hget, if_pos rfl]
      rfl
    · unfold Driver.running
      rw [hget, if_neg hq]
  have hnone : ∀ m nodem, d.nodes.get m = some nodem → nodem.proc ≠ some p := by
    intro m nodem hm hp
    obtain ⟨Q, hQ, hin⟩ := (h.node m nodem hm).owner p hp
    cases hP.symm.trans hQ
    rw [hok.gone (Or.inr hdone), hdone] at hin
    simp at hin
  have hcons : ∀ k, k ≠ .proc p → (Token.proc p ::ₘ T).count k = T.count k :=
    fun k hk => Multiset.count_cons_of_ne hk T
  have hproc : ∀ q, q ≠ p → ∀ Q, d.procs.get q = some Q →
      Slots.get (Slots.put d.procs p none) q = some Q := by
    intro q hq Q hQ
    rw [hget, if_neg hq, hQ]
  refine ⟨fun m nodem hm => ?_, h.kept, h.ref, fun q Q hQ => ?_, fun k hk => ?_, fun m hm => ?_,
    fun hl => ⟨(h.live hl).1, fun r ref hr => ?_⟩, h.crashed⟩
  · have hq : ∀ q, nodem.proc = some q → q ≠ p := by
      rintro q hq rfl
      exact hnone m nodem hm hq
    refine (h.node m nodem hm).congr ⟨fun _ => Iff.rfl, rfl, id, fun q Q hp hQ =>
      ⟨Q, hproc q (hq q hp) Q hQ, id, fun hr => ⟨hr, fun _ => id⟩⟩, ?_, rfl, id, id⟩ (hcons _ (by simp)).symm
      fun q _ _ => ⟨(hcons _ (by simp)).symm, fun s => (hcons _ (by simp)).symm⟩
    unfold Driver.taken
    cases hp : nodem.proc with
    | none => rfl
    | some q =>
      rw [Option.bind_some, Option.bind_some, hget, if_neg (hq q hp)]
  · have hQ : Slots.get (Slots.put d.procs p none) q = some Q := hQ
    rw [hget] at hQ
    split_ifs at hQ with hqp
    refine (h.proc q Q hQ).congr ⟨fun m nodem hm hp => ⟨nodem, hm, hp, rfl⟩, fun _ _ => Iff.rfl,
      id⟩ ?_ (fun desc s => (hcons _ (by simp)).le) rfl rfl rfl rfl rfl (.inl rfl)
    rw [← hcons _ (by simpa using hqp)]
    exact (h.proc q Q hQ).tmpRef
  · have hv := h.token k (Multiset.mem_cons_of_mem hk)
    cases k with
    | tmp m => exact hv
    | target m q =>
      refine ⟨hv.1, fun hr => hv.2.1 (hrun q ▸ hr), fun nodem hm => ?_⟩
      unfold Driver.Belongs
      rw [hrun]
      exact hv.2.2 nodem hm
    | object q ptr s => exact fun hr => hv (hrun q ▸ hr)
    | handle q desc s => trivial
    | proc q =>
      have hqp : q ≠ p := by
        rintro rfl
        exact absurd (Multiset.count_pos.mpr hk) (by omega)
      obtain ⟨Q, hQ⟩ := Option.isSome_iff_exists.mp hv
      exact Option.isSome_iff_exists.mpr ⟨Q, hproc q hqp Q hQ⟩
    | own q => exact (hrun q).trans hv
    | bound m q ptr =>
      refine ⟨hv.1, fun nodem hm => ?_⟩
      unfold Driver.Belongs
      rw [hrun]
      exact hv.2 nodem hm
  · obtain ⟨nodem, q, hgetm, hq, hr⟩ := h.mgr m hm
    exact ⟨nodem, q, hgetm, hq, (hrun q).trans hr⟩
  · -- a reference of the process would still be counted by a buffer
    have hne : ref.proc ≠ p := by
      rintro rfl
      obtain ⟨h1, h2, h3⟩ := hok.late hdone r ref hr rfl
      rw [hcons _ (by simp), Multiset.count_eq_zero.mpr (hhandle _ _)] at h1 h2
      rcases h3 hl with h3 | h3 | ⟨l, hl', -⟩
      · omega
      · omega
      · exact absurd (hun.symm.trans hl') (by simp)
    obtain ⟨Q, hQ⟩ := Option.isSome_iff_exists.mp ((h.live hl).2 r ref hr)
    exact Option.isSome_iff_exists.mpr ⟨Q, hproc _ hne Q hQ⟩

/-- `binder_proc_dec_tmpref` -/
theorem Inv.putProc (h : Inv none (.proc p ::ₘ T) d)
    (hlast : ∀ P, d.procs.get p = some P → P.phase = .done → T.count (.proc p) = 0 →
      P.outerLock = none ∧ ∀ desc s, .handle p desc s ∉ T) :
    ∃ d', binderProcDecTmpref d p = some d' ∧ Inv none T d' ∧ d'.jobs = d.jobs ∧
      d'.refs = d.refs ∧ d'.procs.length = d.procs.length ∧ (∀ q, d'.running q = d.running q) ∧
        ∀ q, d'.lockOf q = d.lockOf q := by
  obtain ⟨P, hP⟩ := h.proc_of_proc (Multiset.mem_cons_self _ _)
  have hok := h.proc p P hP
  have htmp := hok.tmpRef
  rw [Multiset.count_cons_self] at htmp
  unfold binderProcDecTmpref
  rw [hP]
  simp only
  rw [if_neg (by omega)]
  by_cases hfree : (P.isDead && !P.hasThreads && P.tmpRef == 1) = true
  · have hdone : P.phase = .done ∧ T.count (.proc p) = 0 := by
      rw [Bool.and_eq_true, Bool.and_eq_true, beq_iff_eq] at hfree
      obtain ⟨⟨hd, ht⟩, hone⟩ := hfree
      cases hph : P.phase <;> simp [BinderProc.isDead, BinderProc.hasThreads, hph] at hd ht <;>
        simp [hph, Phase.holds] at htmp <;> first | omega | exact ⟨rfl, by omega⟩
    obtain ⟨hun, hhandle⟩ := hlast P hP hdone.1 hdone.2
    have hget : ∀ q, Slots.get (Slots.put d.procs p none) q =
        if q = p then none else d.procs.get q := fun q => Slots.get_put hP _ q
    refine ⟨_, if_pos hfree, h.freeProc hP hdone.1 hdone.2 hun hhandle, rfl, rfl, List.length_set,
      fun q => ?_, fun q => ?_⟩
    · unfold Driver.running
      rw [hget]
      split_ifs with hq
      · simp [hq, hP, BinderProc.isDead, hdone.1]
      · rfl
    · unfold Driver.lockOf
      rw [hget]
      split_ifs with hq
      · simp [hq, hP, hun]
      · rfl
  · refine ⟨_, if_neg hfree, ?_, rfl, rfl, List.length_set, fun q => ?_, fun q => ?_⟩
    · refine h.setProc hP Iff.rfl (fun _ _ => id) (fun _ => id) (fun k hk _ => ?_) (fun m _ _ _ => by simp)
        (fun m _ _ _ => by simp) (fun k hk => Or.inl (Multiset.mem_cons_of_mem hk))
        (hok.setProc rfl ?_ (fun _ => id) hok.gone (fun l hl => (hok.lock l hl).job) id
          fun hdone r ref hr hp => ?_)
      · rw [Multiset.count_cons_of_ne hk]
      · change P.tmpRef - 1 = T.count (.proc p) + P.phase.holds
        omega
      · exact (hok.late hdone r ref hr hp).congr (fun s => by simp) id rfl
    · have hapart : Apart (some p) d (d.setProc p { P with tmpRef := P.tmpRef - 1 }) :=
        apart_setProc hP Iff.rfl
      exact hapart.running q
    · unfold Driver.lockOf
      rw [setProc_get hP]
      split_ifs with hq
      · simp [hq, hP]
      · rfl

/-! ### The worker -/

/-- The worker goes on to the next of its loops. -/
theorem Inv.nextPhase (h : Inv none T d) (hP : d.procs.get p = some P) {ph : Phase}
    (hold : P.phase ≠ .running) (hnew : ph ≠ .running ∧ ph ≠ .done)
    (hholds : ph.holds = P.phase.holds) (hnode : ∀ n, P.phase ≠ .node n) (hnode' : ∀ n, ph ≠ .node n)
    (hgone : ph = .refs → inorder P.nodes = []) :
    Inv none T (d.setProc p { P with phase := ph }) := by
  have hok := h.proc p P hP
  refine h.setProc hP ?_ (fun _ _ => id) (fun m hm => ?_) (fun _ _ _ => rfl) (fun _ _ _ _ => rfl)
    (fun m _ _ _ => ?_) (fun _ => Or.inl) (hok.setProc rfl ?_ (fun m hm => ?_) ?_ ?_ ?_ ?_)
  · exact ⟨fun hr => absurd hr hnew.1, fun hr => absurd hr hold⟩
  · exact Or.inl (hm.resolve_right (hnode m))
  · change T.count (.tmp m) + (if ph = .node m then 1 else 0) = _
    rw [if_neg (hnode' m), if_neg (hnode m)]
  · exact hok.tmpRef.trans (congrArg _ hholds.symm)
  · exact absurd hm (hnode' m)
  · exact fun hph => hgone (hph.resolve_right hnew.2)
  · exact fun l hl hj => absurd ((hok.lock l hl).job hj) hold
  · exact fun hr => absurd hr hnew.1
  · exact fun hd => absurd hd hnew.2

/-- The references are gone, and so is the worker but for its reference. -/
theorem Inv.lastPhase (h : Inv none T d) (hP : d.procs.get p = some P) (hrefs : P.phase = .refs)
    (hun : P.outerLock = none) (hnil : inorder P.refsByDesc = []) :
    Inv none (.proc p ::ₘ T) (d.setProc p { P with phase := .done }) := by
  have hok := h.proc p P hP
  refine h.setProc hP (by simp [hrefs]) (fun _ _ => id) (fun m hm => ?_) (fun k hk _ => ?_)
    (fun m _ _ _ => by simp) (fun m _ _ _ => by simp [hrefs])
    (fun k hk => (Multiset.mem_cons.mp hk).symm) (hok.setProc rfl ?_ (by simp) ?_ ?_ (by simp) ?_)
  · rw [hrefs] at hm
    exact Or.inl (hm.resolve_right (by simp))
  · rw [Multiset.count_cons_of_ne hk]
  · have ht := hok.tmpRef
    rw [hrefs] at ht
    rw [Multiset.count_cons_self]
    exact ht
  · exact fun _ => hok.gone (Or.inl hrefs)
  · intro l hl
    exact absurd (hun.symm.trans hl) (by simp)
  · intro _ r ref hr hp
    have hmem := (hok.mem_desc r).mpr ⟨ref, hr, hp⟩
    rw [hnil] at hmem
    cases hmem

/-- A node leaves the tree for the worker. -/
theorem Inv.takeNode (rb : Rebalance ℕ) (h : Inv none T d) (hP : d.procs.get p = some P)
    (hphase : P.phase = .nodes) (hin : n ∈ inorder P.nodes) (hn : d.nodes.get n = some node)
    (hp : node.proc = some p) :
    Inv none T ((d.setNode n { node with tmpRefs := node.tmpRefs + 1 }).setProc p
      { P with nodes := rb.erase n P.nodes, phase := .node n }) := by
  have h₁ := h.takeTmp hn
  have hok := h₁.proc p P hP
  have hn' := (Slots.get_put hn (some { node with tmpRefs := node.tmpRefs + 1 }) n).trans
    (if_pos rfl)
  have hmem := hok.nodes.mem_erase rb n
  have htmp := hok.tmpRef
  rw [hphase] at htmp
  refine h₁.setProc hP (by simp [hphase]) (fun _ _ => id) (fun m hm => ?_) (fun k _ hk => ?_)
    (fun m nodem hm hne => ?_) (fun m nodem hm _ => ?_)
    (fun k hk => Or.inl (Multiset.mem_cons_of_mem hk)) ⟨?_, hok.nodes.erase rb n, fun m hm => ?_,
      fun m hm => ?_, (by simp), hok.desc, hok.byNode, hok.mem_desc, hok.mem_byNode, fun l hl => ?_,
      (by simp), (by simp)⟩
  · rw [hphase] at hm
    by_cases hmn : m = n
    · exact Or.inr (by rw [hmn])
    · exact Or.inl ((hmem m).mpr ⟨hmn, hm.resolve_right (by simp)⟩)
  · rw [Multiset.count_cons_of_ne (hk n)]
  · rw [Multiset.count_cons_of_ne]
    intro he
    injection he with he
    subst he
    cases hn'.symm.trans hm
    exact hne hp
  · by_cases hmn : m = n
    · subst hmn
      simp [hphase]
    · simp [hphase, hmn, Ne.symm hmn]
  · simpa [Multiset.count_cons, Phase.holds] using htmp
  · exact hok.mem_nodes m ((hmem m).mp hm).2
  · cases hm
    exact ⟨fun hm => ((hmem n).mp hm).1 rfl, _, hn', hp⟩
  · obtain ⟨hjob, href⟩ := hok.lock l hl
    exact ⟨fun hj => absurd (hjob hj) (by simp [hphase]), href⟩

/-- A node that its process has left behind. -/
def BinderNode.orphan (node : BinderNode) : BinderNode :=
  { node.withWork none with proc := none, localStrongRefs := 0, localWeakRefs := 0 }

/-- The worker leaves the node `n` of `p` to those who hold it, and goes on. -/
def Driver.orphan (d : Driver) (p : ℕ) (P : BinderProc) (n : ℕ) (node : BinderNode) : Driver :=
  (d.setProc p { P with phase := .nodes }).setNode n node.orphan

section Orphan

variable (hP : d.procs.get p = some P) (hphase : P.phase = .node n)
  (hn : d.nodes.get n = some node) (hp : node.proc = some p)

include hn in
theorem orphan_get (m : ℕ) : (d.orphan p P n node).nodes.get m =
    if m = n then some node.orphan else d.nodes.get m :=
  Slots.get_put hn _ m

include hP in
theorem orphan_proc (q : ℕ) : (d.orphan p P n node).procs.get q =
    if q = p then some { P with phase := .nodes } else d.procs.get q :=
  setProc_get hP _ q

include hP hphase in
theorem orphan_running (q : ℕ) : (d.orphan p P n node).running q = d.running q :=
  (apart_setProc (d := d) hP (by simp [hphase])).running q

include hn hp in
/-- Nodes of other processes stay. -/
theorem orphan_other {m q : ℕ} {nodem : BinderNode} (hm : d.nodes.get m = some nodem)
    (hq : nodem.proc = some q) (hqp : q ≠ p) :
    (d.orphan p P n node).nodes.get m = some nodem := by
  rw [orphan_get hn, if_neg, hm]
  rintro rfl
  cases hn.symm.trans hm
  exact hqp (Option.some.inj (hq.symm.trans hp))

include hP hphase in
theorem orphan_stopped : d.running p = false := by
  simp [Driver.running, hP, BinderProc.isDead, hphase]

include hP hphase hn hp

theorem orphan_belongs {m q : ℕ} {nodem : BinderNode}
    (hb : ∀ y, d.nodes.get m = some y → d.Belongs y q)
    (hm : (d.orphan p P n node).nodes.get m = some nodem) :
    (d.orphan p P n node).Belongs nodem q := by
  rw [orphan_get hn] at hm
  unfold Driver.Belongs
  rw [orphan_running hP hphase]
  split_ifs at hm with hmn
  · cases hm
    rcases hb node (hmn ▸ hn) with hq | ⟨-, hq⟩
    · cases hp.symm.trans hq
      exact Or.inr ⟨rfl, orphan_stopped hP hphase⟩
    · exact Or.inr ⟨rfl, hq⟩
  · exact hb nodem hm

theorem Token.Valid.orphan {k : Token} (hv : k.Valid d) : k.Valid (d.orphan p P n node) := by
  have hlen : (d.orphan p P n node).nodes.length = d.nodes.length := List.length_set
  have hrun : ∀ q, (d.orphan p P n node).running q = d.running q := orphan_running hP hphase
  cases k with
  | tmp m =>
    simp only [Token.Valid, orphan_get hn]
    split_ifs
    · rfl
    · exact hv
  | target m q =>
    refine ⟨hlen ▸ hv.1, fun hr => ?_, fun nodem hm => orphan_belongs hP hphase hn hp hv.2.2 hm⟩
    rw [orphan_get hn]
    split_ifs
    · rfl
    · exact hv.2.1 (hrun q ▸ hr)
  | object q ptr s =>
    intro hr
    rw [hrun] at hr
    obtain ⟨m, nodem, hm, hq, hptr⟩ := hv hr
    refine ⟨m, nodem, orphan_other hn hp hm hq ?_, hq, hptr⟩
    rintro rfl
    rw [orphan_stopped hP hphase] at hr
    cases hr
  | handle q desc s => trivial
  | proc q =>
    simp only [Token.Valid, orphan_proc hP]
    split_ifs
    · rfl
    · exact hv
  | own q => exact (hrun q).trans hv
  | bound m q ptr =>
    refine ⟨hlen ▸ hv.1, fun nodem hm =>
      ⟨orphan_belongs hP hphase hn hp (fun y hy => (hv.2 y hy).1) hm, ?_⟩⟩
    rw [orphan_get hn] at hm
    split_ifs at hm with hmn
    · cases hm
      exact (hv.2 node (hmn ▸ hn)).2
    · exact (hv.2 nodem hm).2

/-- The dead node keeps what counts inside the driver. -/
theorem Inv.node_orphan (h : Inv none T d) (m : ℕ) {nodem : BinderNode}
    (hm : (d.orphan p P n node).nodes.get m = some nodem) :
    NodeOk (.tmp n ::ₘ T) (d.orphan p P n node) m nodem := by
  have hnode := h.node n node hn
  rw [orphan_get hn] at hm
  split_ifs at hm with hmn
  · cases hm
    subst hmn
    refine ⟨?_, hnode.internal, hnode.nodup, hnode.refs, (by simp [BinderNode.orphan]),
      (by simp [BinderNode.orphan]), fun _ => ⟨rfl, le_rfl, le_rfl, fun _ => ⟨rfl, rfl⟩⟩,
      fun q hq => by cases hq⟩
    rw [Multiset.count_cons_self]
    change node.tmpRefs = _
    rw [hnode.tmp, taken_of_proc hp hP, if_pos hphase]
    rfl
  · refine (h.node m nodem hm).congr ⟨fun _ => Iff.rfl, rfl, id, fun q Q hq hQ => ?_, ?_, rfl, id,
      id⟩ (by simp [hmn]) fun q _ _ => ⟨by simp, fun s => by simp⟩
    · rw [orphan_proc hP]
      split_ifs with hqp
      · subst hqp
        cases hP.symm.trans hQ
        refine ⟨_, rfl, fun hin => Or.inl (hin.resolve_right ?_), (by simp)⟩
        rw [hphase]
        simpa using Ne.symm hmn
      · exact ⟨Q, hQ, id, fun hr => ⟨hr, fun _ => id⟩⟩
    · by_cases hq : nodem.proc = some p
      · rw [taken_of_proc hq ((orphan_proc hP p).trans (if_pos rfl)), taken_of_proc hq hP, hphase]
        simp [Ne.symm hmn]
      · exact taken_setProc hP _ hq

theorem Inv.proc_orphan (h : Inv none T d) (q : ℕ) {Q : BinderProc}
    (hQ : (d.orphan p P n node).procs.get q = some Q) :
    ProcOk (.tmp n ::ₘ T) (d.orphan p P n node) q Q := by
  have hok := h.proc p P hP
  rw [orphan_proc hP] at hQ
  split_ifs at hQ with hqp
  · cases hQ
    subst hqp
    have hkeep : ∀ m ∈ inorder P.nodes, m ≠ n := by
      rintro m hm rfl
      exact (hok.taken m hphase).1 hm
    refine ⟨?_, hok.nodes.congr fun m hm => ?_, fun m hm => ?_, (by simp), ?_, hok.desc, hok.byNode,
      hok.mem_desc, hok.mem_byNode, fun l hl => ?_, (by simp), (by simp)⟩
    · rw [Multiset.count_cons_of_ne (by simp)]
      have ht := hok.tmpRef
      rw [hphase] at ht
      exact ht
    · change ((d.orphan q P n node).nodes.get m).map _ = _
      rw [orphan_get hn, if_neg (hkeep m hm)]
      rfl
    · obtain ⟨nodem, hgetm, hpm⟩ := hok.mem_nodes m hm
      exact ⟨nodem, (orphan_get hn m).trans ((if_neg (hkeep m hm)).trans hgetm), hpm⟩
    · rintro (he | he) <;> cases he
    · obtain ⟨hjob, href⟩ := hok.lock l hl
      exact ⟨fun hj => absurd (hjob hj) (by simp [hphase]), href⟩
  · refine (h.proc q Q hQ).congr ⟨fun m nodem hm hq => ⟨nodem, orphan_other hn hp hm hq hqp, hq,
      rfl⟩, fun _ _ => Iff.rfl, id⟩ ?_ (fun desc s => by simp) rfl rfl rfl rfl rfl (.inl rfl)
    rw [Multiset.count_cons_of_ne (by simp)]
    exact (h.proc q Q hQ).tmpRef

/-- `binder_node_release` leaves the node to those who hold it. -/
theorem Inv.orphan (h : Inv none T d) : Inv none (.tmp n ::ₘ T) (d.orphan p P n node) := by
  refine ⟨fun m nodem hm => h.node_orphan hP hphase hn hp m hm, fun m nodem hm _ => ?_,
    fun r ref hr => ?_, fun q Q hQ => h.proc_orphan hP hphase hn hp q hQ, fun k hk => ?_, fun m hm => ?_,
    fun hl => ⟨(h.live hl).1, fun r ref hr => ?_⟩, h.crashed⟩
  · rw [orphan_get hn] at hm
    split_ifs at hm
    · cases hm
      refine BinderNode.kept_of_tmpRefs ?_
      have htmp := (h.node n node hn).tmp
      rw [taken_of_proc hp hP, if_pos hphase] at htmp
      change node.tmpRefs ≠ 0
      omega
    · exact h.kept m nodem hm (by simp)
  · obtain ⟨nodem, hm, hne⟩ := h.ref r ref hr
    refine ⟨if ref.node = n then node.orphan else nodem, ?_, ?_⟩
    · rw [orphan_get hn, hm]
      split_ifs <;> rfl
    · split_ifs
      · simp [BinderNode.orphan]
      · exact hne
  · rcases Multiset.mem_cons.mp hk with rfl | hk
    · simp [Token.Valid, orphan_get hn]
    · exact (h.token k hk).orphan hP hphase hn hp
  · obtain ⟨nodem, q, hgetm, hq, hr⟩ := h.mgr m hm
    refine ⟨nodem, q, orphan_other hn hp hgetm hq ?_, hq, (orphan_running hP hphase q).trans hr⟩
    rintro rfl
    rw [orphan_stopped hP hphase] at hr
    cases hr
  · have hlive := (h.live hl).2 r ref hr
    rw [orphan_proc hP]
    split_ifs
    · rfl
    · exact hlive

end Orphan

/-- A new record that keeps the lock. -/
theorem apart_keep (hP : d.procs.get p = some P) (hrun : P'.phase = .running ↔ P.phase = .running)
    (hlock : P'.outerLock = P.outerLock) : Apart none d (d.setProc p P') := by
  have hbase := apart_setProc hP hrun
  refine ⟨rfl, hbase.length, hbase.running, fun q _ => ?_, fun r y hy => Or.inr ⟨y, hy, rfl, rfl⟩⟩
  by_cases hq : q = p
  · subst hq
    simp [Driver.lockOf, setProc_get hP, hP, hlock]
  · exact hbase.lock q (by simpa using Ne.symm hq)

theorem touchesStale_spec {l : List ℕ} (hrs : ∀ r ∈ l, ∃ ref, d.refs.get r = some ref) :
    ∃ b, touchesStale d l = some b ∧
      (b = true → ∃ r ref, d.refs.get r = some ref ∧ d.procs.get ref.proc = none) := by
  induction l with
  | nil => exact ⟨false, rfl, by simp⟩
  | cons r l ih =>
    obtain ⟨ref, hr⟩ := hrs r List.mem_cons_self
    obtain ⟨b, hb, hspec⟩ := ih fun r' hr' => hrs r' (List.mem_cons_of_mem r hr')
    refine ⟨(d.procs.get ref.proc).isNone || b, by simp [touchesStale, hr, hb], fun h => ?_⟩
    rcases Bool.or_eq_true_iff.mp h with h | h
    · exact ⟨r, ref, hr, by simpa using h⟩
    · exact hspec h

/-- `binder_node_release`: the node is gone, or the worker's reference on it is to be put back. -/
theorem Inv.finishNode (h : Inv none T d) (hP : d.procs.get p = some P)
    (hphase : P.phase = .node n) :
    (Inv none T (finishNode d p n P) ∧ Apart none d (finishNode d p n P)) ∨
      ∃ d', finishNode d p n P = d'.spawn (.putNode n) ∧ Inv none (.tmp n ::ₘ T) d' ∧
        Apart none d d' := by
  have hok := h.proc p P hP
  obtain ⟨hnot, node, hn, hp⟩ := hok.taken n hphase
  have hnode := h.node n node hn
  have htmp : node.tmpRefs = T.count (.tmp n) + 1 := by
    rw [hnode.tmp, taken_of_proc hp hP, if_pos hphase]
    rfl
  have horphan := h.orphan hP hphase hn hp
  have hapart : Apart none d (d.setProc p { P with phase := .nodes }) :=
    apart_keep hP (by simp [hphase]) rfl
  have hcond : (node.withWork none).tmpRefs ≠ 0 := by
    change node.tmpRefs ≠ 0
    omega
  unfold BinderNodes.finishNode binderNodeRelease
  rw [hn]
  simp only [Driver.after, if_neg hcond]
  by_cases hgone : ((node.withWork none).refs.isEmpty && (node.withWork none).tmpRefs == 1) = true
  · refine Or.inl ?_
    rw [if_pos hgone]
    -- putting the worker's reference back frees the node
    obtain ⟨hnil, hone⟩ : node.refs = [] ∧ node.tmpRefs = 1 := by
      simpa [BinderNode.withWork] using hgone
    obtain ⟨d', hd', hinv, -⟩ := horphan.putTmp .plain
    have hget : ((d.setProc p { P with phase := .nodes }).setNode n node.orphan).nodes.get n =
        some node.orphan := (Slots.get_put hn _ n).trans (if_pos rfl)
    have heq : binderPutNode .plain ((d.setProc p { P with phase := .nodes }).setNode n node.orphan)
        n = some ((d.setProc p { P with phase := .nodes }).dropNode n) := by
      unfold binderPutNode BinderNodes.applyNode
      rw [hget]
      simp [binderDecNodeTmpref, binderDecNodeNilocked, decCount, stillCounted, BinderNode.known,
        BinderNode.refless, BinderNode.orphan, hnil, hone, BinderNode.withWork, freeNode,
        Driver.dropNode, Driver.setNode, Driver.setProc, Slots.put]
    cases hd'.symm.trans heq
    exact ⟨hinv, hapart.jobs, hapart.length, hapart.running, hapart.lock, hapart.ref⟩
  · refine Or.inr ?_
    rw [if_neg hgone]
    obtain ⟨b, hb, hspec⟩ := touchesStale_spec (d := d.setProc p { P with phase := .nodes })
      (l := node.refs) fun r hr => by
        obtain ⟨ref, hget, -⟩ := (hnode.refs r).mp hr
        exact ⟨ref, hget⟩
    have hfalse : d.lateFailures = 0 → b = false := by
      intro hl
      by_contra hb'
      obtain ⟨r, ref, hr, hnone⟩ := hspec (by simpa using hb')
      obtain ⟨Q, hQ⟩ := Option.isSome_iff_exists.mp ((h.live hl).2 r ref hr)
      rw [setProc_get hP] at hnone
      split_ifs at hnone
      rw [hQ] at hnone
      cases hnone
    refine ⟨{ (d.setProc p { P with phase := .nodes }).setNode n node.orphan with
      stale := d.stale || b }, ?_, horphan.congr ⟨rfl, rfl, rfl, rfl, rfl, fun hl => ?_, id, id, id⟩,
      hapart.jobs, hapart.length, hapart.running, hapart.lock, hapart.ref⟩
    · change Driver.after _ (touchesStale (d.setProc p { P with phase := .nodes }) node.refs) _ = _
      rw [hb]
      rfl
    · change (d.stale || b) = d.stale
      rw [hfalse hl, Bool.or_false]

/-! ### A process ends -/

/-- `proc->is_dead` is set, and the worker holds the process. -/
def Driver.stop (d : Driver) (p : ℕ) (P : BinderProc) (mgr : Option ℕ) (jobs : Slots Job) : Driver :=
  { d.setProc p { P with phase := .threads, tmpRef := P.tmpRef + 1 } with
    contextMgrNode := mgr, jobs := jobs }

/-- `T'` is `T` without what the buffers of `p` hold. -/
structure Abandoned (p : ℕ) (T T' : Multiset Token) : Prop where
  own : .own p ∉ T'
  sub : ∀ k ∈ T', k ∈ T
  count : ∀ k, (∀ n, k ≠ .target n p) → (∀ ptr s, k ≠ .object p ptr s) →
    (∀ desc s, k ≠ .handle p desc s) → T'.count k = T.count k

section Stop

variable {mgr : Option ℕ} {jobs : Slots Job} (hP : d.procs.get p = some P)

include hP

theorem stop_proc (q : ℕ) : (d.stop p P mgr jobs).procs.get q =
    if q = p then some { P with phase := .threads, tmpRef := P.tmpRef + 1 } else d.procs.get q :=
  setProc_get hP _ q

theorem stop_running (q : ℕ) :
    (d.stop p P mgr jobs).running q = true ↔ d.running q = true ∧ q ≠ p := by
  rw [Driver.running_iff, Driver.running_iff, stop_proc hP]
  split_ifs with hqp
  · simp [hqp]
  · simp [hqp]

theorem stop_belongs {nodem : BinderNode} {q : ℕ} (hb : d.Belongs nodem q) :
    (d.stop p P mgr jobs).Belongs nodem q := by
  rcases hb with hq | ⟨hq, hno⟩
  · exact Or.inl hq
  · refine Or.inr ⟨hq, Bool.eq_false_iff.mpr fun hr => ?_⟩
    rw [((stop_running hP q).mp hr).1] at hno
    cases hno

theorem Token.Valid.stop {k : Token} (hv : k.Valid d) (hown : k ≠ .own p) :
    k.Valid (d.stop p P mgr jobs) := by
  have hrun : ∀ q, (d.stop p P mgr jobs).running q = true → d.running q = true :=
    fun q hq => ((stop_running hP q).mp hq).1
  cases k with
  | tmp m => exact hv
  | target m q =>
    exact ⟨hv.1, fun hr => hv.2.1 (hrun q hr), fun nodem hm => stop_belongs hP (hv.2.2 nodem hm)⟩
  | object q ptr s => exact fun hr => hv (hrun q hr)
  | handle q desc s => trivial
  | proc q =>
    simp only [Token.Valid, stop_proc hP]
    split_ifs
    · rfl
    · exact hv
  | own q => exact (stop_running hP q).mpr ⟨hv, fun he => hown (he ▸ rfl)⟩
  | bound m q ptr =>
    exact ⟨hv.1, fun nodem hm => ⟨stop_belongs hP (hv.2 nodem hm).1, (hv.2 nodem hm).2⟩⟩

/-- The nodes of other processes keep what they have, and the node of the context manager goes on being
one unless it is the process that ends. -/
theorem Inv.node_stop (h : Inv none T d) (hr : P.phase = .running) (hT : Abandoned p T T')
    (hmgr : ∀ m nodem q, d.nodes.get m = some nodem → nodem.proc = some q → q ≠ p →
      (mgr = some m ↔ d.contextMgrNode = some m))
    (m : ℕ) {nodem : BinderNode} (hm : d.nodes.get m = some nodem) :
    NodeOk T' (d.stop p P mgr jobs) m nodem := by
  have hnode := h.node m nodem hm
  refine ⟨?_, hnode.internal, hnode.nodup, hnode.refs, fun q hq => ?_, fun q Q hq hQ hph => ?_,
    hnode.dead, hnode.work⟩
  · have ht : (d.stop p P mgr jobs).taken m nodem = d.taken m nodem := by
      by_cases hq : nodem.proc = some p
      · rw [taken_of_proc hq hP, hr, taken_of_proc hq ((stop_proc hP p).trans (if_pos rfl))]
        simp
      · exact taken_setProc hP _ hq
    rw [hT.count _ (by simp) (by simp) (by simp), ht]
    exact hnode.tmp
  · obtain ⟨Q, hQ, hin⟩ := hnode.owner q hq
    rw [stop_proc hP]
    split_ifs with hqp
    · subst hqp
      cases hP.symm.trans hQ
      rw [hr] at hin
      exact ⟨_, rfl, Or.inl (hin.resolve_right (by simp))⟩
    · exact ⟨Q, hQ, hin⟩
  · obtain ⟨-, hqp⟩ := (stop_running hP q).mp (Driver.running_iff.mpr ⟨Q, hQ, hph⟩)
    rw [stop_proc hP, if_neg hqp] at hQ
    obtain ⟨h1, h2, h3, h4, h5, h6, h7, h8⟩ := hnode.owned q Q hq hQ hph
    have hm' : (d.stop p P mgr jobs).mgrCount m = d.mgrCount m :=
      if_congr (hmgr m nodem q hm hq hqp) rfl rfl
    refine ⟨?_, ?_, h3, h4, h5, hm' ▸ h6, hm' ▸ h7, h8⟩
    · rw [hT.count _ (by simp [hqp]) (by simp) (by simp),
        hT.count _ (by simp) (by simp [hqp]) (by simp), hm']
      exact h1
    · rw [hT.count _ (by simp) (by simp [hqp]) (by simp), hm']
      exact h2

theorem Inv.proc_stop (h : Inv none T d) (hr : P.phase = .running) (hT : Abandoned p T T')
    (hjob : ∀ l, P.outerLock = some l → l.job ≠ none) (q : ℕ) {Q : BinderProc}
    (hQ : (d.stop p P mgr jobs).procs.get q = some Q) : ProcOk T' (d.stop p P mgr jobs) q Q := by
  rw [stop_proc hP] at hQ
  split_ifs at hQ with hqp
  · cases hQ
    subst hqp
    have hok := h.proc q P hP
    refine ⟨?_, hok.nodes, hok.mem_nodes, (by simp), ?_, hok.desc, hok.byNode, hok.mem_desc,
      hok.mem_byNode, fun l hl => ?_, (by simp), (by simp)⟩
    · rw [hT.count _ (by simp) (by simp) (by simp)]
      have ht := hok.tmpRef
      rw [hr] at ht
      simp only [Phase.holds] at ht ⊢
      omega
    · rintro (he | he) <;> cases he
    · obtain ⟨-, href⟩ := hok.lock l hl
      exact ⟨fun hj => absurd hj (hjob l hl), href⟩
  · refine (h.proc q Q hQ).congr ⟨fun m nodem hm hq => ⟨nodem, hm, hq, rfl⟩, fun _ _ => Iff.rfl,
      id⟩ ?_ (fun desc s => ?_) rfl rfl rfl rfl rfl (.inl rfl)
    · rw [hT.count _ (by simp) (by simp) (by simp)]
      exact (h.proc q Q hQ).tmpRef
    · rw [hT.count _ (by simp) (by simp) (by simp [hqp])]

/-- `binder_deferred_release` up to `proc->is_dead` -/
theorem Inv.stop (h : Inv none T d) (hr : P.phase = .running) (hT : Abandoned p T T')
    (hjob : ∀ l, P.outerLock = some l → l.job ≠ none)
    (hmgr : mgr = if d.contextMgrNode.any fun n => (d.nodes.get n).any fun node =>
      node.proc == some p then none else d.contextMgrNode) :
    Inv none T' (d.stop p P mgr jobs) := by
  have hold : ∀ m, mgr = some m → d.contextMgrNode = some m := by
    intro m hm
    rw [hmgr] at hm
    split_ifs at hm
    exact hm
  have hkeep : ∀ m nodem q, d.nodes.get m = some nodem → nodem.proc = some q → q ≠ p →
      (mgr = some m ↔ d.contextMgrNode = some m) := by
    refine fun m nodem q hm hq hqp => ⟨hold m, fun hmg => ?_⟩
    rw [hmgr, hmg]
    simp [hm, hq, hqp]
  refine ⟨fun m nodem hm => h.node_stop hP hr hT hkeep m hm, h.kept, h.ref,
    fun q Q hQ => h.proc_stop hP hr hT hjob q hQ, fun k hk => ?_, fun m hm => ?_,
    fun hl => ⟨(h.live hl).1, fun r ref href => ?_⟩, h.crashed⟩
  · exact (h.token k (hT.sub k hk)).stop hP fun he => hT.own (he ▸ hk)
  · have hm : mgr = some m := hm
    have hmg := hold m hm
    obtain ⟨nodem, q, hgetm, hq, hrq⟩ := h.mgr m hmg
    refine ⟨nodem, q, hgetm, hq, (stop_running hP q).mpr ⟨hrq, ?_⟩⟩
    rintro rfl
    have hnone : mgr = none := by simp [hmgr, hmg, hgetm, hq]
    rw [hnone] at hm
    cases hm
  · have hlive := (h.live hl).2 r ref href
    rw [stop_proc hP]
    split_ifs
    · rfl
    · exact hlive

end Stop

end HeadlessAndroid.BinderNodes
