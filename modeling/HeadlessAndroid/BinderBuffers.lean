import HeadlessAndroid.BinderTxns

/-!
# HeadlessAndroid.BinderBuffers — buffers given to a process and taken apart

`binder_transaction_buffer_release` gives each object's count back to the node or the handle that it
was taken from, whoever runs it and whether the process still runs or not.
-/

namespace HeadlessAndroid.BinderNodes

open Lib Lib.SearchTree

variable {x : Option ℕ} {T T' : Multiset Token} {d d' : Driver} {i : Option ℕ} {k n p q : ℕ}
  {j j' : Job} {t : Txn} {h' : Held} {node : BinderNode} {P : BinderProc} {strong : Bool}

/-- The objects of a process that runs no more count nowhere. -/
theorem Inv.dropObject {ptr : ℕ} (h : Inv x (.object p ptr strong ::ₘ T) d)
    (hrun : d.running p = false) : Inv x T d where
  node n node hn := by
    refine (h.node n node hn).congr (.of_nodes rfl rfl rfl id id) (by simp) fun q _ hq => ?_
    have hne : q ≠ p := fun he => by
      rw [he, hrun] at hq
      cases hq
    exact ⟨by simp, fun s => by simp [hne]⟩
  kept := h.kept
  ref := h.ref
  proc q Q hQ := by
    have hok := h.proc q Q hQ
    refine hok.congr ⟨fun n node hn hp => ⟨node, hn, hp, rfl⟩, fun _ _ => Iff.rfl, id⟩ ?_
      (fun _ _ => by simp) rfl rfl rfl rfl rfl (.inl rfl)
    simpa using hok.tmpRef
  token k hk := h.token k (Multiset.mem_cons_of_mem hk)
  mgr := h.mgr
  live := h.live
  crashed := h.crashed

theorem Busy.dropObject {ptr : ℕ} (h : Busy i (.object p ptr strong ::ₘ T) d)
    (hrun : d.running p = false) : Busy i T d := by
  have hinv := h.inv
  rw [Multiset.cons_add] at hinv
  exact h.keep (hinv.dropObject hrun) (Frame.refl d).apart

/-- A process that is being released has its buffers freed with their objects in them. -/
theorem Busy.dropObjects {l : List Object}
    (h : Busy i ((l.map t.objectToken : List Token) + T) d) (hrun : d.running t.toProc = false)
    (hdone : ∀ P, d.procs.get t.toProc = some P → P.phase ≠ .done) : Busy i T d := by
  induction l with
  | nil => exact h.cast (zero_add T)
  | cons o l ih =>
    rw [List.map_cons, ← Multiset.cons_coe, Multiset.cons_add] at h
    cases o with
    | binder ptr s => exact ih (h.dropObject hrun)
    | handle desc s => exact ih (h.dropHandle fun P r ref hP hd => absurd hd (hdone P hP))

theorem Busy.putTargets {b c : Bool} (h : Busy none ((if b then t.tmpTokens else 0) +
    (if c then {.proc t.toProc} else 0) + T) d) : Busy none T (putTargets d t b c) := by
  have hproc : ∀ {e}, Busy none ((if c then {.proc t.toProc} else 0) + T) e →
      Busy none T (if c then e.spawn (.putProc t.toProc) else e) := by
    intro e he
    cases c
    · exact he.cast (zero_add T)
    · exact Busy.spawnPutProc he
  rcases ht : t.targetNode with _ | n
  · simp only [BinderNodes.putTargets, ht]
    refine hproc (h.cast ?_)
    cases b <;> simp [Txn.tmpTokens, ht]
  · simp only [BinderNodes.putTargets, ht]
    cases b
    · refine hproc (h.cast ?_)
      simp
    · refine hproc (Busy.spawnPut (h.cast ?_))
      simp only [Txn.tmpTokens, ht, reduceIte, ← Multiset.singleton_add, add_assoc]

theorem Sys.deliver (h : Sys d) (hk : d.jobs.get k = some (.send p t)) :
    Sys (deliver d k p t) := by
  obtain ⟨hb, ⟨hlt, -⟩, hun⟩ := h.take hk rfl
  obtain ⟨Q, hQ⟩ := Option.isSome_iff_exists.mp
    (hb.valid (k := .proc t.toProc) (by simp [Job.tokens, Txn.sendTokens]))
  have hown := Busy.dropLoose (k := .own p) hb trivial
  simp only [BinderNodes.deliver, Driver.after, hQ]
  by_cases hdead : (if t.targetNode.isSome then Q.isDead else !Q.hasThreads) = true
  · rw [if_pos hdead]
    exact (hb.cast (add_zero _).symm).giveUp hk hun hlt
  rw [if_neg hdead]
  refine Busy.putTargets ?_
  simp only [reduceIte, add_zero]
  by_cases hQd : Q.isDead = true
  · -- a reply to a process that is released already, but still has the thread
    rw [if_pos hQd]
    have hphase : Q.phase = .threads := by
      rcases ht : t.targetNode with _ | n
      · simp [ht, BinderProc.hasThreads, BinderProc.isDead] at hdead hQd
        exact hdead hQd
      · simp [ht, hQd] at hdead
    have hnone : t.targetNode = none := by
      rcases ht : t.targetNode with _ | n
      · rfl
      · simp [ht, hQd] at hdead
    have hrun : d.running t.toProc = false := by
      simp [Driver.running, hQ, hQd]
    have hdrop : Busy (some k) (t.tmpTokens + {.proc t.toProc}) d := by
      refine Busy.dropObjects (t := t) (l := t.objects) (hown.cast ?_) hrun fun P hP hdone => ?_
      · simp only [Txn.strongTokens, Txn.tmpTokens, Txn.objectTokens, hnone,
          ← Multiset.singleton_add]
        abel
      · cases hQ.symm.trans hP
        rw [hphase] at hdone
        cases hdone
    exact hdrop.endJob hk hun
  · rw [if_neg hQd]
    have hrun : d.running t.toProc = true := by simp [Driver.running, hQ, hQd]
    refine (hown.goOn (j := .buffer t) hk hun ?_ ⟨hlt, hrun⟩)
    simp only [Job.tokens, ← Multiset.singleton_add]
    abel

theorem Sys.freeBuffer (h : Sys d) (hk : d.jobs.get k = some (.buffer t))
    (hrun : d.running t.toProc = true) :
    Sys (d.setJob k (.release ⟨t.toProc, true, false, false⟩ t)) := by
  obtain ⟨hb, hfits, hun⟩ := h.take hk rfl
  refine (hb.addLoose (k := .own t.toProc) trivial hrun).goOn hk hun ?_
    ⟨hfits.1, ⟨Or.inr rfl, Or.inr (Or.inl rfl)⟩⟩
  simp only [Job.tokens, Txn.heldTokens, reduceIte, Bool.false_eq_true, ← Multiset.singleton_add]
  abel

theorem Sys.failTxn {early : Bool} (h : Sys d) (hk : d.jobs.get k = some j)
    (hs : failTxn d k early j = some d') : Sys d' := by
  cases j with
  | send p t =>
    obtain ⟨hb, ⟨hlt, -⟩, hun⟩ := h.take hk rfl
    cases early
    · cases hs
      exact (hb.cast (add_zero _).symm).giveUp hk hun hlt
    · obtain ⟨hnil, hs⟩ := Option.ite_none_right_eq_some.mp hs
      cases hs
      refine Busy.spawnPutProc (hb.goOn (j := .release ⟨p, true, true, false⟩ t) hk hun ?_
        ⟨hlt, ⟨Or.inl rfl, Or.inr (Or.inr hnil)⟩⟩)
      simp only [Job.tokens, Txn.heldTokens, Txn.sendTokens, reduceIte, Bool.false_eq_true,
        ← Multiset.singleton_add]
      abel
  | translate p t n strong fromHandle =>
    obtain ⟨hb, ⟨hlt, -⟩, hun⟩ := h.take hk rfl
    cases early
    · cases hs
      have hb' := Busy.dropBound hb
      exact Busy.spawnPut ((hb'.cast (by rw [Multiset.add_cons, add_zero])).giveUp hk hun hlt)
    · cases hs
  | _ => cases hs

/-! ### Taking apart -/

theorem Txn.heldTokens_strong (ht : h'.strong = true) :
    t.heldTokens h' = t.strongTokens + t.heldTokens { h' with strong := false } := by
  simp only [Txn.heldTokens, ht, reduceIte, Bool.false_eq_true, ← Multiset.singleton_add]
  abel

theorem Txn.heldTokens_cons {o : Object} {rest : List Object} (ht : t.objects = o :: rest) :
    t.heldTokens h' = t.objectToken o ::ₘ Txn.heldTokens { t with objects := rest } h' := by
  have ho : t.objectTokens = t.objectToken o ::ₘ Txn.objectTokens { t with objects := rest } := by
    rw [Txn.objectTokens, ht, List.map_cons, ← Multiset.cons_coe]
    rfl
  simp only [Txn.heldTokens, Txn.strongTokens, Txn.tmpTokens, ho, ← Multiset.singleton_add]
  abel

theorem Busy.own (h : Busy i (t.heldTokens h') d) : d.running h'.proc = true :=
  h.valid (k := .own h'.proc) (by simp [Txn.heldTokens])

theorem Busy.backs_proc (h : Busy i (t.heldTokens h') d) (hback : h'.Backs t)
    (hne : t.objects ≠ []) : ∃ P, d.procs.get t.toProc = some P := by
  rcases hback.proc with ht | hp | hnil
  · exact Option.isSome_iff_exists.mp
      (h.valid (k := .proc t.toProc) (by simp [Txn.heldTokens, ht]))
  · obtain ⟨P, hP, -⟩ := Driver.running_iff.mp h.own
    exact ⟨P, hp ▸ hP⟩
  · exact absurd hnil hne

theorem Busy.backs_node (h : Busy i (t.heldTokens h') d) (hback : h'.Backs t)
    (hs : h'.strong = true) (ht : t.targetNode = some n) :
    ∃ node, d.nodes.get n = some node ∧ d.Belongs node t.toProc := by
  obtain ⟨-, hrun, hbel⟩ :=
    h.valid (k := .target n t.toProc) (by simp [Txn.heldTokens, hs, Txn.strongTokens, ht])
  have hsome : (d.nodes.get n).isSome := by
    rcases hback.node with htmp | hp
    · exact h.valid (k := .tmp n) (by simp [Txn.heldTokens, htmp, Txn.tmpTokens, ht])
    · exact hrun (hp ▸ h.own)
  obtain ⟨node, hn⟩ := Option.isSome_iff_exists.mp hsome
  exact ⟨node, hn, hbel node hn⟩

theorem Sys.dropTarget (rb : Rebalance ℕ) (h : Sys d) (hk : d.jobs.get k = some (.release h' t))
    (hs : h'.strong = true) : Sys (dropTarget rb d k h' t) := by
  obtain ⟨hb, ⟨hlt, hback⟩, hun⟩ := h.take hk rfl
  have hback' : Held.Backs { h' with strong := false } t := ⟨hback.node, hback.proc⟩
  rcases ht : t.targetNode with _ | n
  · simp only [BinderNodes.dropTarget, ht]
    refine hb.goOn (j := .release { h' with strong := false } t) hk hun ?_ ⟨hlt, hback'⟩
    rw [Job.tokens, Job.tokens, Txn.heldTokens_strong hs, Txn.strongTokens, ht, zero_add, add_zero]
  · obtain ⟨node, hn, hbel⟩ := Busy.backs_node hb hback hs ht
    have hb' : Busy (some k) (.target n t.toProc ::ₘ t.heldTokens { h' with strong := false }) d := by
      refine hb.cast ?_
      rw [Job.tokens, Txn.heldTokens_strong hs, Txn.strongTokens, ht, Multiset.singleton_add]
    obtain ⟨e, he, hb'', hf⟩ := hb'.dropLocal rb hn LocalToken.target hbel
    simp only [BinderNodes.dropTarget, ht, Driver.after, he]
    exact hb''.goOn (j := .release { h' with strong := false } t) (hf.jobs ▸ hk)
      (hun.apart hf.apart) (add_zero _).symm ⟨hf.length ▸ hlt, hback'⟩

theorem Held.Backs.rest {l : List Object} (h : h'.Backs t) (hne : t.objects ≠ []) :
    h'.Backs { t with objects := l } ∧ (h'.tmpProc = true ∨ h'.proc = t.toProc) := by
  have hp : h'.tmpProc = true ∨ h'.proc = t.toProc := by
    rcases h.proc with ht | hp | hnil
    · exact Or.inl ht
    · exact Or.inr hp
    · exact absurd hnil hne
  exact ⟨⟨h.node, hp.elim Or.inl fun hp => Or.inr (Or.inl hp)⟩, hp⟩

theorem Sys.dropObject (rb : Rebalance ℕ) (h : Sys d) (hk : d.jobs.get k = some (.release h' t))
    (hs : dropObject rb d k h' t = some d') : Sys d' := by
  obtain ⟨hb, ⟨hlt, hback⟩, hun⟩ := h.take hk rfl
  rcases ho : t.objects with _ | ⟨o, rest⟩
  · simp [BinderNodes.dropObject, ho] at hs
  have hne : t.objects ≠ [] := by simp [ho]
  obtain ⟨P, hP⟩ := Busy.backs_proc hb hback hne
  obtain ⟨hback', hp'⟩ := hback.rest (l := rest) hne
  have hcons : Busy (some k) (t.objectToken o ::ₘ Txn.heldTokens { t with objects := rest } h') d :=
    hb.cast (Txn.heldTokens_cons ho)
  cases o with
  | binder ptr s =>
    simp only [BinderNodes.dropObject, ho, Option.some.injEq] at hs
    subst hs
    rcases h.inv.getNode hP ptr with ⟨n, node, hn, hp, hptr, hget⟩ | ⟨hno, hget⟩
    · have hn' := setNode_get_self hn { node with tmpRefs := node.tmpRefs + 1 }
      have hnext : ∀ y ∈ t.nextPtr, node.ptr = y := fun y hy => by
        simpa [Txn.nextPtr, ho, hptr] using hy
      have hb' := (hb.takeTmp hn).addLoose (k := .bound n t.toProc t.nextPtr) trivial
        (bound_valid hn' hp hnext)
      simp only [Driver.after, hget]
      refine hb'.goOn (j := .unbind h' t n) hk (hun.apart (frame_setNode d _ _).apart) ?_
        ⟨hlt, hback, by simp [Txn.nextPtr, ho]⟩
      rw [Job.tokens, Job.tokens, add_zero, Multiset.cons_swap]
    · -- only a process that is gone can have lost the node
      have hrun : d.running t.toProc = false := by
        by_contra hrun
        obtain ⟨n, node, hn, hp, hptr⟩ := hb.valid (k := .object t.toProc ptr s)
          (by simp [Job.tokens, Txn.heldTokens_cons ho, Txn.objectToken]) (by simpa using hrun)
        obtain ⟨P', hP', hin⟩ := (h.inv.node n node hn).owner _ hp
        cases hP.symm.trans hP'
        obtain ⟨Q, hQ, hrunning⟩ := Driver.running_iff.mp (by simpa using hrun)
        cases hP.symm.trans hQ
        rcases hin with hin | hph
        · exact hno n hin (by simp [Driver.ptrOf, hn, hptr])
        · rw [hrunning] at hph
          cases hph
      simp only [Driver.after, hget]
      exact (Busy.dropObject hcons hrun).goOn (j := .release h' { t with objects := rest }) hk hun
        (add_zero _).symm ⟨hlt, hback'⟩
  | handle desc s =>
    simp only [BinderNodes.dropObject, ho] at hs
    obtain ⟨hlock, hs⟩ := Option.ite_none_left_eq_some.mp hs
    have hunl : d.unlocked t.toProc = true := by simpa using hlock
    obtain ⟨hout, -⟩ := lockOf_none hP hunl
    cases hs
    rcases hb.getRef hP desc s with ⟨r, ref, node, hr, hn, -, hrp, hrd, hget⟩ | ⟨hget, hno⟩
    · have hT : t.objectToken (.handle desc s) ::ₘ Txn.heldTokens { t with objects := rest } h' =
          .handle ref.proc ref.desc s ::ₘ Txn.heldTokens { t with objects := rest } h' := by
        rw [hrp, hrd]
        rfl
      obtain ⟨clean, e, hdec, hb', hd, hl⟩ :=
        hcons.decRef rb hr hn (hrp ▸ hP) hout s (by simp) (Or.inr hT)
      rw [hrp] at hdec hd hl
      simp only [Driver.after, hP, hget, hdec]
      have hlt' : t.toProc < e.procs.length := hd.length ▸ hlt
      have hk' : e.jobs.get k = some (.release h' t) := hd.jobs ▸ hk
      cases clean
      · refine hb'.goOn (j := .release h' { t with objects := rest }) hk' (fun q l hl' => ?_)
          (add_zero _).symm ⟨hlt', hback'⟩
        by_cases hq : q = t.toProc
        · rw [hq, hl] at hl'
          cases hl'
        · exact hun.elsewhere hd hq hl'
      · refine (hb'.cast (add_zero _).symm).finish (j := .clean h' { t with objects := rest }) hk'
          ⟨hlt', hback', hp', r, hl⟩ fun q l hl' hj => ?_
        by_cases hq : q = t.toProc
        · exact congrArg some hq.symm
        · exact absurd hj (hun.elsewhere hd hq hl')
    · simp only [Driver.after, hP, hget]
      refine (hcons.dropHandle fun Q r ref hQ _ hr hrp hrd => ?_).goOn
        (j := .release h' { t with objects := rest }) hk hun (add_zero _).symm ⟨hlt, hback'⟩
      obtain ⟨rfl, hzero⟩ := hno r ref hr hrp hrd
      exact hzero

theorem Sys.unbind (rb : Rebalance ℕ) (h : Sys d) {rest : List Object} {ptr : ℕ}
    (hk : d.jobs.get k = some (.unbind h' t n)) (ho : t.objects = .binder ptr strong :: rest) :
    Sys (d.after (dropLocal rb d n strong) fun d =>
      (d.setJob k (.release h' { t with objects := rest })).spawn (.putNode n)) := by
  obtain ⟨hb, ⟨hlt, hback, -⟩, hun⟩ := h.take hk rfl
  have hne : t.objects ≠ [] := by simp [ho]
  obtain ⟨node, hn⟩ := Option.isSome_iff_exists.mp
    (hb.valid (k := .tmp n) (by simp [Job.tokens]))
  obtain ⟨-, hbound⟩ := hb.valid (k := .bound n t.toProc t.nextPtr) (by simp [Job.tokens])
  obtain ⟨hbel, hptr⟩ := hbound node hn
  have hptr' : node.ptr = ptr := hptr ptr (by simp [Txn.nextPtr, ho])
  have hb' : Busy (some k) (.object t.toProc node.ptr strong ::ₘ .tmp n ::ₘ
      Txn.heldTokens { t with objects := rest } h') d := by
    refine Busy.dropLoose (k := .bound n t.toProc t.nextPtr) (hb.cast ?_) trivial
    rw [Job.tokens, Txn.heldTokens_cons ho, hptr', Txn.objectToken]
    simp only [← Multiset.singleton_add]
    abel
  obtain ⟨e, he, hb'', hf⟩ := hb'.dropLocal rb hn (LocalToken.object strong) hbel
  simp only [Driver.after, he]
  refine Busy.spawnPut (hb''.goOn (j := .release h' { t with objects := rest }) (hf.jobs ▸ hk)
    (hun.apart hf.apart) ?_ ⟨hf.length ▸ hlt, (hback.rest hne).1⟩)
  rw [Job.tokens, Multiset.add_cons, add_zero]

end HeadlessAndroid.BinderNodes
