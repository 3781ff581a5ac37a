import HeadlessAndroid.BinderBuffers

/-!
# HeadlessAndroid.BinderRelease — jobs that go on by themselves, and processes that go

The last temporary reference of a process is the end of it: by then nothing waits for its lock and no
buffer has a handle of it.
-/

namespace HeadlessAndroid.BinderNodes

open Lib Lib.SearchTree

variable {T T' : Multiset Token} {d d' : Driver} {i : Option ℕ} {k n p q : ℕ}
  {j j' : Job} {t : Txn} {h' : Held} {node : BinderNode} {P : BinderProc} {strong : Bool}

theorem Txn.handle_mem {desc : ℕ} (h : .handle p desc strong ∈ t.objectTokens) :
    t.toProc = p ∧ t.objects ≠ [] := by
  obtain ⟨o, ho, he⟩ := List.mem_map.mp (Multiset.mem_coe.mp h)
  refine ⟨?_, List.ne_nil_of_mem ho⟩
  cases o with
  | binder ptr s => cases he
  | handle desc' s =>
    cases he
    rfl

theorem Txn.handle_mem_send {desc : ℕ} (h : .handle p desc strong ∈ t.sendTokens q) :
    t.toProc = p := by
  have hm : .handle p desc strong ∈ t.objectTokens := by
    rcases ht : t.targetNode with _ | n <;>
      simpa [Txn.sendTokens, Txn.strongTokens, Txn.tmpTokens, ht] using h
  exact (Txn.handle_mem hm).1

theorem Txn.handle_mem_held {desc : ℕ} (h : .handle p desc strong ∈ t.heldTokens h') :
    t.toProc = p ∧ t.objects ≠ [] := by
  have hm : .handle p desc strong ∈ t.objectTokens := by
    obtain ⟨q, s, tmp, tmpProc⟩ := h'
    rcases ht : t.targetNode with _ | n <;> cases s <;> cases tmp <;> cases tmpProc <;>
      simpa [Txn.heldTokens, Txn.strongTokens, Txn.tmpTokens, ht] using h
  exact Txn.handle_mem hm

theorem Held.Backs.holds (h : h'.Backs t) (hp : t.toProc = p) (hne : t.objects ≠ []) :
    .proc p ∈ t.heldTokens h' ∨ .own p ∈ t.heldTokens h' := by
  rcases h.proc with ht | ht | hnil
  · exact Or.inl (by simp [Txn.heldTokens, ht, hp])
  · exact Or.inr (by simp [Txn.heldTokens, ht, hp])
  · exact absurd hnil hne

/-- A job that needs the process, or its lock, keeps it. -/
theorem Job.Fits.holds (h : j.Fits d k)
    (hp : j.awaits = some p ∨ ∃ desc s, .handle p desc s ∈ j.tokens) :
    .proc p ∈ j.tokens ∨ .own p ∈ j.tokens ∨ d.running p = true := by
  cases j with
  | putNode n => simp [Job.awaits, Job.tokens] at hp
  | putProc q => simp [Job.awaits, Job.tokens] at hp
  | done q n s => simp [Job.awaits, Job.tokens] at hp
  | send q t =>
    obtain hp | ⟨desc, s, hm⟩ := hp
    · cases hp
    · cases Txn.handle_mem_send hm
      exact Or.inl (by simp [Job.tokens, Txn.sendTokens])
  | translate q t n s b =>
    obtain hp | ⟨desc, s', hm⟩ := hp
    · cases hp
    · have hm' : .handle p desc s' ∈ t.sendTokens q := by
        cases b <;> simpa [Job.tokens] using hm
      cases Txn.handle_mem_send hm'
      exact Or.inl (by simp [Job.tokens, Txn.sendTokens])
  | await q t n s b =>
    have ht : t.toProc = p := by
      obtain hp | ⟨desc, s', hm⟩ := hp
      · exact Option.some.inj hp
      · have hm' : .handle p desc s' ∈ t.sendTokens q := by
          cases b <;> simpa [Job.tokens] using hm
        exact Txn.handle_mem_send hm'
    exact Or.inl (by simp [Job.tokens, Txn.sendTokens, ht])
  | buffer t =>
    obtain hp | ⟨desc, s, hm⟩ := hp
    · cases hp
    · have hm' : .handle p desc s ∈ t.objectTokens := by
        rcases ht : t.targetNode with _ | n <;>
          simpa [Job.tokens, Txn.strongTokens, ht] using hm
      cases (Txn.handle_mem hm').1
      exact Or.inr (Or.inr h.2)
  | release h' t =>
    obtain hp | ⟨desc, s, hm⟩ := hp
    · cases hp
    · obtain ⟨ht, hne⟩ := Txn.handle_mem_held hm
      exact (h.2.holds ht hne).elim Or.inl fun hown => Or.inr (Or.inl hown)
  | unbind h' t n =>
    obtain hp | ⟨desc, s, hm⟩ := hp
    · cases hp
    · have hm' : .handle p desc s ∈ t.heldTokens h' := by simpa [Job.tokens] using hm
      obtain ⟨ht, hne⟩ := Txn.handle_mem_held hm'
      have hmem : ∀ {x}, x ∈ t.heldTokens h' → x ∈ (Job.unbind h' t n).tokens := fun hx =>
        Multiset.mem_cons_of_mem (Multiset.mem_cons_of_mem hx)
      exact (h.2.1.holds ht hne).elim (fun hx => Or.inl (hmem hx)) fun hx =>
        Or.inr (Or.inl (hmem hx))
  | clean h' t =>
    have ht : t.toProc = p := by
      obtain hp | ⟨desc, s, hm⟩ := hp
      · exact Option.some.inj hp
      · exact (Txn.handle_mem_held hm).1
    rcases h.2.2.1 with htmp | hq
    · exact Or.inl (by simp [Job.tokens, Txn.heldTokens, htmp, ht])
    · exact Or.inr (Or.inl (by simp [Job.tokens, Txn.heldTokens, hq, ht]))

theorem Driver.mem_rest {x : Token} (hk : d.jobs.get k = some j) :
    x ∈ d.rest (some k) ↔ ∃ k' j', k' ≠ k ∧ d.jobs.get k' = some j' ∧ x ∈ j'.tokens := by
  have hget : ∀ k', (d.jobs.put k none).get k' = if k' = k then none else d.jobs.get k' :=
    fun k' => Slots.get_put hk _ k'
  change x ∈ Slots.total Job.tokens (d.jobs.put k none) ↔ _
  rw [Slots.mem_total]
  constructor
  · rintro ⟨k', j', hj', hx⟩
    rw [hget] at hj'
    split_ifs at hj' with hkk
    exact ⟨k', j', hkk, hj', hx⟩
  · rintro ⟨k', j', hkk, hj', hx⟩
    exact ⟨k', j', by rw [hget, if_neg hkk, hj'], hx⟩

theorem Sys.putProc (h : Sys d) (hk : d.jobs.get k = some (.putProc p)) :
    ∃ e, binderProcDecTmpref d p = some e ∧ Sys (e.endJob k) := by
  obtain ⟨hb, -, hun⟩ := h.take hk rfl
  have hinv := hb.inv
  change Inv none ({.proc p} + d.rest (some k)) d at hinv
  rw [Multiset.singleton_add] at hinv
  obtain ⟨e, he, hinv', hjobs, hrefs, hlen, hrun, hlock⟩ := hinv.putProc fun P hP hdone hcount => by
    -- whoever needs the process holds a temporary reference on it, or runs in it
    have hnone : ∀ k' j', d.jobs.get k' = some j' → k' ≠ k →
        ¬ (j'.awaits = some p ∨ ∃ desc s, .handle p desc s ∈ j'.tokens) := by
      intro k' j' hj' hkk hneed
      have hstop : d.running p = false := by
        by_contra hrun
        obtain ⟨Q, hQ, hr⟩ := Driver.running_iff.mp (by simpa using hrun)
        cases hP.symm.trans hQ
        rw [hdone] at hr
        cases hr
      rcases (h.fits k' j' (by simp) hj').holds hneed with hm | hm | hr
      · exact Multiset.count_eq_zero.mp hcount ((Driver.mem_rest hk).mpr ⟨k', j', hkk, hj', hm⟩)
      · have hr : d.running p = true :=
          hb.inv.token _ (Multiset.mem_add.mpr (Or.inr ((Driver.mem_rest hk).mpr
            ⟨k', j', hkk, hj', hm⟩)))
        rw [hstop] at hr
        cases hr
      · rw [hstop] at hr
        cases hr
    constructor
    · rcases hout : P.outerLock with _ | l
      · rfl
      · have hl : d.lockOf p = some l := by rw [Driver.lockOf, hP, Option.bind_some, hout]
        rcases hj : l.job with _ | k'
        · have hr := ((h.inv.proc p P hP).lock l hout).job hj
          rw [hdone] at hr
          cases hr
        · obtain ⟨j', hj', hq⟩ := h.lock p l k' hl hj (by simp)
          have hkk : k' ≠ k := fun hkk => hun p l hl (hkk ▸ hj)
          exact absurd (Or.inl hq) (hnone k' j' hj' hkk)
    · intro desc s hm
      obtain ⟨k', j', hkk, hj', hm'⟩ := (Driver.mem_rest hk).mp hm
      exact hnone k' j' hj' hkk (Or.inr ⟨desc, s, hm'⟩)
  refine ⟨e, he, ?_⟩
  have hd : Apart none d e := ⟨hjobs, hlen, hrun, fun q _ => hlock q, fun r y hy =>
    Or.inr ⟨y, hrefs ▸ hy, rfl, rfl⟩⟩
  have hb' : Busy (some k) 0 e := by
    refine hb.keep ?_ hd
    rw [zero_add]
    exact hinv'
  exact hb'.endJob (hjobs ▸ hk) (hun.apart hd)

theorem Sys.done (h : Sys d) (hk : d.jobs.get k = some (.done p n strong)) :
    Sys (finishDone d k n strong) := by
  obtain ⟨hb, -, hun⟩ := h.take hk rfl
  obtain ⟨node, hn⟩ := Option.isSome_iff_exists.mp (hb.valid (k := .tmp n) (by simp [Job.tokens]))
  have hp : node.proc = some p := hb.owner (by simp [Job.tokens]) (by simp [Job.tokens]) hn
  have hb' : Busy (some k) {.tmp n} d := by
    refine Busy.dropLoose (k := .bound n p none) (Busy.dropLoose (k := .own p) (hb.cast ?_) trivial)
      trivial
    simp only [Job.tokens, Multiset.insert_eq_cons, ← Multiset.singleton_add]
    abel
  simp only [finishDone, Driver.after, hn]
  rcases hb'.inv.done hn (Multiset.mem_add.mpr (Or.inl (Multiset.mem_singleton_self _))) hp strong
    with hd | ⟨node', hd, hinv⟩
  · simp only [hd]
    exact hb'.goOn (j := .putNode n) hk hun (add_zero _).symm trivial
  · simp only [hd]
    have hf := frame_setNode d n node'
    exact (hb'.keep hinv hf.apart).goOn (j := .putNode n) hk (hun.apart hf.apart) (add_zero _).symm
      trivial

theorem Sys.finish (h : Sys d) (hk : d.jobs.get k = some (.release h' t)) (hs : h'.strong = false)
    (hnil : t.objects = []) : Sys (putTargets (d.endJob k) t h'.tmp h'.tmpProc) := by
  obtain ⟨hb, -, hun⟩ := h.take hk rfl
  refine Busy.putTargets ((Busy.dropLoose (k := .own h'.proc) (hb.cast ?_) trivial).endJob hk hun)
  simp only [Job.tokens, Txn.heldTokens, Txn.objectTokens, hs, hnil, Bool.false_eq_true, reduceIte,
    List.map_nil, Multiset.coe_nil, add_zero, ← Multiset.singleton_add]
  abel

theorem Sys.proceed (rb : Rebalance ℕ) (h : Sys d) (hk : d.jobs.get k = some j)
    (hs : proceed rb d k j = some d') : Sys d' := by
  cases j with
  | putNode n =>
    obtain ⟨hb, -, hun⟩ := h.take hk rfl
    obtain ⟨e, he, hb', hf⟩ := Busy.putTmp rb (T := 0) hb
    simp only [BinderNodes.proceed, Driver.after, he, Option.some.injEq] at hs
    subst hs
    exact hb'.endJob (hf.jobs ▸ hk) (hun.apart hf.apart)
  | putProc p =>
    obtain ⟨e, he, hsys⟩ := h.putProc hk
    simp only [BinderNodes.proceed, Driver.after, he, Option.some.injEq] at hs
    exact hs ▸ hsys
  | done p n strong =>
    cases hs
    exact h.done hk
  | translate p t n strong fromHandle => exact h.translate rb hk hs
  | release h' t =>
    by_cases hst : h'.strong = true
    · simp only [BinderNodes.proceed, hst, reduceIte, Option.some.injEq] at hs
      exact hs ▸ h.dropTarget rb hk hst
    · have hst' : h'.strong = false := by simpa using hst
      by_cases hnil : t.objects = []
      · simp only [BinderNodes.proceed, hst', Bool.false_eq_true, hnil, reduceIte,
          Option.some.injEq] at hs
        exact hs ▸ h.finish hk hst' hnil
      · simp only [BinderNodes.proceed, hst', Bool.false_eq_true, hnil, reduceIte] at hs
        exact h.dropObject rb hk hs
  | unbind h' t n =>
    rcases ho : t.objects with _ | ⟨⟨ptr, s⟩ | ⟨desc, s⟩, rest⟩
    · simp [BinderNodes.proceed, ho] at hs
    · simp only [BinderNodes.proceed, ho, Option.some.injEq] at hs
      exact hs ▸ h.unbind rb hk ho
    · simp [BinderNodes.proceed, ho] at hs
  | _ => cases hs

/-! ### The release of a process -/

theorem abandon_get {s : Slots Job} : (abandon p s).get k = some j ↔
    s.get k = some j ∧ ∀ t, j = .buffer t → t.toProc ≠ p := by
  unfold abandon Slots.get
  rw [List.getElem?_map]
  rcases hs : s[k]? with _ | _ | j'
  · simp
  · simp
  · cases j' with
    | buffer t =>
      by_cases ht : t.toProc = p
      · simp only [Option.map_some, ht, reduceIte]
        constructor
        · intro h
          cases h
        · rintro ⟨h, hne⟩
          cases h
          exact absurd ht (hne t rfl)
      · simp only [Option.map_some, ht, reduceIte]
        constructor
        · intro h
          cases h
          exact ⟨rfl, fun t' he => by cases he; exact ht⟩
        · exact fun h => h.1
    | _ =>
      constructor
      · intro h
        cases h
        exact ⟨rfl, fun t' he => by cases he⟩
      · exact fun h => h.1

/-- Only what the buffers of the process hold is gone. -/
theorem count_abandon {x : Token} (htarget : ∀ n, x ≠ .target n p)
    (hobject : ∀ ptr s, x ≠ .object p ptr s) (hhandle : ∀ desc s, x ≠ .handle p desc s)
    (s : Slots Job) :
    (Slots.total Job.tokens (abandon p s)).count x = (Slots.total Job.tokens s).count x := by
  have hbuffer : ∀ t : Txn, t.toProc = p → (Job.buffer t).tokens.count x = 0 := by
    rintro ⟨q, target, os⟩ rfl
    refine Multiset.count_eq_zero.mpr fun hx => ?_
    rcases Multiset.mem_add.mp hx with hx | hx
    · rcases target with _ | n
      · cases hx
      · exact htarget n (Multiset.mem_singleton.mp hx)
    · obtain ⟨o, -, he⟩ := List.mem_map.mp (Multiset.mem_coe.mp hx)
      cases o with
      | binder ptr s => exact hobject ptr s he.symm
      | handle desc s => exact hhandle desc s he.symm
  induction s with
  | nil => rfl
  | cons o s ih =>
    change (Slots.total Job.tokens (_ :: abandon p s)).count x = _
    rw [Slots.total_cons, Slots.total_cons, Multiset.count_add, Multiset.count_add, ih]
    rcases o with _ | j
    · rfl
    · cases j with
      | buffer t =>
        by_cases ht : t.toProc = p
        · simp only [ht, reduceIte]
          change 0 + _ = (Job.buffer t).tokens.count x + _
          rw [hbuffer t ht]
        · simp only [ht, reduceIte]
      | _ => rfl

theorem Txn.own_not_object : .own p ∉ t.objectTokens := by
  intro h
  obtain ⟨o, -, he⟩ := List.mem_map.mp (Multiset.mem_coe.mp h)
  cases o <;> cases he

theorem Txn.own_mem_send (h : .own p ∈ t.sendTokens q) : q = p := by
  rcases ht : t.targetNode with _ | n <;>
    simpa [Txn.sendTokens, Txn.strongTokens, Txn.tmpTokens, ht, Txn.own_not_object, eq_comm] using h

theorem Txn.own_mem_held (h : .own p ∈ t.heldTokens h') : h'.proc = p := by
  obtain ⟨q, s, tmp, tmpProc⟩ := h'
  rcases ht : t.targetNode with _ | n <;> cases s <;> cases tmp <;> cases tmpProc <;>
    simpa [Txn.heldTokens, Txn.strongTokens, Txn.tmpTokens, ht, Txn.own_not_object, eq_comm] using h

/-- A thread that is in the driver is in it for a job. -/
theorem Job.owner_of_own (h : .own p ∈ j.tokens) : j.owner = some p := by
  cases j with
  | putNode n => simp [Job.tokens] at h
  | putProc q => simp [Job.tokens] at h
  | done q n s => simpa [Job.tokens, Job.owner, eq_comm] using h
  | send q t => exact congrArg some (Txn.own_mem_send h)
  | translate q t n s b =>
    refine congrArg some (Txn.own_mem_send (t := t) ?_)
    cases b <;> simpa [Job.tokens] using h
  | await q t n s b =>
    refine congrArg some (Txn.own_mem_send (t := t) ?_)
    cases b <;> simpa [Job.tokens] using h
  | buffer t =>
    rcases ht : t.targetNode with _ | n <;>
      simp [Job.tokens, Txn.strongTokens, ht, Txn.own_not_object] at h
  | release h' t => exact congrArg some (Txn.own_mem_held h)
  | unbind h' t n => exact congrArg some (Txn.own_mem_held (t := t) (by simpa [Job.tokens] using h))
  | clean h' t => exact congrArg some (Txn.own_mem_held h)

theorem Sys.releaseProc (h : Sys d) (hs : binderDeferredRelease d p = some d') : Sys d' := by
  unfold binderDeferredRelease at hs
  rcases hP : d.procs.get p with _ | P
  · simp [hP] at hs
  simp only [hP] at hs
  obtain ⟨hok, hs⟩ := Option.ite_none_left_eq_some.mp hs
  simp only [Bool.or_eq_true, not_or, Bool.not_eq_true] at hok
  obtain ⟨⟨hdead, hjobs⟩, hlock⟩ := hok
  have hphase : P.phase = .running := by simpa [BinderProc.isDead] using hdead
  have hget : ∀ {k j}, (abandon p d.jobs).get k = some j → d.jobs.get k = some j := fun hj =>
    (abandon_get.mp hj).1
  have howner : ∀ k j, d.jobs.get k = some j → j.owner ≠ some p := by
    intro k j hj ho
    have hmem : some j ∈ d.jobs := List.mem_of_getElem? (Option.join_eq_some_iff.mp hj)
    have hno := List.any_eq_false.mp hjobs (some j) hmem
    simp [ho] at hno
  have hwait : ∀ l, P.outerLock = some l → l.job ≠ none := by
    intro l hl hj
    rw [hl, Option.any_some, hj] at hlock
    cases hlock
  have hinv := h.inv
  rw [zero_add] at hinv
  have hown : .own p ∉ Slots.total Job.tokens (abandon p d.jobs) := by
    intro hx
    obtain ⟨k, j, hj, hm⟩ := Slots.mem_total.mp hx
    exact howner k j (hget hj) (Job.owner_of_own hm)
  have hsub : ∀ x ∈ Slots.total Job.tokens (abandon p d.jobs), x ∈ d.rest none := by
    intro x hx
    obtain ⟨k, j, hj, hm⟩ := Slots.mem_total.mp hx
    exact Slots.mem_total.mpr ⟨k, j, hget hj, hm⟩
  have hinv' : Inv none _ (d.stop p P _ (abandon p d.jobs)) := hinv.stop hP hphase
    ⟨hown, hsub, fun x ht ho hh => count_abandon ht ho hh d.jobs⟩ hwait rfl
  cases hs
  have hd : ∀ q, q ≠ p → (d.setProc p { P with phase := .threads, tmpRef := P.tmpRef + 1 }).running q
      = d.running q := by
    intro q hq
    rw [Driver.running, Driver.running, setProc_get hP, if_neg hq]
  have hlocks : ∀ q, (d.setProc p { P with
      phase := .threads, tmpRef := P.tmpRef + 1 }).lockOf q = d.lockOf q := by
    intro q
    rw [Driver.lockOf, Driver.lockOf, setProc_get hP]
    split_ifs with hq
    · rw [hq, hP]
      rfl
    · rfl
  have hlen : (d.setProc p { P with
      phase := .threads, tmpRef := P.tmpRef + 1 }).procs.length = d.procs.length :=
    List.length_set
  refine ⟨?_, fun k j _ hj => ?_, fun q l k hl hj _ => ?_, fun q l hl hj => ?_, fun r ref hr => ?_⟩
  · rw [zero_add]
    exact hinv'
  · obtain ⟨hj', hbuffer⟩ := abandon_get.mp hj
    exact (h.fits k j (by simp) hj').mono hlen.ge (fun t ht => hd _ (hbuffer t ht))
      fun q l _ hl _ => ⟨(hlocks q).trans hl, rfl⟩
  · obtain ⟨j, hj', hq⟩ := h.lock q l k ((hlocks q).symm.trans hl) hj (by simp)
    refine ⟨j, abandon_get.mpr ⟨hj', fun t ht => ?_⟩, hq⟩
    rw [ht] at hq
    cases hq
  · exact h.list q l ((hlocks q).symm.trans hl) hj
  · exact lt_of_lt_of_eq (h.refs r ref hr) hlen.symm

theorem Sys.releaseStep (rb : Rebalance ℕ) (h : Sys d) (hs : binderDeferredStep rb d p = some d') :
    Sys d' := by
  have hs' := hs
  unfold binderDeferredStep at hs'
  rcases hP : d.procs.get p with _ | P
  · simp [hP] at hs'
  have hok := h.inv.proc p P hP
  simp only [hP] at hs'
  rcases hph : P.phase with _ | _ | _ | n | _ | _
  · simp [hph] at hs'
  · -- the threads are gone
    simp only [hph, Option.some.injEq] at hs'
    subst hs'
    have hinv := h.inv.nextPhase hP (by simp [hph])
      (by simp : Phase.nodes ≠ .running ∧ Phase.nodes ≠ .done) (by simp [hph, Phase.holds])
      (by simp [hph]) (by simp) (by simp)
    exact Busy.keep h hinv (apart_keep hP (by simp [hph]) rfl)
  · simp only [hph] at hs'
    rcases hfirst : first P.nodes with _ | n
    · simp only [hfirst, Option.some.injEq] at hs'
      subst hs'
      rw [first_eq, List.head?_eq_none_iff] at hfirst
      have hinv := h.inv.nextPhase hP (by simp [hph])
        (by simp : Phase.refs ≠ .running ∧ Phase.refs ≠ .done) (by simp [hph, Phase.holds])
        (by simp [hph]) (by simp) (fun _ => hfirst)
      exact Busy.keep h hinv (apart_keep hP (by simp [hph]) rfl)
    · have hin : n ∈ inorder P.nodes := List.mem_of_mem_head? (first_eq P.nodes ▸ hfirst)
      obtain ⟨node, hn, hp⟩ := hok.mem_nodes n hin
      simp only [hfirst, Driver.after, incNodeTmpref_eq hn, Option.some.injEq] at hs'
      subst hs'
      have hf := frame_setNode d n { node with tmpRefs := node.tmpRefs + 1 }
      exact Busy.keep h (h.inv.takeNode rb hP hph hin hn hp)
        (hf.apart.trans (apart_keep (p := p) (P := P) hP (by simp [hph]) rfl))
  · simp only [hph, Option.some.injEq] at hs'
    subst hs'
    rcases h.inv.finishNode hP hph with ⟨hinv, hd⟩ | ⟨e, he, hinv, hd⟩
    · exact Busy.keep h hinv hd
    · rw [he]
      refine Busy.spawnPut (Busy.keep h ?_ hd)
      rw [Multiset.cons_add]
      exact hinv
  · simp only [hph] at hs'
    obtain ⟨hun, hs'⟩ := Option.ite_none_left_eq_some.mp hs'
    have hout : P.outerLock = none := by simpa using hun
    rcases hfirst : first P.refsByDesc with _ | r
    · simp only [hfirst, Option.some.injEq] at hs'
      subst hs'
      rw [first_eq, List.head?_eq_none_iff] at hfirst
      have hinv := h.inv.lastPhase hP hph hout hfirst
      refine Busy.spawnPutProc (Busy.keep h ?_ (apart_keep hP (by simp [hph]) rfl))
      rw [Multiset.cons_add]
      exact hinv
    · have hin : r ∈ inorder P.refsByDesc := List.mem_of_mem_head? (first_eq P.refsByDesc ▸ hfirst)
      obtain ⟨ref, hr, rfl⟩ := (hok.mem_desc r).mp hin
      obtain ⟨e, he, hinv, hd, hnone⟩ := h.inv.cleanupRef rb hr hP (by simp [hout])
      have hself : d.setProc ref.proc { P with outerLock := none } = d := by
        rw [← hout]
        exact Driver.setProc_self hP
      rw [hself] at he
      simp only [hfirst, Driver.after, he, Option.some.injEq] at hs'
      subst hs'
      have hold : d.lockOf ref.proc = none := by rw [Driver.lockOf, hP, Option.bind_some, hout]
      exact Busy.under h hinv hd (Slots.lt_length_of_get hP) (by simp [hold]) (by simp [hnone])
  · simp [hph] at hs'

end HeadlessAndroid.BinderNodes
