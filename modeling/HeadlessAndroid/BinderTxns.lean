import HeadlessAndroid.BinderSteps

/-!
# HeadlessAndroid.BinderTxns — transactions from their target to the queue

Each step takes the tokens of one job in hand and leaves what the job goes on with.
-/

namespace HeadlessAndroid.BinderNodes

open Lib Lib.SearchTree

variable {T T' : Multiset Token} {d d' : Driver} {i : Option ℕ} {k n p q : ℕ} {j j' : Job} {t : Txn}
  {node : BinderNode} {P : BinderProc} {strong fromHandle b : Bool} {desc : ℕ}

/-- No lock is waiting for the job `k`. -/
def Driver.Unlocked (d : Driver) (k : ℕ) : Prop := ∀ q l, d.lockOf q = some l → l.job ≠ some k

theorem Driver.Unlocked.congr (h : d.Unlocked k) (hd : ∀ q, d'.lockOf q = d.lockOf q) :
    d'.Unlocked k := fun q l hl => h q l (hd q ▸ hl)

theorem Driver.Unlocked.apart (h : d.Unlocked k) (hd : Apart none d d') : d'.Unlocked k :=
  h.congr fun q => hd.lock q (by simp)

theorem Driver.Unlocked.elsewhere (h : d.Unlocked k) (hd : Apart (some p) d d') (hq : q ≠ p)
    {l : Locked} (hl : d'.lockOf q = some l) : l.job ≠ some k :=
  h q l (hd.lock q (fun he => hq (Option.some.inj he).symm) ▸ hl)

theorem Sys.take (h : Sys d) (hk : d.jobs.get k = some j) (hj : j.awaits = none) :
    Busy (some k) j.tokens d ∧ j.Fits d k ∧ d.Unlocked k :=
  ⟨(h.begin hk).1, (h.begin hk).2, fun _ _ => h.unlocked hk hj⟩

/-- The job in hand goes on as one that is under no lock. -/
theorem Busy.goOn (h : Busy (some k) T d) (hk : d.jobs.get k = some j') (hun : d.Unlocked k)
    (hT : T = j.tokens + T') (hfits : j.Fits (d.setJob k j) k) : Busy none T' (d.setJob k j) :=
  (h.cast hT).finish hk hfits fun q l hl hj => absurd hj (hun q l hl)

/-- What is taken apart before it is queued is all that was taken. -/
theorem Txn.heldTokens_send (t : Txn) (p : ℕ) : t.heldTokens ⟨p, true, true, true⟩ = t.sendTokens p := by
  simp only [Txn.heldTokens, Txn.sendTokens, reduceIte, ← Multiset.singleton_add]
  abel

theorem Txn.sendTokens_append (t : Txn) (p : ℕ) (o : Object) :
    Txn.sendTokens { t with objects := t.objects ++ [o] } p = t.objectToken o ::ₘ t.sendTokens p := by
  have ho : Txn.objectTokens { t with objects := t.objects ++ [o] } =
      t.objectTokens + {t.objectToken o} := by
    change ((List.map t.objectToken (t.objects ++ [o]) : List Token) : Multiset Token) = _
    rw [List.map_append, ← Multiset.coe_add]
    rfl
  simp only [Txn.sendTokens, Txn.strongTokens, Txn.tmpTokens, ho, ← Multiset.singleton_add]
  abel

/-- The transaction fails, and all of it is taken apart. -/
theorem Busy.giveUp (h : Busy (some k) (t.sendTokens p + T) d) (hk : d.jobs.get k = some j')
    (hun : d.Unlocked k) (hlt : t.toProc < d.procs.length) :
    Busy none T (d.setJob k (.release ⟨p, true, true, true⟩ t)) :=
  h.goOn hk hun (by rw [Job.tokens, t.heldTokens_send]) ⟨hlt, ⟨Or.inl rfl, Or.inl rfl⟩⟩

theorem Sys.sendBinder (rb : Rebalance ℕ) (h : Sys d) (hk : d.jobs.get k = some (.send p t))
    (ptr cookie : ℕ) (strong : Bool) : Sys (sendBinder rb d k p t ptr cookie strong) := by
  obtain ⟨hb, ⟨hlt, hne⟩, hun⟩ := h.take hk rfl
  obtain ⟨P, hP, hr⟩ := Driver.running_iff.mp (hb.valid (k := .own p) (by simp [Job.tokens, Txn.sendTokens]))
  obtain ⟨n, node, e, hnew, hn, hp, hb', hf, -⟩ := hb.newNode rb hP hr ptr cookie
  have hk' : e.jobs.get k = some (.send p t) := hf.jobs ▸ hk
  have hlt' : t.toProc < e.procs.length := hf.length ▸ hlt
  simp only [BinderNodes.sendBinder, Driver.after, hnew, hn]
  split_ifs with hc
  · refine (hb'.addLoose (k := .bound n p none) trivial (bound_valid hn hp (by simp))).goOn hk'
      (hun.apart hf.apart) ?_ ⟨hlt', hne⟩
    simp only [Job.tokens, Bool.false_eq_true, reduceIte, ← Multiset.singleton_add]
    abel
  · exact Busy.spawnPut ((hb'.cast (by rw [Multiset.add_cons, add_zero]; rfl)).giveUp hk'
      (hun.apart hf.apart) hlt')

theorem Sys.sendHandle (h : Sys d) (hk : d.jobs.get k = some (.send p t)) (handle : ℕ)
    (strong : Bool) : Sys (sendHandle d k p t handle strong) := by
  obtain ⟨hb, hlt, hun⟩ := h.take hk rfl
  obtain ⟨P, hP, -⟩ := Driver.running_iff.mp
    (hb.valid (k := .own p) (by simp [Job.tokens, Txn.sendTokens]))
  rcases hb.getRef hP handle strong with ⟨r, ref, node, hr, hn, -, -, hget⟩ | ⟨hget, -⟩
  · simp only [BinderNodes.sendHandle, Driver.after, hP, hget, hr, incNodeTmpref_eq hn]
    refine (hb.takeTmp hn).goOn hk (hun.apart (frame_setNode d _ _).apart) ?_ hlt
    simp only [Job.tokens, reduceIte, ← Multiset.singleton_add]
    abel
  · simp only [BinderNodes.sendHandle, Driver.after, hP, hget]
    exact (hb.cast (add_zero _).symm).giveUp hk hun hlt.1

theorem Sys.translate (rb : Rebalance ℕ) (h : Sys d)
    (hk : d.jobs.get k = some (.translate p t n strong fromHandle))
    (hs : translate rb d k p t n strong fromHandle = some d') : Sys d' := by
  obtain ⟨hb, hlt, hun⟩ := h.take hk rfl
  obtain ⟨node, hn⟩ := Option.isSome_iff_exists.mp
    (hb.valid (k := .tmp n) (by simp [Job.tokens]))
  obtain ⟨P, hP⟩ := Option.isSome_iff_exists.mp
    (hb.valid (k := .proc t.toProc) (by simp [Job.tokens, Txn.sendTokens]))
  simp only [BinderNodes.translate, hn] at hs
  by_cases hself : (fromHandle && node.proc == some t.toProc) = true
  · rw [if_pos hself] at hs
    cases hs
    obtain ⟨hfrom, hp⟩ : fromHandle = true ∧ node.proc = some t.toProc := by simpa using hself
    subst hfrom
    have hv : Token.Valid d (.object t.toProc node.ptr strong) :=
      fun _ => ⟨n, node, hn, hp, rfl⟩
    have hb' := hb.takeLocal hn (by simp [Job.tokens]) (LocalToken.object strong) hv hp
    rw [binderIncNodeNilocked_local]
    refine Busy.spawnPut (hb'.goOn hk (hun.apart (frame_setNode d _ _).apart) ?_ hlt)
    simp only [Job.tokens, Txn.sendTokens_append, Txn.objectToken, reduceIte,
      ← Multiset.singleton_add]
    abel
  · rw [if_neg hself] at hs
    obtain ⟨hlock, hs⟩ := Option.ite_none_left_eq_some.mp hs
    cases hs
    have hother : node.proc ≠ some t.toProc := by
      intro hp
      cases hf : fromHandle with
      | true => exact hself (by simp [hf, hp])
      | false =>
        -- the node is one of the sender
        subst hf
        have hpp := hb.owner (p := p) (by simp [Job.tokens, Txn.sendTokens]) (by simp [Job.tokens]) hn
        exact hlt.2 (Option.some.inj (hp.symm.trans hpp))
    obtain ⟨r, hb', hapart, hl, hnode⟩ := hb.lockRefForNode rb hn hother hP (by simpa using hlock)
      strong (if fromHandle then none else some ⟨p, true⟩) (by simp)
    refine (hb'.cast (add_zero _).symm).finish (j := .await p t n strong fromHandle)
      (hapart.jobs ▸ hk) ⟨hapart.length ▸ hlt.1, hlt.2, r, hl, hnode⟩ fun q l hl' hj => ?_
    by_cases hq : q = t.toProc
    · exact congrArg some hq.symm
    · exact absurd hj (hun.elsewhere hapart hq hl')

/-! ### Back from the lock -/

theorem Busy.dropHandle {desc : ℕ} (h : Busy i (.handle p desc strong ::ₘ T) d)
    (hle : ∀ P r ref, d.procs.get p = some P → P.phase = .done → d.refs.get r = some ref →
      ref.proc = p → ref.desc = desc → (if strong then ref.strong else ref.weak) = 0) :
    Busy i T d := by
  have hinv := h.inv
  rw [Multiset.cons_add] at hinv
  refine h.keep (hinv.dropHandle fun P r ref hP hdone hr hp hd => ?_) (Frame.refl d).apart
  rw [hle P r ref hP hdone hr hp hd]
  exact Nat.zero_le _

theorem Busy.dropHandle_running {desc : ℕ} (h : Busy i (.handle p desc strong ::ₘ T) d)
    (hrun : d.running p = true) : Busy i T d := by
  refine h.dropHandle fun Q r ref hQ hdone => ?_
  obtain ⟨P, hP, hr⟩ := Driver.running_iff.mp hrun
  cases hP.symm.trans hQ
  rw [hdone] at hr
  cases hr

theorem lock_atRef {ref : BinderRef} {r s w : ℕ} {node' : BinderNode}
    (hP : d.procs.get ref.proc = some P) :
    (d.atRef r { ref with strong := s, weak := w } node' P).lock ref.proc none =
      d.atRef r { ref with strong := s, weak := w } node' { P with outerLock := none } := by
  have hget : (d.atRef r { ref with strong := s, weak := w } node' P).procs.get ref.proc = some P :=
    (atRef_proc hP P.outerLock ref.proc).trans (if_pos rfl)
  simp only [Driver.lock, Driver.after, hget]
  simp [Driver.atRef, Driver.setProc, Slots.put]

theorem Busy.incRef {ref : BinderRef} {r : ℕ} {list : Option Todo} (h : Busy i T d)
    (hP : d.procs.get ref.proc = some P) (hout : P.outerLock = some (.inc r strong list i))
    (hr : d.refs.get r = some ref) (hn : d.nodes.get ref.node = some node)
    (htarget : ∀ todo, list = some todo → node.proc = some todo.proc) :
    ∃ ok e, binderIncRefOlocked d r strong list = some (ok, e) ∧
      Busy i (if ok then .handle ref.proc ref.desc strong ::ₘ T else T)
        ((e.lock ref.proc none).failed (e.leftIdle P r)) ∧
      Apart (some ref.proc) d ((e.lock ref.proc none).failed (e.leftIdle P r)) ∧
      ((e.lock ref.proc none).failed (e.leftIdle P r)).lockOf ref.proc = none := by
  obtain ⟨ok, s, w, x, z, y, hinc, hinv⟩ := h.inv.incRef hr hn hP
    (fun l hl => by
      cases hout.symm.trans hl
      rfl) strong htarget
  have hidle : (d.atRef r { ref with strong := s, weak := w } (node.recount x z y) P).leftIdle P r =
      (P.phase == .done && (s == 0 && w == 0)) := by
    rw [Driver.leftIdle, atRef_ref hr, if_pos rfl]
    rfl
  refine ⟨ok, _, hinc, ?_⟩
  rw [hidle, lock_atRef hP]
  have hapart : Apart (some ref.proc) d (d.atRef r { ref with strong := s, weak := w }
      (node.recount x z y) { P with outerLock := none }) :=
    apart_atRef hr hP none
  have hlock : ∀ b, ((d.atRef r { ref with strong := s, weak := w }
      (node.recount x z y) { P with outerLock := none }).failed b).lockOf
        ref.proc = none := by
    intro b
    change ((d.atRef r { ref with strong := s, weak := w }
      (node.recount x z y)
        { P with outerLock := none }).procs.get ref.proc).bind BinderProc.outerLock = none
    rw [atRef_proc hP, if_pos rfl]
    rfl
  have hapart' : Apart (some ref.proc) d ((d.atRef r { ref with strong := s, weak := w }
      (node.recount x z y)
        { P with outerLock := none }).failed (P.phase == .done && (s == 0 && w == 0))) :=
    ⟨hapart.jobs, hapart.length, hapart.running, hapart.lock, hapart.ref⟩
  refine ⟨h.under ?_ hapart' (Slots.lt_length_of_get hP) (fun l hl => ?_) (by simp [hlock]), hapart',
    hlock _⟩
  · cases ok
    · exact hinv
    · rw [if_pos rfl, Multiset.cons_add]
      exact hinv
  · simp only [Driver.lockOf, hP, Option.bind_some, hout] at hl
    cases hl
    rfl

/-- A lock waits for the job that says so. -/
theorem Sys.awaits (h : Sys d) (hk : d.jobs.get k = some j) {l : Locked} (hl : d.lockOf q = some l)
    (hj : l.job = some k) : j.awaits = some q := by
  obtain ⟨j', hj', hq⟩ := h.lock q l k hl hj (by simp)
  cases hk.symm.trans hj'
  exact hq

theorem Sys.unlocked_after (h : Sys d) (hk : d.jobs.get k = some j) (hj : j.awaits = some p)
    (hd : Apart (some p) d d') (hnone : d'.lockOf p = none) : d'.Unlocked k := by
  intro q l hl he
  by_cases hq : q = p
  · subst hq
    rw [hnone] at hl
    cases hl
  · rw [hd.lock q fun hqp => hq (Option.some.inj hqp).symm] at hl
    exact hq (Option.some.inj ((h.awaits hk hl he).symm.trans hj))

theorem Busy.dropBound {x : Token} {b : Bool}
    (h : Busy i (x ::ₘ ((if b then 0 else {.bound n p none}) + T)) d) : Busy i (x ::ₘ T) d := by
  cases b
  · refine Busy.dropLoose (k := .bound n p none) (h.cast ?_) trivial
    rw [if_neg (by simp), Multiset.singleton_add, Multiset.cons_swap]
  · refine h.cast ?_
    rw [if_pos rfl, zero_add]

theorem Busy.resume_await (h : Busy (some k) ((if b then .handle t.toProc desc strong ::ₘ
      (Job.await p t n strong fromHandle).tokens else (Job.await p t n strong fromHandle).tokens)) d)
    (hk : d.jobs.get k = some (.await p t n strong fromHandle)) (hun : d.Unlocked k)
    (hlt : t.toProc < d.procs.length ∧ t.toProc ≠ p) : Sys (resume d k b desc) := by
  simp only [resume, hk]
  cases b
  · have hb := Busy.dropBound h
    exact Busy.spawnPut ((hb.cast (by rw [Multiset.add_cons, add_zero])).giveUp hk hun hlt.1)
  · have hb : Busy (some k) (.tmp n ::ₘ (.handle t.toProc desc strong ::ₘ t.sendTokens p)) d := by
      refine Busy.dropBound (b := fromHandle) (n := n) (p := p) (h.cast ?_)
      rw [if_pos rfl, Multiset.add_cons]
      exact Multiset.cons_swap _ _ _
    refine Busy.spawnPut (hb.goOn hk hun ?_ hlt)
    simp only [Job.tokens, Txn.sendTokens_append, Txn.objectToken, reduceIte,
      ← Multiset.singleton_add]
    abel

theorem Sys.unlockInc (h : Sys d) (hP : d.procs.get p = some P) {r : ℕ} {list : Option Todo}
    {job : Option ℕ} (hout : P.outerLock = some (.inc r strong list job)) :
    ∃ ref ok e, d.refs.get r = some ref ∧ binderIncRefOlocked d r strong list = some (ok, e) ∧
      Sys (job.elim ((e.lock p none).failed (e.leftIdle P r)) fun i =>
        resume ((e.lock p none).failed (e.leftIdle P r)) i ok ref.desc) := by
  obtain ⟨hjob, ref, hr, rfl, -⟩ := (h.inv.proc p P hP).lock _ hout
  change d.refs.get r = some ref at hr
  obtain ⟨node, hn, -⟩ := h.inv.ref r ref hr
  have hl : d.lockOf ref.proc = some (.inc r strong list job) := by
    rw [Driver.lockOf, hP, Option.bind_some, hout]
  rcases job with _ | k
  · have hlist : list = none := h.list _ _ hl rfl
    obtain ⟨ok, e, hinc, hb, hd, -⟩ :=
      Busy.incRef h hP hout hr hn (fun todo ht => by rw [hlist] at ht; cases ht)
    refine ⟨ref, ok, e, hr, hinc, ?_⟩
    cases ok
    · exact hb
    · -- the context manager's handle is in the hands of the process
      have hrun : d.running ref.proc = true := Driver.running_iff.mpr ⟨P, hP, hjob rfl⟩
      exact Busy.dropHandle_running hb ((hd.running _).trans hrun)
  · obtain ⟨j, hk, hj⟩ := h.lock _ _ k hl rfl (by simp)
    obtain ⟨hb, hfits⟩ := h.begin hk
    cases j with
    | await q t n strong' fromHandle =>
      obtain ⟨hlt, hne, r', hl', hn'⟩ := hfits
      have hq : t.toProc = ref.proc := Option.some.inj hj
      rw [hq, hl] at hl'
      cases hl'
      have hnode : ref.node = n := by
        rw [Driver.nodeOf, hr] at hn'
        exact Option.some.inj hn'
      have htarget : ∀ todo, (if fromHandle then none else some ⟨q, true⟩ : Option Todo) = some todo →
          node.proc = some todo.proc := by
        intro todo ht
        cases fromHandle
        · cases ht
          -- the sender owns the node, and its thread is in the driver
          exact hb.owner (n := n) (by simp [Job.tokens, Txn.sendTokens]) (by simp [Job.tokens])
            (hnode ▸ hn)
        · cases ht
      obtain ⟨ok, e, hinc, hb', hd, hnone⟩ := hb.incRef hP hout hr hn htarget
      refine ⟨ref, ok, e, hr, hinc, ?_⟩
      have hk' : ((e.lock ref.proc none).failed (e.leftIdle P r)).jobs.get k =
          some (.await q t n strong fromHandle) := hd.jobs ▸ hk
      refine Busy.resume_await (hb'.cast ?_) hk' (h.unlocked_after hk hj hd hnone)
        ⟨hd.length ▸ hlt, hne⟩
      rw [hq]
    | clean h' t =>
      obtain ⟨-, -, -, r', hl'⟩ := hfits
      rw [Option.some.inj hj, hl] at hl'
      cases hl'
    | _ => cases hj

theorem Sys.unlockCleanup (rb : Rebalance ℕ) (h : Sys d) (hP : d.procs.get p = some P) {r : ℕ}
    {job : Option ℕ} (hout : P.outerLock = some (.cleanup r job)) :
    ∃ e, binderCleanupRefOlocked rb (d.lock p none) r = some e ∧
      Sys (job.elim e fun i => resume e i true 0) := by
  obtain ⟨hjob, ref, hr, rfl, -⟩ := (h.inv.proc p P hP).lock _ hout
  have hl : d.lockOf ref.proc = some (.cleanup r job) := by
    rw [Driver.lockOf, hP, Option.bind_some, hout]
  have hlock : d.lock ref.proc none = d.setProc ref.proc { P with outerLock := none } := by
    rw [Driver.lock, hP]
    rfl
  have hcut : ∀ {T}, Busy job T d → ∃ e,
      binderCleanupRefOlocked rb (d.lock ref.proc none) r = some e ∧ Busy job T e ∧
        Apart (some ref.proc) d e ∧ e.lockOf ref.proc = none := by
    intro T hb
    obtain ⟨e, he, hinv, hd, hnone⟩ := hb.inv.cleanupRef rb hr hP fun l hl' => by
      cases hout.symm.trans hl'
      rfl
    refine ⟨e, hlock ▸ he, hb.under hinv hd (Slots.lt_length_of_get hP) (fun l hl' => ?_)
      (by simp [hnone]), hd, hnone⟩
    cases hl.symm.trans hl'
    rfl
  rcases job with _ | k
  · obtain ⟨e, he, hb, -⟩ := hcut h
    exact ⟨e, he, hb⟩
  · obtain ⟨j, hk, hj⟩ := h.lock _ _ k hl rfl (by simp)
    obtain ⟨hb, hfits⟩ := h.begin hk
    obtain ⟨e, he, hb', hd, hnone⟩ := hcut hb
    refine ⟨e, he, ?_⟩
    have hk' : e.jobs.get k = some j := hd.jobs ▸ hk
    have hun := h.unlocked_after hk hj hd hnone
    cases j with
    | await q t n strong' fromHandle =>
      obtain ⟨-, -, r', hl', -⟩ := hfits
      rw [Option.some.inj hj, hl] at hl'
      cases hl'
    | clean h' t =>
      obtain ⟨hlt, hback, -⟩ := hfits
      change Sys (resume e k true 0)
      simp only [resume, hk']
      exact hb'.goOn (j := .release h' t) hk' hun (add_zero _).symm ⟨hd.length ▸ hlt, hback⟩
    | _ => cases hj

theorem Sys.unlock (rb : Rebalance ℕ) (h : Sys d) (hs : unlock rb d p = some d') : Sys d' := by
  unfold BinderNodes.unlock at hs
  rcases hP : d.procs.get p with _ | P
  · simp [hP] at hs
  rcases hout : P.outerLock with _ | ⟨r, strong, list, job⟩ | ⟨r, job⟩
  · simp [hP, hout] at hs
  · obtain ⟨ref, ok, e, hr, hinc, hsys⟩ := h.unlockInc hP hout
    simp only [hP, hout, Driver.after, hr, hinc, Option.some.injEq] at hs
    subst hs
    cases job
    · exact hsys
    · exact hsys
  · obtain ⟨e, he, hsys⟩ := h.unlockCleanup rb hP hout
    simp only [hP, hout, Driver.after, he, Option.some.injEq] at hs
    subst hs
    cases job
    · exact hsys
    · exact hsys

end HeadlessAndroid.BinderNodes
