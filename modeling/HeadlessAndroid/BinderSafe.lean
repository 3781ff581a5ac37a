import HeadlessAndroid.BinderRelease

/-!
# HeadlessAndroid.BinderSafe — what holds in every run of the driver

Every step keeps `Sys`, so that the counts of a node are its holders in every state that any order of
steps leads to.
-/

namespace HeadlessAndroid.BinderNodes

open Lib Lib.SearchTree

variable {T T' : Multiset Token} {d d' : Driver} {i : Option ℕ} {k n p q : ℕ}
  {j : Job} {t : Txn} {h' : Held} {node : BinderNode} {P : BinderProc} {strong : Bool}

/-! ### A process more -/

/-- The token is about no process that is still to come. -/
def Token.Old (d : Driver) : Token → Prop
  | .target _ p | .object p _ _ | .bound _ p _ => p < d.procs.length
  | _ => True

theorem Txn.old_send {x : Token} (hx : x ∈ t.sendTokens p) (hlt : t.toProc < d.procs.length) :
    x.Old d := by
  have hobj : ∀ {x}, x ∈ t.objectTokens → x.Old d := by
    intro x hx
    obtain ⟨o, -, rfl⟩ := List.mem_map.mp (Multiset.mem_coe.mp hx)
    cases o with
    | binder ptr s => exact hlt
    | handle desc s => trivial
  rcases ht : t.targetNode with _ | n
  · simp only [Txn.sendTokens, Txn.strongTokens, Txn.tmpTokens, ht, zero_add, Multiset.mem_cons] at hx
    rcases hx with rfl | rfl | hx
    · trivial
    · trivial
    · exact hobj hx
  · simp only [Txn.sendTokens, Txn.strongTokens, Txn.tmpTokens, ht, Multiset.mem_cons,
      Multiset.mem_add, Multiset.mem_singleton] at hx
    rcases hx with rfl | rfl | (rfl | rfl) | hx
    · trivial
    · trivial
    · exact hlt
    · trivial
    · exact hobj hx

theorem Txn.old_held {x : Token} (hx : x ∈ t.heldTokens h') (hlt : t.toProc < d.procs.length) :
    x.Old d := by
  -- what is held is a part of what a transaction takes
  refine Txn.old_send (p := h'.proc) (Multiset.mem_of_le ?_ hx) hlt
  obtain ⟨q, s, tmp, tmpProc⟩ := h'
  rw [← t.heldTokens_send]
  refine Multiset.cons_le_cons _ (add_le_add_left (add_le_add (add_le_add ?_ ?_) ?_) _)
  · cases tmpProc
    · exact Multiset.zero_le _
    · exact le_rfl
  · cases s
    · exact Multiset.zero_le _
    · exact le_rfl
  · cases tmp
    · exact Multiset.zero_le _
    · exact le_rfl

theorem lt_of_running (h : d.running p = true) : p < d.procs.length := by
  obtain ⟨P, hP, -⟩ := Driver.running_iff.mp h
  exact Slots.lt_length_of_get hP

theorem Job.Fits.old (h : j.Fits d k) (hv : ∀ x ∈ j.tokens, x.Valid d) {x : Token}
    (hx : x ∈ j.tokens) : x.Old d := by
  have hbound : ∀ {n p : ℕ} {t : Txn} {b : Bool}, (∀ y ∈ t.sendTokens p, y.Valid d) →
      t.toProc < d.procs.length →
      x ∈ .tmp n ::ₘ ((if b then 0 else {.bound n p none}) + t.sendTokens p) → x.Old d := by
    intro n p t b hv hlt hx
    have hrun : p < d.procs.length := lt_of_running (hv (.own p) (by simp [Txn.sendTokens]))
    rcases Multiset.mem_cons.mp hx with rfl | hx
    · trivial
    rcases Multiset.mem_add.mp hx with hx | hx
    · cases b
      · cases Multiset.mem_singleton.mp hx
        exact hrun
      · cases hx
    · exact Txn.old_send hx hlt
  cases j with
  | putNode n =>
    cases Multiset.mem_singleton.mp hx
    trivial
  | putProc q =>
    cases Multiset.mem_singleton.mp hx
    trivial
  | done q n s =>
    have hrun : q < d.procs.length := lt_of_running (hv (.own q) (by simp [Job.tokens]))
    simp only [Job.tokens, Multiset.insert_eq_cons, Multiset.mem_cons,
      Multiset.mem_singleton] at hx
    rcases hx with rfl | rfl | rfl
    · trivial
    · trivial
    · exact hrun
  | send q t => exact Txn.old_send hx h.1
  | translate q t n s b =>
    exact hbound (fun y hy => hv y (Multiset.mem_cons_of_mem (Multiset.mem_add.mpr (Or.inr hy))))
      h.1 hx
  | await q t n s b =>
    exact hbound (fun y hy => hv y (Multiset.mem_cons_of_mem (Multiset.mem_add.mpr (Or.inr hy))))
      h.1 hx
  | buffer t =>
    refine Txn.old_send (p := 0) (Multiset.mem_cons_of_mem (Multiset.mem_cons_of_mem ?_)) h.1
    rcases Multiset.mem_add.mp hx with hx | hx
    · exact Multiset.mem_add.mpr (Or.inl (Multiset.mem_add.mpr (Or.inl hx)))
    · exact Multiset.mem_add.mpr (Or.inr hx)
  | release h' t => exact Txn.old_held hx h.1
  | unbind h' t n =>
    rcases Multiset.mem_cons.mp hx with rfl | hx
    · trivial
    rcases Multiset.mem_cons.mp hx with rfl | hx
    · exact h.1
    · exact Txn.old_held hx h.1
  | clean h' t => exact Txn.old_held hx h.1

/-- `binder_open` -/
def Driver.openProc (d : Driver) : Driver := { d with procs := d.procs.add .init }

theorem openProc_get (q : ℕ) : d.openProc.procs.get q =
    if q = d.procs.length then some .init else d.procs.get q := Slots.get_add _ _ q

theorem openProc_old (hP : d.procs.get p = some P) : d.openProc.procs.get p = some P := by
  rw [openProc_get, if_neg (Nat.ne_of_lt (Slots.lt_length_of_get hP)), hP]

theorem openProc_running (hq : q < d.procs.length) : d.openProc.running q = d.running q := by
  rw [Driver.running, Driver.running, openProc_get, if_neg (Nat.ne_of_lt hq)]

theorem openProc_lockOf (q : ℕ) : d.openProc.lockOf q = d.lockOf q := by
  rw [Driver.lockOf, Driver.lockOf, openProc_get]
  split_ifs with hq
  · rcases hP : d.procs.get q with _ | P
    · rfl
    · exact absurd hq (Nat.ne_of_lt (Slots.lt_length_of_get hP))
  · rfl

theorem Token.Valid.openProc {x : Token} (h : x.Valid d) (hold : x.Old d) : x.Valid d.openProc := by
  have hbel : ∀ {node : BinderNode} {p}, p < d.procs.length → d.Belongs node p →
      d.openProc.Belongs node p := fun hp hb =>
    hb.imp id fun hb => ⟨hb.1, (openProc_running hp).trans hb.2⟩
  cases x with
  | tmp n => exact h
  | target n p =>
    exact ⟨h.1, fun hr => h.2.1 ((openProc_running hold).symm.trans hr), fun node hn =>
      hbel hold (h.2.2 node hn)⟩
  | object p ptr s => exact fun hr => h ((openProc_running hold).symm.trans hr)
  | handle p desc s => trivial
  | proc p =>
    obtain ⟨P, hP⟩ := Option.isSome_iff_exists.mp h
    exact Option.isSome_iff_exists.mpr ⟨P, openProc_old hP⟩
  | own p => exact (openProc_running (lt_of_running h)).trans h
  | bound n p ptr => exact ⟨h.1, fun node hn => ⟨hbel hold (h.2 node hn).1, (h.2 node hn).2⟩⟩

theorem Sys.openProc (h : Sys d) : Sys d.openProc := by
  have hinv := h.inv
  rw [zero_add] at hinv
  have hvalid : ∀ x ∈ d.rest none, x.Valid d.openProc := by
    intro x hx
    obtain ⟨k, j, hj, hm⟩ := Slots.mem_total.mp hx
    exact (hinv.token x hx).openProc ((h.fits k j (by simp) hj).old
      (fun y hy => hinv.token y (Slots.mem_total.mpr ⟨k, j, hj, hy⟩)) hm)
  refine ⟨?_, fun k j hk hj => ?_, fun q l k hl hj hk => ?_, fun q l hl hj => ?_, fun r ref hr => ?_⟩
  · rw [zero_add]
    change Inv none (d.rest none) d.openProc
    refine ⟨fun n node hn => ?_, hinv.kept, hinv.ref, fun q Q hQ => ?_, hvalid, fun n hn => ?_,
      fun hl => ⟨(hinv.live hl).1, fun r ref hr => ?_⟩, hinv.crashed⟩
    · have hok := hinv.node n node hn
      refine hok.congr ⟨fun _ => Iff.rfl, rfl, id, fun p P hp hP => ⟨P, openProc_old hP, id,
        fun hr => ⟨hr, fun _ => id⟩⟩, ?_, rfl, id, id⟩ rfl fun _ _ _ => ⟨rfl, fun _ => rfl⟩
      rcases hp : node.proc with _ | p
      · simp [Driver.taken, hp]
      · obtain ⟨P, hP, -⟩ := hok.owner p hp
        simp [Driver.taken, hp, hP, openProc_old hP]
    · rw [openProc_get] at hQ
      split_ifs at hQ with hq
      · cases hQ
        have hnoref : ∀ r, ¬ ∃ ref, d.refs.get r = some ref ∧ ref.proc = q := by
          rintro r ⟨ref, hr, hp⟩
          exact absurd (h.refs r ref hr) (by rw [hp, hq]; exact Nat.lt_irrefl _)
        have hno : (d.rest none).count (.proc q) = 0 := by
          refine Multiset.count_eq_zero.mpr fun hm => ?_
          obtain ⟨P, hP⟩ := Option.isSome_iff_exists.mp (hinv.token _ hm)
          exact absurd hq (Nat.ne_of_lt (Slots.lt_length_of_get hP))
        refine ⟨?_, keyed_nil, by simp [BinderProc.init, inorder], by simp [BinderProc.init],
          by simp [BinderProc.init], keyed_nil, keyed_nil, fun r => ?_, fun r => ?_,
          by simp [BinderProc.init], fun _ ptr _ o ho => ?_,
          by simp [BinderProc.init]⟩
        · rw [hno]
          rfl
        · exact iff_of_false (by simp [BinderProc.init, inorder]) (hnoref r)
        · exact iff_of_false (by simp [BinderProc.init, inorder]) (hnoref r)
        · cases ho
          rfl
      · have hok := hinv.proc q Q hQ
        exact hok.congr ⟨fun n node hn hp => ⟨node, hn, hp, rfl⟩, fun _ _ => Iff.rfl, id⟩ hok.tmpRef
          (fun _ _ => le_rfl) rfl rfl rfl rfl rfl (.inl rfl)
    · obtain ⟨node, p, hn', hp, hr⟩ := hinv.mgr n hn
      exact ⟨node, p, hn', hp, (openProc_running (lt_of_running hr)).trans hr⟩
    · obtain ⟨P, hP⟩ := Option.isSome_iff_exists.mp ((hinv.live hl).2 r ref hr)
      exact Option.isSome_iff_exists.mpr ⟨P, openProc_old hP⟩
  · have hlen : d.procs.length ≤ d.openProc.procs.length := by
      simp [Driver.openProc, Slots.add]
    have hfits := h.fits k j hk hj
    refine hfits.mono hlen (fun t ht => openProc_running ?_) fun q l _ hl _ =>
      ⟨(openProc_lockOf q).trans hl, rfl⟩
    subst ht
    exact hfits.1
  · exact h.lock q l k ((openProc_lockOf q).symm.trans hl) hj hk
  · exact h.list q l ((openProc_lockOf q).symm.trans hl) hj
  · refine (h.refs r ref hr).trans_le ?_
    simp [Driver.openProc, Slots.add]

/-! ### Every step -/

theorem Sys.step (rb : Rebalance ℕ) {a : Action} (h : Sys d) (hs : driverStep rb d a = some d') :
    Sys d' := by
  unfold driverStep at hs
  rw [if_neg (by simp [h.inv.crashed])] at hs
  cases a with
  | openProc =>
    cases hs
    exact h.openProc
  | setContextMgr p ptr cookie => exact h.setContextMgr rb hs
  | incManager p strong => exact h.incManager rb hs
  | updateRef p desc increment strong => exact h.updateRef rb hs
  | refDone p strong ptr cookie => exact h.refDone hs
  | readNode n fault => exact h.readNode rb hs
  | faultRead p => exact h.faultRead hs
  | exitThread n => exact h.exitThread hs
  | call p handle => exact h.call hs
  | reply p q => exact h.reply hs
  | sendBinder i ptr cookie strong =>
    dsimp only at hs
    split at hs
    · rename_i p t hk
      cases hs
      exact h.sendBinder rb hk ptr cookie strong
    · cases hs
  | sendHandle i handle strong =>
    dsimp only at hs
    split at hs
    · rename_i p t hk
      obtain ⟨-, hs⟩ := Option.ite_none_right_eq_some.mp hs
      cases hs
      exact h.sendHandle hk handle strong
    · cases hs
  | fail i early =>
    obtain ⟨j, hk, hs⟩ := Option.bind_eq_some_iff.mp hs
    exact h.failTxn hk hs
  | deliver i =>
    dsimp only at hs
    split at hs
    · rename_i p t hk
      cases hs
      exact h.deliver hk
    · cases hs
  | freeBuffer i =>
    dsimp only at hs
    split at hs
    · rename_i t hk
      obtain ⟨hrun, hs⟩ := Option.ite_none_right_eq_some.mp hs
      cases hs
      exact h.freeBuffer hk hrun
    · cases hs
  | proceed i =>
    obtain ⟨j, hk, hs⟩ := Option.bind_eq_some_iff.mp hs
    exact h.proceed rb hk hs
  | unlock p => exact h.unlock rb hs
  | releaseProc p => exact h.releaseProc hs
  | releaseStep p => exact h.releaseStep rb hs

theorem Sys.init : Sys .init := by
  refine ⟨⟨fun n node hn => ?_, fun n node hn => ?_, fun r ref hr => ?_, fun p P hP => ?_,
    fun x hx => ?_, fun n hn => ?_, fun _ => ⟨rfl, fun r ref hr => ?_⟩, rfl⟩,
    fun k j _ hj => ?_, fun q l k hl => ?_, fun q l hl => ?_, fun r ref hr => ?_⟩
  · cases hn
  · cases hn
  · cases hr
  · cases hP
  · rw [zero_add] at hx
    cases hx
  · cases hn
  · cases hr
  · cases hj
  · cases hl
  · cases hl
  · cases hr

theorem Sys.run (rb : Rebalance ℕ) {es : List Action}
    (hrun : (driverSystem rb).run .init es = some d) : Sys d :=
  StepSystem.run_inv (fun _ _ _ h hs => h.step rb hs) Sys.init hrun

end HeadlessAndroid.BinderNodes
