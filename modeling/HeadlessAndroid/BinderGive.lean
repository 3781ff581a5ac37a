import HeadlessAndroid.BinderMoves
import Mathlib.Tactic.Ring

/-!
# HeadlessAndroid.BinderGive — taking references on a node and giving them back

One lemma for each function of binder.c that counts at a node: which token it takes or gives back, and
that the invariant goes on.
-/

namespace HeadlessAndroid.BinderNodes

open Lib Lib.SearchTree

variable {x : Option ℕ} {T T' : Multiset Token} {d d' : Driver} {n p : ℕ} {node : BinderNode}

/-- Tokens that only the clause of the node `n` looks at. -/
inductive About (d : Driver) (n : ℕ) (node : BinderNode) : Token → Prop
  | tmp : About d n node (.tmp n)
  | target (p : ℕ) : About d n node (.target n p)
  | object (p : ℕ) (s : Bool) (h : d.running p = true → node.proc = some p) :
    About d n node (.object p node.ptr s)
  | own (p : ℕ) : About d n node (.own p)
  | bound (m p : ℕ) (ptr : Option ℕ) : About d n node (.bound m p ptr)

theorem Elsewhere.add {k : Token} (hk : About d n node k) : Elsewhere d n node T (k ::ₘ T) := by
  refine ⟨?_, ?_, ?_, ?_, ?_⟩
  · intro m hm
    cases hk <;> simp [hm]
  · intro m p hm
    cases hk <;> simp [hm]
  · intro p ptr s hr hne
    rw [Multiset.count_cons_of_ne]
    rintro rfl
    cases hk with
    | object _ _ h => exact hne (h hr) rfl
  · intro p
    cases hk <;> simp
  · intro p desc s
    cases hk <;> simp

theorem Moves.add {k : Token} (hk : About d n node k) (hv : k.Valid d) :
    Moves d n node T (k ::ₘ T) := by
  refine ⟨.add hk, fun k' hk' => ?_⟩
  rcases Multiset.mem_cons.mp hk' with rfl | hk'
  · exact Or.inr hv
  · exact Or.inl hk'

theorem Moves.remove {k : Token} (hk : About d n node k) : Moves d n node (k ::ₘ T) T :=
  ⟨(Elsewhere.add hk).symm, fun _ hk' => Or.inl (Multiset.mem_cons_of_mem hk')⟩

section Temporary

/-- `binder_inc_node_tmpref` -/
theorem Inv.takeTmp (h : Inv none T d) (hn : d.nodes.get n = some node) :
    Inv none (.tmp n ::ₘ T) (d.setNode n { node with tmpRefs := node.tmpRefs + 1 }) := by
  have hkept := h.kept n node hn nofun
  refine h.setNode hn rfl rfl rfl rfl rfl (Moves.add .tmp (by simp [Token.Valid, hn])) ?_ ?_
    (fun _ hd => hd) (fun q hq => (h.node n node hn).work q hq) ?_ fun _ _ _ => nofun
  · simp
  · intro p P hp hP hr ho
    refine ⟨?_, ?_, ho.strong_weak, ho.pending_strong, ho.pending_weak, ho.told, ho.manager,
      fun hl hwraps hw => ?_⟩
    · simpa [Multiset.count_cons] using ho.strong
    · simpa [Multiset.count_cons] using ho.weak
    · obtain ⟨h1, h2, h3, h4⟩ := ho.due hl hwraps hw
      refine ⟨h1, h2, h3, fun hweak => BinderNode.weak_iff.mpr ?_⟩
      have htmp := (h.node n node hn).tmp
      refine Or.inr (Or.inr (Or.inl ?_))
      change node.tmpRefs + 1 ≠ 0
      omega
  · intro _
    refine BinderNode.kept_of_tmpRefs ?_
    have htmp := (h.node n node hn).tmp
    change node.tmpRefs + 1 ≠ 0
    omega

/-- `binder_put_node` -/
theorem Inv.putTmp (rb : Rebalance ℕ) (h : Inv none (.tmp n ::ₘ T) d) :
    ∃ d', binderPutNode rb d n = some d' ∧ Inv none T d' ∧ Frame d d' := by
  obtain ⟨node, hn⟩ := h.node_of_tmp (Multiset.mem_cons_self _ _)
  have htmp := (h.node n node hn).tmp
  rw [Multiset.count_cons_self] at htmp
  have hsame : SameFace node { node with tmpRefs := node.tmpRefs - 1 } :=
    ⟨rfl, rfl, rfl, rfl, rfl, rfl, rfl, rfl, id, id, rfl⟩
  obtain ⟨free, node', hdec, hinv, hfree, hkept⟩ := h.dec hn false true nofun hsame
    (Moves.remove .tmp)
    (by simp; omega) (fun p _ _ hb => ⟨by simpa [decCount] using hb.strong,
      by simpa [decCount] using hb.weak⟩) fun _ hd => hd
  refine Inv.applyNode rb hn ?_ hinv hfree hkept
  rw [binderDecNodeTmpref, if_neg (by omega)]
  exact hdec

end Temporary

section Local

/-- One more local reference of a buffer. -/
def addLocal (strong : Bool) (node : BinderNode) : BinderNode :=
  if strong then { node with localStrongRefs := node.localStrongRefs + 1 }
  else { node with localWeakRefs := node.localWeakRefs + 1 }

theorem binderIncNodeNilocked_local (mgr strong : Bool) (node : BinderNode) :
    (binderIncNodeNilocked mgr strong false none node).2 = addLocal strong node := by
  unfold binderIncNodeNilocked addLocal
  cases strong with
  | true => simp
  | false =>
    cases hw : node.work with
    | none =>
      cases node.hasWeakRef <;> simp [BinderNode.withWork]
    | some q => simp

/-- The token of a local reference. -/
inductive LocalToken (n : ℕ) (node : BinderNode) (p : ℕ) : Bool → Token → Prop
  | target : LocalToken n node p true (.target n p)
  | object (s : Bool) : LocalToken n node p s (.object p node.ptr s)

@[simp] theorem addLocal_ptr (s : Bool) (node : BinderNode) : (addLocal s node).ptr = node.ptr := by
  cases s <;> rfl

@[simp] theorem addLocal_pendingStrongRef (s : Bool) (node : BinderNode) :
    (addLocal s node).pendingStrongRef = node.pendingStrongRef := by
  cases s <;> rfl

@[simp] theorem addLocal_pendingWeakRef (s : Bool) (node : BinderNode) :
    (addLocal s node).pendingWeakRef = node.pendingWeakRef := by
  cases s <;> rfl

theorem addLocal_localStrongRefs (s : Bool) (node : BinderNode) :
    (addLocal s node).localStrongRefs = node.localStrongRefs + s.toNat := by
  cases s with
  | true => rfl
  | false => exact (Int.add_zero _).symm

theorem addLocal_localWeakRefs (s : Bool) (node : BinderNode) :
    (addLocal s node).localWeakRefs = node.localWeakRefs + (!s).toNat := by
  cases s with
  | true => exact (Int.add_zero _).symm
  | false => rfl

theorem LocalToken.count_strong {s : Bool} {k : Token} (hk : LocalToken n node p s k)
    (T : Multiset Token) : (k ::ₘ T).count (.target n p) + (k ::ₘ T).count (.object p node.ptr true) =
      T.count (.target n p) + T.count (.object p node.ptr true) + s.toNat := by
  cases hk with
  | target =>
    rw [Multiset.count_cons_self, Multiset.count_cons_of_ne (by simp), Bool.toNat_true]
    omega
  | object s =>
    cases s with
    | true =>
      rw [Multiset.count_cons_self, Multiset.count_cons_of_ne (by simp), Bool.toNat_true]
      omega
    | false => rw [Multiset.count_cons_of_ne (by simp), Multiset.count_cons_of_ne (by simp)]; rfl

theorem LocalToken.count_weak {s : Bool} {k : Token} (hk : LocalToken n node p s k)
    (T : Multiset Token) : (k ::ₘ T).count (.object p node.ptr false) =
      T.count (.object p node.ptr false) + (!s).toNat := by
  cases hk with
  | target => exact Multiset.count_cons_of_ne (by simp) T
  | object s =>
    cases s with
    | true => exact Multiset.count_cons_of_ne (by simp) T
    | false => exact Multiset.count_cons_self _ T

theorem Balanced.add {s : Bool} {k : Token} (hb : Balanced T d n node p)
    (hk : LocalToken n node p s k) : Balanced (k ::ₘ T) d n (addLocal s node) p := by
  obtain ⟨h1, h2⟩ := hb
  have hs := hk.count_strong T
  have hw := hk.count_weak T
  constructor
  · rw [addLocal_localStrongRefs, addLocal_ptr, addLocal_pendingStrongRef]
    omega
  · rw [addLocal_localWeakRefs, addLocal_ptr, addLocal_pendingWeakRef]
    omega

theorem Balanced.remove {s : Bool} {k : Token} (hb : Balanced (k ::ₘ T) d n node p)
    (hk : LocalToken n node p s k) : Balanced T d n (decCount s false node) p := by
  obtain ⟨h1, h2⟩ := hb
  have hs := hk.count_strong T
  have hw := hk.count_weak T
  constructor
  · rw [decCount_localStrongRefs, decCount_ptr, decCount_pendingStrongRef]
    omega
  · rw [decCount_localWeakRefs, decCount_ptr, decCount_pendingWeakRef]
    omega

theorem LocalToken.about {s : Bool} {k : Token} (hk : LocalToken n node p s k)
    (hp : d.running p = true → node.proc = some p) : About d n node k := by
  cases hk with
  | target => exact .target p
  | object s => exact .object p s hp

theorem Owned.add {P : BinderProc} {s : Bool} {k : Token} (ho : Owned T d n node p P)
    (hk : LocalToken n node p s k) : Owned (k ::ₘ T) d n (addLocal s node) p P := by
  obtain ⟨hs, hw⟩ := ho.balanced.add hk
  refine ⟨hs, hw, ?_, ?_, ?_, ?_, ?_, fun hl hwraps hnone => ?_⟩
  · cases s <;> exact ho.strong_weak
  · cases s <;> exact ho.pending_strong
  · cases s <;> exact ho.pending_weak
  · cases s <;> exact ho.told
  · cases s <;> exact ho.manager
  · obtain ⟨h1, h2, h3, h4⟩ := ho.due hl (by cases s <;> exact hwraps)
      (by cases s <;> exact hnone)
    have hstrong : node.strong = true → (addLocal s node).strong = true := by
      rw [BinderNode.strong_iff, BinderNode.strong_iff]
      have hpos := ho.strong
      cases s with
      | true =>
        intro _
        refine Or.inr ?_
        change node.localStrongRefs + 1 ≠ 0
        omega
      | false => exact id
    have hweak : node.weak = true → (addLocal s node).weak = true := by
      rw [BinderNode.weak_iff, BinderNode.weak_iff]
      have hpos := ho.weak
      cases s with
      | true => exact fun hw => hw.imp id (Or.imp id (Or.imp id hstrong))
      | false =>
        intro _
        refine Or.inr (Or.inl ?_)
        change node.localWeakRefs + 1 ≠ 0
        omega
    refine ⟨?_, ?_, ?_, ?_⟩
    · cases s <;> exact h1
    · cases s <;> exact h2
    · exact fun hh => hstrong (h3 (by cases s <;> exact hh))
    · exact fun hh => hweak (h4 (by cases s <;> exact hh))

theorem Inv.tmp_pos (h : Inv x T d) (hn : d.nodes.get n = some node) (hmem : .tmp n ∈ T) :
    0 < node.tmpRefs := by
  have htmp := (h.node n node hn).tmp
  have hpos := Multiset.count_pos.mpr hmem
  omega

theorem Inv.kept_of_tmp (h : Inv x T d) (hn : d.nodes.get n = some node) (hmem : .tmp n ∈ T)
    {node' : BinderNode} (htmp : node'.tmpRefs = node.tmpRefs) : node'.Kept :=
  BinderNode.kept_of_tmpRefs (htmp ▸ (h.tmp_pos hn hmem).ne')

/-- A node of a process gets one more local reference. -/
theorem Inv.takeLocal (h : Inv none T d) (hn : d.nodes.get n = some node) (hmem : .tmp n ∈ T)
    {s : Bool} {k : Token} (hk : LocalToken n node p s k) (hv : k.Valid d)
    (hp : node.proc = some p) : Inv none (k ::ₘ T) (d.setNode n (addLocal s node)) := by
  have htmp : (addLocal s node).tmpRefs = node.tmpRefs := by cases s <;> rfl
  have hcount : (k ::ₘ T).count (.tmp n) = T.count (.tmp n) := by
    cases hk <;> simp
  refine h.setNode hn (by cases s <;> rfl) (by cases s <;> rfl) (by cases s <;> rfl)
    (by cases s <;> rfl) (by cases s <;> rfl) (Moves.add (hk.about fun _ => hp) hv)
    (by rw [htmp, hcount]) ?_ ?_ ?_ (fun _ => h.kept_of_tmp hn hmem htmp) fun _ _ _ => nofun
  · intro q Q hq _ _ ho
    rw [hp] at hq
    cases hq
    exact ho.add hk
  · intro hnone
    rw [hp] at hnone
    cases hnone
  · intro q hq
    exact (h.node n node hn).work q (by cases s <;> exact hq)

/-- `binder_dec_node` gives a local reference back. -/
theorem Inv.dropLocal (rb : Rebalance ℕ) {s : Bool} {k : Token} (h : Inv none (k ::ₘ T) d)
    (hn : d.nodes.get n = some node) (hk : LocalToken n node p s k) (hbel : d.Belongs node p) :
    ∃ d', dropLocal rb d n s = some d' ∧ Inv none T d' ∧ Frame d d' := by
  have hrun : d.running p = true → node.proc = some p := by
    rintro hr
    rcases hbel with hp | ⟨-, hp⟩
    · exact hp
    · rw [hr] at hp
      cases hp
  have hcount : (k ::ₘ T).count (.tmp n) = T.count (.tmp n) := by
    cases hk <;> simp
  let e := { d with lateDrops := d.lateDrops + node.proc.isNone.toNat }
  have he : Inv none (k ::ₘ T) e :=
    h.congr ⟨rfl, rfl, rfl, rfl, rfl, fun _ => rfl, id, fun h0 => (Nat.add_eq_zero_iff.mp h0).1, id⟩
  have hne : node.proc = none → e.lateDrops ≠ 0 := by
    intro hp h0
    have h0 : d.lateDrops + node.proc.isNone.toNat = 0 := h0
    simp [hp] at h0
  have hbal : ∀ q, node.proc = some q → e.running q = true → Balanced (k ::ₘ T) e n node q →
      Balanced T e n (decCount s false node) q := by
    intro q hq hr hb
    have hqp : q = p := by
      rcases hbel with hp | ⟨hp, -⟩
      · exact Option.some.inj (hq.symm.trans hp)
      · rw [hp] at hq
        cases hq
    subst hqp
    exact hb.remove hk
  have hdead : node.proc = none → node.localWeakRefs ≤ 0 ∧ node.localStrongRefs ≤ 0 ∧
      (e.lateDrops = 0 → node.localWeakRefs = 0 ∧ node.localStrongRefs = 0) →
      (decCount s false node).localWeakRefs ≤ 0 ∧ (decCount s false node).localStrongRefs ≤ 0 ∧
        (e.lateDrops = 0 → (decCount s false node).localWeakRefs = 0 ∧
          (decCount s false node).localStrongRefs = 0) := by
    rintro hp ⟨h1, h2, -⟩
    refine ⟨?_, ?_, fun h0 => absurd h0 (hne hp)⟩
    · cases s
      · change node.localWeakRefs - 1 ≤ 0
        omega
      · exact h1
    · cases s
      · exact h2
      · change node.localStrongRefs - 1 ≤ 0
        omega
  obtain ⟨free, node', hdec, hinv, hfree, hkept⟩ := he.dec hn s false (fun _ => rfl) (.refl node)
    (Moves.remove (hk.about hrun)) (by rw [hcount]) hbal hdead
  obtain ⟨d', hd', hinv, hframe⟩ := Inv.applyNode (d := e) rb hn hdec hinv hfree hkept
  refine ⟨d', ?_, hinv, ?_⟩
  · simp only [BinderNodes.dropLocal, hn, Option.bind_some]
    exact hd'
  · have hde : Frame d e := ⟨rfl, rfl, rfl, fun _ => rfl⟩
    exact hde.trans hframe

end Local

section Owner

/-- `BC_INCREFS_DONE` and `BC_ACQUIRE_DONE` under the lock of the node -/
theorem Inv.done (h : Inv none T d) (hn : d.nodes.get n = some node) (hmem : .tmp n ∈ T)
    (hp : node.proc = some p) (strong : Bool) : nodeDone strong node = some none ∨
    ∃ node', nodeDone strong node = some (some (false, node')) ∧
      Inv none T (d.setNode n node') := by
  have hpos := h.tmp_pos hn hmem
  have key : ∀ node₀, SameFace node node₀ → node₀.tmpRefs = node.tmpRefs →
      (∀ q, Balanced T d n node q → Balanced T d n (decCount strong false node₀) q) →
      ∃ node', binderDecNodeNilocked strong false node₀ = some (false, node') ∧
        Inv none T (d.setNode n node') := by
    intro node₀ hsame htmp hbal
    obtain ⟨free, node', hdec, hinv, hfree, hkept⟩ := h.dec hn strong false (fun _ => rfl) hsame
      (.refl d n node T) (by rw [htmp]) (fun q _ _ hb => hbal q hb) (by simp [hp])
    have hn' : (d.setNode n node').nodes.get n = some node' := by
      rw [show (d.setNode n node').nodes.get n = _ from Slots.get_put hn _ n, if_pos rfl]
    cases free with
    | true =>
      -- the temporary reference keeps the node
      have hz := (BinderNode.refless_iff.mp (hfree rfl).1).2.2.2
      have hpos' := hinv.tmp_pos hn' hmem
      omega
    | false => exact ⟨node', hdec, hinv.settle hn' (hkept rfl)⟩
  unfold nodeDone
  cases strong with
  | true =>
    cases hpend : node.pendingStrongRef with
    | false => simp
    | true =>
      obtain ⟨node', hdec, hinv⟩ := key { node with pendingStrongRef := false }
        ⟨rfl, rfl, rfl, rfl, rfl, rfl, rfl, rfl, nofun, id, rfl⟩ rfl fun q hb => by
          obtain ⟨h1, h2⟩ := hb
          refine ⟨?_, by simpa [decCount] using h2⟩
          simp [hpend] at h1
          simp [decCount, h1]
          ring
      exact Or.inr ⟨node', by simp [hdec], hinv⟩
  | false =>
    cases hpend : node.pendingWeakRef with
    | false => simp
    | true =>
      obtain ⟨node', hdec, hinv⟩ := key { node with pendingWeakRef := false }
        ⟨rfl, rfl, rfl, rfl, rfl, rfl, rfl, rfl, id, nofun, rfl⟩ rfl fun q hb => by
          obtain ⟨h1, h2⟩ := hb
          refine ⟨by simpa [decCount] using h1, ?_⟩
          simp [hpend] at h2
          simp [decCount, h2]
          ring
      exact Or.inr ⟨node', by simp [hdec], hinv⟩

/-- A thread that goes drops the work of a node. -/
theorem Inv.loseWork (h : Inv none T d) (hn : d.nodes.get n = some node) :
    Inv none T ({ d with lostWork := d.lostWork + 1 }.setNode n (node.withWork none)) := by
  have he : Inv none T { d with lostWork := d.lostWork + 1 } :=
    h.congr ⟨rfl, rfl, rfl, rfl, rfl, fun _ => rfl, id, id, nofun⟩
  refine he.setNode hn rfl rfl rfl rfl rfl (.refl _ n node T) rfl ?_
    (fun _ hd => ⟨rfl, hd.2⟩) nofun (fun _ => h.kept n node hn nofun) fun _ _ _ => nofun
  intro p P _ _ _ ho
  exact ⟨ho.strong, ho.weak, ho.strong_weak, ho.pending_strong, ho.pending_weak, ho.told,
    ho.manager, fun hl => absurd hl (Nat.succ_ne_zero _)⟩

end Owner

end HeadlessAndroid.BinderNodes
