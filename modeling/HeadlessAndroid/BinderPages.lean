import HeadlessAndroid.BinderAlloc
import Mathlib.Tactic.Ring

/-!
# HeadlessAndroid.BinderPages — what a page range does to the pages

The pages of a region are active, on the list of the shrinker or not mapped.  `PagesAre ps U` says
that just the pages in `U` are active.  The two directions of `binder_update_page_range` keep that
form: a range that is freed leaves `U`, a range that is allocated joins it or, where a page fails,
leaves `U` as it was.
-/

namespace HeadlessAndroid.Binder

abbrev activePage : BinderLruPage := ⟨true, false⟩

/-- Just the pages in `U` are active, and what is on the list is mapped. -/
def PagesAre (ps : List BinderLruPage) (U : ℕ → Prop) : Prop :=
  ∀ i page, ps[i]? = some page →
    (page = activePage ↔ U i) ∧ (page.lru = true → page.pagePtr = true)

namespace PagesAre

variable {ps : List BinderLruPage} {U V : ℕ → Prop}

theorem congr (h : PagesAre ps U) (hUV : ∀ i < ps.length, U i ↔ V i) : PagesAre ps V :=
  fun i page hi => by
    obtain ⟨hlt, -⟩ := List.getElem?_eq_some_iff.mp hi
    exact ⟨(h i page hi).1.trans (hUV i hlt), (h i page hi).2⟩

theorem set (h : PagesAre ps U) {page : BinderLruPage} (hpage : page.lru = true → page.pagePtr = true)
    (i : ℕ) (hV : ∀ j, V j ↔ if j = i then page = activePage else U j) :
    PagesAre (ps.set i page) V := by
  intro j p hj
  rw [hV j]
  by_cases hji : j = i
  · subst hji
    obtain ⟨hlt, -⟩ := List.getElem?_eq_some_iff.mp hj
    rw [List.getElem?_set_self (by simpa using hlt)] at hj
    cases hj
    rw [if_pos rfl]
    exact ⟨Iff.rfl, hpage⟩
  · rw [List.getElem?_set_ne (Ne.symm hji)] at hj
    rw [if_neg hji]
    exact h j p hj

theorem active_of (h : PagesAre ps U) {i : ℕ} (hi : i < ps.length) (hU : U i) :
    ps[i]? = some activePage := by
  rw [List.getElem?_eq_getElem hi]
  rw [((h i _ (List.getElem?_eq_getElem hi)).1).mpr hU]

end PagesAre

@[simp] theorem warnOn_false (a : BinderAlloc) : a.warnOn false = a := rfl

@[simp] theorem pageIndex_add (a : BinderAlloc) (i : ℕ) :
    pageIndex a (a.buffer + i * pageSize) = i := by
  unfold pageIndex
  rw [Nat.add_sub_cancel_left, Nat.mul_div_cancel _ (by decide)]

/-! ### Freeing -/

theorem lruAddPages_spec : ∀ (n s : ℕ) (a : BinderAlloc) (U : ℕ → Prop),
    s + n ≤ a.pages.length → PagesAre a.pages U → (∀ i, s ≤ i → i < s + n → U i) →
    ∃ ps, lruAddPages n (a.buffer + s * pageSize) a = some { a with pages := ps } ∧
      ps.length = a.pages.length ∧ PagesAre ps fun i => U i ∧ ¬ (s ≤ i ∧ i < s + n)
  | 0, s, a, U, _, hps, _ => by
    refine ⟨a.pages, rfl, rfl, hps.congr fun i _ => ?_⟩
    simp
  | n + 1, s, a, U, hlen, hps, hU => by
    have hpage := hps.active_of (i := s + n) (by omega) (hU _ (by omega) (by omega))
    have hset : PagesAre (a.pages.set (s + n) ⟨true, true⟩) fun i => U i ∧ i ≠ s + n :=
      hps.set (fun _ => rfl) (s + n) fun j => by
        by_cases hj : j = s + n <;> simp [hj]
    obtain ⟨ps, hrun, hpl, hP⟩ := lruAddPages_spec n s
      { a with pages := a.pages.set (s + n) ⟨true, true⟩ } _ (by simp; omega) hset
      (fun i h1 h2 => ⟨hU i h1 (by omega), by omega⟩)
    refine ⟨ps, ?_, by simpa using hpl, hP.congr fun i _ => ?_⟩
    · rw [lruAddPages, show a.buffer + s * pageSize + n * pageSize = a.buffer + (s + n) * pageSize by
        ring, pageIndex_add, hpage]
      exact hrun
    · constructor
      · rintro ⟨⟨h1, h2⟩, h3⟩
        exact ⟨h1, by omega⟩
      · rintro ⟨h1, h2⟩
        exact ⟨⟨h1, by omega⟩, by omega⟩

/-! ### Allocating -/

theorem needMm_spec : ∀ (n s : ℕ) (a : BinderAlloc), s + n ≤ a.pages.length →
    ∃ need, needMm a n (a.buffer + s * pageSize) = some need ∧
      (need = false → ∀ i page, s ≤ i → i < s + n → a.pages[i]? = some page → page.pagePtr = true)
  | 0, s, a, _ => ⟨false, rfl, fun _ i _ h1 h2 => by omega⟩
  | n + 1, s, a, hlen => by
    have hpage := List.getElem?_eq_getElem (show s < a.pages.length by omega)
    rw [needMm, pageIndex_add, hpage]
    dsimp only
    by_cases hptr : a.pages[s].pagePtr = true
    · rw [if_pos hptr]
      obtain ⟨need, hneed, hall⟩ := needMm_spec n (s + 1) a (by omega)
      refine ⟨need, by rw [← hneed]; congr 1; ring, fun hf i page h1 h2 hi => ?_⟩
      by_cases his : i = s
      · subst his
        rw [hpage] at hi
        cases hi
        exact hptr
      · exact hall hf i page (by omega) (by omega) hi
    · rw [if_neg hptr]
      exact ⟨true, rfl, by simp⟩

/-- A page that is not active is taken, or something failed and the active pages are the same. -/
theorem mapPage_spec (env : Env) {vma : Bool} {a : BinderAlloc} {U : ℕ → Prop} {s : ℕ}
    (hs : s < a.pages.length) (hps : PagesAre a.pages U) (hU : ¬ U s)
    (hvma : vma = true ∨ ∀ page, a.pages[s]? = some page → page.pagePtr = true) :
    (∃ h, mapPage env vma (a.buffer + s * pageSize) a =
        some (true, { a with pages := a.pages.set s activePage, pagesHigh := h })) ∨
      (env.page s ≠ none ∧ ∃ ps, ps.length = a.pages.length ∧ PagesAre ps U ∧
        mapPage env vma (a.buffer + s * pageSize) a = some (false, { a with pages := ps })) := by
  have hpage := List.getElem?_eq_getElem hs
  obtain ⟨hact, hlru⟩ := hps s _ hpage
  unfold mapPage
  dsimp only
  rw [pageIndex_add, hpage]
  dsimp only
  generalize a.pages[s] = page at *
  by_cases hptr : page.pagePtr = true
  · -- mapped and not active: on the list
    have hlru' : page.lru = true := by
      by_contra hno
      refine hU (hact.mp ?_)
      cases page
      simp_all
    refine Or.inl ⟨a.pagesHigh, ?_⟩
    rw [if_pos hptr, hlru']
    rfl
  · rw [if_neg hptr]
    rcases hvma with hvma | hvma
    · subst hvma
      rw [if_neg (by decide)]
      have hset : PagesAre (a.pages.set s ⟨false, false⟩) U := hps.set (by simp) s fun j => by
        by_cases hj : j = s <;> simp [hj, hU]
      cases hfault : env.page s with
      | none => exact Or.inl ⟨_, rfl⟩
      | some fault =>
        refine Or.inr ⟨by simp, ?_⟩
        cases fault with
        | allocPage => exact ⟨a.pages, rfl, hps, rfl⟩
        | mapKernelRange => exact ⟨_, by simp, hset, rfl⟩
        | vmInsertPage => exact ⟨_, by simp, hset, rfl⟩
    · exact absurd (hvma page hpage) hptr

theorem mapPages_spec (env : Env) (vma : Bool) : ∀ (n s : ℕ) (a : BinderAlloc) (U : ℕ → Prop),
    s + n ≤ a.pages.length → PagesAre a.pages U → (∀ i, s ≤ i → i < s + n → ¬ U i) →
    (vma = true ∨
      ∀ i page, s ≤ i → i < s + n → a.pages[i]? = some page → page.pagePtr = true) →
    ∃ done ps h, mapPages env vma n (a.buffer + s * pageSize) a =
        some (done, { a with pages := ps, pagesHigh := h }) ∧
      done ≤ n ∧ ps.length = a.pages.length ∧
      (PagesAre ps fun i => U i ∨ (s ≤ i ∧ i < s + done)) ∧
      ((∀ i, env.page i = none) → done = n)
  | 0, s, a, U, _, hps, _, _ => by
    refine ⟨0, a.pages, a.pagesHigh, rfl, le_rfl, rfl, hps.congr fun i _ => ?_, fun _ => rfl⟩
    simp
  | n + 1, s, a, U, hlen, hps, hU, hvma => by
    rcases mapPage_spec env (show s < a.pages.length by omega) hps (hU s le_rfl (by omega))
      (hvma.imp_right fun h page => h s page le_rfl (by omega)) with ⟨h, hmap⟩ | ⟨hf, ps, hl, hP, hmap⟩
    · have hset : PagesAre (a.pages.set s activePage) fun i => U i ∨ i = s :=
        hps.set (by simp) s fun j => by by_cases hj : j = s <;> simp [hj]
      obtain ⟨done, ps, h', hrun, hle, hpl, hP, hall⟩ := mapPages_spec env vma n (s + 1)
        { a with pages := a.pages.set s activePage, pagesHigh := h } _ (by simp; omega) hset
        (fun i h1 h2 hor => hor.elim (hU i (by omega) (by omega)) (by omega))
        (hvma.imp_right fun hptr i page h1 h2 hi => by
          rw [List.getElem?_set_ne (by omega)] at hi
          exact hptr i page (by omega) (by omega) hi)
      refine ⟨done + 1, ps, h', ?_, by omega, by simpa using hpl, hP.congr fun i _ => ?_,
        fun hok => by rw [hall hok]⟩
      · rw [mapPages, hmap]
        dsimp only
        rw [show a.buffer + s * pageSize + pageSize = a.buffer + (s + 1) * pageSize by ring, hrun]
        rfl
      · constructor
        · rintro ((h1 | h1) | h1)
          · exact Or.inl h1
          · exact Or.inr (by omega)
          · exact Or.inr (by omega)
        · rintro (h1 | h1)
          · exact Or.inl (Or.inl h1)
          · by_cases his : i = s
            · exact Or.inl (Or.inr his)
            · exact Or.inr (by omega)
    · refine ⟨0, ps, a.pagesHigh, ?_, by omega, hl, hP.congr fun i _ => ?_,
        fun hok => absurd (hok s) hf⟩
      · rw [mapPages, hmap]
      · simp

/-! ### The two directions -/

/-- The pages of the region that begin between the addresses `lo` and `hi`. -/
def PagesIn (a : BinderAlloc) (lo hi i : ℕ) : Prop :=
  lo ≤ a.buffer + i * pageSize ∧ a.buffer + i * pageSize < hi

/-- A page boundary of the region. -/
def Boundary (a : BinderAlloc) (x : ℕ) : Prop :=
  ∃ s ≤ a.pages.length, x = a.buffer + s * pageSize

theorem pagesIn_iff {a : BinderAlloc} {s e i : ℕ} :
    PagesIn a (a.buffer + s * pageSize) (a.buffer + e * pageSize) i ↔ s ≤ i ∧ i < e := by
  unfold PagesIn pageSize
  constructor <;> intro h <;> constructor <;> omega

theorem pageCount {x s e : ℕ} (hse : s ≤ e) :
    (x + e * pageSize - (x + s * pageSize)) / pageSize = e - s := by
  unfold pageSize
  omega

theorem freeRange_spec {a : BinderAlloc} {U : ℕ → Prop} {lo hi : ℕ} (hlo : Boundary a lo)
    (hhi : Boundary a hi) (hps : PagesAre a.pages U) (hU : ∀ i, PagesIn a lo hi i → U i) :
    ∃ r ps, binderUpdatePageRange none lo hi a = some (r, { a with pages := ps }) ∧
      ps.length = a.pages.length ∧ PagesAre ps fun i => U i ∧ ¬ PagesIn a lo hi i := by
  obtain ⟨s, -, rfl⟩ := hlo
  obtain ⟨e, he, rfl⟩ := hhi
  simp only [pagesIn_iff] at hU ⊢
  unfold binderUpdatePageRange
  split
  · rename_i hle
    refine ⟨none, a.pages, rfl, rfl, hps.congr fun i _ => ?_⟩
    have hno : ¬ (s ≤ i ∧ i < e) := by
      unfold pageSize at hle
      omega
    simp [hno]
  · rename_i hlt
    have hse : s < e := by
      unfold pageSize at hlt
      omega
    rw [pageCount hse.le]
    obtain ⟨ps, hrun, hl, hP⟩ := lruAddPages_spec (e - s) s a U (by omega) hps
      (fun i h1 h2 => hU i ⟨h1, by omega⟩)
    refine ⟨some .esrch, ps, by rw [hrun]; rfl, hl, hP.congr fun i _ => ?_⟩
    rw [show s + (e - s) = e by omega]

/-- A range of pages that are not active is allocated; where that fails the active pages are the
same, and it does not fail where the kernel has the pages. -/
theorem allocRange_spec (env : Env) {a : BinderAlloc} {U : ℕ → Prop} {lo hi : ℕ}
    (hmm : a.vmaVmMm = true) (hlo : Boundary a lo) (hhi : Boundary a hi) (hps : PagesAre a.pages U)
    (hU : ∀ i, PagesIn a lo hi i → ¬ U i) :
    ∃ r ps h, binderUpdatePageRange (some env) lo hi a =
        some (r, { a with pages := ps, pagesHigh := h }) ∧
      ps.length = a.pages.length ∧
      (r = none → PagesAre ps fun i => U i ∨ PagesIn a lo hi i) ∧
      (r ≠ none → PagesAre ps U ∧ (r = some .esrch ∨ r = some .enomem)) ∧
      (env.mm = true → env.vma = true → (∀ i, env.page i = none) → r = none) := by
  obtain ⟨s, -, rfl⟩ := hlo
  obtain ⟨e, he, rfl⟩ := hhi
  simp only [pagesIn_iff] at hU ⊢
  unfold binderUpdatePageRange
  split
  · rename_i hle
    refine ⟨none, a.pages, a.pagesHigh, rfl, rfl, fun _ => hps.congr fun i _ => ?_, by simp,
      fun _ _ _ => rfl⟩
    have hno : ¬ (s ≤ i ∧ i < e) := by
      unfold pageSize at hle
      omega
    simp [hno]
  · rename_i hlt
    have hse : s < e := by
      unfold pageSize at hlt
      omega
    have hcount : (a.buffer + e * pageSize - (a.buffer + s * pageSize) + (pageSize - 1)) / pageSize =
        e - s := by
      unfold pageSize
      omega
    dsimp only
    rw [hcount]
    obtain ⟨need, hneed, hall⟩ := needMm_spec (e - s) s a (by omega)
    rw [hneed]
    dsimp only
    rw [if_neg (by simp [hmm])]
    by_cases hvma : (!(need && (env.mm && env.vma)) && need) = true
    · rw [if_pos hvma]
      refine ⟨_, a.pages, a.pagesHigh, rfl, rfl, by simp, fun _ => ⟨hps, Or.inl rfl⟩,
        fun h1 h2 _ => ?_⟩
      simp [h1, h2] at hvma
    · rw [if_neg hvma]
      obtain ⟨done, ps, h, hrun, hle, hl, hP, hok⟩ := mapPages_spec env
        (need && (env.mm && env.vma)) (e - s) s a U (by omega) hps
        (fun i h1 h2 => hU i ⟨h1, by omega⟩) (by
          cases need with
          | false => exact Or.inr (hall rfl)
          | true => exact Or.inl (by simpa using hvma))
      rw [hrun]
      dsimp only
      by_cases hdone : done = e - s
      · rw [if_pos hdone]
        refine ⟨none, ps, h, rfl, hl, fun _ => hP.congr fun i _ => ?_, by simp, fun _ _ _ => rfl⟩
        rw [hdone, show s + (e - s) = e by omega]
      · rw [if_neg hdone]
        -- the pages that were taken before the one that failed go back to the list
        obtain ⟨qs, hback, hql, hQ⟩ := lruAddPages_spec done s
          { a with pages := ps, pagesHigh := h } _ (by simp [hl]; omega) hP
          (fun i h1 h2 => Or.inr ⟨h1, h2⟩)
        refine ⟨_, qs, h, by rw [hback]; rfl, by simpa [hl] using hql, by simp,
          fun _ => ⟨hQ.congr fun i _ => ?_, ?_⟩, fun _ _ h3 => absurd (hok h3) hdone⟩
        · constructor
          · rintro ⟨h1 | h1, h2⟩
            · exact h1
            · exact absurd h1 h2
          · intro h1
            exact ⟨Or.inl h1, fun h2 => hU i ⟨h2.1, by omega⟩ h1⟩
        · split
          · exact Or.inr rfl
          · exact Or.inl rfl

/-- Before `vma_vm_mm` is set, no page can be mapped. -/
theorem allocRange_early (env : Env) {a : BinderAlloc} {lo hi : ℕ} (hmm : a.vmaVmMm = false)
    (hlo : Boundary a lo) (hhi : Boundary a hi) (hlt : lo < hi)
    (hps : ∀ page ∈ a.pages, page.pagePtr = false) :
    binderUpdatePageRange (some env) lo hi a = none := by
  obtain ⟨s, -, rfl⟩ := hlo
  obtain ⟨e, he, rfl⟩ := hhi
  have hse : s < e := by
    unfold pageSize at hlt
    omega
  obtain ⟨n, hn⟩ : ∃ n, (a.buffer + e * pageSize - (a.buffer + s * pageSize) + (pageSize - 1)) /
      pageSize = n + 1 := by
    refine ⟨e - s - 1, ?_⟩
    unfold pageSize
    omega
  have hpage := List.getElem?_eq_getElem (show s < a.pages.length by omega)
  have hneed : needMm a (n + 1) (a.buffer + s * pageSize) = some true := by
    rw [needMm, pageIndex_add, hpage]
    dsimp only
    rw [if_neg (by simp [hps _ (List.getElem_mem _)])]
  unfold binderUpdatePageRange
  rw [if_neg (not_le.mpr hlt)]
  dsimp only
  rw [hn, hneed]
  dsimp only
  rw [hmm]
  rfl

end HeadlessAndroid.Binder
