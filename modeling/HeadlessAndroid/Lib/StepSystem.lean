import Mathlib.Data.List.Infix

/-!
# Lib.StepSystem — runs of a system that takes one labelled step at a time

A run is a list of labels.  `Always P` says that `P` holds in every state that a run visits and
`EachStep C` that every step it takes is one that `C` allows in the state before it.  The rules
below get the first from the second by induction on the run: an invariant (`always_of_inv`), and an
exact condition (`always_iff_eachStep`) where one step keeps `P` just when `C` allows it.
-/

namespace Lib

/-- States `σ`, step labels `ι`; `none` means that the label cannot occur in the state. -/
structure StepSystem (σ ι : Type*) where
  step : σ → ι → Option σ

namespace StepSystem

variable {σ ι : Type*} (M : StepSystem σ ι)

/-- The state after the labels `es`, if each of them can occur in turn. -/
def run : σ → List ι → Option σ
  | s, [] => some s
  | s, e :: es => (M.step s e).bind fun s' => run s' es

/-- `P` holds of `s` and of every state that the labels `es` lead to, one after the other. -/
def Always (P : σ → Prop) : σ → List ι → Prop
  | s, [] => P s
  | s, e :: es => P s ∧ ∀ s', M.step s e = some s' → Always P s' es

/-- Every step that the labels `es` take from `s` is one that `C` allows in the state before it. -/
def EachStep (C : σ → ι → Prop) : σ → List ι → Prop
  | _, [] => True
  | s, e :: es => ∀ s', M.step s e = some s' → C s e ∧ EachStep C s' es

instance EachStep.decidable (C : σ → ι → Prop) [∀ s e, Decidable (C s e)] :
    ∀ (s : σ) (es : List ι), Decidable (M.EachStep C s es)
  | _, [] => isTrue trivial
  | s, e :: es =>
    match h : M.step s e with
    | none => isTrue fun s' hs => absurd (h.symm.trans hs) (by simp)
    | some t =>
      haveI := EachStep.decidable C t es
      decidable_of_iff (C s e ∧ M.EachStep C t es)
        ⟨fun hC s' hs => Option.some.inj (h.symm.trans hs) ▸ hC, fun hC => hC t h⟩

variable {M}

theorem run_cons_of {s s' : σ} {e : ι} (h : M.step s e = some s') (es : List ι) :
    M.run s (e :: es) = M.run s' es := by
  simp [run, h]

theorem run_append {s s' : σ} {es fs : List ι} (h : M.run s es = some s') :
    M.run s (es ++ fs) = M.run s' fs := by
  induction es generalizing s with
  | nil =>
    cases h
    rfl
  | cons e es ih =>
    obtain ⟨t, ht, h⟩ := Option.bind_eq_some_iff.mp h
    rw [List.cons_append, run_cons_of ht]
    exact ih h

theorem Always.head {P : σ → Prop} {s : σ} {es : List ι} (h : M.Always P s es) : P s := by
  cases es with
  | nil => exact h
  | cons e es => exact h.1

theorem Always.mono {P Q : σ → Prop} (hPQ : ∀ s, P s → Q s) :
    ∀ {es : List ι} {s : σ}, M.Always P s es → M.Always Q s es
  | [], _, h => hPQ _ h
  | _ :: _, _, h => ⟨hPQ _ h.1, fun s' hs => (h.2 s' hs).mono hPQ⟩

theorem Always.last {P : σ → Prop} : ∀ {es : List ι} {s s' : σ}, M.Always P s es →
    M.run s es = some s' → P s'
  | [], _, _, hP, h => by
    cases h
    exact hP
  | _ :: _, _, _, hP, h => by
    obtain ⟨t, ht, h⟩ := Option.bind_eq_some_iff.mp h
    exact (hP.2 t ht).last h

/-- Labels that are allowed in every state. -/
theorem eachStep_of_label {C : σ → ι → Prop} :
    ∀ {es : List ι} {s : σ}, (∀ e ∈ es, ∀ s, C s e) → M.EachStep C s es
  | [], _, _ => trivial
  | _ :: _, s, h => fun _ _ =>
    ⟨h _ List.mem_cons_self s, eachStep_of_label fun e he => h e (List.mem_cons_of_mem _ he)⟩

theorem eachStep_append {C : σ → ι → Prop} {fs : List ι} :
    ∀ {es : List ι} {s : σ}, M.EachStep C s (es ++ fs) ↔
      M.EachStep C s es ∧ ∀ r, M.run s es = some r → M.EachStep C r fs
  | [], s => by
    constructor
    · intro h
      refine ⟨trivial, fun r hr => ?_⟩
      cases hr
      exact h
    · exact fun h => h.2 s rfl
  | e :: es, s => by
    constructor
    · intro h
      refine ⟨fun s' hs => ⟨(h s' hs).1, (eachStep_append.mp (h s' hs).2).1⟩, fun r hr => ?_⟩
      obtain ⟨s', hs, hr⟩ := Option.bind_eq_some_iff.mp hr
      exact (eachStep_append.mp (h s' hs).2).2 r hr
    · intro h s' hs
      refine ⟨(h.1 s' hs).1, eachStep_append.mpr ⟨(h.1 s' hs).2, fun r hr => h.2 r ?_⟩⟩
      rw [run_cons_of hs, hr]

theorem eachStep_congr {C D : σ → ι → Prop} (h : ∀ s e, C s e ↔ D s e) :
    ∀ {es : List ι} {s : σ}, M.EachStep C s es ↔ M.EachStep D s es
  | [], _ => Iff.rfl
  | e :: _, s => forall₂_congr fun _ _ => and_congr (h s e) (eachStep_congr h)

/-- Where every step from a state of the invariant `I` is allowed and keeps `I`, every run takes
allowed steps only. -/
theorem eachStep_of_inv {I : σ → Prop} {C : σ → ι → Prop}
    (hstep : ∀ s e s', I s → M.step s e = some s' → C s e ∧ I s') :
    ∀ {es : List ι} {s : σ}, I s → M.EachStep C s es
  | [], _, _ => trivial
  | e :: _, s, hI => fun s' hs =>
    ⟨(hstep s e s' hI hs).1, eachStep_of_inv hstep (hstep s e s' hI hs).2⟩

/-- What holds at the start and is kept by every allowed step holds throughout the run. -/
theorem always_of_inv {I : σ → Prop} {C : σ → ι → Prop}
    (hstep : ∀ s e s', I s → C s e → M.step s e = some s' → I s') :
    ∀ {es : List ι} {s : σ}, I s → M.EachStep C s es → M.Always I s es
  | [], _, hI, _ => hI
  | e :: _, s, hI, hC =>
    ⟨hI, fun s' hs => always_of_inv hstep (hstep s e s' hI (hC s' hs).1 hs) (hC s' hs).2⟩

/-- What holds at the start and is kept by every step holds where the run ends. -/
theorem run_inv {I : σ → Prop} (hstep : ∀ s e s', I s → M.step s e = some s' → I s') :
    ∀ {es : List ι} {s r : σ}, I s → M.run s es = some r → I r
  | [], _, _, hI, h => by cases h; exact hI
  | e :: _, s, _, hI, h => by
    obtain ⟨s', hs, h⟩ := Option.bind_eq_some_iff.mp h
    exact run_inv hstep (hstep s e s' hI hs) h

/-- What holds before the first step and goes on with every step holds of a run and of where it
ends. -/
theorem run_history {H : List ι → σ → Prop} {s r : σ} {es : List ι} (hnil : H [] s)
    (hstep : ∀ ds t e t', H ds t → M.step t e = some t' → H (ds ++ [e]) t')
    (h : M.run s es = some r) : H es r := by
  suffices hgo : ∀ (es ds : List ι) (t : σ), H ds t → M.run t es = some r → H (ds ++ es) r from
    hgo es [] s hnil h
  intro es
  induction es with
  | nil =>
    intro ds t hH h
    cases h
    rwa [List.append_nil]
  | cons e es ih =>
    intro ds t hH h
    obtain ⟨t', ht, h⟩ := Option.bind_eq_some_iff.mp h
    have hgo := ih (ds ++ [e]) t' (hstep ds t e t' hH ht) h
    rwa [List.append_assoc, List.singleton_append] at hgo

/-- Where, under the invariant `I`, a step from a `P`-state leads to a `P`-state just when `C`
allows it, a run stays in `P` just when `C` allows each of its steps. -/
theorem always_iff_eachStep {I P : σ → Prop} {C : σ → ι → Prop}
    (hI : ∀ s e s', I s → M.step s e = some s' → I s')
    (hstep : ∀ s e s', I s → P s → M.step s e = some s' → (P s' ↔ C s e)) :
    ∀ {es : List ι} {s : σ}, I s → P s → (M.Always P s es ↔ M.EachStep C s es)
  | [], _, _, hP => ⟨fun _ => trivial, fun _ => hP⟩
  | e :: es, s, hIs, hPs => by
    constructor
    · rintro ⟨-, htl⟩ s' hs
      have hPs' : P s' := (htl s' hs).head
      exact ⟨(hstep s e s' hIs hPs hs).mp hPs',
        (always_iff_eachStep hI hstep (hI s e s' hIs hs) hPs').mp (htl s' hs)⟩
    · intro hC
      refine ⟨hPs, fun s' hs => ?_⟩
      have hPs' : P s' := (hstep s e s' hIs hPs hs).mpr (hC s' hs).1
      exact (always_iff_eachStep hI hstep (hI s e s' hIs hs) hPs').mpr (hC s' hs).2

end StepSystem

end Lib
