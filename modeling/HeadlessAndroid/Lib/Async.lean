import Mathlib.Data.Nat.Notation
import Mathlib.Logic.Basic

/-!
# Lib.Async — async functions as trees of the calls they await

A function runs without interruption up to its next `await`, so that what it is at a moment is the
call it waits for and what it does with the answer.  It may send messages on its way and may throw.
`run` lets a world answer the calls; a world that gives no answer leaves the function rejected or
waiting.
-/

namespace Lib

/-- `C` are the calls, `R c` the answers to the call `c`, `ρ` the messages. -/
inductive Async {C : Type} (R : C → Type) (ρ : Type) (α : Type) where
  | pure (a : α)
  | throw
  | send (r : ρ) (k : Async R ρ α)
  | await (c : C) (k : R c → Async R ρ α)

namespace Async

variable {C : Type} {R : C → Type} {ρ α β γ σ : Type}

def bind : Async R ρ α → (α → Async R ρ β) → Async R ρ β
  | pure a, f => f a
  | throw, _ => throw
  | send r k, f => send r (k.bind f)
  | await c k, f => await c fun a => (k a).bind f

instance : Monad (Async R ρ) where
  pure := Async.pure
  bind := Async.bind

/-- Awaits one call. -/
def call (c : C) : Async R ρ (R c) := await c pure

/-- Sends one message. -/
def emit (r : ρ) : Async R ρ Unit := send r (pure ())

/-- A conversion that may throw. -/
def ofOption : Option α → Async R ρ α
  | some a => pure a
  | none => throw

section Bind

variable (f : α → Async R ρ β)

@[simp] theorem pure_bind' (a : α) : (pure a : Async R ρ α) >>= f = f a := rfl

@[simp] theorem throw_bind : (throw : Async R ρ α) >>= f = throw := rfl

@[simp] theorem send_bind (r : ρ) (k : Async R ρ α) : send r k >>= f = send r (k >>= f) := rfl

@[simp] theorem await_bind (c : C) (k : R c → Async R ρ α) :
    await c k >>= f = await c fun a => k a >>= f := rfl

@[simp] theorem call_bind (c : C) (f : R c → Async R ρ β) : call c >>= f = await c f := rfl

@[simp] theorem emit_bind (r : ρ) (f : Unit → Async R ρ β) : emit r >>= f = send r (f ()) := rfl

@[simp] theorem pure_eq (a : α) : (Pure.pure a : Async R ρ α) = pure a := rfl

@[simp] theorem ofOption_some (a : α) : (ofOption (some a) : Async R ρ α) = pure a := rfl

@[simp] theorem ofOption_none : (ofOption none : Async R ρ α) = throw := rfl

end Bind

/-! ## Runs -/

/-- What a run comes to: the value it is fulfilled with, if it is, and all it sent. -/
structure Ended (σ ρ α : Type) where
  value : Option α
  sent : List ρ
  state : σ

/-- A world answers a call or gives no answer to it, and changes. -/
abbrev World {C : Type} (R : C → Type) (σ : Type) := (c : C) → σ → Option (R c) × σ

def run (world : World R σ) : Async R ρ α → σ → Ended σ ρ α
  | pure a, s => ⟨some a, [], s⟩
  | throw, s => ⟨none, [], s⟩
  | send r k, s =>
    let e := run world k s
    ⟨e.value, r :: e.sent, e.state⟩
  | await c k, s =>
    match world c s with
    | (some a, s') => run world (k a) s'
    | (none, s') => ⟨none, [], s'⟩

/-- The calls that the run awaits, in their order. -/
def calls (world : World R σ) : Async R ρ α → σ → List C
  | pure _, _ => []
  | throw, _ => []
  | send _ k, s => calls world k s
  | await c k, s =>
    c :: match world c s with
    | (some a, s') => calls world (k a) s'
    | (none, _) => []

/-- Each call that the run awaits gets an answer. -/
def Answered (world : World R σ) : Async R ρ α → σ → Prop
  | pure _, _ => True
  | throw, _ => True
  | send _ k, s => Answered world k s
  | await c k, s =>
    match world c s with
    | (some a, s') => Answered world (k a) s'
    | (none, _) => False

/-- The run is fulfilled and has sent exactly one message. -/
def Ended.One (e : Ended σ ρ α) : Prop := e.value.isSome ∧ e.sent.length = 1

/-- Whatever answers it gets, the function throws nothing and has sent `n` messages in the end. -/
def Sends : ℕ → Async R ρ α → Prop
  | n, pure _ => n = 0
  | _, throw => False
  | n, send _ k => ∃ m, n = m + 1 ∧ Sends m k
  | n, await _ k => ∀ a, Sends n (k a)

section Run

variable (world : World R σ)

@[simp] theorem run_pure (a : α) (s : σ) :
    (pure a : Async R ρ α).run world s = ⟨some a, [], s⟩ := rfl

@[simp] theorem run_throw (s : σ) : (throw : Async R ρ α).run world s = ⟨none, [], s⟩ := rfl

@[simp] theorem run_send (r : ρ) (k : Async R ρ α) (s : σ) : (send r k).run world s =
    ⟨(k.run world s).value, r :: (k.run world s).sent, (k.run world s).state⟩ := rfl

theorem run_await (c : C) (k : R c → Async R ρ α) (s : σ) : (await c k).run world s =
    match world c s with
    | (some a, s') => (k a).run world s'
    | (none, s') => ⟨none, [], s'⟩ := by
  conv => lhs; unfold run

theorem calls_await (c : C) (k : R c → Async R ρ α) (s : σ) : (await c k).calls world s =
    c :: match world c s with
    | (some a, s') => (k a).calls world s'
    | (none, _) => [] := by
  conv => lhs; unfold calls

/-- A run goes on with the value that its first part is fulfilled with. -/
theorem run_bind_of : ∀ {x : Async R ρ α} {f : α → Async R ρ β} {s s' : σ} {a : α},
    x.run world s = ⟨some a, [], s'⟩ → (x >>= f).run world s = (f a).run world s'
  | pure _, _, _, _, _, h => by
    cases h
    rfl
  | throw, _, _, _, _, h => by cases h
  | send _ _, _, _, _, _, h => absurd (congrArg Ended.sent h) (List.cons_ne_nil _ _)
  | await c k, f, s, s', a, h => by
    rw [await_bind]
    rw [run_await] at h ⊢
    split at h
    · rename_i b s'' hw
      exact run_bind_of h
    · cases h

theorem not_one_throw (s : σ) : ¬ ((throw : Async R ρ α).run world s).One := by
  simp [Ended.One]

theorem one_await_iff {c : C} {k : R c → Async R ρ α} {s : σ} :
    ((await c k).run world s).One ↔
      ∃ a s', world c s = (some a, s') ∧ ((k a).run world s').One := by
  rw [run_await]
  split
  · rename_i a s' hw
    constructor
    · exact fun h => ⟨a, s', hw, h⟩
    · rintro ⟨a', s'', hw', h⟩
      rw [hw] at hw'
      cases hw'
      exact h
  · rename_i s' hw
    refine iff_of_false (fun h => by cases h.1) ?_
    rintro ⟨a', s'', hw', -⟩
    rw [hw] at hw'
    cases hw'

/-- A run that is fulfilled has had all its calls answered. -/
theorem answered_of_value : ∀ {x : Async R ρ α} {s : σ},
    (x.run world s).value.isSome → x.Answered world s
  | pure _, _, _ => trivial
  | throw, _, _ => trivial
  | send _ k, _, h => answered_of_value (x := k) h
  | await c k, s, h => by
    unfold run at h
    unfold Answered
    split at h
    · rename_i a s' hw
      exact answered_of_value h
    · cases h

/-- A run that throws nothing is fulfilled once its calls are answered. -/
theorem Sends.run : ∀ {n : ℕ} {x : Async R ρ α} {s : σ}, Sends n x → x.Answered world s →
    (x.run world s).value.isSome ∧ (x.run world s).sent.length = n
  | _, pure _, _, hn, _ => ⟨rfl, hn.symm⟩
  | _, send _ k, s, ⟨m, hm, hk⟩, ha => by
    obtain ⟨hv, hl⟩ := Sends.run (x := k) (s := s) hk ha
    exact ⟨hv, by rw [hm, ← hl]; rfl⟩
  | n, await c k, s, hk, ha => by
    unfold Answered at ha
    unfold Async.run
    split at ha
    · rename_i a s' hw
      exact Sends.run (hk a) ha
    · cases ha

/-- **A function that sends one message whatever it is answered** is fulfilled with one message
just when all its calls are answered. -/
theorem one_iff_answered {x : Async R ρ α} (hx : Sends 1 x) (s : σ) :
    (x.run world s).One ↔ x.Answered world s :=
  ⟨fun h => answered_of_value world h.1, fun h => hx.run world h⟩

end Run

theorem Sends.bind {n : ℕ} : ∀ {x : Async R ρ α} {f : α → Async R ρ β},
    Sends 0 x → (∀ a, Sends n (f a)) → Sends n (x >>= f)
  | pure a, _, _, hf => hf a
  | send _ _, _, ⟨_, hm, _⟩, _ => by omega
  | await _ k, _, hx, hf => fun a => Sends.bind (x := k a) (hx a) hf

end Async

end Lib
