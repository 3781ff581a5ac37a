import HeadlessAndroid.Lib.StepSystem
import HeadlessAndroid.Lib.Utf8

/-!
# HeadlessAndroid.LocationHooks — which Location objects an app sees sanitized

`LocationHooks.install` hooks `isFromMockProvider`, `isMock` and `getExtras`.  The hooks look at the
provider of the object, which the app can set; what they are after is where its data came from.  The
model carries that origin beside each object and follows it through copies (`hooks_right_iff`).
-/

namespace HeadlessAndroid.LocationHooks

open Lib

/-- `SYSTEM_PROVIDERS`. -/
def systemProviders : List Text := ["gps", "network", "fused", "passive"].map String.toList

def mockKey : Text := "mockLocation".toList

/-- A `Bundle` with values in `β`. -/
@[ext] structure Bundle (β : Type) where
  get : Text → Option β

variable {β : Type}

def Bundle.containsKey (b : Bundle β) (k : Text) : Bool := (b.get k).isSome

def Bundle.remove (b : Bundle β) (k : Text) : Bundle β := ⟨Function.update b.get k none⟩

inductive Origin where
  /-- A fix that the system delivered. -/
  | system
  /-- The app's own constructor. -/
  | app
  deriving DecidableEq

/-- The fields of a `Location` that the hooks read, and where its data came from, which no code can
see. -/
structure LocationObject (β : Type) where
  provider : Option Text
  mock : Bool
  extras : Option (Bundle β)
  origin : Origin

def isFromSystemProvider (loc : LocationObject β) : Bool :=
  match loc.provider with
  | some p => systemProviders.contains p
  | none => false

/-! ## The hooks -/

/-- `afterHookedMethod` of the two getters of the flag. -/
def mockFlagHook (loc : LocationObject β) (result : Bool) : Bool :=
  if isFromSystemProvider loc && result == true then false else result

def isFromMockProviderHook (loc : LocationObject β) (result : Bool) : Bool := mockFlagHook loc result

def isMockHook (loc : LocationObject β) (result : Bool) : Bool := mockFlagHook loc result

/-- `getExtras` returns the bundle that the object holds, so that the hook removes the key from the
object too. -/
def getExtrasHook (loc : LocationObject β) : Option (Bundle β) × LocationObject β :=
  if !isFromSystemProvider loc then (loc.extras, loc)
  else
    match loc.extras with
    | none => (none, loc)
    | some extras =>
      if extras.containsKey mockKey then
        (some (extras.remove mockKey), { loc with extras := some (extras.remove mockKey) })
      else (some extras, loc)

inductive Getter where
  | isFromMockProvider
  | isMock
  | getExtras

inductive Answer (β : Type) where
  | flag (b : Bool)
  | extras (e : Option (Bundle β))

/-- A call of a getter in the hooked app: its result, and the object after it. -/
def hooked (loc : LocationObject β) : Getter → Answer β × LocationObject β
  | .isFromMockProvider => (.flag (isFromMockProviderHook loc loc.mock), loc)
  | .isMock => (.flag (isMockHook loc loc.mock), loc)
  | .getExtras => (.extras (getExtrasHook loc).1, (getExtrasHook loc).2)

/-! ## What the getters should say -/

def unhooked (loc : LocationObject β) : Getter → Answer β
  | .isFromMockProvider => .flag loc.mock
  | .isMock => .flag loc.mock
  | .getExtras => .extras loc.extras

/-- What the getter says of real hardware. -/
def sanitized (loc : LocationObject β) : Getter → Answer β
  | .isFromMockProvider => .flag false
  | .isMock => .flag false
  | .getExtras => .extras (loc.extras.map fun e => e.remove mockKey)

/-- A call that was made: the object before it, the result and the object after it. -/
structure Reading (β : Type) where
  getter : Getter
  before : LocationObject β
  result : Answer β
  after : LocationObject β

/-- Data of the system is sanitized; the app's own objects answer as without hooks and keep their
extras. -/
def Reading.Right (r : Reading β) : Prop :=
  match r.before.origin with
  | .system => r.result = sanitized r.before r.getter
  | .app => r.result = unhooked r.before r.getter ∧ r.after.extras = r.before.extras

/-- The provider tells where the data came from. -/
def LocationObject.Telling (loc : LocationObject β) : Prop :=
  isFromSystemProvider loc = true ↔ loc.origin = .system

/-- There is nothing for the hook of the getter to hide. -/
def LocationObject.Unmarked (loc : LocationObject β) : Getter → Prop
  | .isFromMockProvider => loc.mock = false
  | .isMock => loc.mock = false
  | .getExtras => ∀ e ∈ loc.extras, e.containsKey mockKey = false

def reading (loc : LocationObject β) (g : Getter) : Reading β :=
  ⟨g, loc, (hooked loc g).1, (hooked loc g).2⟩

/-! ## One call -/

theorem mockFlagHook_eq (loc : LocationObject β) (b : Bool) :
    mockFlagHook loc b = (b && !isFromSystemProvider loc) := by
  unfold mockFlagHook
  cases b <;> cases isFromSystemProvider loc <;> rfl

theorem Bundle.remove_eq_self_iff {b : Bundle β} {k : Text} :
    b.remove k = b ↔ b.containsKey k = false := by
  unfold containsKey
  rw [Option.isSome_eq_false_iff, Option.isNone_iff_eq_none]
  constructor
  · intro h
    rw [← h]
    exact Function.update_self ..
  · intro h
    ext1
    exact Function.update_eq_self_iff.mpr h.symm

theorem getExtrasHook_app {loc : LocationObject β} (h : isFromSystemProvider loc = false) :
    getExtrasHook loc = (loc.extras, loc) := by
  unfold getExtrasHook
  rw [h]
  rfl

/-- On an object of a system provider the key is gone, from the result and from the object. -/
theorem getExtrasHook_system {loc : LocationObject β} (h : isFromSystemProvider loc = true) :
    getExtrasHook loc = (loc.extras.map fun e => e.remove mockKey,
      { loc with extras := loc.extras.map fun e => e.remove mockKey }) := by
  obtain ⟨provider, mock, extras, origin⟩ := loc
  unfold getExtrasHook
  rw [h]
  cases extras with
  | none => rfl
  | some e =>
    by_cases hk : e.containsKey mockKey = true
    · simp [hk]
    · have hself : e.remove mockKey = e :=
        Bundle.remove_eq_self_iff.mpr (Bool.eq_false_of_not_eq_true hk)
      simp [hk, hself]

theorem map_remove_eq_self_iff {o : Option (Bundle β)} :
    (o.map fun e => e.remove mockKey) = o ↔ ∀ e ∈ o, e.containsKey mockKey = false := by
  cases o with
  | none => simp
  | some e => simp [Bundle.remove_eq_self_iff]

theorem hooked_app {loc : LocationObject β} (h : isFromSystemProvider loc = false) (g : Getter) :
    hooked loc g = (unhooked loc g, loc) := by
  have hflag : mockFlagHook loc loc.mock = loc.mock := by
    rw [mockFlagHook_eq, h]
    exact Bool.and_true _
  cases g with
  | isFromMockProvider => exact congrArg (fun b => (Answer.flag b, loc)) hflag
  | isMock => exact congrArg (fun b => (Answer.flag b, loc)) hflag
  | getExtras =>
    show (Answer.extras (getExtrasHook loc).1, (getExtrasHook loc).2) = _
    rw [getExtrasHook_app h]
    rfl

theorem hooked_system {loc : LocationObject β} (h : isFromSystemProvider loc = true) (g : Getter) :
    (hooked loc g).1 = sanitized loc g ∧
      (loc.Unmarked g → (hooked loc g).2.extras = loc.extras) := by
  have hflag : mockFlagHook loc loc.mock = false := by
    rw [mockFlagHook_eq, h]
    exact Bool.and_false _
  cases g with
  | isFromMockProvider => exact ⟨congrArg Answer.flag hflag, fun _ => rfl⟩
  | isMock => exact ⟨congrArg Answer.flag hflag, fun _ => rfl⟩
  | getExtras =>
    show Answer.extras (getExtrasHook loc).1 = _ ∧ (_ → (getExtrasHook loc).2.extras = _)
    rw [getExtrasHook_system h]
    exact ⟨rfl, map_remove_eq_self_iff.mpr⟩

/-- Sanitizing changes nothing just where there is nothing to hide. -/
theorem sanitized_eq_unhooked_iff {loc : LocationObject β} {g : Getter} :
    sanitized loc g = unhooked loc g ↔ loc.Unmarked g := by
  cases g with
  | isFromMockProvider => exact Answer.flag.injEq .. ▸ eq_comm
  | isMock => exact Answer.flag.injEq .. ▸ eq_comm
  | getExtras => exact Answer.extras.injEq .. ▸ map_remove_eq_self_iff

/-- **A call is right just when the provider tells the origin or there is nothing to hide.** -/
theorem reading_right_iff (loc : LocationObject β) (g : Getter) :
    (reading loc g).Right ↔ loc.Telling ∨ loc.Unmarked g := by
  unfold Reading.Right reading LocationObject.Telling
  cases hp : isFromSystemProvider loc <;> cases ho : loc.origin
  · -- data of the system that the hook does not recognise
    simp only [hooked_app hp]
    rw [or_iff_right (by simp), eq_comm]
    exact sanitized_eq_unhooked_iff
  · simp [hooked_app hp]
  · simp [(hooked_system hp g).1]
  · -- an object of the app that the hook takes for the system's
    obtain ⟨hres, hkeep⟩ := hooked_system hp g
    rw [or_iff_right (by simp)]
    show (hooked loc g).1 = unhooked loc g ∧ (hooked loc g).2.extras = loc.extras ↔ _
    rw [hres, sanitized_eq_unhooked_iff]
    exact ⟨fun h => h.1, fun h => ⟨h, hkeep h⟩⟩

/-! ## Histories -/

/-- The objects of the app, and the last call of a getter. -/
structure Heap (β : Type) where
  objects : List (LocationObject β) := []
  last : Option (Reading β) := none

inductive Event (β : Type) where
  /-- A listener gets a fix from a provider of the system. -/
  | deliver (provider : Text) (mock : Bool) (extras : Option (Bundle β))
  /-- `Location(provider)`. -/
  | construct (provider : Option Text)
  /-- `Location(other)`. -/
  | copy (i : ℕ)
  /-- `set(other)`. -/
  | set (i other : ℕ)
  | setProvider (i : ℕ) (provider : Option Text)
  /-- `setExtras` stores a copy of the bundle. -/
  | setExtras (i : ℕ) (extras : Option (Bundle β))
  | setMock (i : ℕ) (mock : Bool)
  | call (i : ℕ) (g : Getter)

/-- A change of the object `i`, if there is one. -/
def Heap.change (h : Heap β) (i : ℕ) (f : LocationObject β → LocationObject β) : Option (Heap β) :=
  h.objects[i]?.map fun loc => { objects := h.objects.set i (f loc) }

def Heap.new (h : Heap β) (loc : LocationObject β) : Heap β := { objects := h.objects ++ [loc] }

def heapStep (h : Heap β) : Event β → Option (Heap β)
  | .deliver p mock extras =>
    if systemProviders.contains p then some (h.new ⟨some p, mock, extras, .system⟩) else none
  | .construct p => some (h.new ⟨p, false, none, .app⟩)
  | .copy i => h.objects[i]?.map h.new
  -- the provider, the flag and the extras come with the data
  | .set i other => h.objects[other]?.bind fun loc => h.change i fun _ => loc
  | .setProvider i p => h.change i fun loc => { loc with provider := p }
  | .setExtras i extras => h.change i fun loc => { loc with extras := extras }
  | .setMock i mock => h.change i fun loc => { loc with mock := mock }
  | .call i g => h.objects[i]?.map fun loc =>
      { objects := h.objects.set i (hooked loc g).2, last := some (reading loc g) }

def heapSystem : StepSystem (Heap β) (Event β) where
  step := heapStep

/-- The last call of a getter, if the last event was one, was right. -/
def Heap.Right (h : Heap β) : Prop := ∀ r ∈ h.last, r.Right

/-- A getter is called where the provider tells the origin or there is nothing to hide. -/
def CalledRight (h : Heap β) : Event β → Prop
  | .call i g => ∀ loc ∈ h.objects[i]?, loc.Telling ∨ loc.Unmarked g
  | _ => True

/-- The app gives no provider of the system to data of its own, and no other to data of the
system. -/
def KeepsTelling (h : Heap β) : Event β → Prop
  | .construct p => isFromSystemProvider (⟨p, false, none, .app⟩ : LocationObject β) = false
  | .setProvider i p => ∀ loc ∈ h.objects[i]?, ({ loc with provider := p } : LocationObject β).Telling
  | _ => True

/-- Every provider tells where the data came from. -/
def Heap.Telling (h : Heap β) : Prop := ∀ loc ∈ h.objects, loc.Telling

theorem change_eq_some {h h' : Heap β} {i : ℕ} {f : LocationObject β → LocationObject β}
    (hc : h.change i f = some h') : ∃ loc, h.objects[i]? = some loc ∧
      h' = { objects := h.objects.set i (f loc) } := by
  obtain ⟨loc, hloc, rfl⟩ := Option.map_eq_some_iff.mp hc
  exact ⟨loc, hloc, rfl⟩

/-- Only a call of a getter leaves a reading. -/
theorem right_of_not_call {h h' : Heap β} {e : Event β} (he : ∀ i g, e ≠ .call i g)
    (hs : heapStep h e = some h') : h'.Right := by
  have hnone : h'.last = none := by
    cases e with
    | deliver p mock extras =>
      obtain ⟨-, hs⟩ := Option.ite_none_right_eq_some.mp hs
      cases hs
      rfl
    | construct p =>
      cases hs
      rfl
    | copy i =>
      obtain ⟨loc, -, rfl⟩ := Option.map_eq_some_iff.mp hs
      rfl
    | set i other =>
      obtain ⟨loc, -, hs⟩ := Option.bind_eq_some_iff.mp hs
      obtain ⟨-, -, rfl⟩ := change_eq_some hs
      rfl
    | setProvider i p =>
      obtain ⟨-, -, rfl⟩ := change_eq_some hs
      rfl
    | setExtras i extras =>
      obtain ⟨-, -, rfl⟩ := change_eq_some hs
      rfl
    | setMock i mock =>
      obtain ⟨-, -, rfl⟩ := change_eq_some hs
      rfl
    | call i g => exact absurd rfl (he i g)
  intro r hr
  rw [hnone] at hr
  cases hr

theorem right_step {h h' : Heap β} {e : Event β} (hs : heapStep h e = some h') :
    h'.Right ↔ CalledRight h e := by
  cases e with
  | call i g =>
    obtain ⟨loc, hloc, rfl⟩ := Option.map_eq_some_iff.mp hs
    show _ ↔ ∀ l ∈ h.objects[i]?, l.Telling ∨ l.Unmarked g
    rw [hloc]
    constructor
    · rintro hr _ ⟨⟩
      exact (reading_right_iff loc g).mp (hr _ rfl)
    · rintro hc _ ⟨⟩
      exact (reading_right_iff loc g).mpr (hc _ rfl)
  | _ => exact iff_of_true (right_of_not_call (fun _ _ he => by cases he) hs) trivial

/-- A getter leaves the provider and the data. -/
theorem hooked_telling {loc : LocationObject β} (g : Getter) (h : loc.Telling) :
    (hooked loc g).2.Telling := by
  cases g with
  | isFromMockProvider => exact h
  | isMock => exact h
  | getExtras =>
    show (getExtrasHook loc).2.Telling
    cases hp : isFromSystemProvider loc with
    | false =>
      rw [getExtrasHook_app hp]
      exact h
    | true =>
      rw [getExtrasHook_system hp]
      exact h

theorem Heap.Telling.new {h : Heap β} (hT : h.Telling) {loc : LocationObject β} (hl : loc.Telling) :
    (h.new loc).Telling := by
  intro l hmem
  rcases List.mem_append.mp hmem with hmem | hmem
  · exact hT l hmem
  · obtain rfl := List.mem_singleton.mp hmem
    exact hl

theorem Heap.Telling.set {h : Heap β} (hT : h.Telling) (i : ℕ) {loc : LocationObject β}
    (hl : loc.Telling) (r : Option (Reading β)) :
    Heap.Telling { objects := h.objects.set i loc, last := r } := by
  intro l hmem
  rcases List.mem_or_eq_of_mem_set hmem with hmem | rfl
  · exact hT l hmem
  · exact hl

/-- **No step makes a provider lie** but a constructor or a `setProvider` that gives a wrong one. -/
theorem telling_step {h h' : Heap β} {e : Event β} (hT : h.Telling) (hk : KeepsTelling h e)
    (hs : heapStep h e = some h') : h'.Telling := by
  have hmem : ∀ {i : ℕ} {loc : LocationObject β}, h.objects[i]? = some loc → loc.Telling :=
    fun hloc => hT _ (List.mem_of_getElem? hloc)
  cases e with
  | deliver p mock extras =>
    obtain ⟨hp, hs⟩ := Option.ite_none_right_eq_some.mp hs
    cases hs
    exact hT.new (iff_of_true hp rfl)
  | construct p =>
    cases hs
    exact hT.new (iff_of_false (fun hp => by rw [hk] at hp; cases hp) (fun ho => by cases ho))
  | copy i =>
    obtain ⟨loc, hloc, rfl⟩ := Option.map_eq_some_iff.mp hs
    exact hT.new (hmem hloc)
  | set i other =>
    obtain ⟨loc, hloc, hs⟩ := Option.bind_eq_some_iff.mp hs
    obtain ⟨-, -, rfl⟩ := change_eq_some hs
    exact hT.set i (hmem hloc) none
  | setProvider i p =>
    obtain ⟨loc, hloc, rfl⟩ := change_eq_some hs
    exact hT.set i (hk loc hloc) none
  | setExtras i extras =>
    obtain ⟨loc, hloc, rfl⟩ := change_eq_some hs
    have hl : LocationObject.Telling { loc with extras := extras } :=
      show loc.Telling from hmem hloc
    exact hT.set i hl none
  | setMock i mock =>
    obtain ⟨loc, hloc, rfl⟩ := change_eq_some hs
    have hl : LocationObject.Telling { loc with mock := mock } :=
      show loc.Telling from hmem hloc
    exact hT.set i hl none
  | call i g =>
    obtain ⟨loc, hloc, rfl⟩ := Option.map_eq_some_iff.mp hs
    exact hT.set i (hooked_telling g (hmem hloc)) _

theorem Heap.Telling.calledRight {h : Heap β} (hT : h.Telling) (e : Event β) : CalledRight h e := by
  cases e with
  | call i g => exact fun loc hloc => .inl (hT loc (List.mem_of_getElem? hloc))
  | _ => trivial

theorem right_empty : ({} : Heap β).Right := fun _ hr => by cases hr

/-- **LocationHooks.**  Over every history of Location objects: all calls of the getters are right
just when each of them finds a provider that tells where the data came from, or nothing to hide; and
that is so if the app never gives an object a provider that lies. -/
theorem hooks_right_iff (evs : List (Event β)) :
    (heapSystem.Always Heap.Right ({} : Heap β) evs ↔ heapSystem.EachStep CalledRight {} evs) ∧
      (heapSystem.EachStep KeepsTelling ({} : Heap β) evs → heapSystem.Always Heap.Right {} evs) := by
  constructor
  · exact StepSystem.always_iff_eachStep (I := fun _ => True) (fun _ _ _ _ _ => trivial)
      (fun _ _ _ _ _ hs => right_step hs) trivial right_empty
  · intro hk
    have hboth : heapSystem.Always (fun h : Heap β => h.Telling ∧ h.Right) {} evs := by
      refine StepSystem.always_of_inv (C := KeepsTelling) ?_
        ⟨fun _ hmem => absurd hmem List.not_mem_nil, right_empty⟩ hk
      rintro h e h' ⟨hT, -⟩ hk hs
      exact ⟨telling_step hT hk hs, (right_step hs).mpr (hT.calledRight e)⟩
    exact hboth.mono fun _ h => h.2

/-- The app makes a Location of its own for gps, marks it as mocked and asks. -/
def selfTest : List (Event Unit) :=
  [.construct (some "gps".toList), .setMock 0 true, .call 0 .isMock]

def selfMade : LocationObject Unit := ⟨some "gps".toList, true, none, .app⟩

/-- It is told that the Location is not mocked. -/
theorem self_test_caught : ¬ heapSystem.Always Heap.Right ({} : Heap Unit) selfTest := by
  intro h
  have hrun : heapSystem.run {} selfTest =
      some ⟨[selfMade], some ⟨.isMock, selfMade, .flag false, selfMade⟩⟩ := rfl
  obtain ⟨hres, -⟩ := h.last hrun _ rfl
  cases hres

end HeadlessAndroid.LocationHooks
