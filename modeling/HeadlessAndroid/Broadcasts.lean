import HeadlessAndroid.Receiver
import HeadlessAndroid.Lib.StepSystem

/-!
# HeadlessAndroid.Broadcasts — the location helper over a sequence of broadcasts

Any sequence of `SET_LOCATION` and `STOP` broadcasts, each call of the LocationManager ending as it
will.  A provider is what its own calls have made of it (`receive_apply`, `isolated`).  `STOP`
disables and removes a provider in one `try`, so a provider that cannot be disabled stays a test
provider (`receiver_isolated_iff`).
-/

namespace HeadlessAndroid.Location

open Lib

/-- A broadcast that the receiver acts on, and how its calls for each provider end. -/
structure Broadcast where
  intent : Intent
  calls : Provider → LmCalls
  valid : intent.action = actionStop ∨
    intent.action = helperAction ∧ intent.fix.lat ≠ .nan ∧ intent.fix.lng ≠ .nan

namespace Broadcast

def IsStop (b : Broadcast) : Prop := b.intent.action = actionStop

instance (b : Broadcast) : Decidable b.IsStop := by unfold IsStop; infer_instance

/-- What concerns one provider: the intent and the outcomes of the calls that name the provider. -/
def own (p : Provider) (b : Broadcast) : Intent × LmCalls := (b.intent, b.calls p)

end Broadcast

def receive (d : Device) (b : Broadcast) : Device := onReceive b.calls b.intent d

/-- What a `STOP` makes of a provider whose calls end in this way. -/
def stopped (calls : LmCalls) (s : ProviderState) : ProviderState :=
  attempt calls.setTestProviderEnabled
    (fun s => attempt calls.removeTestProvider (fun s => { s with test := false })
      { s with enabled := false }) s

/-- What a `SET_LOCATION` makes of it. -/
def mocked (calls : LmCalls) (fix : Fix) (s : ProviderState) : ProviderState :=
  attempt calls.setTestProviderLocation (fun s => { s with location := some fix })
    (ensureProvider calls s)

def ownStep (s : ProviderState) (o : Intent × LmCalls) : ProviderState :=
  if o.1.action = actionStop then stopped o.2 s else mocked o.2 o.1.fix s

/-! ## One broadcast -/

theorem stopped_apply (calls : Provider → LmCalls) (d : Device) (p : Provider) :
    targets.foldl (stopProvider calls) d p = stopped (calls p) (d p) := by
  cases p <;> simp [targets, stopProvider, stopped, Function.update]

/-- **Each provider goes its own way**: what a broadcast makes of it depends on its own state and
its own calls. -/
theorem receive_apply (d : Device) (b : Broadcast) (p : Provider) :
    receive d b p = ownStep (d p) (b.own p) := by
  unfold receive onReceive ownStep Broadcast.own
  by_cases hstop : b.intent.action = actionStop
  · rw [if_pos hstop, if_pos hstop]
    exact stopped_apply b.calls d p
  · obtain ⟨hact, hlat, hlng⟩ := b.valid.resolve_left hstop
    rw [if_neg hstop, if_neg hstop, if_pos hact]
    unfold receiverSet
    rw [if_neg (not_or.mpr ⟨hlat, hlng⟩)]
    exact mocked_apply b.calls b.intent.fix d p

theorem mocked_carries {calls : LmCalls} (h : calls.setTestProviderLocation = .ok) (fix : Fix)
    (s : ProviderState) : (mocked calls fix s).location = some fix := by
  unfold mocked attempt
  rw [if_pos h]

/-- A `STOP` that could remove a test provider does so unless it fails to disable it first. -/
theorem stopped_test {calls : LmCalls} (h : calls.removeTestProvider = .ok) (s : ProviderState) :
    (stopped calls s).test = false ↔ calls.setTestProviderEnabled = .ok ∨ s.test = false := by
  unfold stopped attempt
  by_cases he : calls.setTestProviderEnabled = .ok
  · rw [if_pos he]
    simp only [if_pos h]
    exact iff_of_true trivial (.inl he)
  · rw [if_neg he]
    exact (or_iff_right he).symm

/-! ## Sequences of broadcasts -/

theorem foldl_receive_apply (p : Provider) : ∀ (bs : List Broadcast) (d : Device),
    bs.foldl receive d p = (bs.map (Broadcast.own p)).foldl ownStep (d p)
  | [], _ => rfl
  | b :: bs, d => by
    rw [List.foldl_cons, List.map_cons, List.foldl_cons, foldl_receive_apply p bs, receive_apply]

/-- The end of each provider is settled by where it began and by its own part of the broadcasts. -/
def Isolated (d : Device) (bs : List Broadcast) : Prop :=
  ∀ p d' bs', d' p = d p → List.map (Broadcast.own p) bs' = bs.map (Broadcast.own p) →
    List.foldl receive d' bs' p = bs.foldl receive d p

theorem isolated (d : Device) (bs : List Broadcast) : Isolated d bs := by
  intro p d' bs' hd hown
  rw [foldl_receive_apply, foldl_receive_apply, hd, hown]

/-- The device and the broadcast that it has just seen. -/
structure Reception where
  device : Device
  last : Option Broadcast := none

def receiver : StepSystem Reception Broadcast where
  step r b := some { device := receive r.device b, last := some b }

/-- What a broadcast is for: after a `SET` each provider whose calls took effect carries its
coordinates, and after a `STOP` each provider that could be removed is no test provider. -/
def Reception.Effective (r : Reception) : Prop :=
  ∀ b, r.last = some b →
    if b.IsStop then ∀ p, (b.calls p).removeTestProvider = .ok → (r.device p).test = false
    else ∀ p, (b.calls p).setTestProviderLocation = .ok → (r.device p).location = some b.intent.fix

/-- No test provider that could be removed is kept because it could not be disabled. -/
def Disables (r : Reception) (b : Broadcast) : Prop :=
  b.IsStop → ∀ p, (b.calls p).removeTestProvider = .ok →
    (b.calls p).setTestProviderEnabled = .ok ∨ (r.device p).test = false

theorem effective_receive (d : Device) (l : Option Broadcast) (b : Broadcast) :
    Reception.Effective ⟨receive d b, some b⟩ ↔ Disables ⟨d, l⟩ b := by
  have hlast : Reception.Effective ⟨receive d b, some b⟩ ↔
      if b.IsStop then ∀ p, (b.calls p).removeTestProvider = .ok → (receive d b p).test = false
      else ∀ p, (b.calls p).setTestProviderLocation = .ok →
        (receive d b p).location = some b.intent.fix :=
    ⟨fun h => h b rfl, fun h b' hb' => by cases hb'; exact h⟩
  rw [hlast]
  by_cases hstop : b.IsStop
  · have hown : ∀ p, receive d b p = stopped (b.calls p) (d p) := fun p => by
      rw [receive_apply]
      exact if_pos hstop
    rw [if_pos hstop]
    unfold Disables
    rw [forall_prop_of_true hstop]
    refine forall_congr' fun p => forall_congr' fun hremove => ?_
    rw [hown]
    exact stopped_test hremove (d p)
  · have hown : ∀ p, receive d b p = mocked (b.calls p) b.intent.fix (d p) := fun p => by
      rw [receive_apply]
      exact if_neg hstop
    rw [if_neg hstop]
    refine iff_of_true (fun p hset => ?_) fun h => absurd h hstop
    rw [hown]
    exact mocked_carries hset _ _

/-- **LocationReceiver.**  Over any sequence of broadcasts, with any of their calls failing: the
providers do not depend on one another, and every broadcast does what it is for, just when no
`STOP` fails to disable a test provider that it could remove. -/
theorem receiver_isolated_iff (d : Device) (bs : List Broadcast) :
    (Isolated d bs ∧ receiver.Always Reception.Effective { device := d } bs) ↔
      receiver.EachStep Disables { device := d } bs := by
  rw [and_iff_right (isolated d bs)]
  refine StepSystem.always_iff_eachStep (I := fun _ => True) (fun _ _ _ _ _ => trivial) ?_ trivial ?_
  · rintro ⟨d, l⟩ b _ - - hs
    cases hs
    exact effective_receive d l b
  · intro b hb
    cases hb

/-- `STOP` finds gps a test provider, cannot disable it and could remove it. -/
def stopUndisabled : Broadcast where
  intent := { action := actionStop }
  calls := fun _ => { setTestProviderEnabled := .exception }
  valid := .inl rfl

/-- gps is still a test provider after the `STOP`. -/
theorem stop_skips_removal : ¬ receiver.Always Reception.Effective
    { device := fun _ => ⟨true, true, none⟩ } [stopUndisabled] := by
  rintro ⟨-, h⟩
  have hstop := h _ rfl stopUndisabled rfl
  rw [if_pos (show stopUndisabled.IsStop from rfl)] at hstop
  have hgps : (receive (fun _ => ⟨true, true, none⟩) stopUndisabled .gps).test = false :=
    hstop .gps rfl
  rw [receive_apply] at hgps
  cases hgps

end HeadlessAndroid.Location
