import HeadlessAndroid.Lib.Chunks
import HeadlessAndroid.Emu

/-!
# HeadlessAndroid.EmuChunks — how the console's output is cut

The `data` handler decodes and tests the buffer after each chunk.  What `emuCommand` resolves with and
what it has written by then does not depend on where the chunks end just when no prefix of the output
passes a test that the whole output fails (`cutAnyhow_iff`).
-/

namespace HeadlessAndroid.Emu

open Lib Lib.Js Lib.Utf8

/-! ## A run -/

/-- What comes after the output. -/
inductive Terminal where
  | close
  | error (message : Text)
  | timeout
  deriving DecidableEq

def Terminal.apply : Terminal → EmuClient → EmuClient
  | .close, c => onClose c
  | .error message, c => onError c message
  | .timeout, c => onTimeout c

/-- The chunks reach the handler until the promise is settled, which destroys the socket. -/
def deliver (cfg : EmuConfig) : EmuClient → List Bytes → EmuClient
  | c, [] => c
  | c, d :: ds => if c.done then c else deliver cfg (onData cfg c d) ds

/-- The value of `ok` and what was written to the socket. -/
def outcome (cfg : EmuConfig) (chunks : List Bytes) (T : Terminal) : Option Bool × Text :=
  ((T.apply (deliver cfg {} chunks)).result.map EmuResult.ok, (T.apply (deliver cfg {} chunks)).written)

/-- A way of splitting the output into chunks, none of them empty. -/
def Splits (S : Bytes) (chunks : List Bytes) : Prop := chunks.flatten = S ∧ [] ∉ chunks

def CutAnyhow (cfg : EmuConfig) (S : Bytes) (T : Terminal) : Prop :=
  ∀ cs cs', Splits S cs → Splits S cs' → outcome cfg cs T = outcome cfg cs' T

/-! ## What holds of the client -/

structure ClientInv (cfg : EmuConfig) (c : EmuClient) : Prop where
  written : c.written =
    (if c.sentAuth then authWrite cfg else []) ++ if c.sentCmd then cmdWrite cfg else []
  auth : c.sentAuth = (includes c.out "OK".toList && !cfg.token.isEmpty)
  cmd : c.sentCmd = true → includes c.out "OK".toList = true
  open_ : c.done = false → c.result = none
  settled : c.done = true → c.result.map EmuResult.ok = some true ∧ c.sentCmd = true

theorem clientInv_init (cfg : EmuConfig) : ClientInv cfg {} where
  written := rfl
  auth := rfl
  cmd := fun h => by cases h
  open_ := fun _ => rfl
  settled := fun h => by cases h

theorem onData_sentAuth_eq (cfg : EmuConfig) (c : EmuClient) (d : Bytes) :
    (onData cfg c d).sentAuth =
      (c.sentAuth || (includes (c.out ++ decode d) "OK".toList && !cfg.token.isEmpty)) := by
  unfold onData
  rw [checkDone_sentAuth, sendCmd_sentAuth]
  unfold sendAuth
  show (if (includes (c.out ++ decode d) "OK".toList && !c.sentAuth && !cfg.token.isEmpty) = true
    then _ else _ : EmuClient).sentAuth = _
  cases h1 : includes (c.out ++ decode d) "OK".toList <;> cases h2 : c.sentAuth <;>
    cases h3 : cfg.token.isEmpty <;> simp

/-- **One chunk keeps the invariant.** -/
theorem clientInv_onData {cfg : EmuConfig} {c : EmuClient} (hI : ClientInv cfg c)
    (hd : c.done = false) (d : Bytes) : ClientInv cfg (onData cfg c d) := by
  have hauth : (onData cfg c d).sentAuth =
      (includes (c.out ++ decode d) "OK".toList && !cfg.token.isEmpty) := by
    rw [onData_sentAuth_eq, hI.auth]
    cases hc : includes c.out "OK".toList with
    | false => rfl
    | true =>
      rw [includes_append hc]
      cases cfg.token.isEmpty <;> rfl
  have hcmd : (onData cfg c d).sentCmd = true →
      includes (c.out ++ decode d) "OK".toList = true := by
    rw [onData_sentCmd]
    intro h
    rcases Bool.or_eq_true_iff.mp h with h | h
    · exact includes_append (hI.cmd h)
    · exact includes_ok_of_okCount (of_decide_eq_true h)
  constructor
  · rw [onData_written, hI.written]
    cases hsent : c.sentCmd with
    | true =>
      -- the command was sent after the auth line, so that neither is sent now
      have hkeep : (onData cfg c d).sentAuth = c.sentAuth := by
        rw [hauth, hI.auth, hI.cmd hsent, includes_append (hI.cmd hsent)]
      have hcmd' : (onData cfg c d).sentCmd = true := by
        rw [onData_sentCmd, hsent]
        rfl
      rw [hkeep, hcmd']
      cases c.sentAuth <;> simp
    | false =>
      cases hold : c.sentAuth with
      | true =>
        rw [onData_keeps_sentAuth cfg c d hold]
        simp
      | false => simp
  · rw [onData_out]
    exact hauth
  · rw [onData_out]
    exact hcmd
  · rw [onData_done cfg hd, onData_result cfg hd]
    intro h
    rw [if_neg (by rw [h]; decide), hI.open_ hd]
  · rw [onData_done cfg hd, onData_result cfg hd, onData_sentCmd]
    intro h
    have hcount : 1 ≤ okCount (c.out ++ decode d) := by
      unfold looksDone at h
      exact okCount_pos_of_ends (Bool.and_eq_true_iff.mp h).2
    rw [if_pos h]
    exact ⟨rfl, by simp [hcount]⟩

section Deliver

variable (cfg : EmuConfig)

theorem deliver_cons {c : EmuClient} (hd : c.done = false) (d : Bytes) (ds : List Bytes) :
    deliver cfg c (d :: ds) = deliver cfg (onData cfg c d) ds := by
  show (if c.done then c else _) = _
  rw [hd]
  rfl

theorem deliver_of_done {c : EmuClient} (hd : c.done = true) : ∀ ds, deliver cfg c ds = c
  | [] => rfl
  | _ :: _ => if_pos hd

theorem deliver_inv : ∀ (ds : List Bytes) {c : EmuClient}, ClientInv cfg c →
    ClientInv cfg (deliver cfg c ds)
  | [], _, hI => hI
  | d :: ds, c, hI => by
    cases hd : c.done with
    | true =>
      rw [deliver_of_done cfg hd]
      exact hI
    | false =>
      rw [deliver_cons cfg hd]
      exact deliver_inv ds (clientInv_onData hI hd d)

/-- The promise is settled just when the buffer looked done after one of the chunks. -/
theorem deliver_done : ∀ (ds : List Bytes) {c : EmuClient}, c.done = false →
    ((deliver cfg c ds).done = true ↔
      ∃ es, es <+: ds ∧ es ≠ [] ∧ looksDone (c.out ++ es.flatMap decode) = true)
  | [], c, hd => by
    show c.done = true ↔ _
    rw [hd]
    refine iff_of_false (by decide) ?_
    rintro ⟨es, hes, hne, -⟩
    exact hne (List.prefix_nil.mp hes)
  | d :: ds, c, hd => by
    rw [deliver_cons cfg hd]
    cases hd' : (onData cfg c d).done with
    | true =>
      rw [deliver_of_done cfg hd', hd']
      rw [onData_done cfg hd] at hd'
      refine iff_of_true rfl ⟨[d], ⟨ds, rfl⟩, by simp, ?_⟩
      simpa using hd'
    | false =>
      rw [deliver_done ds hd', onData_out]
      rw [onData_done cfg hd] at hd'
      constructor
      · rintro ⟨es, hes, hne, hl⟩
        refine ⟨d :: es, List.cons_prefix_cons.mpr ⟨rfl, hes⟩, by simp, ?_⟩
        rw [List.flatMap_cons, ← List.append_assoc]
        exact hl
      · rintro ⟨es, hes, hne, hl⟩
        obtain ⟨e, es, rfl⟩ := List.exists_cons_of_ne_nil hne
        obtain ⟨rfl, htail⟩ := List.cons_prefix_cons.mp hes
        rw [List.flatMap_cons, ← List.append_assoc] at hl
        refine ⟨es, htail, ?_, hl⟩
        rintro rfl
        rw [List.flatMap_nil, List.append_nil, hd'] at hl
        cases hl

/-- An unsettled client has the whole text. -/
theorem deliver_out : ∀ (ds : List Bytes) {c : EmuClient}, (deliver cfg c ds).done = false →
    (deliver cfg c ds).out = c.out ++ ds.flatMap decode
  | [], c, _ => by
    rw [List.flatMap_nil, List.append_nil]
    rfl
  | d :: ds, c, h => by
    cases hd : c.done with
    | true =>
      rw [deliver_of_done cfg hd, hd] at h
      cases h
    | false =>
      rw [deliver_cons cfg hd] at h ⊢
      rw [deliver_out ds h, onData_out, List.flatMap_cons, List.append_assoc]

/-- The command is sent once the buffer has an OK line after some chunk. -/
theorem deliver_sentCmd_of_prefix : ∀ (ds : List Bytes) {c : EmuClient}, ClientInv cfg c →
    (∃ es, es <+: ds ∧ es ≠ [] ∧ 1 ≤ okCount (c.out ++ es.flatMap decode)) ∨ c.sentCmd = true →
      (deliver cfg c ds).sentCmd = true
  | [], c, _, h => by
    rcases h with ⟨es, hes, hne, -⟩ | h
    · exact absurd (List.prefix_nil.mp hes) hne
    · exact h
  | d :: ds, c, hI, h => by
    cases hd : c.done with
    | true =>
      rw [deliver_of_done cfg hd]
      exact (hI.settled hd).2
    | false =>
      rw [deliver_cons cfg hd]
      refine deliver_sentCmd_of_prefix ds (clientInv_onData hI hd d) ?_
      rw [onData_out, onData_sentCmd]
      rcases h with ⟨es, hes, hne, hc⟩ | h
      · obtain ⟨e, es, rfl⟩ := List.exists_cons_of_ne_nil hne
        obtain ⟨rfl, htail⟩ := List.cons_prefix_cons.mp hes
        rw [List.flatMap_cons, ← List.append_assoc] at hc
        by_cases hnil : es = []
        · subst hnil
          rw [List.flatMap_nil, List.append_nil] at hc
          exact .inr (by simp [hc])
        · exact .inl ⟨es, htail, hnil, hc⟩
      · exact .inr (by simp [h])

/-- And not before. -/
theorem exists_prefix_of_sentCmd : ∀ (ds : List Bytes) {c : EmuClient},
    (deliver cfg c ds).sentCmd = true →
      (∃ es, es <+: ds ∧ 1 ≤ okCount (c.out ++ es.flatMap decode)) ∨ c.sentCmd = true
  | [], _, h => .inr h
  | d :: ds, c, h => by
    cases hd : c.done with
    | true =>
      rw [deliver_of_done cfg hd] at h
      exact .inr h
    | false =>
      rw [deliver_cons cfg hd] at h
      rcases exists_prefix_of_sentCmd ds h with ⟨es, hes, hc⟩ | hsent
      · refine .inl ⟨d :: es, List.cons_prefix_cons.mpr ⟨rfl, hes⟩, ?_⟩
        rw [onData_out] at hc
        rw [List.flatMap_cons, ← List.append_assoc]
        exact hc
      · rw [onData_sentCmd] at hsent
        rcases Bool.or_eq_true_iff.mp hsent with hsent | hsent
        · exact .inr hsent
        · refine .inl ⟨[d], ⟨ds, rfl⟩, ?_⟩
          simpa using of_decide_eq_true hsent

end Deliver

/-! ## OK lines of renderings -/

def okText : Text := ['\n', 'O', 'K']

theorem ascii_okText : ∀ c ∈ okText, c.toNat < 0x80 := ascii_of_all (by decide)

theorem okCount_pos_iff {t : Text} : 1 ≤ okCount t ↔
    ∃ u v, t = u ++ okText ++ v ∧ v.head?.all (fun c => !isWord c) = true := by
  constructor
  · intro h
    obtain ⟨s, hs⟩ := List.exists_mem_of_length_pos h
    obtain ⟨hs, hok⟩ := List.mem_filter.mp hs
    obtain ⟨rest, rfl⟩ := exists_of_startsOkLine hok
    obtain ⟨u, rfl⟩ := (List.mem_tails _ t).mp hs
    exact ⟨u, rest, by simp [okText], hok⟩
  · rintro ⟨u, v, rfl, hv⟩
    refine List.length_pos_of_mem (a := okText ++ v) (List.mem_filter.mpr ⟨?_, hv⟩)
    exact (List.mem_tails _ _).mpr ⟨u, by simp⟩

theorem endsInOkLine_iff {t : Text} :
    endsInOkLine t = true ↔ ∃ u v, t = u ++ okText ++ v ∧ v.all isSpace = true := by
  unfold endsInOkLine
  rw [List.any_eq_true]
  constructor
  · rintro ⟨s, hs, hlast⟩
    obtain ⟨rest, rfl⟩ := exists_of_startsOkLine (startsOkLine_of_last hlast)
    obtain ⟨u, rfl⟩ := (List.mem_tails _ t).mp hs
    exact ⟨u, rest, by simp [okText], hlast⟩
  · rintro ⟨u, v, rfl, hv⟩
    exact ⟨okText ++ v, (List.mem_tails _ _).mpr ⟨u, by simp⟩, hv⟩

theorem ascii_of_isWord {c : Char} (h : isWord c = true) : c.toNat < 0x80 := by
  unfold isWord isDigit isLetter at h
  simp only [Bool.or_eq_true, Bool.and_eq_true, decide_eq_true_eq, beq_iff_eq] at h
  rcases h with (h | h) | rfl
  · omega
  · omega
  · decide

/-- The first character of a rendering is a word character in all renderings or in none. -/
theorem head_word_of_renders {bs : Bytes} {v v' : Text} (h : Renders bs v) (h' : Renders bs v')
    (hv : v.head?.all (fun c => !isWord c) = true) :
    v'.head?.all (fun c => !isWord c) = true := by
  cases v' with
  | nil => rfl
  | cons c t =>
    by_contra hno
    have hw : isWord c = true := by simpa using hno
    have hc := ascii_of_isWord hw
    obtain ⟨cs, hbs, -⟩ := Renders.split_prefix (p := [c]) (by simpa using hc) h'
    rw [hbs] at h
    obtain ⟨u, rfl, -⟩ := Renders.cut_prefix (p := [c]) (by simpa using hc) h
    simp [hw] at hv

/-- **Whether there is an OK line does not depend on the cuts.** -/
theorem okCount_of_renders {bs : Bytes} {t t' : Text} (h : Renders bs t) (h' : Renders bs t')
    (ht : 1 ≤ okCount t) : 1 ≤ okCount t' := by
  obtain ⟨u, v, rfl, hv⟩ := okCount_pos_iff.mp ht
  obtain ⟨as, cs, rfl, -, hcs⟩ := Renders.split_infix ascii_okText h
  obtain ⟨u', v', rfl, -, hcs'⟩ := Renders.cut_infix ascii_okText h'
  exact okCount_pos_iff.mpr ⟨u', v', rfl, head_word_of_renders hcs hcs' hv⟩

theorem includes_of_renders {bs : Bytes} {t t' p : Text} (h : Renders bs t) (h' : Renders bs t')
    (hp : ∀ c ∈ p, c.toNat < 0x80) : includes t p = includes t' p := by
  rw [Bool.eq_iff_iff, includes_iff, includes_iff]
  exact ⟨h.infix_ascii h' hp, h'.infix_ascii h hp⟩

theorem replacement_not_mem_spaces {v : Text} (h : v.all isSpace = true) : replacement ∉ v := by
  intro hr
  have := List.all_eq_true.mp h _ hr
  revert this
  decide

theorem decode_okText (as bs : Bytes) :
    decode (as ++ asciiBytes okText ++ bs) = decode as ++ okText ++ decode bs := by
  have hn : (UInt8.ofNat '\n'.toNat).toNat < 0x80 := by decide
  have hO : (UInt8.ofNat 'O'.toNat).toNat < 0x80 := by decide
  have hK : (UInt8.ofNat 'K'.toNat).toNat < 0x80 := by decide
  have hcons : ∀ {b : UInt8}, b.toNat < 0x80 → ∀ bs, decode (b :: bs) = Char.ofNat b.toNat :: decode bs :=
    fun hb bs => decode_append_ascii hb [] bs
  show decode (as ++ [UInt8.ofNat '\n'.toNat, UInt8.ofNat 'O'.toNat, UInt8.ofNat 'K'.toNat] ++ bs) = _
  rw [List.append_assoc, List.cons_append, decode_append_ascii hn, List.cons_append, hcons hO,
    List.cons_append, hcons hK, ofNat_asciiByte (by decide), ofNat_asciiByte (by decide),
    ofNat_asciiByte (by decide)]
  simp [okText]

/-- **What looks done in pieces looks done as a whole.** -/
theorem looksDone_of_renders {bs : Bytes} {t : Text} (h : Renders bs t)
    (hl : looksDone t = true) : looksDone (decode bs) = true := by
  unfold looksDone at hl ⊢
  obtain ⟨hhello, hends⟩ := Bool.and_eq_true_iff.mp hl
  rw [Bool.and_eq_true_iff]
  refine ⟨?_, ?_⟩
  · rw [← includes_of_renders h (renders_decode bs) (ascii_of_all (by decide))]
    exact hhello
  · obtain ⟨u, v, rfl, hv⟩ := endsInOkLine_iff.mp hends
    obtain ⟨as, cs, rfl, -, hcs⟩ := Renders.split_infix ascii_okText h
    obtain rfl : v = decode cs := hcs.eq_decode (replacement_not_mem_spaces hv)
    refine endsInOkLine_iff.mpr ⟨decode as, decode cs, ?_, hv⟩
    exact decode_okText as cs

/-- Only ASCII white space follows the last OK line. -/
def EndsPlain (S : Bytes) : Prop :=
  ∃ as r, S = as ++ asciiBytes okText ++ r ∧
    ∀ b ∈ r, b.toNat < 0x80 ∧ isSpace (Char.ofNat b.toNat) = true

theorem EndsPlain.endsInOkLine {S : Bytes} (h : EndsPlain S) {t : Text} (ht : Renders S t) :
    endsInOkLine t = true := by
  obtain ⟨as, r, rfl, hr⟩ := h
  obtain ⟨u, v, rfl, -, hv⟩ := Renders.cut_infix ascii_okText ht
  refine endsInOkLine_iff.mpr ⟨u, v, rfl, ?_⟩
  rw [hv.eq_of_ascii fun b hb => (hr b hb).1, List.all_map]
  exact List.all_eq_true.mpr fun b hb => (hr b hb).2

/-! ## A cut inside a character -/

/-- A replacement character with no OK line after it is in the way of the test. -/
theorem not_endsInOkLine {z v : Text} (hO : 'O' ∉ v) : endsInOkLine (z ++ replacement :: v) = false := by
  by_contra h
  obtain ⟨p, q, heq, hq⟩ := endsInOkLine_iff.mp (Bool.eq_true_of_not_eq_false h)
  rcases append_eq_append_cons heq.symm with ⟨w, -, rfl⟩ | ⟨w, hp, rfl⟩
  · exact replacement_not_mem_spaces hq (List.mem_append_right _ List.mem_cons_self)
  · rcases append_eq_append_cons hp with ⟨w', -, hok⟩ | ⟨w', -, rfl⟩
    · have hmem : replacement ∈ okText := by
        rw [hok]
        exact List.mem_append_right _ List.mem_cons_self
      revert hmem
      decide
    · exact hO (List.mem_append_left _ (List.mem_append_right _ (by decide)))

theorem not_looksDone {z v : Text} (hO : 'O' ∉ v) : looksDone (z ++ replacement :: v) = false := by
  unfold looksDone
  rw [not_endsInOkLine hO, Bool.and_false]

/-- The first byte beyond ASCII. -/
theorem exists_first_not_ascii : ∀ {bs : Bytes}, ¬(∀ b ∈ bs, b.toNat < 0x80) →
    ∃ r b w, bs = r ++ b :: w ∧ (∀ x ∈ r, x.toNat < 0x80) ∧ 0x80 ≤ b.toNat
  | [], h => absurd (fun b hb => by cases hb) h
  | b :: bs, h => by
    by_cases hb : b.toNat < 0x80
    · have hrest : ¬(∀ x ∈ bs, x.toNat < 0x80) := fun hall =>
        h (List.forall_mem_cons.mpr ⟨hb, hall⟩)
      obtain ⟨r, c, w, rfl, hr, hc⟩ := exists_first_not_ascii hrest
      exact ⟨b :: r, c, w, rfl, List.forall_mem_cons.mpr ⟨hb, hr⟩, hc⟩
    · exact ⟨[], b, bs, rfl, by simp, by omega⟩

/-- An ASCII byte is a character wherever it stands. -/
theorem mem_decode_of_ascii {bs : Bytes} {x : UInt8} (hlt : x.toNat < 0x80) (hx : x ∈ bs) :
    Char.ofNat x.toNat ∈ decode bs := by
  obtain ⟨as, cs, rfl⟩ := List.append_of_mem hx
  rw [decode_append_ascii hlt]
  exact List.mem_append_right _ List.mem_cons_self

/-- The first byte of a character that has more of them is malformed by itself. -/
theorem decode_first_byte {b : UInt8} {w : Bytes} (hb : 0x80 ≤ b.toNat)
    (h : replacement ∉ decode (b :: w)) : decode [b] = [replacement] := by
  show (lead b.toNat).2 ++ flush (lead b.toNat).1 = _
  rcases lead_cases b.toNat with ⟨hlt, -⟩ | hlead | ⟨n, cp, lower, upper, h1, h2, hlead⟩
  · omega
  · refine absurd ?_ h
    show replacement ∈ (lead b.toNat).2 ++ _
    rw [hlead]
    exact List.mem_cons_self
  · rw [hlead]
    rfl

/-- **White space beyond ASCII after the last OK line can be cut**, so that the output never looks
done. -/
theorem exists_bad_cut {S : Bytes} (hl : looksDone (decode S) = true) (hp : ¬EndsPlain S) :
    ∃ x y, x ++ y = S ∧ x ≠ [] ∧ y ≠ [] ∧ looksDone (decode x) = false ∧
      looksDone (decode x ++ decode y) = false := by
  unfold looksDone at hl
  obtain ⟨u, v, hS, hv⟩ := endsInOkLine_iff.mp (Bool.and_eq_true_iff.mp hl).2
  have hrend : Renders S (u ++ okText ++ v) := hS ▸ renders_decode S
  obtain ⟨as, bs, rfl, -, hbs⟩ := Renders.split_infix ascii_okText hrend
  have hr := replacement_not_mem_spaces hv
  obtain rfl : v = decode bs := hbs.eq_decode hr
  have hnot : ¬(∀ b ∈ bs, b.toNat < 0x80) := by
    intro hall
    refine hp ⟨as, bs, rfl, fun b hb => ⟨hall b hb, ?_⟩⟩
    have hmap := (renders_decode bs).eq_of_ascii hall
    rw [hmap] at hv
    exact List.all_eq_true.mp hv _ (List.mem_map_of_mem hb)
  obtain ⟨r, b, w, rfl, hrasc, hb⟩ := exists_first_not_ascii hnot
  -- the decoder is between characters before that byte and within one after it
  have hrclean : replacement ∉ decode r := by
    rw [(renders_decode r).eq_of_ascii hrasc]
    intro hmem
    obtain ⟨x, hx, hxr⟩ := List.mem_map.mp hmem
    have hlt := hrasc x hx
    have hval := congrArg Char.toNat hxr
    rw [toNat_ofNat (by unfold Nat.isValidChar; omega)] at hval
    rw [hval] at hlt
    revert hlt
    decide
  have hbw : replacement ∉ decode (b :: w) := fun hmem => hr (by
    rw [decode_append_of_clean hrclean]
    exact List.mem_append_right _ hmem)
  have hdecb : decode [b] = [replacement] := decode_first_byte hb hbw
  have hw : w ≠ [] := by
    rintro rfl
    rw [hdecb] at hbw
    exact hbw List.mem_cons_self
  have hO : 'O' ∉ decode w := by
    intro hmem
    obtain ⟨x, hx, hxO⟩ := ascii_mem_decodeFrom (by decide) hmem
    have hin : Char.ofNat x.toNat ∈ decode (r ++ b :: w) :=
      mem_decode_of_ascii (by rw [hxO]; decide)
        (List.mem_append_right _ (List.mem_cons_of_mem _ hx))
    have hsp := List.all_eq_true.mp hv _ hin
    rw [hxO] at hsp
    revert hsp
    decide
  have hx : decode (as ++ asciiBytes okText ++ (r ++ [b])) =
      decode as ++ okText ++ decode r ++ replacement :: [] := by
    rw [decode_okText, decode_append_of_clean hrclean, hdecb]
    simp
  refine ⟨as ++ asciiBytes okText ++ (r ++ [b]), w, by simp [okText], by simp, hw, ?_, ?_⟩
  · rw [hx]
    exact not_looksDone (by simp)
  · rw [hx, List.append_assoc]
    exact not_looksDone hO

/-! ## When the cuts do not matter -/

/-- No prefix passes a test that the whole output fails.  At a close it is enough that the output
has an OK line if a prefix has one. -/
structure CutsAlike (S : Bytes) (T : Terminal) : Prop where
  done : T ≠ .close → ∀ x, x <+: S → looksDone (decode x) = true →
    looksDone (decode S) = true ∧ EndsPlain S
  counted : ∀ x, x <+: S → 1 ≤ okCount (decode x) → 1 ≤ okCount (decode S)

section Outcome

variable {cfg : EmuConfig}

theorem apply_written (T : Terminal) (c : EmuClient) : (T.apply c).written = c.written := by
  cases T with
  | close =>
    obtain ⟨err, h⟩ := onClose_eq c
    show (onClose c).written = _
    rw [h]
    exact finish_written _ _ _
  | error message => exact finish_written _ _ _
  | timeout => exact finish_written _ _ _

/-- What the end of the run makes of the client. -/
theorem outcome_eq (cs : List Bytes) (T : Terminal) : outcome cfg cs T =
    (some ((deliver cfg {} cs).done || (decide (T = .close) && (deliver cfg {} cs).sentCmd)),
      (deliver cfg {} cs).written) := by
  have hI : ClientInv cfg (deliver cfg {} cs) := deliver_inv cfg cs (clientInv_init cfg)
  unfold outcome
  rw [apply_written]
  congr 1
  obtain ⟨f, hf⟩ : ∃ f, f = deliver cfg {} cs := ⟨_, rfl⟩
  rw [← hf] at hI ⊢
  have hfinish : ∀ ok err, ({ f with timer := false }.finish ok err).result.map EmuResult.ok =
      some (f.done || ok) := by
    intro ok err
    rw [finish_result]
    cases hd : f.done with
    | true =>
      show f.result.map EmuResult.ok = _
      rw [(hI.settled hd).1]
      rfl
    | false => rfl
  cases T with
  | close =>
    obtain ⟨err, h⟩ := onClose_eq f
    show (onClose f).result.map EmuResult.ok = _
    rw [h, hfinish]
    cases hs : f.sentCmd with
    | true =>
      rw [hI.cmd hs]
      simp
    | false => simp
  | error message =>
    show ({ f with timer := false }.finish false _).result.map EmuResult.ok = _
    rw [hfinish]
    simp
  | timeout =>
    show ({ f with timer := false }.finish false _).result.map EmuResult.ok = _
    rw [hfinish]
    simp

/-- The chunks so far are a way of cutting a prefix of the output. -/
theorem renders_prefix {S : Bytes} {cs es : List Bytes} (h : cs.flatten = S) (hes : es <+: cs) :
    es.flatten <+: S ∧ Renders es.flatten (es.flatMap decode) := by
  obtain ⟨ds, rfl⟩ := hes
  rw [← h, List.flatten_append]
  exact ⟨List.prefix_append _ _, renders_flatMap es⟩

theorem done_iff {cs : List Bytes} : (deliver cfg {} cs).done = true ↔
    ∃ es, es <+: cs ∧ looksDone (es.flatMap decode) = true := by
  rw [deliver_done cfg cs rfl]
  constructor
  · rintro ⟨es, hes, -, hl⟩
    exact ⟨es, hes, hl⟩
  · rintro ⟨es, hes, hl⟩
    refine ⟨es, hes, ?_, hl⟩
    rintro rfl
    cases hl

theorem sentCmd_iff {cs : List Bytes} : (deliver cfg {} cs).sentCmd = true ↔
    ∃ es, es <+: cs ∧ 1 ≤ okCount (es.flatMap decode) := by
  constructor
  · intro h
    rcases exists_prefix_of_sentCmd cfg cs h with h | h
    · exact h
    · cases h
  · rintro ⟨es, hes, hc⟩
    refine deliver_sentCmd_of_prefix cfg cs (clientInv_init cfg) (.inl ⟨es, hes, ?_, hc⟩)
    rintro rfl
    revert hc
    decide

/-- **Where the cuts are alike, every split gives what the tests say of the whole output.** -/
theorem outcome_of_cutsAlike {S : Bytes} {T : Terminal} (h : CutsAlike S T) {cs : List Bytes}
    (hcs : cs.flatten = S) : outcome cfg cs T =
      (some (if T = .close then decide (1 ≤ okCount (decode S)) else looksDone (decode S)),
        (if includes (decode S) "OK".toList && !cfg.token.isEmpty then authWrite cfg else []) ++
          if 1 ≤ okCount (decode S) then cmdWrite cfg else []) := by
  have hI : ClientInv cfg (deliver cfg {} cs) := deliver_inv cfg cs (clientInv_init cfg)
  have hwhole : Renders S (cs.flatMap decode) := hcs ▸ renders_flatMap cs
  have hcmd : (deliver cfg {} cs).sentCmd = true ↔ 1 ≤ okCount (decode S) := by
    rw [sentCmd_iff]
    constructor
    · rintro ⟨es, hes, hc⟩
      obtain ⟨hpre, hrend⟩ := renders_prefix hcs hes
      exact h.counted _ hpre (okCount_of_renders hrend (renders_decode _) hc)
    · intro hc
      exact ⟨cs, List.prefix_rfl, okCount_of_renders (renders_decode S) hwhole hc⟩
  have hdone : T ≠ .close → ((deliver cfg {} cs).done = true ↔ looksDone (decode S) = true) := by
    intro hT
    rw [done_iff]
    constructor
    · rintro ⟨es, hes, hl⟩
      obtain ⟨hpre, hrend⟩ := renders_prefix hcs hes
      exact (h.done hT _ hpre (looksDone_of_renders hrend hl)).1
    · intro hl
      have hplain := (h.done hT S List.prefix_rfl hl).2
      refine ⟨cs, List.prefix_rfl, ?_⟩
      unfold looksDone at hl ⊢
      rw [hplain.endsInOkLine hwhole, Bool.and_true,
        includes_of_renders hwhole (renders_decode S) (ascii_of_all (by decide))]
      exact (Bool.and_eq_true_iff.mp hl).1
  have hauth : (deliver cfg {} cs).sentAuth =
      (includes (decode S) "OK".toList && !cfg.token.isEmpty) := by
    rw [hI.auth]
    congr 1
    cases hd : (deliver cfg {} cs).done with
    | true =>
      have hs := (hI.settled hd).2
      rw [hI.cmd hs, includes_ok_of_okCount (hcmd.mp hs)]
    | false =>
      rw [deliver_out cfg cs hd]
      exact includes_of_renders hwhole (renders_decode S) (ascii_of_all (by decide))
  rw [outcome_eq, hI.written, hauth]
  congr 2
  · by_cases hT : T = .close
    · subst hT
      have hsettled := hI.settled
      cases hd : (deliver cfg {} cs).done with
      | true => simp [hcmd.mp (hsettled hd).2]
      | false =>
        rw [if_pos rfl, Bool.false_or, Bool.eq_iff_iff, decide_eq_true_eq, ← hcmd]
        simp
    · rw [if_neg hT, Bool.eq_iff_iff, ← hdone hT]
      simp [hT]
  · simp only [hcmd]

theorem splits_pair {x y : Bytes} (hx : x ≠ []) (hy : y ≠ []) : Splits (x ++ y) [x, y] :=
  ⟨by simp, by simp [hx.symm, hy.symm]⟩

theorem splits_one {S : Bytes} (hS : S ≠ []) : Splits S [S] := ⟨by simp, by simp [hS.symm]⟩

/-- The prefixes of one chunk. -/
theorem prefix_single {α : Type*} {a : α} {l : List α} (h : l <+: [a]) : l = [] ∨ l = [a] := by
  rcases List.prefix_cons_iff.mp h with rfl | ⟨t, rfl, ht⟩
  · exact .inl rfl
  · rw [List.prefix_nil.mp ht]
    exact .inr rfl

/-- The prefixes of two chunks. -/
theorem prefix_pair {α : Type*} {a b : α} {l : List α} (h : l <+: [a, b]) :
    l = [] ∨ l = [a] ∨ l = [a, b] := by
  rcases List.prefix_cons_iff.mp h with rfl | ⟨t, rfl, ht⟩
  · exact .inl rfl
  · rcases prefix_single ht with rfl | rfl
    · exact .inr (.inl rfl)
    · exact .inr (.inr rfl)

theorem done_one {S : Bytes} :
    (deliver cfg {} [S]).done = true ↔ looksDone (decode S) = true := by
  rw [done_iff]
  constructor
  · rintro ⟨es, hes, hl⟩
    rcases prefix_single hes with rfl | rfl
    · cases hl
    · simpa using hl
  · exact fun hl => ⟨[S], List.prefix_rfl, by simpa using hl⟩

theorem done_pair {x y : Bytes} : (deliver cfg {} [x, y]).done = true ↔
    looksDone (decode x) = true ∨ looksDone (decode x ++ decode y) = true := by
  rw [done_iff]
  constructor
  · rintro ⟨es, hes, hl⟩
    rcases prefix_pair hes with rfl | rfl | rfl
    · cases hl
    · exact .inl (by simpa using hl)
    · exact .inr (by simpa using hl)
  · rintro (hl | hl)
    · exact ⟨[x], ⟨[y], rfl⟩, by simpa using hl⟩
    · exact ⟨[x, y], List.prefix_rfl, by simpa using hl⟩

/-- Where there is no close, the splits agree on whether the buffer ever looked done. -/
theorem CutAnyhow.done_eq {S : Bytes} {T : Terminal} (h : CutAnyhow cfg S T) (hT : T ≠ .close)
    {cs cs' : List Bytes} (hcs : Splits S cs) (hcs' : Splits S cs') :
    (deliver cfg {} cs).done = (deliver cfg {} cs').done := by
  have heq := h cs cs' hcs hcs'
  rw [outcome_eq, outcome_eq] at heq
  simpa [hT] using (Prod.mk.inj heq).1

/-- What was written tells whether the command was sent. -/
theorem CutAnyhow.sentCmd {S : Bytes} {T : Terminal} (h : CutAnyhow cfg S T)
    {cs cs' : List Bytes} (hcs : Splits S cs) (hcs' : Splits S cs')
    (hs : (deliver cfg {} cs).sentCmd = true) : (deliver cfg {} cs').sentCmd = true := by
  have heq := h cs cs' hcs hcs'
  rw [outcome_eq, outcome_eq] at heq
  have hwritten := (Prod.mk.inj heq).2
  have hI : ClientInv cfg (deliver cfg {} cs) := deliver_inv cfg cs (clientInv_init cfg)
  have hI' : ClientInv cfg (deliver cfg {} cs') := deliver_inv cfg cs' (clientInv_init cfg)
  by_contra hno
  rw [hI.written, hI'.written, hI.auth, hI'.auth, hI.cmd hs, hs, if_neg hno] at hwritten
  have hlen := congrArg List.length hwritten
  have hcmd : cmdWrite cfg ≠ [] := List.append_ne_nil_of_right_ne_nil _ (by decide)
  generalize cfg.token.isEmpty = empty at hlen
  generalize includes (deliver cfg {} cs').out "OK".toList = seen at hlen
  -- an auth line can be missing on the right, the command is missing for certain
  cases empty <;> cases seen <;> simp [hcmd] at hlen

/-- **The splits agree just when the cuts are alike.** -/
theorem cutAnyhow_iff (cfg : EmuConfig) (S : Bytes) (T : Terminal) :
    CutAnyhow cfg S T ↔ CutsAlike S T := by
  constructor
  · intro h
    constructor
    · rintro hT x ⟨y, rfl⟩ hl
      have hx : x ≠ [] := by
        rintro rfl
        cases hl
      have hone : Splits (x ++ y) [x ++ y] := splits_one (by simp [hx])
      have hS : looksDone (decode (x ++ y)) = true := by
        by_cases hy : y = []
        · rw [hy, List.append_nil]
          exact hl
        · rw [← @done_one cfg, ← h.done_eq hT (splits_pair hx hy) hone, done_pair]
          exact .inl hl
      refine ⟨hS, ?_⟩
      by_contra hp
      obtain ⟨u, v, hS', hu, hv, hl₁, hl₂⟩ := exists_bad_cut hS hp
      have hdone : (deliver cfg {} [u, v]).done = true := by
        rw [h.done_eq hT (hS' ▸ splits_pair hu hv) hone, done_one]
        exact hS
      rcases done_pair.mp hdone with hd | hd
      · rw [hl₁] at hd
        cases hd
      · rw [hl₂] at hd
        cases hd
    · rintro x ⟨y, rfl⟩ hc
      by_cases hy : y = []
      · rw [hy, List.append_nil]
        exact hc
      · have hx : x ≠ [] := by
          rintro rfl
          revert hc
          decide
        have hsent : (deliver cfg {} [x, y]).sentCmd = true :=
          sentCmd_iff.mpr ⟨[x], ⟨[y], rfl⟩, by simpa using hc⟩
        have hone := h.sentCmd (splits_pair hx hy) (splits_one (by simp [hx])) hsent
        obtain ⟨es, hes, hes'⟩ := sentCmd_iff.mp hone
        rcases prefix_single hes with rfl | rfl
        · exact absurd hes' (by decide)
        · simpa using hes'
  · intro h cs cs' hcs hcs'
    rw [outcome_of_cutsAlike h hcs.1, outcome_of_cutsAlike h hcs'.1]

end Outcome

/-- A console that prints an OK line and goes on: `\nOK\nKO\n`. -/
def okThenKo : Bytes := asciiBytes "\nOK\nKO\n".toList

/-- In one piece it waits for more and runs into the timeout, cut after the OK line it is done. -/
theorem cut_after_ok : ¬CutAnyhow ⟨[], "geo fix 8 47".toList⟩ okThenKo .timeout := by
  intro h
  have hone := (h [okThenKo] [asciiBytes "\nOK\n".toList, asciiBytes "KO\n".toList]
    (splits_one (by decide)) ⟨by decide, by decide⟩)
  revert hone
  decide +kernel

end HeadlessAndroid.Emu
