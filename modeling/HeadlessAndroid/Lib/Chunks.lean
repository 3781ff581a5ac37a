import HeadlessAndroid.Lib.Utf8

/-!
# Lib.Chunks — bytes decoded chunk by chunk

A decoder that starts afresh at every chunk.  `Renders bs t` says that some way of cutting `bs`
gives the text `t`.  ASCII characters are the same in every rendering, and what stands between two
of them renders apart (`Renders.cut`, `Renders.split`).  A cut changes the text just when it falls
inside a sequence, and then there are more replacement characters (`count_chunks_eq_iff`).
-/

namespace Lib.Utf8

/-! ## The decoder between two bytes -/

/-- Where the decoder is after some bytes. -/
def after : State → Bytes → State
  | s, [] => s
  | s, b :: bs => after (feed s b).1 bs

/-- The characters that some bytes complete. -/
def out : State → Bytes → Text
  | _, [] => []
  | s, b :: bs => (feed s b).2 ++ out (feed s b).1 bs

theorem decodeFrom_append : ∀ (s : State) (as bs : Bytes),
    decodeFrom s (as ++ bs) = out s as ++ decodeFrom (after s as) bs
  | _, [], _ => rfl
  | s, a :: as, bs => by
    show (feed s a).2 ++ decodeFrom (feed s a).1 (as ++ bs) = _
    rw [decodeFrom_append _ as bs, ← List.append_assoc]
    rfl

theorem decodeFrom_eq_out (s : State) (bs : Bytes) :
    decodeFrom s bs = out s bs ++ flush (after s bs) := by
  have h := decodeFrom_append s bs []
  rw [List.append_nil] at h
  exact h

/-- A text without replacement characters ends between characters. -/
theorem after_eq_start {s : State} {bs : Bytes} (h : replacement ∉ decodeFrom s bs) :
    after s bs = .start := by
  rw [decodeFrom_eq_out] at h
  cases ha : after s bs with
  | start => rfl
  | more n cp lower upper hl hs =>
    rw [ha] at h
    exact absurd (List.mem_append_right _ (List.mem_singleton.mpr rfl)) h

/-- Bytes whose text has no replacement characters decode apart from what follows. -/
theorem decode_append_of_clean {as : Bytes} (h : replacement ∉ decode as) (bs : Bytes) :
    decode (as ++ bs) = decode as ++ decode bs := by
  have hafter : after .start as = .start := after_eq_start h
  have hout : decode as = out .start as := by
    unfold decode
    rw [decodeFrom_eq_out, hafter]
    exact List.append_nil _
  rw [hout]
  unfold decode
  rw [decodeFrom_append, hafter]

/-! ## ASCII -/

/-- The bytes of an ASCII text. -/
def asciiBytes (p : Text) : Bytes := p.map fun c => UInt8.ofNat c.toNat

theorem ascii_of_all {p : Text} (h : (p.all fun c => decide (c.toNat < 0x80)) = true) :
    ∀ c ∈ p, c.toNat < 0x80 :=
  fun c hc => of_decide_eq_true (List.all_eq_true.mp h c hc)

theorem toNat_asciiByte {c : Char} (h : c.toNat < 0x80) : (UInt8.ofNat c.toNat).toNat = c.toNat := by
  rw [UInt8.toNat_ofNat']
  exact Nat.mod_eq_of_lt (by omega)

theorem ofNat_asciiByte {c : Char} (h : c.toNat < 0x80) :
    Char.ofNat (UInt8.ofNat c.toNat).toNat = c := by
  rw [toNat_asciiByte h, Char.ofNat_toNat]

theorem eq_asciiByte {b : UInt8} {c : Char} (h : b.toNat = c.toNat) : b = UInt8.ofNat c.toNat := by
  rw [← h, UInt8.ofNat_toNat]

/-- Where an item of a concatenation stands. -/
theorem append_eq_append_cons {α : Type*} {u v p q : List α} {c : α} (h : u ++ v = p ++ c :: q) :
    (∃ w, p = u ++ w ∧ v = w ++ c :: q) ∨ ∃ w, u = p ++ c :: w ∧ q = w ++ v := by
  rcases List.append_eq_append_iff.mp h with ⟨w, hp, hv⟩ | ⟨w, hu, hq⟩
  · exact .inl ⟨w, hp, hv⟩
  · cases w with
    | nil => exact .inl ⟨[], by rw [hu]; simp, hq.symm⟩
    | cons d w =>
      obtain ⟨hc, hq⟩ := List.cons.inj hq
      exact .inr ⟨w, by rw [hu, hc], hq⟩

theorem not_ascii_flush {s : State} {c : Char} (hc : c ∈ flush s) : 0x80 ≤ c.toNat := by
  cases s with
  | start => cases hc
  | more n cp lower upper hl hs =>
    rw [List.mem_singleton.mp hc]
    decide

/-- The ASCII character that a byte completes is the byte, and ends what it completes. -/
theorem feed_split {s : State} {b : UInt8} {c : Char} {p w : Text} (ha : c.toNat < 0x80)
    (h : (feed s b).2 = p ++ c :: w) :
    b = UInt8.ofNat c.toNat ∧ (feed s b).1 = .start ∧ p = flush s ∧ w = [] := by
  have hbc : b.toNat = c.toNat :=
    feed_ascii_mem (by rw [h]; exact List.mem_append_right _ List.mem_cons_self) ha
  have hfeed := feed_ascii s (b := b) (by omega)
  rw [hfeed] at h
  have hflush : c ∉ flush s := fun hc => by
    have := not_ascii_flush hc
    omega
  rcases append_eq_append_cons h with ⟨u, hp, hu⟩ | ⟨u, hp, hu⟩
  · have hlen := congrArg List.length hu
    simp only [List.length_nil, List.length_append, List.length_cons] at hlen
    obtain rfl : u = [] := List.length_eq_zero_iff.mp (by omega)
    obtain rfl : w = [] := List.length_eq_zero_iff.mp (by omega)
    exact ⟨eq_asciiByte hbc, by rw [hfeed], by rw [hp, List.append_nil], rfl⟩
  · refine absurd ?_ hflush
    rw [hp]
    exact List.mem_append_right _ List.mem_cons_self

/-- **An ASCII character of the text is a byte**, and the text before and after it is what the bytes
before and after it give. -/
theorem decodeFrom_split {c : Char} (ha : c.toNat < 0x80) {q : Text} :
    ∀ {bs : Bytes} {s : State} {p : Text}, decodeFrom s bs = p ++ c :: q →
      ∃ as cs, bs = as ++ UInt8.ofNat c.toNat :: cs ∧ decodeFrom s as = p ∧ decode cs = q
  | [], s, p, h => by
    have hmem : c ∈ flush s := by
      show c ∈ decodeFrom s []
      rw [h]
      exact List.mem_append_right _ List.mem_cons_self
    have := not_ascii_flush hmem
    omega
  | b :: bs, s, p, h => by
    have hstep : (feed s b).2 ++ decodeFrom (feed s b).1 bs = p ++ c :: q := h
    rcases append_eq_append_cons hstep with ⟨w, hp, hrest⟩ | ⟨w, hfeed, hq⟩
    · obtain ⟨as, cs, rfl, has, hcs⟩ := decodeFrom_split ha hrest
      refine ⟨b :: as, cs, rfl, ?_, hcs⟩
      show (feed s b).2 ++ decodeFrom (feed s b).1 as = p
      rw [has, hp]
    · obtain ⟨hb, hstart, hp, rfl⟩ := feed_split ha hfeed
      refine ⟨[], bs, by rw [hb]; rfl, hp.symm, ?_⟩
      rw [hq, hstart]
      rfl

/-! ## Renderings -/

/-- Some way of cutting `bs` gives the text `t`. -/
def Renders (bs : Bytes) (t : Text) : Prop :=
  ∃ cs : List Bytes, cs.flatten = bs ∧ cs.flatMap decode = t

theorem renders_decode (bs : Bytes) : Renders bs (decode bs) := ⟨[bs], by simp, by simp⟩

theorem renders_flatMap (cs : List Bytes) : Renders cs.flatten (cs.flatMap decode) :=
  ⟨cs, rfl, rfl⟩

theorem Renders.eq_nil_iff {bs : Bytes} {t : Text} (h : Renders bs t) : t = [] ↔ bs = [] := by
  obtain ⟨cs, rfl, rfl⟩ := h
  rw [List.flatMap_eq_nil_iff, List.flatten_eq_nil_iff]
  exact forall₂_congr fun c _ => decode_eq_nil

theorem Renders.append {as bs : Bytes} {t u : Text} (h : Renders as t) (h' : Renders bs u) :
    Renders (as ++ bs) (t ++ u) := by
  obtain ⟨cs, rfl, rfl⟩ := h
  obtain ⟨ds, rfl, rfl⟩ := h'
  exact ⟨cs ++ ds, List.flatten_append, List.flatMap_append⟩

/-- **An ASCII byte is its character in every rendering.** -/
theorem Renders.cut {c : Char} (ha : c.toNat < 0x80) : ∀ {cs : List Bytes} {as bs : Bytes},
    cs.flatten = as ++ UInt8.ofNat c.toNat :: bs →
      ∃ t u, cs.flatMap decode = t ++ c :: u ∧ Renders as t ∧ Renders bs u
  | [], as, bs, h => by
    have hlen := congrArg List.length h
    simp at hlen
  | w :: cs, as, bs, h => by
    have hsplit : w ++ cs.flatten = as ++ UInt8.ofNat c.toNat :: bs := h
    rcases append_eq_append_cons hsplit with ⟨v, rfl, hrest⟩ | ⟨v, rfl, rfl⟩
    · obtain ⟨t, u, ht, hv, hu⟩ := Renders.cut ha hrest
      refine ⟨decode w ++ t, u, ?_, (renders_decode w).append hv, hu⟩
      rw [List.flatMap_cons, ht, List.append_assoc]
    · refine ⟨decode as, decode v ++ cs.flatMap decode, ?_, renders_decode as,
        (renders_decode v).append (renders_flatMap cs)⟩
      have hb : (UInt8.ofNat c.toNat).toNat < 0x80 := by rw [toNat_asciiByte ha]; exact ha
      rw [List.flatMap_cons, decode_append_ascii hb, ofNat_asciiByte ha, List.append_assoc]
      rfl

/-- **An ASCII character of a rendering is its byte.** -/
theorem Renders.split {c : Char} (ha : c.toNat < 0x80) : ∀ {cs : List Bytes} {t u : Text},
    cs.flatMap decode = t ++ c :: u →
      ∃ as bs, cs.flatten = as ++ UInt8.ofNat c.toNat :: bs ∧ Renders as t ∧ Renders bs u
  | [], t, u, h => by
    have hlen := congrArg List.length h
    simp at hlen
  | w :: cs, t, u, h => by
    have hsplit : decode w ++ cs.flatMap decode = t ++ c :: u := h
    rcases append_eq_append_cons hsplit with ⟨v, rfl, hrest⟩ | ⟨v, hw, rfl⟩
    · obtain ⟨as, bs, has, hv, hu⟩ := Renders.split ha hrest
      refine ⟨w ++ as, bs, ?_, (renders_decode w).append hv, hu⟩
      rw [List.flatten_cons, has, List.append_assoc]
    · obtain ⟨as, bs, rfl, hp, hq⟩ := decodeFrom_split ha hw
      refine ⟨as, bs ++ cs.flatten, ?_, ?_, ?_⟩
      · rw [List.flatten_cons, List.append_assoc]
        rfl
      · rw [← hp]
        exact renders_decode as
      · rw [← hq]
        exact (renders_decode bs).append (renders_flatMap cs)

/-- An ASCII text that the bytes start with starts every rendering. -/
theorem Renders.cut_prefix {bs : Bytes} : ∀ {p t : Text}, (∀ c ∈ p, c.toNat < 0x80) →
    Renders (asciiBytes p ++ bs) t → ∃ u, t = p ++ u ∧ Renders bs u
  | [], t, _, h => ⟨t, rfl, h⟩
  | c :: p, t, hp, h => by
    obtain ⟨hc, hp⟩ := List.forall_mem_cons.mp hp
    obtain ⟨cs, hcs, rfl⟩ := h
    have hcs' : cs.flatten = [] ++ UInt8.ofNat c.toNat :: (asciiBytes p ++ bs) := hcs
    obtain ⟨t, u, ht, hnil, hu⟩ := Renders.cut hc hcs'
    obtain rfl : t = [] := hnil.eq_nil_iff.mpr rfl
    obtain ⟨v, rfl, hv⟩ := Renders.cut_prefix hp hu
    exact ⟨v, ht, hv⟩

/-- An ASCII text that a rendering starts with is what the bytes start with. -/
theorem Renders.split_prefix {u : Text} : ∀ {p : Text} {bs : Bytes}, (∀ c ∈ p, c.toNat < 0x80) →
    Renders bs (p ++ u) → ∃ cs, bs = asciiBytes p ++ cs ∧ Renders cs u
  | [], bs, _, h => ⟨bs, rfl, h⟩
  | c :: p, bs, hp, h => by
    obtain ⟨hc, hp⟩ := List.forall_mem_cons.mp hp
    obtain ⟨cs, rfl, ht⟩ := h
    obtain ⟨as, bs, hcs, hnil, hbs⟩ := Renders.split hc (t := []) ht
    obtain rfl : as = [] := hnil.eq_nil_iff.mp rfl
    obtain ⟨ds, rfl, hds⟩ := Renders.split_prefix hp hbs
    exact ⟨ds, hcs, hds⟩

/-- **An ASCII text within the bytes is within every rendering**, and its two sides render apart. -/
theorem Renders.cut_infix {as bs : Bytes} {c : Char} {p t : Text}
    (hp : ∀ d ∈ c :: p, d.toNat < 0x80) (h : Renders (as ++ asciiBytes (c :: p) ++ bs) t) :
    ∃ u v, t = u ++ (c :: p) ++ v ∧ Renders as u ∧ Renders bs v := by
  obtain ⟨hc, hp⟩ := List.forall_mem_cons.mp hp
  obtain ⟨cs, hcs, rfl⟩ := h
  rw [List.append_assoc] at hcs
  obtain ⟨u, w, ht, hu, hw⟩ := Renders.cut hc hcs
  obtain ⟨v, rfl, hv⟩ := Renders.cut_prefix hp hw
  exact ⟨u, v, by rw [ht, List.append_assoc]; rfl, hu, hv⟩

/-- **An ASCII text within a rendering is within the bytes**, and its two sides render apart. -/
theorem Renders.split_infix {bs : Bytes} {c : Char} {p u v : Text}
    (hp : ∀ d ∈ c :: p, d.toNat < 0x80) (h : Renders bs (u ++ (c :: p) ++ v)) :
    ∃ as cs, bs = as ++ asciiBytes (c :: p) ++ cs ∧ Renders as u ∧ Renders cs v := by
  obtain ⟨hc, hp⟩ := List.forall_mem_cons.mp hp
  obtain ⟨cs, rfl, ht⟩ := h
  rw [List.append_assoc] at ht
  obtain ⟨as, ds, hcs, has, hds⟩ := Renders.split hc ht
  obtain ⟨es, rfl, hes⟩ := Renders.split_prefix hp hds
  exact ⟨as, es, by rw [hcs, List.append_assoc]; rfl, has, hes⟩

/-- The renderings of the same bytes have the same ASCII texts in them. -/
theorem Renders.infix_ascii {bs : Bytes} {t t' p : Text} (h : Renders bs t) (h' : Renders bs t')
    (hp : ∀ d ∈ p, d.toNat < 0x80) (hin : p <:+: t) : p <:+: t' := by
  cases p with
  | nil => exact List.nil_infix
  | cons c p =>
    obtain ⟨u, v, rfl⟩ := hin
    obtain ⟨as, cs, rfl, -, -⟩ := Renders.split_infix hp h
    obtain ⟨u', v', rfl, -, -⟩ := Renders.cut_infix hp h'
    exact ⟨u', v', rfl⟩

/-- A rendering without replacement characters is what the bytes give in one piece. -/
theorem Renders.eq_decode {bs : Bytes} {t : Text} (h : Renders bs t) (hr : replacement ∉ t) :
    t = decode bs := by
  obtain ⟨cs, rfl, rfl⟩ := h
  induction cs with
  | nil => rfl
  | cons c cs ih =>
    rw [List.flatMap_cons, List.mem_append, not_or] at hr
    rw [List.flatMap_cons, ih hr.2, List.flatten_cons, decode_append_of_clean hr.1]

/-- ASCII bytes have one rendering. -/
theorem Renders.eq_of_ascii {bs : Bytes} (hb : ∀ b ∈ bs, b.toNat < 0x80) {t : Text}
    (h : Renders bs t) : t = bs.map fun b => Char.ofNat b.toNat := by
  have hbs : bs = asciiBytes (bs.map fun b => Char.ofNat b.toNat) ++ [] := by
    rw [List.append_nil]
    unfold asciiBytes
    rw [List.map_map]
    refine (List.map_id bs).symm.trans (List.map_congr_left fun b hmem => ?_)
    have hlt := hb b hmem
    show b = UInt8.ofNat (Char.ofNat b.toNat).toNat
    rw [toNat_ofNat (by unfold Nat.isValidChar; omega), UInt8.ofNat_toNat]
  have hp : ∀ c ∈ bs.map (fun b => Char.ofNat b.toNat), c.toNat < 0x80 := by
    intro c hc
    obtain ⟨b, hmem, rfl⟩ := List.mem_map.mp hc
    have hlt := hb b hmem
    rw [toNat_ofNat (by unfold Nat.isValidChar; omega)]
    exact hlt
  rw [hbs] at h
  obtain ⟨u, rfl, hu⟩ := Renders.cut_prefix hp h
  rw [hu.eq_nil_iff.mpr rfl, List.append_nil]

/-! ## What a cut costs -/

/-- What may come next is a continuation byte, in every state that the decoder gets to. -/
def State.Tail : State → Prop
  | .start => True
  | .more _ _ _ upper _ _ => upper ≤ 0xBF

/-- The next byte goes on with the sequence that the decoder is in. -/
def continues : State → Bytes → Bool
  | .more _ _ lower upper _ _, b :: _ => decide (lower ≤ b.toNat ∧ b.toNat ≤ upper)
  | _, _ => false

theorem lead_tail (b : ℕ) : (lead b).1.Tail := by
  unfold lead
  split_ifs <;> simp [State.Tail]

theorem feed_tail (s : State) (b : UInt8) : (feed s b).1.Tail := by
  cases s with
  | start => exact lead_tail _
  | more n cp lower upper hl hs =>
    by_cases h : lower ≤ b.toNat ∧ b.toNat ≤ upper
    · cases n with
      | zero =>
        rw [feed, if_pos h]
        trivial
      | succ n =>
        rw [feed, dif_pos h]
        exact le_rfl
    · cases n with
      | zero =>
        rw [feed, if_neg h]
        exact lead_tail _
      | succ n =>
        rw [feed, dif_neg h]
        exact lead_tail _

theorem after_tail : ∀ {bs : Bytes} {s : State}, s.Tail → (after s bs).Tail
  | [], _, h => h
  | b :: bs, s, _ => by
    show (after (feed s b).1 bs).Tail
    exact after_tail (feed_tail s b)

/-- A continuation byte between characters is malformed. -/
theorem lead_continuation {b : ℕ} (h : 0x80 ≤ b) (h' : b ≤ 0xBF) :
    lead b = (.start, [replacement]) := by
  unfold lead
  rw [if_neg (by omega), dif_neg (by omega), dif_neg (by omega), dif_neg (by omega)]

/-- Where the next byte does not go on with the sequence, a cut is not seen. -/
theorem decodeFrom_of_not_continues {s : State} {bs : Bytes} (h : continues s bs = false) :
    decodeFrom s bs = flush s ++ decode bs := by
  cases s with
  | start => rfl
  | more n cp lower upper hl hs =>
    cases bs with
    | nil => simp [decodeFrom]
    | cons b bs =>
      have hno : ¬(lower ≤ b.toNat ∧ b.toNat ≤ upper) := of_decide_eq_false h
      show (feed _ b).2 ++ decodeFrom (feed _ b).1 bs =
        [replacement] ++ ((lead b.toNat).2 ++ decodeFrom (lead b.toNat).1 bs)
      cases n with
      | zero =>
        rw [feed, if_neg hno]
        rfl
      | succ n =>
        rw [feed, dif_neg hno]
        rfl

theorem count_flush_le (s : State) : (flush s).count replacement ≤ 1 := by
  cases s with
  | start => exact Nat.zero_le 1
  | more n cp lower upper hl hs => exact List.count_le_length

/-- Where the next byte goes on with the sequence, a cut makes more replacement characters: the bytes
before it and each one after it are malformed. -/
theorem count_cut : ∀ {bs : Bytes} {s : State}, s.Tail →
    (decodeFrom s bs).count replacement + (if continues s bs then 1 else 0) ≤
      (flush s ++ decode bs).count replacement
  | [], s, _ => by
    have hno : continues s [] = false := by cases s <;> rfl
    rw [hno, decodeFrom_of_not_continues hno]
    exact le_rfl
  | b :: bs, s, hs => by
    by_cases hc : continues s (b :: bs) = true
    · rw [if_pos hc]
      cases s with
      | start => cases hc
      | more n cp lower upper hl hsp =>
        have hin : lower ≤ b.toNat ∧ b.toNat ≤ upper := of_decide_eq_true hc
        have hupper : upper ≤ 0xBF := hs
        have hlead : lead b.toNat = (.start, [replacement]) :=
          lead_continuation (by omega) (by omega)
        have hcut : (flush (.more n cp lower upper hl hsp) ++ decode (b :: bs)).count replacement =
            2 + (decode bs).count replacement := by
          have hb : decode (b :: bs) = replacement :: decode bs := by
            show (lead b.toNat).2 ++ decodeFrom (lead b.toNat).1 bs = _
            rw [hlead]
            rfl
          rw [hb]
          show (replacement :: replacement :: decode bs).count replacement = _
          rw [List.count_cons_self, List.count_cons_self]
          omega
        rw [hcut]
        show ((feed _ b).2 ++ decodeFrom (feed _ b).1 bs).count replacement + 1 ≤ _
        rw [List.count_append]
        cases n with
        | zero =>
          rw [feed, if_pos hin]
          have hone : List.count replacement [Char.ofNat (cp * 64 + b.toNat % 64)] ≤ 1 :=
            List.count_le_length
          show List.count replacement [Char.ofNat (cp * 64 + b.toNat % 64)] +
            (decode bs).count replacement + 1 ≤ _
          omega
        | succ n =>
          have htail := feed_tail (.more (n + 1) cp lower upper hl hsp) b
          have hrest := @count_cut bs _ htail
          have hflush := count_flush_le (feed (.more (n + 1) cp lower upper hl hsp) b).1
          have hnone : (feed (.more (n + 1) cp lower upper hl hsp) b).2 = [] := by
            rw [feed, dif_pos hin]
          rw [List.count_append] at hrest
          rw [hnone, List.count_nil]
          omega
    · rw [if_neg hc, decodeFrom_of_not_continues (Bool.eq_false_of_not_eq_true hc)]
      exact le_rfl

/-- No chunk ends in a sequence that the chunk after it goes on with. -/
def CleanCuts : List Bytes → Prop
  | [] => True
  | c :: cs => continues (after .start c) cs.flatten = false ∧ CleanCuts cs

/-- Clean cuts leave the text as it is. -/
theorem flatMap_of_clean : ∀ {cs : List Bytes}, CleanCuts cs → cs.flatMap decode = decode cs.flatten
  | [], _ => rfl
  | c :: cs, ⟨hc, hcs⟩ => by
    rw [List.flatMap_cons, List.flatten_cons, flatMap_of_clean hcs]
    unfold decode
    rw [decodeFrom_append, decodeFrom_of_not_continues hc, decodeFrom_eq_out, List.append_assoc]
    rfl

/-- The chunks give as many replacement characters as the whole just when every cut is clean, and
never fewer. -/
theorem count_chunks : ∀ cs : List Bytes,
    (decode cs.flatten).count replacement ≤ (cs.flatMap decode).count replacement ∧
      ((cs.flatMap decode).count replacement = (decode cs.flatten).count replacement → CleanCuts cs)
  | [] => ⟨le_rfl, fun _ => trivial⟩
  | c :: cs => by
    obtain ⟨hle, hclean⟩ := count_chunks cs
    have htail : (after .start c).Tail := after_tail (s := .start) trivial
    have hcut := @count_cut cs.flatten _ htail
    have hsum : ((c :: cs).flatMap decode).count replacement =
        (out .start c).count replacement + (flush (after .start c)).count replacement +
          (cs.flatMap decode).count replacement := by
      rw [List.flatMap_cons, List.count_append]
      unfold decode
      rw [decodeFrom_eq_out, List.count_append]
    have hwhole : (decode (c :: cs).flatten).count replacement =
        (out .start c).count replacement +
          (decodeFrom (after .start c) cs.flatten).count replacement := by
      rw [List.flatten_cons]
      unfold decode
      rw [decodeFrom_append, List.count_append]
    rw [List.count_append] at hcut
    rw [hsum, hwhole]
    refine ⟨by omega, fun heq => ?_⟩
    by_cases hc : continues (after .start c) cs.flatten = true
    · rw [if_pos hc] at hcut
      omega
    · rw [if_neg hc] at hcut
      exact ⟨Bool.eq_false_of_not_eq_true hc, hclean (by omega)⟩

/-- **The chunks give the text of the whole just when every cut is clean**; otherwise there are more
replacement characters. -/
theorem count_chunks_eq_iff (cs : List Bytes) :
    (cs.flatMap decode).count replacement = (decode cs.flatten).count replacement ↔ CleanCuts cs :=
  ⟨(count_chunks cs).2, fun h => by rw [flatMap_of_clean h]⟩

end Lib.Utf8
