import HeadlessAndroid.Lib.Utf8

/-!
# Lib.EventStream — reading a server-sent event stream

The parser of the HTML Standard's event streams: the text is cut into lines at CRLF, LF or CR, each
line is a comment, a field or the blank line that dispatches the event collected so far, and what
the end of the stream leaves undispatched is dropped.
-/

namespace Lib.EventStream

structure Event where
  type : Text
  data : Text
  lastEventId : Text
  deriving DecidableEq

/-- What the parser holds between lines. -/
structure Buffers where
  data : Text := []
  type : Text := []
  lastEventId : Text := []
  deriving DecidableEq

/-- The terminated lines of a text of which `cur` was read before. -/
def linesFrom (cur : Text) : Text → List Text
  | [] => []
  | '\r' :: '\n' :: t => cur :: linesFrom [] t
  | '\r' :: t => cur :: linesFrom [] t
  | '\n' :: t => cur :: linesFrom [] t
  | c :: t => linesFrom (cur ++ [c]) t

/-- One leading byte order mark is not part of the stream. -/
def dropBom : Text → Text
  | [] => []
  | c :: t => if c = '\uFEFF' then t else c :: t

/-- A field with its value; names that the standard does not know are ignored, and `retry` only
sets the reconnection time. -/
def field (b : Buffers) (name value : Text) : Buffers :=
  if name = "event".toList then { b with type := value }
  else if name = "data".toList then { b with data := b.data ++ value ++ ['\n'] }
  else if name = "id".toList then
    if '\x00' ∈ value then b else { b with lastEventId := value }
  else b

/-- The blank line: an event goes out unless no data was collected. -/
def dispatch (b : Buffers) : Buffers × List Event :=
  ({ b with data := [], type := [] },
    if b.data = [] then []
    else
      [{ type := if b.type = [] then "message".toList else b.type
         data := if b.data.getLast? = some '\n' then b.data.dropLast else b.data
         lastEventId := b.lastEventId }])

/-- The value after the colon, less one leading space. -/
def dropSpace : Text → Text
  | ' ' :: v => v
  | v => v

def processLine (b : Buffers) (line : Text) : Buffers × List Event :=
  if line = [] then dispatch b
  else if line.head? = some ':' then (b, [])
  else
    match line.dropWhile (· ≠ ':') with
    | [] => (field b line [], [])
    | _ :: v => (field b (line.takeWhile (· ≠ ':')) (dropSpace v), [])

def processLines (b : Buffers) : List Text → List Event
  | [] => []
  | l :: ls => (processLine b l).2 ++ processLines (processLine b l).1 ls

/-- The events of a whole stream. -/
def parse (t : Text) : List Event := processLines {} (linesFrom [] (dropBom t))

/-! ## Streams written line by line -/

/-- A text with no line end in it. -/
def OneLine (l : Text) : Prop := '\n' ∉ l ∧ '\r' ∉ l

theorem linesFrom_prefix : ∀ (cur p t : Text), OneLine p →
    linesFrom cur (p ++ t) = linesFrom (cur ++ p) t
  | cur, [], t, _ => by rw [List.nil_append, List.append_nil]
  | cur, c :: p, t, h => by
    have hn : c ≠ '\n' := fun e => h.1 (by simp [e])
    have hr : c ≠ '\r' := fun e => h.2 (by simp [e])
    have hp : OneLine p :=
      ⟨fun hm => h.1 (List.mem_cons_of_mem _ hm), fun hm => h.2 (List.mem_cons_of_mem _ hm)⟩
    have ih := linesFrom_prefix (cur ++ [c]) p t hp
    rw [List.cons_append, linesFrom, ih, List.append_assoc, List.singleton_append]
    · intro t' e _
      exact hr e
    · exact hr
    · exact hn

theorem linesFrom_line (cur l t : Text) (h : OneLine l) :
    linesFrom cur (l ++ '\n' :: t) = (cur ++ l) :: linesFrom [] t :=
  linesFrom_prefix cur l ('\n' :: t) h

/-- `data: ` and a line. -/
theorem processLine_data (b : Buffers) (l : Text) :
    processLine b ("data: ".toList ++ l) = ({ b with data := b.data ++ l ++ ['\n'] }, []) := by
  have e : ("data: ".toList ++ l : Text) = 'd' :: 'a' :: 't' :: 'a' :: ':' :: ' ' :: l := rfl
  rw [e]
  simp [processLine, field, dropSpace]

/-- `event: ` and a name. -/
theorem processLine_event (b : Buffers) (l : Text) :
    processLine b ("event: ".toList ++ l) = ({ b with type := l }, []) := by
  have e : ("event: ".toList ++ l : Text) = 'e' :: 'v' :: 'e' :: 'n' :: 't' :: ':' :: ' ' :: l := rfl
  rw [e]
  simp [processLine, field, dropSpace]

/-- **One `data` line and a blank line are one `message` event** with that line as its data, and
the parser is back where it was. -/
theorem processLines_message {b : Buffers} (hd : b.data = []) (ht : b.type = []) (l : Text)
    (ls : List Text) :
    processLines b (("data: ".toList ++ l) :: [] :: ls) =
      { type := "message".toList, data := l, lastEventId := b.lastEventId } ::
        processLines b ls := by
  obtain ⟨data, type, lastEventId⟩ := b
  simp only at hd ht
  subst hd ht
  rw [processLines, processLine_data, processLines]
  simp [processLine, dispatch]

/-! ## Streams written frame by frame -/

/-- What the parser holds after some lines. -/
def buffersAfter (b : Buffers) : List Text → Buffers
  | [] => b
  | l :: ls => buffersAfter (processLine b l).1 ls

theorem processLines_append (b : Buffers) : ∀ ls ms : List Text,
    processLines b (ls ++ ms) = processLines b ls ++ processLines (buffersAfter b ls) ms
  | [], _ => rfl
  | l :: ls, ms => by
    show (processLine b l).2 ++ processLines (processLine b l).1 (ls ++ ms) = _
    rw [processLines_append (processLine b l).1 ls ms, ← List.append_assoc]
    rfl

theorem buffersAfter_append (b : Buffers) : ∀ ls ms : List Text,
    buffersAfter b (ls ++ ms) = buffersAfter (buffersAfter b ls) ms
  | [], _ => rfl
  | l :: ls, ms => buffersAfter_append (processLine b l).1 ls ms

/-- Nothing is collected for the next event. -/
def Buffers.Clean (b : Buffers) : Prop := b.data = [] ∧ b.type = []

theorem clean_of_blank (b : Buffers) (ls : List Text) : (buffersAfter b (ls ++ [[]])).Clean := by
  rw [buffersAfter_append]
  exact ⟨rfl, rfl⟩

/-- A newline ends a line, whatever comes after it. -/
theorem linesFrom_append_newline : ∀ (cur a t : Text),
    linesFrom cur (a ++ '\n' :: t) = linesFrom cur (a ++ ['\n']) ++ linesFrom [] t
  | _, [], _ => rfl
  | cur, c :: a, t => by
    by_cases hn : c = '\n'
    · subst hn
      show cur :: linesFrom [] (a ++ '\n' :: t) = cur :: linesFrom [] (a ++ ['\n']) ++ _
      rw [linesFrom_append_newline [] a t]
      rfl
    by_cases hr : c = '\r'
    · subst hr
      match a with
      | [] => rfl
      | d :: a =>
        by_cases hd : d = '\n'
        · subst hd
          show cur :: linesFrom [] (a ++ '\n' :: t) = cur :: linesFrom [] (a ++ ['\n']) ++ _
          rw [linesFrom_append_newline [] a t]
          rfl
        · have hline : ∀ u : Text, linesFrom cur ('\r' :: d :: u) = cur :: linesFrom [] (d :: u) := by
            intro u
            rw [linesFrom]
            rintro _ e
            exact hd (List.cons.inj e).1
          show linesFrom cur ('\r' :: d :: (a ++ '\n' :: t)) =
            linesFrom cur ('\r' :: d :: (a ++ ['\n'])) ++ _
          rw [hline, hline]
          have ih := linesFrom_append_newline [] (d :: a) t
          rw [List.cons_append, List.cons_append] at ih
          rw [ih]
          rfl
    · have hline : ∀ u : Text, linesFrom cur (c :: u) = linesFrom (cur ++ [c]) u := by
        intro u
        rw [linesFrom]
        · exact fun _ e _ => hr e
        · exact hr
        · exact hn
      rw [List.cons_append, List.cons_append, hline, hline]
      exact linesFrom_append_newline (cur ++ [c]) a t
termination_by _ a => a.length

/-! ## Texts with line breaks -/

/-- The text with each of its line breaks as a line feed. -/
def withLf : Text → Text
  | [] => []
  | '\r' :: '\n' :: t => '\n' :: withLf t
  | '\r' :: t => '\n' :: withLf t
  | c :: t => c :: withLf t

theorem withLf_of_oneLine : ∀ {t : Text}, OneLine t → withLf t = t
  | [], _ => rfl
  | c :: t, h => by
    have hr : c ≠ '\r' := fun e => h.2 (by simp [e])
    have hl : OneLine t :=
      ⟨fun hm => h.1 (List.mem_cons_of_mem _ hm), fun hm => h.2 (List.mem_cons_of_mem _ hm)⟩
    rw [withLf, withLf_of_oneLine hl]
    · exact fun _ e _ => hr e
    · exact hr

/-- The lines of a text are as long together as the text, and a text of one line has no break. -/
theorem linesFrom_text : ∀ (cur t : Text), t.getLast? ≠ some '\r' →
    ∃ l ls, linesFrom cur (t ++ ['\n']) = (cur ++ l) :: ls ∧
      l.length + (ls.map List.length).sum + ls.length = (withLf t).length ∧ (ls = [] → OneLine t)
  | cur, [], _ => by
    refine ⟨[], [], ?_, rfl, fun _ => ⟨List.not_mem_nil, List.not_mem_nil⟩⟩
    rw [List.append_nil]
    rfl
  | cur, c :: t, h => by
    have hlast : ∀ {u : Text}, u <:+ t → u.getLast? ≠ some '\r' := by
      rintro u ⟨v, rfl⟩ hu
      rw [← List.cons_append, List.getLast?_append, hu] at h
      exact h rfl
    -- a break ends the first line, and the others are those of what follows
    have hbreak : ∀ u : Text, linesFrom cur (c :: t ++ ['\n']) = cur :: linesFrom [] (u ++ ['\n']) →
        withLf (c :: t) = '\n' :: withLf u → u <:+ t → u.length < (c :: t).length →
        ∃ l ls, linesFrom cur (c :: t ++ ['\n']) = (cur ++ l) :: ls ∧
          l.length + (ls.map List.length).sum + ls.length = (withLf (c :: t)).length ∧
          (ls = [] → OneLine (c :: t)) := by
      intro u hu hlf hsuf hlen
      obtain ⟨l, ls, hls, hsum, -⟩ := linesFrom_text [] u (hlast hsuf)
      refine ⟨[], l :: ls, ?_, ?_, fun hnil => by cases hnil⟩
      · rw [hu, hls, List.append_nil]
        rfl
      · have hlf' : (withLf (c :: t)).length = (withLf u).length + 1 := by rw [hlf, List.length_cons]
        rw [hlf', ← hsum, List.map_cons, List.sum_cons, List.length_cons, List.length_nil]
        omega
    by_cases hn : c = '\n'
    · subst hn
      exact hbreak t rfl rfl List.suffix_rfl (by simp)
    by_cases hr : c = '\r'
    · subst hr
      cases t with
      | nil => exact absurd rfl h
      | cons d t =>
        by_cases hd : d = '\n'
        · subst hd
          exact hbreak t rfl rfl (List.suffix_cons _ _)
            (by rw [List.length_cons, List.length_cons]; omega)
        · refine hbreak (d :: t) ?_ ?_ List.suffix_rfl (by simp)
          · show linesFrom cur ('\r' :: d :: (t ++ ['\n'])) = _
            rw [linesFrom]
            · rfl
            · rintro _ e
              exact hd (List.cons.inj e).1
          · rw [withLf]
            rintro _ e
            exact hd (List.cons.inj e).1
    · obtain ⟨l, ls, hls, hsum, hone⟩ := linesFrom_text (cur ++ [c]) t (hlast List.suffix_rfl)
      refine ⟨c :: l, ls, ?_, ?_, fun hnil => ?_⟩
      · rw [List.cons_append, linesFrom, hls, List.append_assoc]
        · rfl
        · exact fun _ e _ => hr e
        · exact hr
        · exact hn
      · rw [withLf, List.length_cons, List.length_cons, ← hsum]
        · omega
        · exact fun _ e _ => hr e
        · exact hr
      · obtain ⟨h1, h2⟩ := hone hnil
        exact ⟨fun hm => (List.mem_cons.mp hm).elim (fun e => hn e.symm) h1,
          fun hm => (List.mem_cons.mp hm).elim (fun e => hr e.symm) h2⟩
termination_by _ t => t.length
decreasing_by
  · exact hlen
  · exact Nat.lt_succ_self _

/-- What is collected ends in a line feed. -/
def Buffers.Ended (b : Buffers) : Prop := b.data = [] ∨ b.data.getLast? = some '\n'

theorem field_ended {b : Buffers} (h : b.Ended) (name value : Text) : (field b name value).Ended := by
  unfold field
  split_ifs
  · exact h
  · exact .inr (by simp)
  · exact h
  · exact h
  · exact h

theorem dropSpace_length (v : Text) : (dropSpace v).length ≤ v.length := by
  unfold dropSpace
  split
  · simp
  · exact le_rfl

/-- A field lengthens the data by its value and a line feed, and only the field `data` does. -/
theorem field_length (b : Buffers) (name value : Text) :
    (field b name value).data.length + 4 ≤ b.data.length + value.length + 5 ∧
      (name ≠ "data".toList → (field b name value).data = b.data) := by
  unfold field
  split_ifs with h1 h2 h3 h4
  · exact ⟨by show b.data.length + 4 ≤ _; omega, fun _ => rfl⟩
  · exact ⟨by simp; omega, fun h => absurd h2 h⟩
  · exact ⟨by omega, fun _ => rfl⟩
  · exact ⟨by show b.data.length + 4 ≤ _; omega, fun _ => rfl⟩
  · exact ⟨by omega, fun _ => rfl⟩

/-- A line that is not blank dispatches nothing and adds at most its own length to the data. -/
theorem processLine_field {b : Buffers} (hb : b.Ended) {line : Text} (hne : line ≠ []) :
    (processLine b line).2 = [] ∧ (processLine b line).1.Ended ∧
      (processLine b line).1.data.length ≤ b.data.length + line.length := by
  unfold processLine
  rw [if_neg hne]
  by_cases hc : line.head? = some ':'
  · rw [if_pos hc]
    exact ⟨rfl, hb, Nat.le_add_right _ _⟩
  rw [if_neg hc]
  have hsplit : line.takeWhile (· ≠ ':') ++ line.dropWhile (· ≠ ':') = line :=
    List.takeWhile_append_dropWhile
  have hlen := congrArg List.length hsplit
  rw [List.length_append] at hlen
  -- a line without a colon is the name of a field with no value
  split
  · refine ⟨rfl, field_ended hb _ _, ?_⟩
    show (field b line []).data.length ≤ _
    obtain ⟨hle, hother⟩ := field_length b line []
    by_cases hd : line = "data".toList
    · have h4 : line.length = 4 := by rw [hd]; rfl
      rw [List.length_nil] at hle
      omega
    · rw [hother hd]
      exact Nat.le_add_right _ _
  · rename_i v hv
    refine ⟨rfl, field_ended hb _ _, ?_⟩
    show (field b (line.takeWhile (· ≠ ':')) (dropSpace v)).data.length ≤ _
    obtain ⟨hle, hother⟩ := field_length b (line.takeWhile (· ≠ ':')) (dropSpace v)
    have hdrop := dropSpace_length v
    rw [hv, List.length_cons] at hlen
    by_cases hd : line.takeWhile (· ≠ ':') = "data".toList
    · have h4 : (line.takeWhile (· ≠ ':')).length = 4 := by rw [hd]; rfl
      omega
    · rw [hother hd]
      exact Nat.le_add_right _ _

/-- **The data of an event is no longer than the lines that it comes from.** -/
theorem data_length_of_mem : ∀ {ls : List Text} {b : Buffers} {e : Event}, b.Ended →
    e ∈ processLines b ls → e.data.length + 1 ≤ b.data.length + (ls.map List.length).sum
  | [], _, _, _, h => by cases h
  | l :: ls, b, e, hb, h => by
    rw [List.map_cons, List.sum_cons]
    by_cases hl : l = []
    · subst hl
      rcases List.mem_append.mp h with h | h
      · show e.data.length + 1 ≤ b.data.length + (0 + _)
        have hmem : e ∈ (dispatch b).2 := h
        unfold dispatch at hmem
        by_cases hd : b.data = []
        · rw [if_pos hd] at hmem
          cases hmem
        · rw [if_neg hd] at hmem
          obtain rfl := List.mem_singleton.mp hmem
          have hlast : b.data.getLast? = some '\n' := hb.resolve_left hd
          have hpos : 0 < b.data.length := List.length_pos_iff.mpr hd
          show (if b.data.getLast? = some '\n' then b.data.dropLast else b.data).length + 1 ≤ _
          rw [if_pos hlast, List.length_dropLast]
          omega
      · have ih : e.data.length + 1 ≤ 0 + _ :=
          data_length_of_mem (b := (dispatch b).1) (.inl rfl) h
        omega
    · obtain ⟨hnone, hended, hlen⟩ := processLine_field hb hl
      have htail : e ∈ processLines (processLine b l).1 ls := by
        rcases List.mem_append.mp h with h | h
        · rw [hnone] at h
          cases h
        · exact h
      have ih := data_length_of_mem hended htail
      omega

end Lib.EventStream
