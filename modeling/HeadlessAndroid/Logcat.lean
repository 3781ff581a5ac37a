import HeadlessAndroid.Lib.Lines
import HeadlessAndroid.Lib.EventStream
import HeadlessAndroid.Lib.TextLines

/-!
# HeadlessAndroid.Logcat — GET /api/logcat/stream

What the route writes for each chunk that `adb logcat` prints, and what the dashboard's EventSource
reads from it.  The handler decodes and splits every chunk by itself, so a line that arrives in two
chunks reaches the page as two lines (`message_count`).
-/

namespace HeadlessAndroid.Logcat

open Lib

/-- `data: ${line}\n\n`. -/
def dataFrame (line : Text) : Text := "data: ".toList ++ line ++ ['\n', '\n']

/-- The `data` handler of the child's stdout: one frame for each non-empty line of the chunk. -/
def onStdout (d : Bytes) : List Text :=
  (((Utf8.decode d).splitOn '\n').filter (fun line => !line.isEmpty)).map dataFrame

/-- The `data` handler of the child's stderr. -/
def onStderr (d : Bytes) : List Text :=
  ["event: error\ndata: ".toList ++ Js.trim (Utf8.decode d) ++ ['\n', '\n']]

inductive ChildEvent where
  | stdout (d : Bytes)
  | stderr (d : Bytes)

def onChild : ChildEvent → List Text
  | .stdout d => onStdout d
  | .stderr d => onStderr d

/-- All that the response carries once the child has closed. -/
def streamBody (evs : List ChildEvent) : Text := (evs.flatMap onChild).flatten

/-- What `logcatEs.onmessage` gets to see: the data of the `message` events. -/
def messages (body : Text) : List Text :=
  ((EventStream.parse body).filter (fun e => e.type == "message".toList)).map (·.data)

/-- The non-empty lines of a text. -/
def nonEmptyLines (t : Text) : List Text := segments '\n' t

/-- The cuts between chunks that leave something of one line on both sides. -/
def cutsInsideLines (chunks : List Bytes) : ℕ := cutsInside (10 : UInt8) chunks

/-! ## Lines of bytes and lines of text -/

theorem decode_splitOn (bs : Bytes) :
    (Utf8.decode bs).splitOn '\n' = (bs.splitOn 10).map Utf8.decode := by
  refine splitOn_map_of_cut (fun a b => ?_) (fun a ha hc => ha ?_) bs
  · exact Utf8.decode_append_ascii (b := 10) (by decide) a b
  · obtain ⟨b, hb, e⟩ := Utf8.ascii_mem_decodeFrom (by decide) hc
    rwa [show b = 10 from UInt8.toNat_inj.mp (by rw [e]; rfl)] at hb

theorem decode_segments (bs : Bytes) :
    nonEmptyLines (Utf8.decode bs) = (segments 10 bs).map Utf8.decode := by
  unfold nonEmptyLines segments
  rw [decode_splitOn, List.filter_map]
  congr 1
  refine List.filter_congr fun u _ => ?_
  cases u with
  | nil => rfl
  | cons b u =>
    have h : Utf8.decode (b :: u) ≠ [] := fun h => List.cons_ne_nil b u (Utf8.decode_eq_nil.mp h)
    simp [h]

theorem onStdout_eq (d : Bytes) :
    onStdout d = ((segments 10 d).map Utf8.decode).map dataFrame := by
  rw [← decode_segments]
  rfl

/-! ## Reading the frames back -/

theorem parse_frames : ∀ (ls : List Text), (∀ l ∈ ls, EventStream.OneLine l) →
    EventStream.processLines {} (EventStream.linesFrom [] (ls.map dataFrame).flatten) =
      ls.map fun l => { type := "message".toList, data := l, lastEventId := [] }
  | [], _ => rfl
  | l :: ls, h => by
    have hl : EventStream.OneLine ("data: ".toList ++ l) := by
      obtain ⟨hn, hr⟩ := h l List.mem_cons_self
      exact ⟨by simpa using hn, by simpa using hr⟩
    have e : ((l :: ls).map dataFrame).flatten =
        ("data: ".toList ++ l) ++ '\n' :: ([] ++ '\n' :: (ls.map dataFrame).flatten) := by
      show (("data: ".toList ++ l) ++ ['\n', '\n']) ++ (ls.map dataFrame).flatten = _
      exact List.append_assoc _ _ _
    have hnil : EventStream.OneLine [] := ⟨List.not_mem_nil, List.not_mem_nil⟩
    rw [e, EventStream.linesFrom_line _ _ _ hl, EventStream.linesFrom_line _ _ _ hnil,
      List.nil_append, List.append_nil, EventStream.processLines_message rfl rfl,
      parse_frames ls fun l' hl' => h l' (List.mem_cons_of_mem _ hl')]
    rfl

/-- **Every frame is read back as one message** that carries its line. -/
theorem messages_frames (ls : List Text) (h : ∀ l ∈ ls, EventStream.OneLine l) :
    messages (ls.map dataFrame).flatten = ls := by
  have hbom : EventStream.dropBom (ls.map dataFrame).flatten = (ls.map dataFrame).flatten := by
    cases ls with
    | nil => rfl
    | cons l ls => rfl
  unfold messages EventStream.parse
  rw [hbom, parse_frames ls h, List.filter_eq_self.mpr (by simp), List.map_map]
  exact List.map_id' ls

/-- Chunk by chunk, the page gets the decoded non-empty lines of each chunk. -/
theorem messages_stdout (chunks : List Bytes) (hcr : '\r' ∉ Utf8.decode chunks.flatten) :
    messages (streamBody (chunks.map .stdout)) =
      (chunks.flatMap (segments 10)).map Utf8.decode := by
  have hcr' : (13 : UInt8) ∉ chunks.flatten := by
    intro hm
    obtain ⟨a, b, e⟩ := List.append_of_mem hm
    apply hcr
    rw [e, Utf8.decode_append_ascii (b := 13) (by decide)]
    exact List.mem_append_right _ List.mem_cons_self
  have e : streamBody (chunks.map .stdout) =
      (((chunks.flatMap (segments 10)).map Utf8.decode).map dataFrame).flatten := by
    unfold streamBody
    rw [List.flatMap_map, List.map_flatMap, List.map_flatMap]
    congr 2
    funext d
    exact onStdout_eq d
  rw [e]
  refine messages_frames _ fun l hl => ?_
  obtain ⟨u, hu, rfl⟩ := List.mem_map.mp hl
  obtain ⟨d, hd, hu⟩ := List.mem_flatMap.mp hu
  obtain ⟨-, hnl, hsub⟩ := of_mem_segments hu
  constructor
  · intro hn
    obtain ⟨b, hb, eb⟩ := Utf8.ascii_mem_decodeFrom (by decide) hn
    rw [show b = 10 from UInt8.toNat_inj.mp (by rw [eb]; rfl)] at hb
    exact hnl hb
  · intro hr
    obtain ⟨b, hb, eb⟩ := Utf8.ascii_mem_decodeFrom (by decide) hr
    rw [show b = 13 from UInt8.toNat_inj.mp (by rw [eb]; rfl)] at hb
    exact hcr' (List.mem_flatten.mpr ⟨d, hd, hsub hb⟩)

/-- **The page gets one message for each non-empty line and one more for each cut inside a line.** -/
theorem message_count (chunks : List Bytes) (hcr : '\r' ∉ Utf8.decode chunks.flatten) :
    (messages (streamBody (chunks.map .stdout))).length =
      (nonEmptyLines (Utf8.decode chunks.flatten)).length + cutsInsideLines chunks := by
  rw [messages_stdout chunks hcr, decode_segments, List.length_map, List.length_map]
  exact length_flatMap_segments chunks

/-- **GET /stream.**  For all that an `adb logcat` that writes nothing to stderr writes to stdout, in
whatever chunks: the messages are the non-empty lines of the text, in order, just when no chunk
boundary falls inside a line. -/
theorem stream_lines_iff (chunks : List Bytes) (hcr : '\r' ∉ Utf8.decode chunks.flatten) :
    messages (streamBody (chunks.map .stdout)) = nonEmptyLines (Utf8.decode chunks.flatten) ↔
      cutsInsideLines chunks = 0 := by
  constructor
  · intro h
    have hc := message_count chunks hcr
    rw [h] at hc
    omega
  · intro h
    rw [messages_stdout chunks hcr, decode_segments, flatMap_segments_of_clean chunks h]

/-- Three chunks, cut after a newline and before one. -/
theorem stream_lines_whole :
    messages (streamBody ([[97, 98, 10], [99], [10, 100, 10]].map .stdout)) =
      nonEmptyLines (Utf8.decode [[97, 98, 10], [99], [10, 100, 10]].flatten) :=
  (stream_lines_iff [[97, 98, 10], [99], [10, 100, 10]] (by decide)).mpr (by decide)

/-- The same line in two chunks is two messages. -/
theorem stream_line_cut :
    messages (streamBody ([[97], [98, 10]].map .stdout)) ≠
      nonEmptyLines (Utf8.decode [[97], [98, 10]].flatten) := by
  decide

/-! ## The frames of stderr -/

/-- Every write of the route begins with a field name and ends with a blank line. -/
theorem frame_of_mem {ev : ChildEvent} {f : Text} (h : f ∈ onChild ev) :
    ∃ c w, c ≠ '\uFEFF' ∧ f = c :: (w ++ ['\n', '\n']) := by
  cases ev with
  | stdout d =>
    obtain ⟨l, -, rfl⟩ := List.mem_map.mp h
    exact ⟨'d', "ata: ".toList ++ l, by decide, rfl⟩
  | stderr d =>
    obtain rfl := List.mem_singleton.mp h
    exact ⟨'e', "vent: error\ndata: ".toList ++ Js.trim (Utf8.decode d), by decide, rfl⟩

theorem streamBody_append (a b : List ChildEvent) :
    streamBody (a ++ b) = streamBody a ++ streamBody b := by
  unfold streamBody
  rw [List.flatMap_append, List.flatten_append]

theorem dropBom_streamBody (evs : List ChildEvent) :
    EventStream.dropBom (streamBody evs) = streamBody evs := by
  have hframes : ∀ f ∈ evs.flatMap onChild, ∃ c w, c ≠ '\uFEFF' ∧ f = c :: (w ++ ['\n', '\n']) := by
    intro f hf
    obtain ⟨ev, -, hf⟩ := List.mem_flatMap.mp hf
    exact frame_of_mem hf
  unfold streamBody
  cases hfs : evs.flatMap onChild with
  | nil => rfl
  | cons f fs =>
    obtain ⟨c, w, hc, rfl⟩ := hframes f (by rw [hfs]; exact List.mem_cons_self)
    exact if_neg hc

/-- The response so far ends in a blank line, so nothing is left over for the next frame. -/
theorem linesFrom_streamBody (evs : List ChildEvent) (t : Text) :
    EventStream.linesFrom [] (streamBody evs ++ t) =
        EventStream.linesFrom [] (streamBody evs) ++ EventStream.linesFrom [] t ∧
      (EventStream.buffersAfter {} (EventStream.linesFrom [] (streamBody evs))).Clean := by
  unfold streamBody
  rcases List.eq_nil_or_concat (evs.flatMap onChild) with hnil | ⟨fs, f, hfs⟩
  · rw [hnil]
    exact ⟨rfl, rfl, rfl⟩
  · obtain ⟨ev, -, hf⟩ := List.mem_flatMap.mp
      (show f ∈ evs.flatMap onChild by rw [hfs]; simp)
    obtain ⟨c, w, -, rfl⟩ := frame_of_mem hf
    have hend : ((evs.flatMap onChild).flatten : Text) =
        (fs.flatten ++ c :: w) ++ '\n' :: ['\n'] := by
      rw [hfs]
      simp
    have hblank := EventStream.linesFrom_append_newline [] (fs.flatten ++ c :: w) ['\n']
    constructor
    · rw [hend, show (fs.flatten ++ c :: w) ++ '\n' :: ['\n'] ++ t =
        (fs.flatten ++ c :: w ++ ['\n']) ++ '\n' :: t by simp,
        EventStream.linesFrom_append_newline]
      simp
    · rw [hend, hblank]
      exact EventStream.clean_of_blank _ _

/-- The page reads a further chunk after all that it read before, as if it came alone. -/
theorem parse_snoc (before : List ChildEvent) (ev : ChildEvent) :
    ∃ b : EventStream.Buffers, b.Clean ∧
      EventStream.parse (streamBody (before ++ [ev])) =
        EventStream.parse (streamBody before) ++
          EventStream.processLines b (EventStream.linesFrom [] (onChild ev).flatten) := by
  obtain ⟨hlines, hclean⟩ := linesFrom_streamBody before (onChild ev).flatten
  refine ⟨_, hclean, ?_⟩
  have hsnoc : streamBody (before ++ [ev]) = streamBody before ++ (onChild ev).flatten := by
    rw [streamBody_append]
    unfold streamBody
    rw [List.flatMap_singleton]
  unfold EventStream.parse
  rw [dropBom_streamBody, dropBom_streamBody, hsnoc, hlines, EventStream.processLines_append]

/-- A trimmed text ends in no line break. -/
theorem trim_getLast (t : Text) : (Js.trim t).getLast? ≠ some '\r' := fun h =>
  absurd (((Js.trim_eq_self_iff).mp (Js.trim_trim t)).2 _ h) (by decide)

/-- The lines of a stderr frame whose text has the lines `l :: ls`. -/
theorem linesFrom_stderr (t : Text) {l : Text} {ls : List Text}
    (h : EventStream.linesFrom "data: ".toList (t ++ ['\n']) = ("data: ".toList ++ l) :: ls) :
    EventStream.linesFrom [] ("event: error\ndata: ".toList ++ t ++ ['\n', '\n']) =
      ("event: ".toList ++ "error".toList) :: ("data: ".toList ++ l) :: (ls ++ [[]]) := by
  have he : EventStream.OneLine ("event: ".toList ++ "error".toList) := by
    constructor <;> decide
  have hd : EventStream.OneLine "data: ".toList := by
    constructor <;> decide
  have hframe : "event: error\ndata: ".toList ++ t ++ ['\n', '\n'] =
      ("event: ".toList ++ "error".toList) ++ '\n' :: ("data: ".toList ++ (t ++ '\n' :: ['\n'])) := by
    simp
  rw [hframe, EventStream.linesFrom_line _ _ _ he, EventStream.linesFrom_prefix _ _ _ hd,
    EventStream.linesFrom_append_newline, List.nil_append, List.nil_append, h]
  rfl

theorem processLines_stderr (b : EventStream.Buffers) (l : Text) (ls : List Text) :
    EventStream.processLines b
        (("event: ".toList ++ "error".toList) :: ("data: ".toList ++ l) :: ls) =
      EventStream.processLines
        { b with type := "error".toList, data := b.data ++ l ++ ['\n'] } ls := by
  rw [EventStream.processLines, EventStream.processLine_event, EventStream.processLines,
    EventStream.processLine_data]
  rfl

/-- The chunk `d` of stderr reaches the page as one `error` event with all of its text, line breaks
read as line feeds, and as nothing else. -/
def ReportedOnce (before : List ChildEvent) (d : Bytes) : Prop :=
  ∃ e, EventStream.parse (streamBody (before ++ [.stderr d])) =
      EventStream.parse (streamBody before) ++ [e] ∧
    e.type = "error".toList ∧ e.data = EventStream.withLf (Js.trim (Utf8.decode d))

/-- **stderr.**  After whatever the child wrote before: a chunk of stderr is one `error` event with
its whole trimmed text just when that text has no line break. -/
theorem stderr_reported_iff (before : List ChildEvent) (d : Bytes) :
    ReportedOnce before d ↔ EventStream.OneLine (Js.trim (Utf8.decode d)) := by
  obtain ⟨b, ⟨hdata, htype⟩, hparse⟩ := parse_snoc before (.stderr d)
  have hbody : (onChild (.stderr d)).flatten =
      "event: error\ndata: ".toList ++ Js.trim (Utf8.decode d) ++ ['\n', '\n'] := by
    show (onStderr d).flatten = _
    unfold onStderr
    rw [List.flatten_singleton]
  unfold ReportedOnce
  rw [hparse, hbody]
  constructor
  · rintro ⟨e, he, -, hlf⟩
    obtain ⟨l, ls, hlines, hsum, hone⟩ :=
      EventStream.linesFrom_text "data: ".toList _ (trim_getLast (Utf8.decode d))
    apply hone
    by_contra hls
    -- the second line is read as a field of its own, so some of the text is not in the data
    have hevents := List.append_cancel_left he
    rw [linesFrom_stderr _ hlines, processLines_stderr, hdata, List.nil_append] at hevents
    have hended : ({ b with type := "error".toList, data := l ++ ['\n'] } :
        EventStream.Buffers).Ended := .inr (List.getLast?_concat ..)
    have hmem := EventStream.data_length_of_mem hended
      (show e ∈ _ by rw [hevents]; exact List.mem_singleton_self e)
    have hlen : (l ++ ['\n']).length = l.length + 1 := by simp
    have htail : ((ls ++ [[]]).map List.length).sum = (ls.map List.length).sum := by simp
    have hpos : 0 < ls.length := List.length_pos_iff.mpr hls
    rw [hlf, htail, ← hsum] at hmem
    change _ ≤ (l ++ ['\n']).length + _ at hmem
    omega
  · intro hone
    have hlines : EventStream.linesFrom "data: ".toList (Js.trim (Utf8.decode d) ++ ['\n']) =
        ("data: ".toList ++ Js.trim (Utf8.decode d)) :: [] :=
      EventStream.linesFrom_line _ _ [] hone
    rw [linesFrom_stderr _ hlines, processLines_stderr, hdata, List.nil_append]
    refine ⟨⟨"error".toList, Js.trim (Utf8.decode d), b.lastEventId⟩, ?_, rfl,
      (EventStream.withLf_of_oneLine hone).symm⟩
    simp [EventStream.processLines, EventStream.processLine, EventStream.dispatch]

/-- Of `a` and `b` on two lines of stderr the page gets the first. -/
theorem stderr_line_lost : ¬ ReportedOnce [] [97, 10, 98] := by
  rintro ⟨e, he, -, hlf⟩
  have hread : EventStream.parse (streamBody ([] ++ [.stderr [97, 10, 98]])) =
      [⟨"error".toList, ['a'], []⟩] := by decide
  rw [hread] at he
  have hone : [(⟨"error".toList, ['a'], []⟩ : EventStream.Event)] = [e] := he
  obtain rfl := List.singleton_injective hone
  revert hlf
  decide

end HeadlessAndroid.Logcat
