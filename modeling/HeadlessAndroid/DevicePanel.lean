import HeadlessAndroid.DeviceInfo
import HeadlessAndroid.Lib.Html

/-!
# HeadlessAndroid.DevicePanel — `fmtKv` of web/app.js and the HTML that it makes

`refreshDevice` assigns what `fmtKv` makes of the report to `innerHTML`.  The panel shows the keys and
the values of the report, with no element but the `<b>` around each key, just when all of them are
inert where they stand (`shows_iff`).
-/

namespace HeadlessAndroid.Device

open Lib Lib.Js

/-! ## The program -/

/-- `"  ".repeat(depth)`. -/
def indent (depth : ℕ) : Text := (List.replicate depth [' ', ' ']).flatten

/-- `${v}`, of a value that is no object. -/
def leafText (v : JsVal) : Text := (v.toStr 0).getD []

/-- `v != null && typeof v === "object"`. -/
def isObject : JsVal → Bool
  | .arr _ => true
  | .obj _ => true
  | _ => false

mutual

/-- What the function that `fmtKv` maps makes of `[k, v]`. -/
def fmtEntry (depth : ℕ) (k : Text) : JsVal → Text
  | .arr vs => indent depth ++ "<b>".toList ++ k ++ "</b>:\n".toList ++
      joinLines (fmtItems (depth + 1) 0 vs)
  | .obj fs => indent depth ++ "<b>".toList ++ k ++ "</b>:\n".toList ++
      joinLines (fmtFields (depth + 1) fs)
  | v => indent depth ++ "<b>".toList ++ k ++ "</b>: ".toList ++ leafText v

/-- The entries of an array have its indices for keys. -/
def fmtItems (depth : ℕ) : ℕ → List JsVal → List Text
  | _, [] => []
  | i, v :: vs => fmtEntry depth (natText i) v :: fmtItems depth (i + 1) vs

def fmtFields (depth : ℕ) : List (Text × JsVal) → List Text
  | [] => []
  | (k, v) :: fs => fmtEntry depth k v :: fmtFields depth fs

end

/-- `Object.entries`, with the fields of an object in the order of its entries. -/
def entries : JsVal → List (Text × JsVal)
  | .arr vs => (vs.zipIdx).map fun e => (natText e.2, e.1)
  | .obj fs => fs
  | _ => []

/-- `fmtKv(obj, depth)`, of an object or an array. -/
def fmtKv (obj : JsVal) (depth : ℕ) : Text :=
  joinLines ((entries obj).map fun e => fmtEntry depth e.1 e.2)

theorem fmtItems_eq (depth : ℕ) : ∀ (vs : List JsVal) (i : ℕ), fmtItems depth i vs =
    (vs.zipIdx i).map fun e => fmtEntry depth (natText e.2) e.1
  | [], _ => by rw [fmtItems]; rfl
  | v :: vs, i => by rw [fmtItems, fmtItems_eq depth vs (i + 1)]; rfl

theorem fmtFields_eq (depth : ℕ) : ∀ fs : List (Text × JsVal), fmtFields depth fs =
    fs.map fun e => fmtEntry depth e.1 e.2
  | [] => by rw [fmtFields]; rfl
  | (k, v) :: fs => by rw [fmtFields, fmtFields_eq depth fs]; rfl

/-- **The function that `fmtKv` maps**, as the source has it. -/
theorem fmtEntry_eq (depth : ℕ) (k : Text) (v : JsVal) : fmtEntry depth k v =
    if isObject v then indent depth ++ "<b>".toList ++ k ++ "</b>:\n".toList ++ fmtKv v (depth + 1)
    else indent depth ++ "<b>".toList ++ k ++ "</b>: ".toList ++ leafText v := by
  unfold fmtKv
  cases v with
  | arr vs =>
    rw [fmtEntry, fmtItems_eq]
    simp only [entries, List.map_map]
    rfl
  | obj fs =>
    rw [fmtEntry, fmtFields_eq]
    rfl
  | _ =>
    rw [fmtEntry]
    · rfl
    · simp
    · simp

/-! ## The lines of the panel -/

inductive Row where
  /-- What an empty object or array adds. -/
  | blank
  /-- A key, and the value unless it is an object. -/
  | entry (depth : ℕ) (key : Text) (value : Option Text)
  deriving DecidableEq

/-- What follows the key. -/
def valueText : Option Text → Text
  | none => [':']
  | some t => ": ".toList ++ t

def Row.html : Row → Text
  | .blank => []
  | .entry depth key value =>
    indent depth ++ ("<b>".toList ++ (key ++ ("</b>".toList ++ valueText value)))

/-- What the row shows. -/
def Row.text : Row → Text
  | .blank => []
  | .entry depth key value => indent depth ++ (key ++ valueText value)

def Row.tags : Row → List Html.Item
  | .blank => []
  | .entry _ _ _ => [.openTag ['b'], .closeTag ['b']]

def orBlank (rows : List Row) : List Row := if rows = [] then [.blank] else rows

mutual

/-- The rows of a key and its value. -/
def rowsOf (depth : ℕ) (k : Text) : JsVal → List Row
  | .arr vs => .entry depth k none :: orBlank (itemRows (depth + 1) 0 vs)
  | .obj fs => .entry depth k none :: orBlank (fieldRows (depth + 1) fs)
  | v => [.entry depth k (some (leafText v))]

def itemRows (depth : ℕ) : ℕ → List JsVal → List Row
  | _, [] => []
  | i, v :: vs => rowsOf depth (natText i) v ++ itemRows depth (i + 1) vs

def fieldRows (depth : ℕ) : List (Text × JsVal) → List Row
  | [] => []
  | (k, v) :: fs => rowsOf depth k v ++ fieldRows depth fs

end

/-- The rows of an object or an array. -/
def rows (obj : JsVal) (depth : ℕ) : List Row := (entries obj).flatMap fun e => rowsOf depth e.1 e.2

theorem itemRows_eq (depth : ℕ) : ∀ (vs : List JsVal) (i : ℕ), itemRows depth i vs =
    ((vs.zipIdx i).map fun e => (natText e.2, e.1)).flatMap fun e => rowsOf depth e.1 e.2
  | [], _ => by rw [itemRows]; rfl
  | v :: vs, i => by rw [itemRows, itemRows_eq depth vs (i + 1)]; rfl

theorem fieldRows_eq (depth : ℕ) : ∀ fs : List (Text × JsVal), fieldRows depth fs =
    fs.flatMap fun e => rowsOf depth e.1 e.2
  | [] => by rw [fieldRows]; rfl
  | (k, v) :: fs => by rw [fieldRows, fieldRows_eq depth fs]; rfl

theorem rowsOf_eq (depth : ℕ) (k : Text) (v : JsVal) : rowsOf depth k v =
    if isObject v then .entry depth k none :: orBlank (rows v (depth + 1))
    else [.entry depth k (some (leafText v))] := by
  unfold rows
  cases v with
  | arr vs =>
    rw [rowsOf, itemRows_eq]
    rfl
  | obj fs =>
    rw [rowsOf, fieldRows_eq]
    rfl
  | _ =>
    rw [rowsOf]
    · rfl
    · simp
    · simp

theorem rowsOf_ne_nil (depth : ℕ) (k : Text) (v : JsVal) : rowsOf depth k v ≠ [] := by
  rw [rowsOf_eq]
  split
  · exact List.cons_ne_nil _ _
  · exact List.cons_ne_nil _ _

theorem sizeOf_entry {v : JsVal} {e : Text × JsVal} (h : e ∈ entries v) : sizeOf e.2 < sizeOf v := by
  cases v with
  | arr vs =>
    obtain ⟨x, hx, rfl⟩ := List.mem_map.mp h
    have hmem : x.1 ∈ vs := List.fst_mem_of_mem_zipIdx hx
    have hlt := List.sizeOf_lt_of_mem hmem
    simp only [JsVal.arr.sizeOf_spec]
    omega
  | obj fs =>
    have hlt : sizeOf e < sizeOf fs := List.sizeOf_lt_of_mem h
    have hsnd : sizeOf e.2 < sizeOf e := by
      obtain ⟨k, v⟩ := e
      simp only [Prod.mk.sizeOf_spec]
      omega
    simp only [JsVal.obj.sizeOf_spec]
    omega
  | _ => cases h

/-- Entries one after the other, each of which is made of its rows. -/
theorem join_entries (depth : ℕ) : ∀ {es : List (Text × JsVal)},
    (∀ e ∈ es, joinLines ((rowsOf depth e.1 e.2).map Row.html) = fmtEntry depth e.1 e.2) →
      joinLines ((es.flatMap fun e => rowsOf depth e.1 e.2).map Row.html) =
        joinLines (es.map fun e => fmtEntry depth e.1 e.2)
  | [], _ => rfl
  | [e], h => by
    have he := h e List.mem_cons_self
    simpa [joinLines] using he
  | e :: e' :: es, h => by
    obtain ⟨he, hes⟩ := List.forall_mem_cons.mp h
    have hne : ((e' :: es).flatMap fun e => rowsOf depth e.1 e.2).map Row.html ≠ [] := by
      simp [rowsOf_ne_nil]
    have hne' : (rowsOf depth e.1 e.2).map Row.html ≠ [] := by simp [rowsOf_ne_nil]
    rw [List.flatMap_cons, List.map_append, joinLines_append hne hne', he, join_entries depth hes]
    simp only [List.map_cons, joinLines_cons_cons]

theorem joinLines_orBlank (rs : List Row) :
    joinLines ((orBlank rs).map Row.html) = joinLines (rs.map Row.html) := by
  unfold orBlank
  split
  · rename_i h
    rw [h]
    rfl
  · rfl

/-- **Every entry is made of its rows.** -/
theorem rowsOf_html (depth : ℕ) (k : Text) (v : JsVal) :
    joinLines ((rowsOf depth k v).map Row.html) = fmtEntry depth k v := by
  rw [rowsOf_eq, fmtEntry_eq]
  by_cases hv : isObject v = true
  · rw [if_pos hv, if_pos hv]
    have hne : (orBlank (rows v (depth + 1))).map Row.html ≠ [] := by
      unfold orBlank
      split <;> simp_all
    have hrows : joinLines ((rows v (depth + 1)).map Row.html) = fmtKv v (depth + 1) :=
      join_entries (depth + 1) fun e he =>
        have := sizeOf_entry he
        rowsOf_html (depth + 1) e.1 e.2
    have htag : "</b>:\n".toList = "</b>".toList ++ ([':'] ++ ['\n']) := rfl
    rw [List.map_cons, ← List.singleton_append, joinLines_append hne (List.cons_ne_nil _ _),
      joinLines_orBlank, hrows, htag]
    show joinLines [indent depth ++ ("<b>".toList ++ (k ++ ("</b>".toList ++ [':'])))] ++ _ = _
    simp [joinLines]
  · rw [if_neg hv, if_neg hv]
    have htag : "</b>: ".toList = "</b>".toList ++ ": ".toList := rfl
    rw [htag]
    show joinLines [indent depth ++ ("<b>".toList ++ (k ++ ("</b>".toList ++
      (": ".toList ++ leafText v))))] = _
    simp [joinLines]
termination_by sizeOf v

/-- `fmtKv` joins the rows of its object. -/
theorem fmtKv_rows (obj : JsVal) (depth : ℕ) :
    fmtKv obj depth = joinLines ((rows obj depth).map Row.html) :=
  (join_entries depth fun e _ => rowsOf_html depth e.1 e.2).symm

/-! ## What the panel shows -/

/-- Parsing what is assigned to `innerHTML` gives the tags around the keys and no others, and the
text of the rows. -/
def Shows (refs : Html.NamedRefs) (obj : JsVal) : Prop :=
  ∃ items, Html.parse refs (fmtKv obj 0) = some items ∧
    Html.tagsOf items = (rows obj 0).flatMap Row.tags ∧
    Html.textOf items = joinLines ((rows obj 0).map Row.text)

/-- The key and the value stand for themselves, the value perhaps at the end of the document. -/
def Row.Inert (refs : Html.NamedRefs) (last : Bool) : Row → Prop
  | .blank => True
  | .entry _ key value => Html.Inert refs false key ∧ ∀ t ∈ value, Html.Inert refs last t

def AllInert (refs : Html.NamedRefs) : List Row → Prop
  | [] => True
  | [r] => r.Inert refs true
  | r :: rs => r.Inert refs false ∧ AllInert refs rs

section Read

variable (refs : Html.NamedRefs) {last : Bool} {rest : Text}

theorem indent_text (depth : ℕ) : ((indent depth).all Html.isText) = true := by
  refine List.all_eq_true.mpr fun c hc => ?_
  obtain ⟨l, hl, hc⟩ := List.mem_flatten.mp hc
  rw [List.eq_of_mem_replicate hl] at hc
  simp only [List.mem_cons, List.not_mem_nil, or_false, or_self] at hc
  rw [hc]
  rfl

theorem bounded_value (hrest : Html.Ends last rest) (value : Option Text) :
    Html.Bounded refs rest (valueText value) (valueText value)
      (∀ t ∈ value, Html.Inert refs last t) := by
  cases value with
  | none =>
    have h : Html.Bounded refs rest [':'] [':'] True := (Html.shown_text (by decide)).bounded
    exact h.imp fun _ t ht => by cases ht
  | some t =>
    have h : Html.Bounded refs (t ++ rest) ": ".toList ": ".toList True :=
      (Html.shown_text (by decide)).bounded
    refine (h.append (Html.bounded_data hrest t)).imp fun hP u hu => ?_
    cases hu
    exact hP.2

theorem shown_value (hrest : Html.Ends last rest) {value : Option Text}
    (h : ∀ t ∈ value, Html.Inert refs last t) :
    Html.Shown refs rest (valueText value) (valueText value) [] := by
  cases value with
  | none => exact Html.shown_text (by decide)
  | some t =>
    have hcolon : Html.Shown refs (t ++ rest) ": ".toList ": ".toList [] := Html.shown_text (by decide)
    exact hcolon.append (Html.shown_data hrest (h t rfl))

/-- The closing tag ends the key. -/
theorem ends_key (t rest : Text) : Html.Ends false ("</b>".toList ++ t ++ rest) :=
  ⟨'<', _, rfl, .inl rfl⟩

theorem Row.bounded (hrest : Html.Ends last rest) (r : Row) :
    Html.Bounded refs rest r.html r.text (r.Inert refs last) := by
  cases r with
  | blank =>
    have h : Html.Shown refs rest [] [] [] := Html.shown_text rfl
    exact h.bounded
  | entry depth key value =>
    have hvalue := bounded_value refs hrest value
    have hclose := Html.shown_closeTag.bounded.append hvalue
    have hkey := (Html.bounded_data (ends_key _ rest) key).append hclose
    have hopen := Html.shown_openTag.bounded.append hkey
    have hentry := (Html.shown_text (indent_text depth)).bounded.append hopen
    exact hentry.imp fun hP => ⟨hP.2.2.1, hP.2.2.2.2⟩

theorem Row.shown (hrest : Html.Ends last rest) {r : Row} (h : r.Inert refs last) :
    Html.Shown refs rest r.html r.text r.tags := by
  cases r with
  | blank => exact Html.shown_text rfl
  | entry depth key value =>
    have hvalue := shown_value refs hrest h.2
    have hclose := Html.shown_closeTag.append hvalue
    have hkey := (Html.shown_data (ends_key _ rest) h.1).append hclose
    have hopen := Html.shown_openTag.append hkey
    exact (Html.shown_text (indent_text depth)).append hopen

end Read

/-- A newline ends the row before it. -/
theorem ends_row (t : Text) : Html.Ends false ('\n' :: t) := ⟨'\n', t, rfl, .inr rfl⟩

theorem bounded_rows (refs : Html.NamedRefs) : ∀ rs : List Row,
    Html.Bounded refs [] (joinLines (rs.map Row.html)) (joinLines (rs.map Row.text)) (AllInert refs rs)
  | [] => by
    have h : Html.Shown refs [] [] [] [] := Html.shown_text rfl
    exact h.bounded.imp fun _ => trivial
  | [r] => by
    have hend : Html.Ends true [] := rfl
    have h := Row.bounded refs hend r
    simpa [joinLines, AllInert] using h
  | r :: r' :: rs => by
    have ih := bounded_rows refs (r' :: rs)
    have hline : Html.Bounded refs (joinLines ((r' :: rs).map Row.html) ++ []) ['\n'] ['\n'] True :=
      (Html.shown_text (by decide)).bounded
    have htail := hline.append ih
    have h := (Row.bounded refs (ends_row _) r).append htail
    simp only [List.map_cons, joinLines_cons_cons]
    exact h.imp fun hP => ⟨hP.1, hP.2.2⟩

theorem shown_rows {refs : Html.NamedRefs} : ∀ {rs : List Row}, AllInert refs rs →
    Html.Shown refs [] (joinLines (rs.map Row.html)) (joinLines (rs.map Row.text))
      (rs.flatMap Row.tags)
  | [], _ => Html.shown_text rfl
  | [r], h => by
    have hend : Html.Ends true [] := rfl
    have hr := Row.shown refs hend (r := r) h
    simpa [joinLines] using hr
  | r :: r' :: rs, h => by
    have ih := shown_rows h.2
    have hline : Html.Shown refs (joinLines ((r' :: rs).map Row.html) ++ []) ['\n'] ['\n'] [] :=
      Html.shown_text (by decide)
    have hr := (Row.shown refs (ends_row _) h.1).append (hline.append ih)
    simp only [List.map_cons, joinLines_cons_cons]
    exact hr

theorem AllInert.of_mem {refs : Html.NamedRefs} : ∀ {rs : List Row}, AllInert refs rs →
    ∀ r ∈ rs, ∃ last, r.Inert refs last
  | [r], h, _, hr => by
    rw [List.mem_singleton.mp hr]
    exact ⟨true, h⟩
  | r :: r' :: rs, h, s, hs => by
    rcases List.mem_cons.mp hs with rfl | hs
    · exact ⟨false, h.1⟩
    · exact AllInert.of_mem h.2 s hs

/-- What the panel shows is inert: nothing else comes to as much as itself. -/
theorem Shows.allInert {refs : Html.NamedRefs} {obj : JsVal} (h : Shows refs obj) :
    AllInert refs (rows obj 0) := by
  obtain ⟨items, hparse, -, htext⟩ := h
  rw [fmtKv_rows] at hparse
  obtain ⟨its, its', hrest, rfl, -, hinert⟩ :=
    bounded_rows refs (rows obj 0) items (by rw [List.append_nil]; exact hparse)
  cases hrest
  rw [List.append_nil] at htext
  exact hinert (by rw [htext])

/-- **The panel.**  For every report: it shows the keys and the values, with the tags around the keys
and no others, just when every key and every value is inert. -/
theorem shows_iff (refs : Html.NamedRefs) (fields : List (Text × JsVal)) :
    Shows refs (.obj fields) ↔ AllInert refs (rows (.obj fields) 0) := by
  refine ⟨Shows.allInert, fun h => ?_⟩
  obtain ⟨its, hread, htext, htags⟩ := shown_rows h
  rw [List.append_nil] at hread
  refine ⟨its, ?_, htags, htext⟩
  unfold Html.parse
  rw [fmtKv_rows, hread, Html.read, Option.map_some, List.append_nil]

/-- The references that XML has too. -/
def fewRefs : Html.NamedRefs :=
  Html.NamedRefs.ofTable [("amp;".toList, ['&']), ("lt;".toList, ['<']), ("gt;".toList, ['>']),
    ("quot;".toList, ['"']), ("apos;".toList, ['\''])] (by decide)

/-- A device whose model is named `<img src=x onerror=alert(1)>`. -/
def taggedModel : AdbServer where
  table :=
    { entries := [online "127.0.0.1:5555".toList (by decide)]
      serials_nodup := by decide }
  answers := fun _ cmd => adbClose (some 0) false
    (if cmd = "getprop ro.product.model".toList then "<img src=x onerror=alert(1)>".toList else []) []
  complaint := []

/-- Its report is not what the panel shows. -/
theorem model_adds_markup : ∃ fields, (deviceInfo ⟨"avd".toList, []⟩).run
      (adbWorld ⟨"avd".toList, []⟩ taggedModel) () = ⟨some (.obj fields), [], ()⟩ ∧
    ¬ Shows fewRefs (.obj fields) := by
  refine ⟨_, run_adbWorld ⟨"avd".toList, []⟩ taggedModel, fun h => ?_⟩
  have hmem : Row.entry 1 "model".toList (some "<img src=x onerror=alert(1)>".toList) ∈
      rows (infoOf ⟨"avd".toList, []⟩ (taggedModel.table.entries.map TableEntry.read)
        fun cmd => taggedModel.run (args ⟨"avd".toList, []⟩ ["shell".toList, cmd])) 0 := by
    decide +kernel
  obtain ⟨last, -, hvalue⟩ := h.allInert.of_mem _ hmem
  rcases (hvalue _ rfl).1.less rfl with hless | ⟨-, ht⟩
  · cases hless 'i' rfl
  · revert ht
    decide

end HeadlessAndroid.Device
