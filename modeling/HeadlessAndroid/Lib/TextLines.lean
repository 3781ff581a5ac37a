import HeadlessAndroid.Lib.JsText
import HeadlessAndroid.Lib.Lines
import Mathlib.Data.List.DropRight
import Mathlib.Data.List.Induction

/-!
# Lib.TextLines — lines that are printed and read back

A program prints one item a line, and a reader trims the whole, splits it and trims the pieces.  It
gets the items back if each is a line for itself (`IsLine`), and gets nothing else.
-/

namespace Lib.Js

/-- Not empty, on one line and without white space at its ends. -/
structure IsLine (t : Text) : Prop where
  ne_nil : t ≠ []
  one : '\n' ∉ t
  trim_eq : trim t = t

theorem trim_eq_rdropWhile (t : Text) : trim t = (t.dropWhile isSpace).rdropWhile isSpace := rfl

/-- `trim` leaves a text as it is just when it has no white space at its ends. -/
theorem trim_eq_self_iff {t : Text} : trim t = t ↔
    (∀ c, t.head? = some c → isSpace c = false) ∧
      ∀ c, t.getLast? = some c → isSpace c = false := by
  have hhead : t.dropWhile isSpace = t ↔ ∀ c, t.head? = some c → isSpace c = false := by
    cases t with
    | nil => simp
    | cons c t =>
      by_cases hc : isSpace c = true
      · have hlen : (t.dropWhile isSpace).length ≤ t.length :=
          (List.dropWhile_suffix isSpace).length_le
        rw [List.dropWhile_cons_of_pos hc]
        refine iff_of_false (fun h => ?_) fun h => ?_
        · rw [h, List.length_cons] at hlen
          omega
        · rw [h c rfl] at hc
          cases hc
      · rw [List.dropWhile_cons_of_neg hc]
        simpa using hc
  have hlast : t.rdropWhile isSpace = t ↔ ∀ c, t.getLast? = some c → isSpace c = false := by
    rw [List.rdropWhile_eq_self_iff]
    constructor
    · intro h c hc
      have hne : t ≠ [] := by
        rintro rfl
        cases hc
      rw [List.getLast?_eq_some_getLast hne] at hc
      cases hc
      exact Bool.eq_false_of_not_eq_true (h hne)
    · intro h hne
      rw [h _ (List.getLast?_eq_some_getLast hne)]
      exact Bool.false_ne_true
  rw [← hhead, ← hlast, trim_eq_rdropWhile]
  constructor
  · intro h
    have hd : t.dropWhile isSpace = t := by
      refine (List.dropWhile_suffix isSpace).eq_of_length_le ?_
      have hle := (List.rdropWhile_prefix isSpace (t.dropWhile isSpace)).length_le
      rw [h] at hle
      exact hle
    exact ⟨hd, by rwa [hd] at h⟩
  · rintro ⟨hd, hr⟩
    rw [hd, hr]

theorem trim_trim (t : Text) : trim (trim t) = trim t := by
  have hpre : trim t <+: t.dropWhile isSpace := List.rdropWhile_prefix _ _
  refine trim_eq_self_iff.mpr ⟨fun c hc => ?_, fun c hc => ?_⟩
  · obtain ⟨u, hu⟩ := hpre
    have hd : (t.dropWhile isSpace).head? = some c := by rw [← hu, List.head?_append, hc]; rfl
    have := List.head?_dropWhile_not isSpace t
    rw [hd] at this
    simpa using this
  · have hne : trim t ≠ [] := by
      intro hnil
      rw [hnil] at hc
      cases hc
    rw [List.getLast?_eq_some_getLast hne] at hc
    cases hc
    exact Bool.eq_false_of_not_eq_true (List.rdropWhile_last_not _ _ hne)

theorem mem_of_mem_trim {t : Text} {c : Char} (h : c ∈ trim t) : c ∈ t :=
  (List.dropWhile_suffix isSpace).subset ((List.rdropWhile_prefix isSpace _).subset h)

/-- White space at the end is not there after `trim`. -/
theorem trim_concat_space {c : Char} (hc : isSpace c = true) (t : Text) :
    trim (t ++ [c]) = trim t := by
  rw [trim_eq_rdropWhile, trim_eq_rdropWhile, List.dropWhile_append]
  split
  · rename_i h
    rw [List.isEmpty_iff.mp h, List.dropWhile_cons_of_pos hc]
    rfl
  · exact List.rdropWhile_concat_pos _ _ _ hc

theorem splitOn_flatMap_newline {last : Text} (hlast : '\n' ∉ last) :
    ∀ {ls : List Text}, (∀ l ∈ ls, '\n' ∉ l) →
      ((ls.flatMap fun l => l ++ ['\n']) ++ last).splitOn '\n' = ls ++ [last]
  | [], _ => List.splitOn_eq_singleton hlast
  | l :: ls, h => by
    have hl : l.splitOn '\n' = [l] := List.splitOn_eq_singleton (h l List.mem_cons_self)
    rw [List.flatMap_cons, List.append_assoc, List.append_assoc, List.singleton_append,
      List.splitOn_append_cons_self, hl,
      splitOn_flatMap_newline hlast fun l' hl' => h l' (List.mem_cons_of_mem _ hl')]
    rfl

/-- **What is printed a line each is read back**: trimmed, split and trimmed again. -/
theorem splitOn_trim_lines {ls : List Text} (hne : ls ≠ []) (h : ∀ l ∈ ls, IsLine l) :
    (trim (ls.flatMap fun l => l ++ ['\n'])).splitOn '\n' = ls := by
  obtain ⟨init, last, hls⟩ := (List.eq_nil_or_concat ls).resolve_left hne
  rw [List.concat_eq_append] at hls
  subst hls
  have hinit : ∀ l ∈ init, IsLine l := fun l hl => h l (by simp [hl])
  have hlast : IsLine last := h last (by simp)
  have htext : (init ++ [last]).flatMap (fun l => l ++ ['\n']) =
      (init.flatMap (fun l => l ++ ['\n']) ++ last) ++ ['\n'] := by simp
  have hends : trim (init.flatMap (fun l => l ++ ['\n']) ++ last) =
      init.flatMap (fun l => l ++ ['\n']) ++ last := by
    refine trim_eq_self_iff.mpr ⟨fun c hc => ?_, fun c hc => ?_⟩
    · cases init with
      | nil => exact (trim_eq_self_iff.mp hlast.trim_eq).1 c hc
      | cons l init =>
        have hl := hinit l List.mem_cons_self
        obtain ⟨d, l', rfl⟩ := List.exists_cons_of_ne_nil hl.ne_nil
        exact (trim_eq_self_iff.mp hl.trim_eq).1 c hc
    · rw [List.getLast?_append_of_ne_nil _ hlast.ne_nil] at hc
      exact (trim_eq_self_iff.mp hlast.trim_eq).2 c hc
  rw [htext, trim_concat_space (by decide), hends]
  exact splitOn_flatMap_newline hlast.one fun l hl => (hinit l hl).one

/-- A piece of a text that is trimmed and not empty is a line. -/
theorem isLine_of_piece {t l : Text} (hl : l ∈ t.splitOn '\n') (hne : trim l ≠ []) :
    IsLine (trim l) where
  ne_nil := hne
  one := by
    intro hmem
    have hseg : l ∈ segments '\n' t := by
      refine List.mem_filter.mpr ⟨hl, ?_⟩
      cases l with
      | nil => exact absurd rfl hne
      | cons c l => rfl
    exact (of_mem_segments hseg).2.1 (mem_of_mem_trim hmem)
  trim_eq := trim_trim l

/-! ## Lines with blanks among them -/

/-- Nothing but white space. -/
def IsBlank (l : Text) : Prop := ∀ c ∈ l, isSpace c = true

theorem isBlank_of_trim {t : Text} (h : trim t = []) : IsBlank t := by
  rw [trim_eq_rdropWhile, List.rdropWhile_eq_nil_iff] at h
  have hd : t.dropWhile isSpace = [] := by
    by_contra hne
    have hhead := List.head?_dropWhile_not isSpace t
    rw [List.head?_eq_some_head hne] at hhead
    exact absurd (h _ (List.head_mem hne)) (by simpa using hhead)
  exact List.dropWhile_eq_nil_iff.mp hd

/-- What a reader gets that splits a text into lines, reads each line and drops the empty results. -/
def readLines (read : Text → Text) (t : Text) : List Text :=
  ((t.splitOn '\n').map read).filter fun s => !s.isEmpty

/-- The reader ignores white space at the end of a line. -/
structure IgnoresEnd (read : Text → Text) : Prop where
  nil : read [] = []
  concat : ∀ {c : Char}, isSpace c = true → ∀ l, read (l ++ [c]) = read l

theorem IgnoresEnd.append_blank {read : Text → Text} (hr : IgnoresEnd read) {pad : Text}
    (h : IsBlank pad) (t : Text) : read (t ++ pad) = read t := by
  induction pad using List.reverseRecOn with
  | nil => rw [List.append_nil]
  | append_singleton pad c ih =>
    rw [← List.append_assoc, hr.concat (h c (by simp))]
    exact ih fun d hd => h d (by simp [hd])

theorem IgnoresEnd.blank {read : Text → Text} (hr : IgnoresEnd read) {l : Text} (h : IsBlank l) :
    read l = [] :=
  (hr.append_blank h []).trans hr.nil

theorem ignoresEnd_trim : IgnoresEnd trim where
  nil := rfl
  concat hc l := trim_concat_space hc l

theorem readLines_append_newline (read : Text → Text) (a b : Text) :
    readLines read (a ++ '\n' :: b) = readLines read a ++ readLines read b := by
  unfold readLines
  rw [List.splitOn_append_cons_self, List.map_append, List.filter_append]

theorem readLines_one (read : Text → Text) {l : Text} (h : '\n' ∉ l) :
    readLines read l = [read l].filter fun s => !s.isEmpty := by
  unfold readLines
  rw [List.splitOn_eq_singleton h, List.map_singleton]

theorem IgnoresEnd.readLines_nil {read : Text → Text} (hr : IgnoresEnd read) :
    readLines read [] = [] := by
  rw [readLines_one read List.not_mem_nil, hr.nil]
  rfl

theorem readLines_concat {read : Text → Text} (hr : IgnoresEnd read) {c : Char}
    (hc : isSpace c = true) (t : Text) : readLines read (t ++ [c]) = readLines read t := by
  by_cases hm : '\n' ∈ t
  · obtain ⟨a, b, rfl⟩ := List.append_of_mem hm
    have ih := readLines_concat hr hc b
    rw [List.append_assoc, List.cons_append, readLines_append_newline, readLines_append_newline, ih]
  · by_cases hn : c = '\n'
    · subst hn
      rw [readLines_append_newline, hr.readLines_nil, List.append_nil]
    · have hm' : '\n' ∉ t ++ [c] := by simp [hm, Ne.symm hn]
      rw [readLines_one read hm', readLines_one read hm, hr.concat hc]
termination_by t.length
decreasing_by
  subst_vars
  simp
  omega

theorem readLines_rdropWhile {read : Text → Text} (hr : IgnoresEnd read) (t : Text) :
    readLines read (t.rdropWhile isSpace) = readLines read t := by
  induction t using List.reverseRecOn with
  | nil => rfl
  | append_singleton t c ih =>
    by_cases hc : isSpace c = true
    · rw [List.rdropWhile_concat_pos _ _ _ hc, ih, readLines_concat hr hc]
    · rw [List.rdropWhile_concat_neg _ _ _ hc]

/-- The lines of an output, with a line feed between them. -/
def joinLines (ls : List Text) : Text := ['\n'].intercalate ls

theorem joinLines_cons_cons (l l' : Text) (ls : List Text) :
    joinLines (l :: l' :: ls) = l ++ '\n' :: joinLines (l' :: ls) := by
  simp [joinLines, List.intercalate]

theorem joinLines_append {b : List Text} (hb : b ≠ []) : ∀ {a : List Text}, a ≠ [] →
    joinLines (a ++ b) = joinLines a ++ '\n' :: joinLines b
  | [], ha => absurd rfl ha
  | [l], _ => by
    obtain ⟨l', ls, rfl⟩ := List.exists_cons_of_ne_nil hb
    rw [List.singleton_append, joinLines_cons_cons]
    simp [joinLines]
  | l :: l' :: a, _ => by
    have ih := joinLines_append hb (List.cons_ne_nil l' a)
    rw [List.cons_append, List.cons_append, joinLines_cons_cons, joinLines_cons_cons, ← List.cons_append,
      ih]
    simp

/-- White space before the first line that is not blank is made of blank lines. -/
theorem readLines_dropWhile {read : Text → Text} (hr : IgnoresEnd read) : ∀ {ls : List Text},
    (∀ l ∈ ls, '\n' ∉ l) → (∀ l ∈ ls, IsBlank l ∨ l.dropWhile isSpace = l ∧ l ≠ []) →
      readLines read ((joinLines ls).dropWhile isSpace) =
        (ls.map read).filter fun s => !s.isEmpty
  | [], _, _ => hr.readLines_nil
  | [l], hone, hls => by
    have hjoin : joinLines [l] = l := by simp [joinLines]
    rw [hjoin, List.map_singleton]
    rcases hls l List.mem_cons_self with hb | ⟨hd, -⟩
    · have hdrop : l.dropWhile isSpace = [] := List.dropWhile_eq_nil_iff.mpr hb
      rw [hdrop, hr.readLines_nil, hr.blank hb]
      rfl
    · rw [hd, readLines_one read (hone l List.mem_cons_self)]
  | l :: l' :: ls, hone, hls => by
    have ih := readLines_dropWhile hr (fun k hk => hone k (List.mem_cons_of_mem l hk))
      fun k hk => hls k (List.mem_cons_of_mem l hk)
    rw [joinLines_cons_cons]
    rcases hls l List.mem_cons_self with hb | ⟨hd, hne⟩
    · have hdrop : (l ++ '\n' :: joinLines (l' :: ls)).dropWhile isSpace =
          (joinLines (l' :: ls)).dropWhile isSpace := by
        rw [List.dropWhile_append, List.dropWhile_eq_nil_iff.mpr hb]
        exact List.dropWhile_cons_of_pos (show isSpace '\n' = true by decide)
      rw [hdrop, ih]
      show _ = (read l :: (l' :: ls).map read).filter fun s => !s.isEmpty
      rw [hr.blank hb]
      rfl
    · have hdrop : (l ++ '\n' :: joinLines (l' :: ls)).dropWhile isSpace =
          joinLines (l :: l' :: ls) := by
        rw [List.dropWhile_append, hd, joinLines_cons_cons, if_neg (by simpa using hne)]
      rw [hdrop]
      unfold readLines joinLines
      rw [List.splitOn_intercalate '\n' hone (List.cons_ne_nil l _)]

/-- **Every line is read for itself**, although the whole is trimmed first. -/
theorem readLines_trim {read : Text → Text} (hr : IgnoresEnd read) {ls : List Text}
    (hone : ∀ l ∈ ls, '\n' ∉ l) (hls : ∀ l ∈ ls, IsBlank l ∨ l.dropWhile isSpace = l ∧ l ≠ []) :
    readLines read (trim (joinLines ls)) = (ls.map read).filter fun s => !s.isEmpty := by
  rw [trim_eq_rdropWhile, readLines_rdropWhile hr, readLines_dropWhile hr hone hls]

/-- A reader that drops the first line, which is there for itself, gets what is in the rest. -/
theorem readLines_tail {read : Text → Text} (hr : IgnoresEnd read) {first : Text} (hf : IsLine first)
    (t : Text) :
    ((((trim (first ++ '\n' :: t)).splitOn '\n').drop 1).map read).filter (fun s => !s.isEmpty) =
      readLines read t := by
  have hone : first.splitOn '\n' = [first] := List.splitOn_eq_singleton hf.one
  induction t using List.reverseRecOn with
  | nil =>
    have htrim : trim (first ++ ['\n']) = first := (trim_concat_space (by decide) first).trans hf.trim_eq
    rw [htrim, hone, hr.readLines_nil]
    rfl
  | append_singleton t c ih =>
    have happ : first ++ '\n' :: (t ++ [c]) = (first ++ '\n' :: t) ++ [c] := by simp
    cases hc : isSpace c with
    | true => rw [happ, trim_concat_space hc, ih, readLines_concat hr hc]
    | false =>
      have hends : trim (first ++ '\n' :: (t ++ [c])) = first ++ '\n' :: (t ++ [c]) := by
        refine trim_eq_self_iff.mpr ⟨fun d hd => ?_, fun d hd => ?_⟩
        · rw [List.head?_append_of_ne_nil _ hf.ne_nil] at hd
          exact (trim_eq_self_iff.mp hf.trim_eq).1 d hd
        · rw [happ, List.getLast?_concat] at hd
          cases hd
          exact hc
      rw [hends, List.splitOn_append_cons_self, hone]
      rfl

/-- The lines of a body that is printed a line each. -/
theorem readLines_printed {read : Text → Text} (hr : IgnoresEnd read) {ls : List Text}
    (h : ∀ l ∈ ls, '\n' ∉ l) :
    readLines read (ls.flatMap fun l => l ++ ['\n']) = (ls.map read).filter fun s => !s.isEmpty := by
  have hsplit := splitOn_flatMap_newline List.not_mem_nil h
  rw [List.append_nil] at hsplit
  unfold readLines
  rw [hsplit, List.map_append, List.filter_append, List.map_singleton, hr.nil]
  exact List.append_nil _

/-! ## Words -/

/-- The pieces of a text between its runs of white space, of which `cur` was read before; `after`
says that the last character was white space. -/
def splitSpacesFrom (cur : Text) (after : Bool) : Text → List Text
  | [] => [cur]
  | c :: t =>
    if isSpace c then
      if after then splitSpacesFrom cur true t else cur :: splitSpacesFrom [] true t
    else splitSpacesFrom (cur ++ [c]) false t

/-- `t.split(/\s+/)`. -/
def splitSpaces (t : Text) : List Text := splitSpacesFrom [] false t

/-- Not empty and without white space. -/
structure IsToken (t : Text) : Prop where
  ne_nil : t ≠ []
  clean : ∀ c ∈ t, isSpace c = false

theorem splitSpacesFrom_clean : ∀ {w : Text}, (∀ c ∈ w, isSpace c = false) → ∀ cur t : Text,
    splitSpacesFrom cur false (w ++ t) = splitSpacesFrom (cur ++ w) false t
  | [], _, cur, t => by rw [List.nil_append, List.append_nil]
  | c :: w, h, cur, t => by
    have hc : isSpace c = false := h c List.mem_cons_self
    have ih := splitSpacesFrom_clean (fun d hd => h d (List.mem_cons_of_mem c hd)) (cur ++ [c]) t
    rw [List.cons_append, splitSpacesFrom, if_neg (by simp [hc]), ih, List.append_assoc,
      List.singleton_append]

theorem splitSpacesFrom_blank : ∀ {pad : Text}, IsBlank pad → ∀ cur t : Text,
    splitSpacesFrom cur true (pad ++ t) = splitSpacesFrom cur true t
  | [], _, _, _ => rfl
  | c :: pad, h, cur, t => by
    have ih := splitSpacesFrom_blank (fun d hd => h d (List.mem_cons_of_mem c hd)) cur t
    rw [List.cons_append, splitSpacesFrom, if_pos (h c List.mem_cons_self), if_pos rfl, ih]

/-- A run of white space ends a piece, and a word begins the next. -/
theorem splitSpacesFrom_gap {pad w : Text} (hpad : IsBlank pad) (hne : pad ≠ []) (hw : IsToken w)
    (cur t : Text) : splitSpacesFrom cur false (pad ++ (w ++ t)) = cur :: splitSpacesFrom w false t := by
  obtain ⟨c, pad, rfl⟩ := List.exists_cons_of_ne_nil hne
  obtain ⟨d, w, rfl⟩ := List.exists_cons_of_ne_nil hw.ne_nil
  have hd : isSpace d = false := hw.clean d List.mem_cons_self
  have hrest := splitSpacesFrom_clean (fun e he => hw.clean e (List.mem_cons_of_mem d he)) [d] t
  have hgap := splitSpacesFrom_blank (fun e he => hpad e (List.mem_cons_of_mem c he)) [] (d :: (w ++ t))
  rw [List.cons_append, splitSpacesFrom, if_pos (hpad c List.mem_cons_self),
    if_neg Bool.false_ne_true, List.cons_append, hgap, splitSpacesFrom, if_neg (by simp [hd])]
  exact congrArg (cur :: ·) hrest

/-- **Words between white space are read back.** -/
theorem splitSpacesFrom_words : ∀ {ws : List (Text × Text)},
    (∀ w ∈ ws, IsBlank w.1 ∧ w.1 ≠ [] ∧ IsToken w.2) → ∀ cur : Text,
      splitSpacesFrom cur false (ws.flatMap fun w => w.1 ++ w.2) = cur :: ws.map (·.2)
  | [], _, _ => rfl
  | (pad, w) :: ws, h, cur => by
    obtain ⟨hpad, hne, hw⟩ := h (pad, w) List.mem_cons_self
    have ih := splitSpacesFrom_words (fun v hv => h v (List.mem_cons_of_mem _ hv)) w
    rw [List.flatMap_cons, List.append_assoc, splitSpacesFrom_gap hpad hne hw, ih]
    rfl

theorem splitSpaces_words {first : Text} (hf : IsToken first) {ws : List (Text × Text)}
    (h : ∀ w ∈ ws, IsBlank w.1 ∧ w.1 ≠ [] ∧ IsToken w.2) :
    splitSpaces (first ++ ws.flatMap fun w => w.1 ++ w.2) = first :: ws.map (·.2) := by
  unfold splitSpaces
  rw [splitSpacesFrom_clean hf.clean, List.nil_append]
  exact splitSpacesFrom_words h first

/-- Words after a text that does not end in white space. -/
theorem splitSpacesFrom_append {ws : List (Text × Text)}
    (h : ∀ w ∈ ws, IsBlank w.1 ∧ w.1 ≠ [] ∧ IsToken w.2) : ∀ {u : Text}, u ≠ [] →
      (∀ c, u.getLast? = some c → isSpace c = false) → ∀ (cur : Text) (after : Bool),
        splitSpacesFrom cur after (u ++ ws.flatMap fun w => w.1 ++ w.2) =
          splitSpacesFrom cur after u ++ ws.map (·.2)
  | [], hne, _, _, _ => absurd rfl hne
  | [c], _, hlast, cur, after => by
    have hc : isSpace c = false := hlast c rfl
    rw [List.singleton_append, splitSpacesFrom, splitSpacesFrom, if_neg (by simp [hc]),
      if_neg (by simp [hc]), splitSpacesFrom_words h]
    rfl
  | c :: d :: u, _, hlast, cur, after => by
    have ih := splitSpacesFrom_append h (List.cons_ne_nil d u) hlast
    rw [List.cons_append, splitSpacesFrom, splitSpacesFrom]
    split_ifs with hc ha
    · exact ih cur true
    · rw [ih [] true, List.cons_append]
    · exact ih (cur ++ [c]) false

/-- No piece has white space in it. -/
theorem clean_of_mem_splitSpacesFrom : ∀ {t cur : Text} {after : Bool},
    (∀ c ∈ cur, isSpace c = false) → ∀ w ∈ splitSpacesFrom cur after t, ∀ c ∈ w, isSpace c = false
  | [], cur, _, hcur, w, hw => by
    obtain rfl := List.mem_singleton.mp hw
    exact hcur
  | d :: t, cur, after, hcur, w, hw => by
    rw [splitSpacesFrom] at hw
    split_ifs at hw with hd ha
    · exact clean_of_mem_splitSpacesFrom hcur w hw
    · rcases List.mem_cons.mp hw with rfl | hw
      · exact hcur
      · exact clean_of_mem_splitSpacesFrom (fun _ hc => absurd hc List.not_mem_nil) w hw
    · refine clean_of_mem_splitSpacesFrom (fun c hc => ?_) w hw
      rcases List.mem_append.mp hc with hc | hc
      · exact hcur c hc
      · rw [List.mem_singleton.mp hc]
        exact Bool.eq_false_of_not_eq_true hd

/-- Words with white space between them, after a text with none at its ends, have none at their
ends. -/
theorem trim_append_words {u : Text} (hne : u ≠ []) (hu : trim u = u) {ws : List (Text × Text)}
    (h : ∀ w ∈ ws, IsToken w.2) :
    trim (u ++ ws.flatMap fun w => w.1 ++ w.2) = u ++ ws.flatMap fun w => w.1 ++ w.2 := by
  obtain ⟨hhead, hlast⟩ := trim_eq_self_iff.mp hu
  refine trim_eq_self_iff.mpr ⟨fun c hc => ?_, fun c hc => ?_⟩
  · rw [List.head?_append_of_ne_nil _ hne] at hc
    exact hhead c hc
  · rcases List.eq_nil_or_concat ws with rfl | ⟨init, last, rfl⟩
    · rw [List.flatMap_nil, List.append_nil] at hc
      exact hlast c hc
    · have hw : IsToken last.2 := h last (by simp)
      rw [List.concat_eq_append, List.flatMap_append, List.flatMap_singleton, ← List.append_assoc,
        ← List.append_assoc, List.getLast?_append_of_ne_nil _ hw.ne_nil] at hc
      exact hw.clean c (List.mem_of_getLast? hc)

theorem IsToken.trim_eq {w : Text} (h : IsToken w) : trim w = w :=
  trim_eq_self_iff.mpr ⟨fun c hc => h.clean c (List.mem_of_head? hc),
    fun c hc => h.clean c (List.mem_of_getLast? hc)⟩

theorem trim_append_blank {pad : Text} (h : IsBlank pad) (t : Text) : trim (pad ++ t) = trim t := by
  rw [trim_eq_rdropWhile, trim_eq_rdropWhile, List.dropWhile_append, List.dropWhile_eq_nil_iff.mpr h]
  rfl

/-- The words of a text. -/
def words (t : Text) : List Text := if trim t = [] then [] else splitSpaces (trim t)

theorem words_token {w : Text} (h : IsToken w) : words w = [w] := by
  have hsplit : splitSpaces w = [w] := by
    unfold splitSpaces
    have hw := splitSpacesFrom_clean h.clean [] []
    rwa [List.append_nil] at hw
  unfold words
  rw [h.trim_eq, if_neg h.ne_nil, hsplit]

theorem clean_of_mem_words {t w : Text} (h : w ∈ words t) : ∀ c ∈ w, isSpace c = false := by
  unfold words at h
  split_ifs at h
  · exact absurd h List.not_mem_nil
  · exact clean_of_mem_splitSpacesFrom (fun _ hc => absurd hc List.not_mem_nil) w h

/-- A text is white space, what `trim` leaves, and white space. -/
theorem exists_trim_append (t : Text) : ∃ lead tail, IsBlank lead ∧ IsBlank tail ∧
    t = lead ++ (trim t ++ tail) := by
  refine ⟨t.takeWhile isSpace, (t.dropWhile isSpace).rtakeWhile isSpace,
    fun c hc => List.mem_takeWhile_imp hc, fun c hc => List.mem_rtakeWhile_imp hc, ?_⟩
  rw [trim_eq_rdropWhile, List.rdropWhile_append_rtakeWhile, List.takeWhile_append_dropWhile]

/-- **A line of a text and words** is read as the words of the text and those words. -/
theorem splitSpaces_trim_append (t : Text) {ws : List (Text × Text)} (hne : ws ≠ [])
    (h : ∀ w ∈ ws, IsBlank w.1 ∧ w.1 ≠ [] ∧ IsToken w.2) :
    splitSpaces (trim (t ++ ws.flatMap fun w => w.1 ++ w.2)) = words t ++ ws.map (·.2) := by
  obtain ⟨⟨pad, w⟩, ws, rfl⟩ := List.exists_cons_of_ne_nil hne
  obtain ⟨hpad, hpne, hw⟩ := h (pad, w) List.mem_cons_self
  have hws : ∀ v ∈ ws, IsBlank v.1 ∧ v.1 ≠ [] ∧ IsToken v.2 := fun v hv =>
    h v (List.mem_cons_of_mem _ hv)
  obtain ⟨lead, tail, hlead, htail, ht⟩ := exists_trim_append t
  unfold words
  by_cases hnil : trim t = []
  · -- the words are all there is
    have hblank : IsBlank (t ++ pad) := by
      rw [ht, hnil]
      intro c hc
      simp only [List.nil_append, List.mem_append] at hc
      rcases hc with (hc | hc) | hc
      · exact hlead c hc
      · exact htail c hc
      · exact hpad c hc
    rw [if_pos hnil, List.flatMap_cons, List.append_assoc, ← List.append_assoc t,
      trim_append_blank hblank, trim_append_words hw.ne_nil hw.trim_eq fun v hv => (hws v hv).2.2,
      splitSpaces_words hw hws]
    rfl
  · -- the white space at the end of the text belongs to that before the words
    have hline : t ++ ((pad, w) :: ws).flatMap (fun v => v.1 ++ v.2) =
        lead ++ (trim t ++ ((tail ++ pad, w) :: ws).flatMap fun v => v.1 ++ v.2) := by
      conv_lhs => rw [ht]
      simp
    have hws' : ∀ v ∈ (tail ++ pad, w) :: ws, IsBlank v.1 ∧ v.1 ≠ [] ∧ IsToken v.2 := by
      intro v hv
      rcases List.mem_cons.mp hv with rfl | hv
      · refine ⟨fun c hc => ?_, List.append_ne_nil_of_right_ne_nil _ hpne, hw⟩
        rcases List.mem_append.mp hc with hc | hc
        · exact htail c hc
        · exact hpad c hc
      · exact hws v hv
    rw [if_neg hnil, hline, trim_append_blank hlead,
      trim_append_words hnil (trim_trim t) fun v hv => (hws' v hv).2.2]
    exact splitSpacesFrom_append hws' hnil (trim_eq_self_iff.mp (trim_trim t)).2 [] false

end Lib.Js
