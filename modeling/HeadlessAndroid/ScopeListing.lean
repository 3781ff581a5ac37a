import HeadlessAndroid.ScopeReport

/-!
# HeadlessAndroid.ScopeListing — the apps array of GET /api/scope

What the route reads from the outputs of `pm list packages` and of the scope query, and how its two
loops join them.  The outputs are lists of lines with a name or blank, each with white space at its
end (`OutLine`).
-/

namespace HeadlessAndroid.Scope

open Lib Lib.Js

/-- A line of an output: the name on it, if there is one, and white space such as a carriage
return. -/
structure OutLine where
  name : Option Text
  pad : Text
  name_line : ∀ n ∈ name, IsLine n
  pad_blank : IsBlank pad
  pad_one : '\n' ∉ pad

def OutLine.text (before : Text) (l : OutLine) : Text :=
  match l.name with
  | some n => before ++ n ++ l.pad
  | none => l.pad

/-- The names of an output, in its order. -/
def names (ls : List OutLine) : List Text := ls.filterMap (·.name)

def printed (before : Text) (ls : List OutLine) : Text := joinLines (ls.map (OutLine.text before))

/-- **An output is read back as its names**, by a reader that finds the name on a line. -/
theorem readLines_printed {read : Text → Text} (hr : IgnoresEnd read) (before : Text)
    (hone : '\n' ∉ before) (hstart : ∀ n, IsLine n → (before ++ n).dropWhile isSpace = before ++ n)
    (hread : ∀ n, IsLine n → read (before ++ n) = n) (ls : List OutLine) :
    readLines read (trim (printed before ls)) = names ls := by
  unfold printed
  rw [readLines_trim hr]
  · unfold names
    induction ls with
    | nil => rfl
    | cons l ls ih =>
      rw [List.map_cons, List.map_cons, List.filterMap_cons, ← ih]
      obtain ⟨name, pad, hname, hblank, -⟩ := l
      cases name with
      | none =>
        have hnone : read pad = [] := hr.blank hblank
        show List.filter _ (read pad :: _) = _
        rw [hnone]
        rfl
      | some n =>
        have hn : IsLine n := hname n rfl
        have hsome : read (before ++ n ++ pad) = n := (hr.append_blank hblank _).trans (hread n hn)
        show List.filter _ (read (before ++ n ++ pad) :: _) = n :: _
        rw [hsome, List.filter_cons_of_pos (by simpa using hn.ne_nil)]
  · intro t ht
    obtain ⟨⟨name, pad, hname, -, hpad'⟩, -, rfl⟩ := List.mem_map.mp ht
    cases name with
    | none => exact hpad'
    | some n =>
      show '\n' ∉ before ++ n ++ pad
      simp [hone, (hname n rfl).one, hpad']
  · intro t ht
    obtain ⟨⟨name, pad, hname, hblank, -⟩, -, rfl⟩ := List.mem_map.mp ht
    cases name with
    | none => exact .inl hblank
    | some n =>
      have hn : IsLine n := hname n rfl
      have hne : before ++ n ≠ [] := List.append_ne_nil_of_right_ne_nil _ hn.ne_nil
      refine .inr ⟨?_, List.append_ne_nil_of_left_ne_nil hne _⟩
      show (before ++ n ++ pad).dropWhile isSpace = before ++ n ++ pad
      rw [List.dropWhile_append, hstart n hn, if_neg (by simpa using hne)]

end HeadlessAndroid.Scope
