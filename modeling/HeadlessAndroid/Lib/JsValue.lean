import HeadlessAndroid.Lib.JsNumber

/-!
# Lib.JsValue — JavaScript values as JSON and query strings give them, and their coercions

`none` stands for an exception.  No value here is callable, so that an object converts to a string
just when it has no key `toString` of its own: a key `valueOf` is passed over, and what it inherits
gives `[object Object]`.
-/

namespace Lib.Js

inductive JsVal where
  | undefined
  | null
  | bool (b : Bool)
  | num (n : Number)
  | str (t : Text)
  | arr (items : List JsVal)
  | obj (fields : List (Text × JsVal))

/-- How deep values may nest before the stack of the engine overflows, in `join` and in
`JSON.stringify`. -/
structure Engine where
  joinDepth : ℕ
  jsonDepth : ℕ
  /-- Enough for a value of a few levels. -/
  shallow : 4 ≤ jsonDepth

namespace JsVal

def isNullish : JsVal → Bool
  | undefined => true
  | null => true
  | _ => false

mutual

/-- `String(v)` and `${v}`. -/
def toStr : JsVal → ℕ → Option Text
  | undefined, _ => some "undefined".toList
  | null, _ => some "null".toList
  | bool true, _ => some "true".toList
  | bool false, _ => some "false".toList
  | num n, _ => some n.toText
  | str t, _ => some t
  | arr _, 0 => none
  | arr vs, depth + 1 => (itemTexts vs depth).map fun ts => [','].intercalate ts
  | obj fs, _ =>
    if (fs.lookup "toString".toList).isSome then none else some "[object Object]".toList

/-- The texts that `join` puts its commas between. -/
def itemTexts : List JsVal → ℕ → Option (List Text)
  | [], _ => some []
  | v :: vs, depth =>
    (if v.isNullish then some [] else v.toStr depth).bind fun t =>
      (itemTexts vs depth).map fun ts => t :: ts

end

/-- `Number(v)`. -/
def toNum (v : JsVal) (depth : ℕ) : Option Number :=
  match v with
  | undefined => some .nan
  | null => some (.fin 0)
  | bool b => some (.fin (if b then 1 else 0))
  | num n => some n
  | v => (v.toStr depth).map Number.ofText

def truthy : JsVal → Bool
  | undefined => false
  | null => false
  | bool b => b
  | num .nan => false
  | num (.fin q) => q ≠ 0
  | num (.inf _) => true
  | str t => !t.isEmpty
  | _ => true

/-- `v || w`. -/
def or (v w : JsVal) : JsVal := if v.truthy then v else w

/-- `v[key]`, of a key that neither arrays nor what objects inherit have. -/
def get (v : JsVal) (key : String) : JsVal :=
  match v with
  | obj fs => (fs.lookup key.toList).getD undefined
  | _ => undefined

/-- The value of a destructured field with a default. -/
def getOr (v : JsVal) (key : String) (default : JsVal) : JsVal :=
  match v.get key with
  | undefined => default
  | w => w

mutual

/-- How deep `JSON.stringify` recurses. -/
def depth : JsVal → ℕ
  | arr vs => depthItems vs + 1
  | obj fs => depthFields fs + 1
  | _ => 0

def depthItems : List JsVal → ℕ
  | [] => 0
  | v :: vs => max v.depth (depthItems vs)

def depthFields : List (Text × JsVal) → ℕ
  | [] => 0
  | (_, v) :: fs => max v.depth (depthFields fs)

end

/-- Whether a value converts is the same question for `Number` as for `String`. -/
theorem toNum_isSome_iff {v : JsVal} {d : ℕ} : (v.toNum d).isSome ↔ (v.toStr d).isSome := by
  cases v with
  | bool b => cases b <;> simp [toNum, toStr]
  | arr vs => simp [toNum]
  | obj fs => simp [toNum]
  | _ => simp [toNum, toStr]

/-- What `||` passes over converts. -/
theorem toStr_isSome_of_falsy {v : JsVal} {d : ℕ} (h : v.truthy = false) : (v.toStr d).isSome := by
  cases v with
  | bool b => cases b <;> simp [toStr]
  | arr vs => cases h
  | obj fs => cases h
  | _ => simp [toStr]

end JsVal

end Lib.Js
