import HeadlessAndroid.Lib.Utf8
import Mathlib.Logic.Function.Basic

/-!
# Lib.FileStore — a directory, its files and what other files keep

Names stand for files and files hold bytes, as in Unix: opening for writing empties the file that
has the name or makes a new one, writes go to an offset of an open file whatever has become of its
name, and unlinking takes the name away.  Two names are one only where they are equal (no folding of
case), and no name is too long to be opened.  `SameFile` is the frame of these operations.
-/

namespace Lib

structure Disk (ν : Type) where
  dir : ν → Option ℕ
  data : ℕ → Bytes
  next : ℕ
  /-- No two names of one file. -/
  inj : ∀ {p q i}, dir p = some i → dir q = some i → p = q
  lt_next : ∀ {p i}, dir p = some i → i < next

namespace Disk

variable {ν : Type} (d : Disk ν)

/-- `bs` written at the offset `off`; a gap is filled with zeros. -/
def overwrite (c : Bytes) (off : ℕ) (bs : Bytes) : Bytes :=
  c.take off ++ List.replicate (off - c.length) 0 ++ bs ++ c.drop (off + bs.length)

theorem overwrite_end {c bs : Bytes} {off : ℕ} (h : c.length = off) :
    overwrite c off bs = c ++ bs := by
  subst h
  simp [overwrite]

/-- The bytes of an open file are now `bs`. -/
def setData (i : ℕ) (bs : Bytes) : Disk ν where
  dir := d.dir
  data := Function.update d.data i bs
  next := d.next
  inj := d.inj
  lt_next := d.lt_next

/-- Writes to an open file. -/
def pwrite (i off : ℕ) (bs : Bytes) : Disk ν := d.setData i (overwrite (d.data i) off bs)

@[simp] theorem pwrite_dir (i off : ℕ) (bs : Bytes) : (d.pwrite i off bs).dir = d.dir := rfl

theorem pwrite_data (i off : ℕ) (bs : Bytes) :
    (d.pwrite i off bs).data i = overwrite (d.data i) off bs :=
  Function.update_self _ _ _

/-- The name `q` stands for the same file with the same bytes. -/
structure SameFile (d d' : Disk ν) (q : ν) : Prop where
  dir : d'.dir q = d.dir q
  data : ∀ {i}, d.dir q = some i → d'.data i = d.data i

theorem SameFile.refl (q : ν) : SameFile d d q := ⟨rfl, fun _ => rfl⟩

theorem sameFile_setData {d : Disk ν} {p q : ν} {i : ℕ} {bs : Bytes} (hp : d.dir p = some i) (hq : q ≠ p) :
    SameFile d (d.setData i bs) q where
  dir := rfl
  data := by
    intro j hj
    have hji : j ≠ i := by rintro rfl; exact hq (d.inj hj hp)
    exact Function.update_of_ne hji _ _

variable [DecidableEq ν]

/-- A new, empty file under the name `p`, which no file has. -/
def link (p : ν) : Disk ν where
  dir := Function.update d.dir p (some d.next)
  data := Function.update d.data d.next []
  next := d.next + 1
  inj := by
    intro q r i hq hr
    by_cases hqp : q = p <;> by_cases hrp : r = p
    · rw [hqp, hrp]
    · subst hqp
      rw [Function.update_self, Option.some.injEq] at hq
      rw [Function.update_of_ne hrp] at hr
      exact absurd (d.lt_next hr) (by omega)
    · subst hrp
      rw [Function.update_self, Option.some.injEq] at hr
      rw [Function.update_of_ne hqp] at hq
      exact absurd (d.lt_next hq) (by omega)
    · rw [Function.update_of_ne hqp] at hq
      rw [Function.update_of_ne hrp] at hr
      exact d.inj hq hr
  lt_next := by
    intro q i hq
    by_cases hqp : q = p
    · subst hqp
      rw [Function.update_self, Option.some.injEq] at hq
      omega
    · rw [Function.update_of_ne hqp] at hq
      exact Nat.lt_succ_of_lt (d.lt_next hq)

/-- `open(p, O_WRONLY | O_CREAT | O_TRUNC)`: the file and the disk after it. -/
def create (p : ν) : ℕ × Disk ν :=
  match d.dir p with
  | some i => (i, d.setData i [])
  | none => (d.next, d.link p)

/-- The name is gone; who has the file open keeps it. -/
def unlink (p : ν) : Disk ν where
  dir := Function.update d.dir p none
  data := d.data
  next := d.next
  inj := by
    intro q r i hq hr
    have hqp : q ≠ p := by rintro rfl; rw [Function.update_self] at hq; cases hq
    have hrp : r ≠ p := by rintro rfl; rw [Function.update_self] at hr; cases hr
    rw [Function.update_of_ne hqp] at hq
    rw [Function.update_of_ne hrp] at hr
    exact d.inj hq hr
  lt_next := by
    intro q i hq
    have hqp : q ≠ p := by rintro rfl; rw [Function.update_self] at hq; cases hq
    rw [Function.update_of_ne hqp] at hq
    exact d.lt_next hq

variable {d}

theorem sameFile_create {p q : ν} (hq : q ≠ p) : SameFile d (d.create p).2 q := by
  unfold create
  split
  · rename_i i hp
    exact sameFile_setData hp hq
  · refine ⟨Function.update_of_ne hq _ _, fun hj => ?_⟩
    exact Function.update_of_ne (d.lt_next hj).ne _ _

theorem sameFile_unlink {p q : ν} (hq : q ≠ p) : SameFile d (d.unlink p) q :=
  ⟨Function.update_of_ne hq _ _, fun _ => rfl⟩

theorem create_dir (p : ν) : (d.create p).2.dir p = some (d.create p).1 := by
  unfold create
  split
  · assumption
  · exact Function.update_self _ _ _

theorem create_data (p : ν) : (d.create p).2.data (d.create p).1 = [] := by
  unfold create
  split
  · exact Function.update_self _ _ _
  · exact Function.update_self _ _ _

@[simp] theorem unlink_dir (p : ν) : (d.unlink p).dir p = none := Function.update_self _ _ _

end Disk

end Lib
