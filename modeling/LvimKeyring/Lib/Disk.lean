import Mathlib.Data.Nat.Notation
import Mathlib.Logic.Function.Basic
import Mathlib.Tactic.Common

/-!
A disk of regular files: names that lead to files, and the files' contents.

An open file is reached by its number whatever becomes of its name, so a name can be moved away
under a program that still writes to the file. What the names show is the view of the disk, and
every operation is given by what it does to the view.
-/

namespace LvimKeyring

/-- Files by number, and the names that lead to them; no file has two names. -/
structure Disk (Path Byte : Type) where
  name : Path → Option ℕ
  data : ℕ → List Byte
  next : ℕ
  fresh : ∀ {p i}, name p = some i → i < next
  alone : ∀ {p q i}, name p = some i → name q = some i → p = q

namespace Disk

variable {Path Byte : Type} {d d' : Disk Path Byte} {p q : Path} {i pos : ℕ} {bytes : List Byte}

/-- The contents under each name. -/
def view (d : Disk Path Byte) (p : Path) : Option (List Byte) := (d.name p).map d.data

lemma view_of_name (h : d.name p = some i) : d.view p = some (d.data i) := by
  rw [view, h, Option.map_some]

lemma name_eq_none_iff : d.name p = none ↔ d.view p = none := by
  rw [view, Option.map_eq_none_iff]

/-- Bytes put over the contents at a position; what lies between their old end and the position
reads as `hole`. -/
def overwrite (hole : Byte) (old : List Byte) (pos : ℕ) (bytes : List Byte) : List Byte :=
  (old ++ List.replicate (pos - old.length) hole).take pos ++ bytes ++
    old.drop (pos + bytes.length)

def writeAt (d : Disk Path Byte) (hole : Byte) (i pos : ℕ) (bytes : List Byte) : Disk Path Byte :=
  { d with data := Function.update d.data i (overwrite hole (d.data i) pos bytes) }

variable [DecidableEq Path]

/-- Open for writing, created when it is not there and emptied when it is. -/
def openTrunc (d : Disk Path Byte) (p : Path) : Disk Path Byte × ℕ :=
  match d.name p with
  | some i => ({ d with data := Function.update d.data i [] }, i)
  | none =>
    ({ name := Function.update d.name p (some d.next)
       data := Function.update d.data d.next []
       next := d.next + 1
       fresh := by
        intro q i h
        by_cases hq : q = p
        · subst hq
          rw [Function.update_self] at h
          cases h
          exact Nat.lt_succ_self _
        · rw [Function.update_of_ne hq] at h
          exact Nat.lt_succ_of_lt (d.fresh h)
       alone := by
        intro q r i hq hr
        by_cases hqp : q = p <;> by_cases hrp : r = p
        · rw [hqp, hrp]
        · subst hqp
          rw [Function.update_self] at hq
          rw [Function.update_of_ne hrp] at hr
          cases hq
          exact absurd (d.fresh hr) (Nat.lt_irrefl _)
        · subst hrp
          rw [Function.update_self] at hr
          rw [Function.update_of_ne hqp] at hq
          cases hr
          exact absurd (d.fresh hq) (Nat.lt_irrefl _)
        · rw [Function.update_of_ne hqp] at hq
          rw [Function.update_of_ne hrp] at hr
          exact d.alone hq hr }, d.next)

/-- Open as it is, created when it is not there. -/
def openCreate (d : Disk Path Byte) (p : Path) : Disk Path Byte × ℕ :=
  match d.name p with
  | some i => (d, i)
  | none => d.openTrunc p

/-- Take a name away. -/
def remove (d : Disk Path Byte) (p : Path) : Disk Path Byte :=
  { d with
    name := Function.update d.name p none
    fresh := by
      intro q i hq
      by_cases hqp : q = p
      · rw [hqp, Function.update_self] at hq
        cases hq
      · rw [Function.update_of_ne hqp] at hq
        exact d.fresh hq
    alone := by
      intro q r i hq hr
      by_cases hqp : q = p
      · rw [hqp, Function.update_self] at hq
        cases hq
      · by_cases hrp : r = p
        · rw [hrp, Function.update_self] at hr
          cases hr
        · rw [Function.update_of_ne hqp] at hq
          rw [Function.update_of_ne hrp] at hr
          exact d.alone hq hr }

/-- A disk without files. -/
def empty : Disk Path Byte where
  name _ := none
  data _ := []
  next := 0
  fresh h := by cases h
  alone h := by cases h

/-- A file with these contents under a name. -/
def put (d : Disk Path Byte) (p : Path) (bytes : List Byte) : Disk Path Byte :=
  { (d.openTrunc p).1 with
    data := Function.update (d.openTrunc p).1.data (d.openTrunc p).2 bytes }

/-- Give a file another name, in place of the one that had it. -/
def rename (d : Disk Path Byte) (p q : Path) : Option (Disk Path Byte) :=
  match h : d.name p with
  | none => none
  | some i =>
    some
      { d with
        name := Function.update (Function.update d.name p none) q (some i)
        fresh := by
          intro r j hr
          by_cases hrq : r = q
          · subst hrq
            rw [Function.update_self] at hr
            cases hr
            exact d.fresh h
          · rw [Function.update_of_ne hrq] at hr
            by_cases hrp : r = p
            · subst hrp
              rw [Function.update_self] at hr
              cases hr
            · rw [Function.update_of_ne hrp] at hr
              exact d.fresh hr
        alone := by
          intro r s j hr hs
          have hold : ∀ {r}, r ≠ q →
              Function.update (Function.update d.name p none) q (some i) r = some j →
                d.name r = some j ∧ j ≠ i := by
            intro r hrq hr
            rw [Function.update_of_ne hrq] at hr
            by_cases hrp : r = p
            · rw [hrp, Function.update_self] at hr
              cases hr
            · rw [Function.update_of_ne hrp] at hr
              exact ⟨hr, fun hij => hrp (d.alone hr (by rw [hij]; exact h))⟩
          by_cases hrq : r = q <;> by_cases hsq : s = q
          · rw [hrq, hsq]
          · subst hrq
            rw [Function.update_self] at hr
            cases hr
            exact absurd rfl (hold hsq hs).2
          · subst hsq
            rw [Function.update_self] at hs
            cases hs
            exact absurd rfl (hold hrq hr).2
          · exact d.alone (hold hrq hr).1 (hold hsq hs).1 }

/-! ### Opening -/

lemma openTrunc_name (d : Disk Path Byte) (p : Path) :
    (d.openTrunc p).1.name p = some (d.openTrunc p).2 := by
  unfold openTrunc
  split
  · assumption
  · exact Function.update_self _ _ _

lemma openTrunc_of_name (h : d.name p = some i) : (d.openTrunc p).2 = i := by
  have hname := openTrunc_name d p
  unfold openTrunc at hname ⊢
  simp only [h] at hname ⊢

lemma openTrunc_name_of_ne (h : q ≠ p) : (d.openTrunc p).1.name q = d.name q := by
  unfold openTrunc
  split
  · rfl
  · exact Function.update_of_ne h _ _

lemma openTrunc_data (d : Disk Path Byte) (p : Path) :
    (d.openTrunc p).1.data (d.openTrunc p).2 = [] := by
  unfold openTrunc
  split <;> exact Function.update_self _ _ _

lemma openTrunc_data_of_ne (h : i ≠ (d.openTrunc p).2) :
    (d.openTrunc p).1.data i = d.data i := by
  unfold openTrunc at h ⊢
  split
  · rename_i j hj
    simp only [hj] at h
    exact Function.update_of_ne h _ _
  · rename_i hnone
    simp only [hnone] at h
    exact Function.update_of_ne h _ _

lemma ne_openTrunc (h : d.name q = some i) (hne : q ≠ p) : i ≠ (d.openTrunc p).2 := by
  intro heq
  have hq : (d.openTrunc p).1.name q = some (d.openTrunc p).2 := by
    rw [openTrunc_name_of_ne hne, h, heq]
  exact hne ((d.openTrunc p).1.alone hq (openTrunc_name d p))

lemma openTrunc_view (d : Disk Path Byte) (p : Path) :
    (d.openTrunc p).1.view = Function.update d.view p (some []) := by
  funext q
  by_cases hq : q = p
  · subst hq
    rw [Function.update_self, view_of_name (openTrunc_name d q), openTrunc_data]
  · rw [Function.update_of_ne hq, view, openTrunc_name_of_ne hq, view]
    cases hname : d.name q with
    | none => rfl
    | some i => rw [Option.map_some, Option.map_some, openTrunc_data_of_ne (ne_openTrunc hname hq)]

lemma openCreate_name (d : Disk Path Byte) (p : Path) :
    (d.openCreate p).1.name p = some (d.openCreate p).2 := by
  unfold openCreate
  split
  · assumption
  · exact openTrunc_name d p

lemma openCreate_name_of_ne (h : q ≠ p) : (d.openCreate p).1.name q = d.name q := by
  unfold openCreate
  split
  · rfl
  · exact openTrunc_name_of_ne h

lemma openCreate_keeps (h : d.name q = some i) : (d.openCreate p).1.name q = some i := by
  by_cases hq : q = p
  · subst hq
    unfold openCreate
    rw [h]
    exact h
  · rw [openCreate_name_of_ne hq, h]

/-! ### Removing -/

lemma remove_name_of_ne (h : q ≠ p) : (d.remove p).name q = d.name q :=
  Function.update_of_ne h _ _

/-! ### Writing -/

variable {hole : Byte}

omit [DecidableEq Path] in
@[simp] lemma writeAt_name : (d.writeAt hole i pos bytes).name = d.name := rfl

omit [DecidableEq Path] in
lemma writeAt_data : (d.writeAt hole i pos bytes).data i = overwrite hole (d.data i) pos bytes :=
  Function.update_self _ _ _

omit [DecidableEq Path] in
lemma writeAt_data_of_ne {j : ℕ} (h : j ≠ i) : (d.writeAt hole i pos bytes).data j = d.data j :=
  Function.update_of_ne h _ _

lemma overwrite_end (hole : Byte) (old bytes : List Byte) :
    overwrite hole old old.length bytes = old ++ bytes := by
  rw [overwrite, Nat.sub_self, List.replicate_zero, List.append_nil, List.take_length,
    List.drop_of_length_le (by omega), List.append_nil]

lemma overwrite_piece (hole : Byte) (whole : List Byte) (n : ℕ) (h : pos ≤ whole.length) :
    overwrite hole (whole.take pos) pos ((whole.drop pos).take n)
      = whole.take (pos + ((whole.drop pos).take n).length) := by
  have hlen : (whole.take pos).length = pos := by
    rw [List.length_take]
    omega
  have hend := overwrite_end hole (whole.take pos) ((whole.drop pos).take n)
  rw [hlen] at hend
  rw [hend, List.take_add, List.length_take, ← List.take_eq_take_min]

lemma writeAt_view (h : d.name p = some i) :
    (d.writeAt hole i pos bytes).view
      = Function.update d.view p (some (overwrite hole (d.data i) pos bytes)) := by
  funext q
  by_cases hq : q = p
  · subst hq
    rw [Function.update_self, view_of_name (by exact h), writeAt_data]
  · rw [Function.update_of_ne hq, view, writeAt_name, view]
    cases hname : d.name q with
    | none => rfl
    | some j =>
      have hj : j ≠ i := fun heq => hq (d.alone hname (by rw [heq]; exact h))
      rw [Option.map_some, Option.map_some, writeAt_data_of_ne hj]

omit [DecidableEq Path] in
lemma writeAt_view_of_ne (h : d.name q ≠ some i) :
    (d.writeAt hole i pos bytes).view q = d.view q := by
  rw [view, writeAt_name, view]
  cases hname : d.name q with
  | none => rfl
  | some j =>
    have hj : j ≠ i := fun heq => h (by rw [hname, heq])
    rw [Option.map_some, Option.map_some, writeAt_data_of_ne hj]

/-! ### Renaming -/

lemma rename_eq_none_iff : d.rename p q = none ↔ d.name p = none := by
  unfold rename
  split <;> simp_all

lemma rename_eq_some (h : d.rename p q = some d') :
    ∃ i, d.name p = some i ∧ d'.data = d.data ∧
      d'.name = Function.update (Function.update d.name p none) q (some i) := by
  unfold rename at h
  split at h
  · cases h
  · rename_i i hi
    cases h
    exact ⟨i, hi, rfl, rfl⟩

lemma rename_view (h : d.rename p q = some d') :
    d'.view = Function.update (Function.update d.view p none) q (d.view p) := by
  obtain ⟨i, hi, hdata, hname⟩ := rename_eq_some h
  funext r
  rw [view, hname, hdata]
  by_cases hrq : r = q
  · subst hrq
    rw [Function.update_self, Function.update_self, view_of_name hi, Option.map_some]
  · rw [Function.update_of_ne hrq, Function.update_of_ne hrq]
    by_cases hrp : r = p
    · subst hrp
      rw [Function.update_self, Function.update_self, Option.map_none]
    · rw [Function.update_of_ne hrp, Function.update_of_ne hrp, view]

end Disk

end LvimKeyring
