import Mathlib.Data.List.Perm.Basic
import Mathlib.Tactic.Tauto

/-!
Lists in which one element is replaced, and tables that one entry leaves.
-/

namespace LvimKeyring.ListUpdate

section Replaced

variable {α : Type*} {l : List α} {i j : ℕ} {a b c : α} {f : α → α}

lemma set_cases (hi : l[i]? = some a) (hj : (l.set i b)[j]? = some c) :
    (j = i ∧ c = b) ∨ (j ≠ i ∧ l[j]? = some c) := by
  have hlt : i < l.length := (List.getElem?_eq_some_iff.mp hi).1
  by_cases hij : j = i
  · subst hij
    rw [List.getElem?_set_self hlt] at hj
    exact .inl ⟨rfl, (Option.some.inj hj).symm⟩
  · rw [List.getElem?_set_ne (Ne.symm hij)] at hj
    exact .inr ⟨hij, hj⟩

lemma modify_eq :
    (l.modify i f)[j]? = some b ↔ ∃ a, l[j]? = some a ∧ b = if i = j then f a else a := by
  rw [List.getElem?_modify, Option.map_eq_map, Option.map_eq_some_iff]
  exact exists_congr fun a => and_congr_right fun _ => eq_comm

lemma modify_split (h : l[i]? = some a) (f : α → α) :
    ∃ l₁ l₂, l = l₁ ++ a :: l₂ ∧ l.modify i f = l₁ ++ f a :: l₂ := by
  obtain ⟨l₁, b, l₂, hl, hi, hm⟩ :=
    List.exists_of_modify f (List.getElem?_eq_some_iff.mp h).1
  rw [hl, ← hi, List.getElem?_append_right (Nat.le_refl _), Nat.sub_self] at h
  obtain rfl : b = a := Option.some.inj h
  exact ⟨l₁, l₂, hl, hm⟩

lemma mem_modify (h : l[i]? = some a) (hb : b ∈ l.modify i f) : b ∈ l ∨ b = f a := by
  obtain ⟨l₁, l₂, hl, hm⟩ := modify_split h f
  rw [hm] at hb
  rw [hl]
  simp only [List.mem_append, List.mem_cons] at hb ⊢
  tauto

end Replaced

section Table

variable {κ β : Type*} [DecidableEq κ] {entries : List (κ × β)} {k : κ} {v : β}

lemma perm_eraseP (hl : entries.lookup k = some v) :
    entries.Perm ((k, v) :: entries.eraseP (·.1 == k)) := by
  induction entries with
  | nil => cases hl
  | cons e es ih =>
    obtain ⟨i, w⟩ := e
    by_cases heq : k = i
    · have hval : w = v := by simpa [List.lookup_cons, heq] using hl
      have herase : ((i, w) :: es).eraseP (·.1 == k) = es := by simp [heq]
      rw [herase, heq, hval]
    · have hne : (k == i) = false := beq_eq_false_iff_ne.mpr heq
      have hrest : es.lookup k = some v := by simpa [List.lookup_cons, hne] using hl
      have herase : ((i, w) :: es).eraseP (·.1 == k) = (i, w) :: es.eraseP (·.1 == k) := by
        simp [Ne.symm heq]
      rw [herase]
      exact ((ih hrest).cons _).trans (List.Perm.swap _ _ _)

end Table

end LvimKeyring.ListUpdate
