import Mathlib.Data.List.Dedup
import Mathlib.Data.List.Perm.Basic
import Mathlib.Data.List.Sort

/-!
Lists grouped by a key: the keys in ascending order, and the elements of each key in an order
of their own.
-/

namespace LvimKeyring.Grouping

variable {α κ : Type*} [LinearOrder κ]

def keys (key : α → κ) (l : List α) : List κ := (l.map key).dedup.mergeSort (· ≤ ·)

def groups (key : α → κ) (le : α → α → Bool) (l : List α) : List (κ × List α) :=
  (keys key l).map fun k => (k, (l.filter fun a => key a = k).mergeSort le)

variable {key : α → κ} {le : α → α → Bool} {l : List α}

lemma mem_keys {k : κ} : k ∈ keys key l ↔ ∃ a ∈ l, key a = k := by
  rw [keys, List.mem_mergeSort, List.mem_dedup, List.mem_map]

lemma keys_sorted (key : α → κ) (l : List α) : (keys key l).Pairwise (· < ·) := by
  have hle : (keys key l).Pairwise (· ≤ ·) := List.pairwise_mergeSort' _ _
  have hnodup : (keys key l).Nodup := by
    rw [keys, (List.mergeSort_perm _ _).nodup_iff]
    exact List.nodup_dedup _
  exact hle.imp₂ (fun a b hab hne => lt_of_le_of_ne hab hne) hnodup

lemma groups_keys (key : α → κ) (le : α → α → Bool) (l : List α) :
    (groups key le l).map Prod.fst = keys key l := by
  rw [groups, List.map_map]
  exact List.map_id _

lemma mem_groups {k : κ} {as : List α} (h : (k, as) ∈ groups key le l) :
    k ∈ keys key l ∧ as.Perm (l.filter fun a => key a = k) := by
  obtain ⟨k', hk', heq⟩ := List.mem_map.mp h
  cases heq
  exact ⟨hk', List.mergeSort_perm _ _⟩

lemma mem_group {k : κ} {as : List α} (h : (k, as) ∈ groups key le l) {a : α} :
    a ∈ as ↔ a ∈ l ∧ key a = k := by
  rw [(mem_groups h).2.mem_iff, List.mem_filter, decide_eq_true_eq]

lemma group_sorted (htrans : ∀ a b c, le a b → le b c → le a c) (htotal : ∀ a b, le a b || le b a)
    {k : κ} {as : List α} (h : (k, as) ∈ groups key le l) : as.Pairwise fun a b => le a b := by
  obtain ⟨k', -, heq⟩ := List.mem_map.mp h
  cases heq
  exact List.pairwise_mergeSort htrans htotal _

lemma flatMap_filter_perm {ks : List κ} (hks : ks.Nodup) (hl : ∀ a ∈ l, key a ∈ ks) :
    (ks.flatMap fun k => l.filter fun a => key a = k).Perm l := by
  induction ks generalizing l with
  | nil =>
    have hnil : l = [] :=
      List.eq_nil_iff_forall_not_mem.mpr fun a ha => absurd (hl a ha) List.not_mem_nil
    rw [hnil]
    exact .refl []
  | cons k ks ih =>
    obtain ⟨hk, hks⟩ := List.nodup_cons.mp hks
    have hrest : ∀ k' ∈ ks, (l.filter fun a => key a = k') =
        (l.filter fun a => !decide (key a = k)).filter fun a => key a = k' := by
      intro k' hk'
      rw [List.filter_filter]
      refine List.filter_congr fun a _ => ?_
      by_cases ha : key a = k'
      · have hne : k' ≠ k := by
          rintro rfl
          exact hk hk'
        simp [ha, hne]
      · simp [ha]
    rw [List.flatMap_cons, List.flatMap_congr hrest]
    have hih := ih (l := l.filter fun a => !decide (key a = k)) hks ?_
    · exact (hih.append_left _).trans (List.filter_append_perm _ l)
    · intro a ha
      rw [List.mem_filter] at ha
      rcases List.mem_cons.mp (hl a ha.1) with heq | hmem
      · simp [heq] at ha
      · exact hmem

/-- The groups are the list, in another order. -/
theorem groups_perm (key : α → κ) (le : α → α → Bool) (l : List α) :
    ((groups key le l).flatMap Prod.snd).Perm l := by
  have hsorted : ((groups key le l).flatMap Prod.snd).Perm
      ((keys key l).flatMap fun k => l.filter fun a => key a = k) := by
    rw [groups, List.flatMap_map]
    exact List.Perm.flatMap_left _ fun k _ => List.mergeSort_perm _ _
  refine hsorted.trans (flatMap_filter_perm ?_ fun a ha => mem_keys.mpr ⟨a, ha, rfl⟩)
  exact (keys_sorted key l).imp ne_of_lt

end LvimKeyring.Grouping
