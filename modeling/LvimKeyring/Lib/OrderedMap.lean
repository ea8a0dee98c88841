import Mathlib.Data.Finmap
import Mathlib.Data.Finset.Sort

/-!
Ordered maps, the finite maps they stand for, and their sorted lists of bindings.
-/

namespace LvimKeyring.OrderedMap

open Std

variable {α β : Type*} {cmp : α → α → Ordering} [TransCmp cmp] [LawfulEqCmp cmp]

lemma ofList_toList [BEq α] [LawfulBEqCmp cmp] (t : ExtTreeMap α β cmp) :
    ExtTreeMap.ofList t.toList cmp = t := by
  refine ExtTreeMap.ext_getElem? fun k => ?_
  cases h : t[k]? with
  | none =>
    refine ExtTreeMap.getElem?_ofList_of_contains_eq_false ?_
    rw [Bool.eq_false_iff, ne_eq, List.contains_iff_exists_mem_beq]
    rintro ⟨k', hk', hbeq⟩
    obtain ⟨⟨k'', v⟩, hmem, rfl⟩ := List.mem_map.mp hk'
    have hv := ExtTreeMap.mem_toList_iff_getElem?_eq_some.mp hmem
    have hk : cmp k k'' = .eq := LawfulBEqCmp.compare_eq_iff_beq.mpr hbeq
    rw [LawfulEqCmp.eq_of_compare hk, hv] at h
    cases h
  | some v =>
    exact ExtTreeMap.getElem?_ofList_of_mem ReflCmp.compare_self t.distinct_keys_toList
      (ExtTreeMap.mem_toList_iff_getElem?_eq_some.mpr h)

/-! ### The finite map an ordered map stands for -/

/-- The same bindings. -/
def Agrees [DecidableEq α] (m : Finmap fun _ : α => β) (t : ExtTreeMap α β cmp) : Prop :=
  ∀ a, m.lookup a = t[a]?

namespace Agrees

variable [DecidableEq α] {m : Finmap fun _ : α => β} {t : ExtTreeMap α β cmp}

omit [LawfulEqCmp cmp] in
lemma empty : Agrees ∅ (∅ : ExtTreeMap α β cmp) := fun a => by
  rw [Finmap.lookup_empty, ExtTreeMap.getElem?_empty]

omit [LawfulEqCmp cmp] in
lemma mem_iff (h : Agrees m t) (a : α) : a ∈ m ↔ ∃ b, t[a]? = some b := by
  rw [Finmap.mem_iff, h a]

lemma insert (h : Agrees m t) (a : α) (b : β) : Agrees (m.insert a b) (t.insert a b) := by
  intro a'
  rw [ExtTreeMap.getElem?_insert]
  by_cases ha : cmp a a' = .eq
  · rw [if_pos ha, LawfulEqCmp.eq_of_compare ha, Finmap.lookup_insert]
  · have hne : a' ≠ a := by
      rintro rfl
      exact ha ReflCmp.compare_self
    rw [if_neg ha, Finmap.lookup_insert_of_ne m hne, h a']

lemma erase (h : Agrees m t) (a : α) : Agrees (m.erase a) (t.erase a) := by
  intro a'
  rw [ExtTreeMap.getElem?_erase]
  by_cases ha : cmp a a' = .eq
  · rw [if_pos ha, LawfulEqCmp.eq_of_compare ha, Finmap.lookup_erase]
  · have hne : a' ≠ a := by
      rintro rfl
      exact ha ReflCmp.compare_self
    rw [if_neg ha, Finmap.lookup_erase_ne hne, h a']

end Agrees

section Sorted

variable {α : Type*} [DecidableEq α] [LinearOrder α] {cmp : α → α → Ordering} [TransCmp cmp]
    [LawfulEqCmp cmp]
variable {m : Finmap fun _ : α => β} {t : ExtTreeMap α β cmp}

lemma Agrees.map_fst_toList (h : Agrees m t) (hcmp : ∀ a b, cmp a b = .lt → a < b) :
    t.toList.map Prod.fst = m.keys.sort := by
  have hpair : (t.toList.map Prod.fst).Pairwise (· < ·) :=
    List.pairwise_map.mpr (t.ordered_keys_toList.imp fun hlt => hcmp _ _ hlt)
  have hkeys : m.keys = (t.toList.map Prod.fst).toFinset := by
    ext a
    rw [Finmap.mem_keys, Finmap.mem_iff, List.mem_toFinset, List.mem_map]
    simp only [h a]
    constructor
    · rintro ⟨b, hb⟩
      exact ⟨(a, b), ExtTreeMap.mem_toList_iff_getElem?_eq_some.mpr hb, rfl⟩
    · rintro ⟨⟨a', b⟩, hb, rfl⟩
      exact ⟨b, ExtTreeMap.mem_toList_iff_getElem?_eq_some.mp hb⟩
  rw [hkeys]
  exact ((List.toFinset_sort (· ≤ ·) (hpair.imp fun hlt => hlt.ne)).mpr
    (hpair.imp fun hlt => hlt.le)).symm

/-- The bindings, read off the finite map. -/
theorem Agrees.toList_eq (h : Agrees m t) (hcmp : ∀ a b, cmp a b = .lt → a < b) :
    t.toList = m.keys.sort.filterMap fun a => (m.lookup a).map fun b => (a, b) := by
  rw [← h.map_fst_toList hcmp, List.filterMap_map]
  have hall : ∀ ab ∈ t.toList,
      ((fun a => (m.lookup a).map fun b => (a, b)) ∘ Prod.fst) ab = some ab := by
    intro ab hab
    rw [Function.comp_apply, h ab.1, ExtTreeMap.mem_toList_iff_getElem?_eq_some.mp hab]
    rfl
  rw [List.filterMap_congr hall, List.filterMap_some]

end Sorted

/-! ### Maps with related values -/

/-- The same keys, with values that are related. -/
def Pointwise {γ : Type*} (R : β → γ → Prop) (t : ExtTreeMap α β cmp) (u : ExtTreeMap α γ cmp) :
    Prop :=
  ∀ a : α, Option.Rel R t[a]? u[a]?

namespace Pointwise

variable {γ δ : Type*} {R : β → γ → Prop} {t : ExtTreeMap α β cmp} {u : ExtTreeMap α γ cmp}

omit [LawfulEqCmp cmp] in
lemma refl {R : β → β → Prop} (hR : ∀ b, R b b) (t : ExtTreeMap α β cmp) : Pointwise R t t := by
  intro a
  cases t[a]? with
  | none => exact .none
  | some b => exact .some (hR b)

omit [LawfulEqCmp cmp] in
lemma insert (h : Pointwise R t u) (a : α) {b : β} {c : γ} (hbc : R b c) :
    Pointwise R (t.insert a b) (u.insert a c) := by
  intro a'
  rw [ExtTreeMap.getElem?_insert, ExtTreeMap.getElem?_insert]
  split
  · exact .some hbc
  · exact h a'

omit [LawfulEqCmp cmp] in
lemma erase (h : Pointwise R t u) (a : α) : Pointwise R (t.erase a) (u.erase a) := by
  intro a'
  rw [ExtTreeMap.getElem?_erase, ExtTreeMap.getElem?_erase]
  split
  · exact .none
  · exact h a'

/-- The bindings, under functions that related values agree on. -/
theorem map_toList (h : Pointwise R t u) {f : β → δ} {g : γ → δ}
    (hfg : ∀ b c, R b c → f b = g c) :
    t.toList.map (fun ab => (ab.1, f ab.2)) = u.toList.map fun ac => (ac.1, g ac.2) := by
  have hmap : (t.map fun _ b => f b) = u.map fun _ c => g c := by
    refine ExtTreeMap.ext_getElem? fun a => ?_
    rw [ExtTreeMap.getElem?_map, ExtTreeMap.getElem?_map]
    have ha := h a
    generalize t[a]? = x at ha
    generalize u[a]? = y at ha
    cases ha with
    | some hR => exact congrArg some (hfg _ _ hR)
    | none => rfl
  have hlist := congrArg ExtTreeMap.toList hmap
  rwa [ExtTreeMap.toList_map, ExtTreeMap.toList_map] at hlist

end Pointwise

end LvimKeyring.OrderedMap
