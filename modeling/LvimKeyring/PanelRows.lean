import LvimKeyring.Panel

/-!
What the panel shows of a listing.

Every entry is filed in one section, the sections and what they hold are sorted, and the names of
the rows lead back to the entries that are shown, and to nothing else.
-/

namespace LvimKeyring.PanelRows

open Rows Grouping LuaPattern Panel
open Server (Summary)

/-! ### Names -/

lemma rowName_inj {m n : String} : rowName m = rowName n ↔ m = n := by
  constructor
  · intro h
    have hlist := congrArg String.toList h
    simp only [rowName, String.toList_append] at hlist
    exact String.toList_injective (List.append_cancel_left hlist)
  · rintro rfl
    rfl

lemma rowName_ne_section (m ns : String) : rowName m ≠ sectionName ns := by
  intro h
  have hfourth := congrArg (fun s => s.toList[3]?) h
  simp [rowName, sectionName] at hfourth

lemma rowName_ne_empty (m : String) : rowName m ≠ emptyName := by
  intro h
  have hfourth := congrArg (fun s => s.toList[3]?) h
  simp [rowName, emptyName] at hfourth

/-! ### The registry -/

variable {th : Theme} {es : List Summary} {collapsed : String → Bool}

lemma mem_grouped {g : String × List Summary} (hg : g ∈ grouped es) {e : Summary} :
    e ∈ g.2 ↔ e ∈ es ∧ namespaceOf e.name = g.1 := mem_group hg

lemma mem_registered {g : String × List Summary} {x : String × Summary} :
    x ∈ registered (buildSection th collapsed g) ↔
      collapsed g.1 = false ∧ x.2 ∈ g.2 ∧ x.1 = rowName x.2.name := by
  obtain ⟨n, e⟩ := x
  unfold registered buildSection sectionRow
  cases hc : collapsed g.1 with
  | true => simp
  | false =>
    simp only [Bool.not_false, if_true, List.map_map, List.mem_map, Function.comp_apply, true_and]
    constructor
    · rintro ⟨e', he', heq⟩
      cases heq
      exact ⟨he', rfl⟩
    · rintro ⟨he, rfl⟩
      exact ⟨e, he, rfl⟩

lemma buildRows_of_ne (hne : es ≠ []) : buildRows th es collapsed =
    ⟨((grouped es).map (buildSection th collapsed)).map .section,
      (((grouped es).map (buildSection th collapsed)).flatMap registered).reverse,
      (((grouped es).map (buildSection th collapsed)).map fun s => s.children.length).sum,
      es.length⟩ := if_neg hne

lemma mem_registry {x : String × Summary} : x ∈ (buildRows th es collapsed).registry ↔
    x.2 ∈ es ∧ collapsed (namespaceOf x.2.name) = false ∧ x.1 = rowName x.2.name := by
  by_cases hes : es = []
  · simp [buildRows, hes]
  · simp only [buildRows_of_ne hes, List.mem_reverse, List.mem_flatMap, List.mem_map]
    constructor
    · rintro ⟨_, ⟨g, hg, rfl⟩, hx⟩
      obtain ⟨hc, he, hn⟩ := mem_registered.mp hx
      obtain ⟨hmem, hns⟩ := (mem_grouped hg).mp he
      exact ⟨hmem, by rw [hns, hc], hn⟩
    · rintro ⟨hmem, hc, hn⟩
      have hkey : namespaceOf x.2.name ∈ keys (fun e : Summary => namespaceOf e.name) es :=
        mem_keys.mpr ⟨x.2, hmem, rfl⟩
      obtain ⟨g, hg, hns⟩ : ∃ g ∈ grouped es, g.1 = namespaceOf x.2.name := by
        rw [← groups_keys _ nameLe] at hkey
        exact List.mem_map.mp hkey
      exact ⟨_, ⟨g, hg, rfl⟩, mem_registered.mpr
        ⟨by rw [hns, hc], (mem_grouped hg).mpr ⟨hmem, hns.symm⟩, hn⟩⟩

/-! ### From the rows back to the entries -/

/-- The names of the rows lead to what the rows are of: a row of an entry to the entry, and every
other row nowhere. -/
def Resolves (registry : List (String × Summary)) (rows : List Row) : Prop :=
  ∀ row ∈ rows, registry.lookup row.name = none ∧
    ∀ x, row = .section x → ∀ r ∈ x.children, registry.lookup r.name = some r.entry

lemma lookup_none {registry : List (String × Summary)} {n : String} (h : ∀ x ∈ registry, x.1 ≠ n) :
    registry.lookup n = none := by
  rw [List.lookup_eq_none_iff]
  intro x hx
  simpa using (h x hx).symm

lemma Resolves.line {registry : List (String × Summary)} {rows : List Row}
    (h : Resolves registry rows) {line : String × Option Summary}
    (hline : line ∈ rows.flatMap Row.lines) : registry.lookup line.1 = line.2 := by
  obtain ⟨row, hrow, hmem⟩ := List.mem_flatMap.mp hline
  obtain ⟨hname, hchildren⟩ := h row hrow
  rcases row with label | x
  · rw [Row.lines, List.mem_singleton] at hmem
    rw [hmem]
    exact hname
  · rcases List.mem_cons.mp hmem with rfl | hmem
    · exact hname
    · split at hmem
      · obtain ⟨r, hr, rfl⟩ := List.mem_map.mp hmem
        exact hchildren x rfl r hr
      · exact absurd hmem List.not_mem_nil

lemma Resolves.flip {registry : List (String × Summary)} {rows : List Row}
    (h : Resolves registry rows) {i : ℕ} {x : Section} (hi : rows[i]? = some (.section x)) :
    Resolves registry (rows.set i (.section x.flip)) := by
  intro row hrow
  rcases List.mem_or_eq_of_mem_set hrow with hmem | rfl
  · exact h row hmem
  · obtain ⟨hname, hchildren⟩ := h _ (List.mem_of_getElem? hi)
    refine ⟨hname, fun y hy r hr => ?_⟩
    cases hy
    exact hchildren x rfl r hr

/-- No two entries of a listing have one name. -/
def Distinct (es : List Summary) : Prop := (es.map (·.name)).Nodup

instance (es : List Summary) : Decidable (Distinct es) := inferInstanceAs (Decidable (List.Nodup _))

/-- What the agent lists has no name twice. -/
theorem distinct_summaries (b : Vault.Body) : Distinct (Server.summaries b) := by
  rw [Distinct, Server.summaries, List.map_map]
  have hkeys := b.entries.distinct_keys_toList
  rw [List.Nodup, List.pairwise_map]
  refine hkeys.imp fun hne heq => hne ?_
  exact Std.LawfulEqCmp.compare_eq_iff_eq.mpr heq

lemma eq_of_name (hdistinct : Distinct es) {e e' : Summary} (he : e ∈ es) (he' : e' ∈ es)
    (hname : e.name = e'.name) : e = e' := List.inj_on_of_nodup_map hdistinct he he' hname

lemma lookup_registry (hdistinct : Distinct es) {e : Summary} (he : e ∈ es)
    (hc : collapsed (namespaceOf e.name) = false) :
    (buildRows th es collapsed).registry.lookup (rowName e.name) = some e := by
  have hmem : (rowName e.name, e) ∈ (buildRows th es collapsed).registry :=
    mem_registry.mpr ⟨he, hc, rfl⟩
  cases hl : (buildRows th es collapsed).registry.lookup (rowName e.name) with
  | none =>
    rw [List.lookup_eq_none_iff] at hl
    simpa using hl _ hmem
  | some e' =>
    obtain ⟨l₁, l₂, heq, -⟩ := List.lookup_eq_some_iff.mp hl
    have hmem' : (rowName e.name, e') ∈ (buildRows th es collapsed).registry := by
      rw [heq]
      exact List.mem_append_right _ List.mem_cons_self
    obtain ⟨he', -, hn⟩ := mem_registry.mp hmem'
    rw [eq_of_name hdistinct he he' (rowName_inj.mp hn)]

/-- What is built resolves. -/
theorem resolves_buildRows (th : Theme) (hdistinct : Distinct es) (collapsed : String → Bool) :
    Resolves (buildRows th es collapsed).registry (buildRows th es collapsed).rows := by
  have hnone : ∀ n, (∀ m, rowName m ≠ n) →
      (buildRows th es collapsed).registry.lookup n = none := by
    intro n hn
    refine lookup_none fun x hx => ?_
    rw [(mem_registry.mp hx).2.2]
    exact hn _
  intro row hrow
  by_cases hes : es = []
  · rw [buildRows, if_pos hes, List.mem_singleton] at hrow
    subst hrow
    refine ⟨hnone _ fun m => rowName_ne_empty m, fun x hx => ?_⟩
    cases hx
  · rw [buildRows_of_ne hes, List.mem_map] at hrow
    obtain ⟨x, hx, rfl⟩ := hrow
    obtain ⟨g, hg, rfl⟩ := List.mem_map.mp hx
    refine ⟨hnone _ fun m => rowName_ne_section m g.1, fun y hy r hr => ?_⟩
    cases hy
    have hreg : (r.name, r.entry) ∈ registered (buildSection th collapsed g) :=
      List.mem_map.mpr ⟨r, hr, rfl⟩
    obtain ⟨hc, he, hn⟩ := mem_registered.mp hreg
    obtain ⟨hmem, hns⟩ := (mem_grouped hg).mp he
    simp only at hn
    rw [hn]
    exact lookup_registry hdistinct hmem (by rw [hns, hc])

/-! ### The layout -/

/-- What the section of a namespace shows. -/
structure Files (es : List Summary) (collapsed : String → Bool) (ns : String) (x : Section) :
    Prop where
  name : x.name = sectionName ns
  count : x.count = es.countP fun e => namespaceOf e.name = ns
  expanded : x.expanded = !collapsed ns
  mem : ∀ e, e ∈ x.children.map (·.entry) ↔ e ∈ es ∧ namespaceOf e.name = ns ∧ collapsed ns = false
  sorted : (x.children.map (·.entry.name)).Pairwise (· < ·)

/-- Sections in the order of their namespaces, one for each namespace there is. -/
structure Laid (es : List Summary) (collapsed : String → Bool) (b : Built)
    (xs : List (String × Section)) : Prop where
  rows : b.rows = xs.map fun x => .section x.2
  sorted : (xs.map Prod.fst).Pairwise (· < ·)
  mem : ∀ ns, ns ∈ xs.map Prod.fst ↔ ∃ e ∈ es, namespaceOf e.name = ns
  files : ∀ x ∈ xs, Files es collapsed x.1 x.2
  resolves : Resolves b.registry b.rows
  counts : b.counts = (es.countP fun e => collapsed (namespaceOf e.name) = false, es.length)

lemma children_entries (g : String × List Summary) :
    (buildSection th collapsed g).children.map (·.entry) = if collapsed g.1 then [] else g.2 := by
  unfold buildSection sectionRow
  cases collapsed g.1 with
  | true => rfl
  | false => simp [Function.comp_def, entryRow]

lemma group_strict (hdistinct : Distinct es) {g : String × List Summary} (hg : g ∈ grouped es) :
    (g.2.map (·.name)).Pairwise (· < ·) := by
  have hle : (g.2.map (·.name)).Pairwise (· ≤ ·) := by
    have hsorted : g.2.Pairwise fun a b => nameLe a b := group_sorted
      (fun a b c hab hbc => by
        simpa [nameLe] using (of_decide_eq_true hab).trans (of_decide_eq_true hbc))
      (fun a b => by simpa [nameLe] using le_total a.name b.name) hg
    exact List.pairwise_map.mpr (hsorted.imp fun hab => of_decide_eq_true hab)
  have hnodup : (g.2.map (·.name)).Nodup := by
    rw [((mem_groups hg).2.map _).nodup_iff]
    exact hdistinct.sublist (List.filter_sublist.map _)
  exact hle.imp₂ (fun a b hab hne => lt_of_le_of_ne hab hne) hnodup

lemma files_buildSection (hdistinct : Distinct es) {g : String × List Summary}
    (hg : g ∈ grouped es) :
    Files es collapsed g.1 (buildSection th collapsed g) where
  name := rfl
  count := by
    change g.2.length = _
    rw [(mem_groups hg).2.length_eq, List.countP_eq_length_filter]
  expanded := rfl
  mem e := by
    rw [children_entries]
    cases hc : collapsed g.1 with
    | true => simp
    | false => simpa using mem_grouped hg
  sorted := by
    have hmap : (buildSection th collapsed g).children.map (·.entry.name) =
        ((buildSection th collapsed g).children.map (·.entry)).map (·.name) := by
      rw [List.map_map]
      rfl
    rw [hmap, children_entries]
    split
    · exact .nil
    · exact group_strict hdistinct hg

lemma shown_length (gs : List (String × List Summary)) :
    ((gs.map (buildSection th collapsed)).map fun x => x.children.length).sum =
      ((gs.filter fun g => !collapsed g.1).flatMap Prod.snd).length := by
  induction gs with
  | nil => rfl
  | cons g gs ih =>
    have hlen : (buildSection th collapsed g).children.length =
        if collapsed g.1 then 0 else g.2.length := by
      rw [← List.length_map (f := fun r : EntryRow => r.entry), children_entries]
      split <;> rfl
    rw [List.map_cons, List.map_cons, List.sum_cons, ih, hlen]
    cases hc : collapsed g.1 <;> simp [hc]

lemma shown_countP (es : List Summary) (collapsed : String → Bool) :
    (((grouped es).filter fun g => !collapsed g.1).flatMap Prod.snd).length =
      es.countP fun e => collapsed (namespaceOf e.name) = false := by
  have hall : ∀ g ∈ grouped es, ∀ e ∈ g.2, namespaceOf e.name = g.1 := fun g hg e he =>
    ((mem_grouped hg).mp he).2
  have hfilter : ∀ gs : List (String × List Summary),
      (∀ g ∈ gs, ∀ e ∈ g.2, namespaceOf e.name = g.1) →
      (gs.filter fun g => !collapsed g.1).flatMap Prod.snd =
        (gs.flatMap Prod.snd).filter fun e => collapsed (namespaceOf e.name) = false := by
    intro gs hgs
    induction gs with
    | nil => rfl
    | cons g gs ih =>
      rw [List.forall_mem_cons] at hgs
      have hg : g.2.filter (fun e => decide (collapsed (namespaceOf e.name) = false)) =
          if collapsed g.1 then [] else g.2 := by
        cases hc : collapsed g.1 with
        | true => simpa using fun e he => by rw [hgs.1 e he, hc]
        | false => simpa using fun e he => by rw [hgs.1 e he, hc]
      rw [List.flatMap_cons, List.filter_append, hg, ← ih hgs.2]
      cases hc : collapsed g.1 <;> simp [hc]
  rw [hfilter _ hall, ← List.countP_eq_length_filter]
  exact (groups_perm _ nameLe es).countP_eq _

/-- **The layout of a listing**: an entry is in the section of its namespace and in no other, the
sections and the entries in them are sorted, a collapsed section shows none, the counter is right,
and a row leads to the entry it shows. -/
theorem laid (th : Theme) (hne : es ≠ []) (hdistinct : Distinct es) (collapsed : String → Bool) :
    ∃ xs, Laid es collapsed (buildRows th es collapsed) xs := by
  refine ⟨(grouped es).map fun g => (g.1, buildSection th collapsed g), ?_, ?_, ?_, ?_, ?_, ?_⟩
  · simp only [buildRows_of_ne hne, List.map_map]
    rfl
  · rw [List.map_map]
    change ((grouped es).map Prod.fst).Pairwise _
    rw [grouped, groups_keys]
    exact keys_sorted _ _
  · intro ns
    rw [List.map_map]
    change ns ∈ (grouped es).map Prod.fst ↔ _
    rw [grouped, groups_keys]
    exact mem_keys
  · intro x hx
    obtain ⟨g, hg, rfl⟩ := List.mem_map.mp hx
    exact files_buildSection hdistinct hg
  · exact resolves_buildRows th hdistinct collapsed
  · rw [buildRows_of_ne hne, shown_length, shown_countP]

def drawn : Theme := ⟨"k", "v", ">", ⟨"cyan", "blue"⟩, "a", [], String.length, 100⟩

def plain (name : String) : Summary := ⟨name, ⟨none, none, none, [], false, 7, 7⟩, 7, 7⟩

theorem laid_threeSections :
    let es := ["token", "git/h", "db/main", "db/test"].map plain
    ∃ xs, Laid es (fun ns => ns == "git") (buildRows drawn es fun ns => ns == "git") xs :=
  laid drawn (List.cons_ne_nil _ _) (by decide) _

end LvimKeyring.PanelRows
