import Mathlib.Data.List.TakeWhile

/-!
Lua patterns, anchored at the start.

A pattern is matched item by item. A repetition takes as much as it can and gives it back one by
one, until the rest of the pattern matches.
-/

namespace LvimKeyring.LuaPattern

variable {α β : Type*}

inductive Item (α : Type*)
  | one (p : α → Bool)
  | star (p : α → Bool)
  | plus (p : α → Bool)
  /-- `(` -/
  | enter
  /-- `)` -/
  | leave
  /-- `$` -/
  | done

/-- A literal. -/
def lit [BEq α] (t : List α) : List (Item α) := t.map fun a => .one (· == a)

/-- `max_expand`, with the rest of the pattern. -/
def expand (rest : ℕ → Option β) : ℕ → Option β
  | 0 => rest 0
  | n + 1 => (rest (n + 1)).or (expand rest n)

/-- The captures of the longest match that backtracking finds first, with the text since the last
`(`. -/
def run : List (Item α) → List α → List α → Option (List (List α))
  | [], _, _ => some []
  | .one _ :: _, [], _ => none
  | .one p :: ps, c :: s, cur => if p c then run ps s (cur ++ [c]) else none
  | .star p :: ps, s, cur =>
    expand (fun n => run ps (s.drop n) (cur ++ s.take n)) (s.takeWhile p).length
  | .plus _ :: _, [], _ => none
  | .plus p :: ps, c :: s, cur =>
    if p c then
      expand (fun n => run ps (s.drop n) (cur ++ c :: s.take n)) (s.takeWhile p).length
    else none
  | .enter :: ps, s, _ => run ps s []
  | .leave :: ps, s, cur => (run ps s cur).map (cur :: ·)
  | .done :: ps, s, cur => if s.isEmpty then run ps s cur else none

/-- `s:match("^…")` -/
def captures (ps : List (Item α)) (s : List α) : Option (List (List α)) := run ps s []

/-- A text that can be cut into what the items stand for, with the captures of the cut. -/
def Cuts : List (Item α) → List α → List α → List (List α) → Prop
  | [], _, _, caps => caps = []
  | .one p :: ps, s, cur, caps => ∃ c s', s = c :: s' ∧ p c ∧ Cuts ps s' (cur ++ [c]) caps
  | .star p :: ps, s, cur, caps =>
    ∃ t s', s = t ++ s' ∧ (∀ c ∈ t, p c) ∧ Cuts ps s' (cur ++ t) caps
  | .plus p :: ps, s, cur, caps =>
    ∃ t s', s = t ++ s' ∧ t ≠ [] ∧ (∀ c ∈ t, p c) ∧ Cuts ps s' (cur ++ t) caps
  | .enter :: ps, s, _, caps => Cuts ps s [] caps
  | .leave :: ps, s, cur, caps => ∃ caps', caps = cur :: caps' ∧ Cuts ps s cur caps'
  | .done :: ps, s, cur, caps => s = [] ∧ Cuts ps s cur caps

/-! ### Repetition -/

lemma expand_eq_some {rest : ℕ → Option β} {n : ℕ} {b : β} (h : expand rest n = some b) :
    ∃ k ≤ n, rest k = some b := by
  induction n with
  | zero => exact ⟨0, le_rfl, h⟩
  | succ n ih =>
    rcases Option.or_eq_some_iff.mp h with h | ⟨-, h⟩
    · exact ⟨n + 1, le_rfl, h⟩
    · obtain ⟨k, hk, hrest⟩ := ih h
      exact ⟨k, Nat.le_succ_of_le hk, hrest⟩

lemma expand_of_some {rest : ℕ → Option β} {n : ℕ} {b : β} (h : rest n = some b) :
    expand rest n = some b := by
  cases n with
  | zero => exact h
  | succ n => rw [expand, h, Option.some_or]

lemma takeWhile_longest {p : α → Bool} {t s : List α} (ht : ∀ c ∈ t, p c)
    (hs : ∀ c ∈ s.head?, p c = false) : (t ++ s).takeWhile p = t := by
  rw [List.takeWhile_append_of_pos ht]
  cases s with
  | nil => simp
  | cons c s => simp [hs c rfl]

lemma append_unique {p : α → Bool} {a b x y : List α} (ha : ∀ c ∈ a, p c) (hb : ∀ c ∈ b, p c)
    (hx : ∀ c ∈ x.head?, p c = false) (hy : ∀ c ∈ y.head?, p c = false) (h : a ++ x = b ++ y) :
    a = b ∧ x = y := by
  have hab : a = b := by rw [← takeWhile_longest ha hx, h, takeWhile_longest hb hy]
  subst hab
  exact ⟨rfl, List.append_cancel_left h⟩

lemma all_take {p : α → Bool} {s : List α} {n : ℕ} (h : n ≤ (s.takeWhile p).length) :
    ∀ c ∈ s.take n, p c := by
  intro c hc
  have hpre : s.take n <+: s.takeWhile p := by
    refine List.prefix_of_prefix_length_le (List.take_prefix n s) (List.takeWhile_prefix p) ?_
    exact (List.length_take_le n s).trans h
  exact List.mem_takeWhile_imp (hpre.subset hc)

/-! ### Matching -/

lemma run_lit [BEq α] [ReflBEq α] (t : List α) (ps : List (Item α)) (s cur : List α) :
    run (lit t ++ ps) (t ++ s) cur = run ps s (cur ++ t) := by
  induction t generalizing cur with
  | nil => simp [lit]
  | cons a t ih =>
    have hstep : run (lit (a :: t) ++ ps) (a :: t ++ s) cur
        = run (lit t ++ ps) (t ++ s) (cur ++ [a]) := by
      simp [lit, run]
    rw [hstep, ih, List.append_assoc, List.singleton_append]

lemma run_star {p : α → Bool} {ps : List (Item α)} {t s cur : List α} {caps : List (List α)}
    (ht : ∀ c ∈ t, p c) (hs : ∀ c ∈ s.head?, p c = false)
    (h : run ps s (cur ++ t) = some caps) : run (.star p :: ps) (t ++ s) cur = some caps := by
  rw [run, takeWhile_longest ht hs]
  exact expand_of_some (by rw [List.drop_left, List.take_left, h])

lemma run_plus {p : α → Bool} {ps : List (Item α)} {t s cur : List α} {caps : List (List α)}
    (hne : t ≠ []) (ht : ∀ c ∈ t, p c) (hs : ∀ c ∈ s.head?, p c = false)
    (h : run ps s (cur ++ t) = some caps) : run (.plus p :: ps) (t ++ s) cur = some caps := by
  cases t with
  | nil => exact absurd rfl hne
  | cons c t =>
    have htail : ∀ a ∈ t, p a := fun a ha => ht a (List.mem_cons_of_mem c ha)
    rw [List.cons_append, run, if_pos (ht c List.mem_cons_self), takeWhile_longest htail hs]
    exact expand_of_some (by rw [List.drop_left, List.take_left, h])

lemma cuts_lit [BEq α] [LawfulBEq α] {t s cur : List α} {ps : List (Item α)} {caps : List (List α)}
    (h : Cuts (lit t ++ ps) s cur caps) : ∃ s', s = t ++ s' ∧ Cuts ps s' (cur ++ t) caps := by
  induction t generalizing s cur with
  | nil => exact ⟨s, rfl, by rwa [List.append_nil]⟩
  | cons a t ih =>
    obtain ⟨c, s', rfl, hc, h⟩ := h
    obtain ⟨s'', rfl, hrest⟩ := ih h
    have hca : c = a := beq_iff_eq.mp hc
    subst hca
    refine ⟨s'', rfl, ?_⟩
    rwa [List.append_assoc, List.singleton_append] at hrest

/-- **Soundness**: what matches can be cut so, with these captures. -/
theorem cuts_of_run {ps : List (Item α)} {s cur : List α} {caps : List (List α)}
    (h : run ps s cur = some caps) : Cuts ps s cur caps := by
  induction ps generalizing s cur caps with
  | nil => exact (Option.some.inj h).symm
  | cons item ps ih =>
    cases item with
    | one p =>
      cases s with
      | nil => cases h
      | cons c s =>
        rw [run] at h
        split at h
        · next hc => exact ⟨c, s, rfl, hc, ih h⟩
        · cases h
    | star p =>
      rw [run] at h
      obtain ⟨n, hn, h⟩ := expand_eq_some h
      exact ⟨s.take n, s.drop n, (List.take_append_drop n s).symm, all_take hn, ih h⟩
    | plus p =>
      cases s with
      | nil => cases h
      | cons c s =>
        rw [run] at h
        split at h
        · next hc =>
          obtain ⟨n, hn, h⟩ := expand_eq_some h
          refine ⟨c :: s.take n, s.drop n, ?_, List.cons_ne_nil _ _, ?_, ih h⟩
          · rw [List.cons_append, List.take_append_drop]
          · exact List.forall_mem_cons.mpr ⟨hc, all_take hn⟩
        · cases h
    | enter => exact ih (s := s) h
    | leave =>
      obtain ⟨caps', hrest, rfl⟩ := Option.map_eq_some_iff.mp h
      exact ⟨caps', rfl, ih hrest⟩
    | done =>
      rw [run] at h
      split at h
      · next hs => exact ⟨List.isEmpty_iff.mp hs, ih h⟩
      · cases h

end LvimKeyring.LuaPattern
