import Mathlib.Tactic.Common

/-!
Labelled transition systems given by a partial step function.

A run is the list of its labels. A condition on the steps of a run is checked at the state
each step is taken from, and a history is a value carried along the run by a function of
its steps; both leave the step function as it is. The rules here turn a fact about one step
into a fact about a whole run.
-/

namespace LvimKeyring.Transition

variable {σ α γ : Type*}

/-- The state after the labels of a list, each enabled in its turn. -/
def run (step : σ → α → Option σ) : σ → List α → Option σ
  | s, [] => some s
  | s, a :: as => (step s a).bind fun t => run step t as

/-- Every step of the run satisfies `G` at the state it is taken from. -/
def Along (step : σ → α → Option σ) (G : σ → α → Prop) : σ → List α → Prop
  | _, [] => True
  | s, a :: as => G s a ∧ (step s a).elim True fun t => Along step G t as

/-- Every state the run passes through, its two ends included, satisfies `Q`. -/
def Throughout (step : σ → α → Option σ) (Q : σ → Prop) : σ → List α → Prop
  | s, [] => Q s
  | s, a :: as => Q s ∧ (step s a).elim True fun t => Throughout step Q t as

/-- What `upd` makes of `g` along the run. -/
def history (step : σ → α → Option σ) (upd : γ → σ → α → σ → γ) : γ → σ → List α → γ
  | g, _, [] => g
  | g, s, a :: as => (step s a).elim g fun t => history step upd (upd g s a t) t as

variable {step : σ → α → Option σ} {G : σ → α → Prop}

instance Along.decidable [∀ s a, Decidable (G s a)] :
    ∀ (s : σ) (as : List α), Decidable (Along step G s as)
  | _, [] => isTrue trivial
  | s, a :: as =>
    have : Decidable ((step s a).elim True fun t => Along step G t as) :=
      match step s a with
      | none => isTrue trivial
      | some t => Along.decidable t as
    inferInstanceAs (Decidable (_ ∧ _))

instance Throughout.decidable {Q : σ → Prop} [DecidablePred Q] :
    ∀ (s : σ) (as : List α), Decidable (Throughout step Q s as)
  | s, [] => inferInstanceAs (Decidable (Q s))
  | s, a :: as =>
    have : Decidable ((step s a).elim True fun t => Throughout step Q t as) :=
      match step s a with
      | none => isTrue trivial
      | some t => Throughout.decidable t as
    inferInstanceAs (Decidable (_ ∧ _))

@[simp] lemma run_nil (s : σ) : run step s [] = some s := rfl

lemma run_cons_eq_some {s u : σ} {a : α} {as : List α} :
    run step s (a :: as) = some u ↔ ∃ t, step s a = some t ∧ run step t as = some u :=
  Option.bind_eq_some_iff

lemma run_append (s : σ) (as bs : List α) :
    run step s (as ++ bs) = (run step s as).bind fun t => run step t bs := by
  induction as generalizing s with
  | nil => rfl
  | cons a as ih => simp only [List.cons_append, run, ih, Option.bind_assoc]

lemma run_append_eq_some {s u : σ} {as bs : List α} :
    run step s (as ++ bs) = some u ↔ ∃ t, run step s as = some t ∧ run step t bs = some u := by
  rw [run_append, Option.bind_eq_some_iff]

lemma along_cons {s t : σ} {a : α} {as : List α} (h : step s a = some t) :
    Along step G s (a :: as) ↔ G s a ∧ Along step G t as := by
  simp only [Along, h, Option.elim_some]

lemma along_of_forall {s : σ} {as : List α} (h : ∀ a ∈ as, ∀ s, G s a) : Along step G s as := by
  induction as generalizing s with
  | nil => trivial
  | cons a as ih =>
    refine ⟨h a List.mem_cons_self s, ?_⟩
    cases step s a with
    | none => trivial
    | some t => exact ih fun b hb => h b (List.mem_cons_of_mem a hb)

lemma Along.and {G' : σ → α → Prop} {s : σ} {as : List α} (h : Along step G s as)
    (h' : Along step G' s as) : Along step (fun s a => G s a ∧ G' s a) s as := by
  induction as generalizing s with
  | nil => trivial
  | cons a as ih =>
    refine ⟨⟨h.1, h'.1⟩, ?_⟩
    cases hstep : step s a with
    | none => trivial
    | some t =>
      have hrest : Along step G t as := by simpa [Along, hstep] using h.2
      exact ih hrest (by simpa [Along, hstep] using h'.2)

lemma Along.mono {G' : σ → α → Prop} (h : ∀ s a, G s a → G' s a) {s : σ} {as : List α}
    (ha : Along step G s as) : Along step G' s as := by
  induction as generalizing s with
  | nil => trivial
  | cons a as ih =>
    refine ⟨h s a ha.1, ?_⟩
    cases hstep : step s a with
    | none => trivial
    | some t => exact ih (by simpa [Along, hstep] using ha.2)

lemma Along.append_right {s t : σ} {as bs : List α} (h : Along step G s (as ++ bs))
    (hrun : run step s as = some t) : Along step G t bs := by
  induction as generalizing s with
  | nil =>
    cases hrun
    exact h
  | cons b as ih =>
    obtain ⟨u, hu, hrest⟩ := run_cons_eq_some.mp hrun
    rw [List.cons_append, along_cons hu] at h
    exact ih h.2 hrest

lemma Along.at_end {s t : σ} {a : α} {as : List α} (h : Along step G s (as ++ [a]))
    (hrun : run step s as = some t) : G t a := (h.append_right hrun).1

/-- What holds at the start and is kept by every step that satisfies `G` holds at the end
of every run whose steps satisfy `G`. -/
theorem run_inv {Inv : σ → Prop}
    (hstep : ∀ s a t, Inv s → G s a → step s a = some t → Inv t) {s u : σ} {as : List α}
    (h : Inv s) (hG : Along step G s as) (hrun : run step s as = some u) : Inv u := by
  induction as generalizing s with
  | nil => cases hrun; exact h
  | cons a as ih =>
    obtain ⟨t, ht, hrest⟩ := run_cons_eq_some.mp hrun
    rw [along_cons ht] at hG
    exact ih (hstep s a t h hG.1 ht) hG.2 hrest

/-- Two systems whose steps under a label keep a relation between their states go through the
same labels together. Each has a condition on its own steps. -/
theorem run_simulated {τ : Type*} {step' : τ → α → Option τ} {G' : τ → α → Prop}
    {R : σ → τ → Prop}
    (hstep : ∀ s t a u, R s t → G s a → G' t a → step s a = some u →
      ∃ v, step' t a = some v ∧ R u v)
    {s u : σ} {t : τ} {as : List α} (h : R s t) (hG : Along step G s as)
    (hG' : Along step' G' t as) (hrun : run step s as = some u) :
    ∃ v, run step' t as = some v ∧ R u v := by
  induction as generalizing s t with
  | nil =>
    cases hrun
    exact ⟨t, rfl, h⟩
  | cons a as ih =>
    obtain ⟨s', hs', hrest⟩ := run_cons_eq_some.mp hrun
    obtain ⟨t', ht', hR⟩ := hstep s t a s' h hG.1 hG'.1 hs'
    rw [along_cons hs'] at hG
    rw [along_cons ht'] at hG'
    obtain ⟨v, hv, hRv⟩ := ih hR hG.2 hG'.2 hrest
    exact ⟨v, run_cons_eq_some.mpr ⟨t', ht', hv⟩, hRv⟩

/-- The steps two systems take under the same labels satisfy `G` at the states they are taken
from. -/
def AlongBoth {τ : Type*} (step : σ → α → Option σ) (step' : τ → α → Option τ)
    (G : σ → τ → α → Prop) : σ → τ → List α → Prop
  | _, _, [] => True
  | s, t, a :: as => G s t a ∧ (step s a).elim True fun s' =>
      (step' t a).elim True fun t' => AlongBoth step step' G s' t' as

instance AlongBoth.decidable {τ : Type*} {step' : τ → α → Option τ} {G : σ → τ → α → Prop}
    [∀ s t a, Decidable (G s t a)] :
    ∀ (s : σ) (t : τ) (as : List α), Decidable (AlongBoth step step' G s t as)
  | _, _, [] => isTrue trivial
  | s, t, a :: as =>
    have : Decidable ((step s a).elim True fun s' =>
        (step' t a).elim True fun t' => AlongBoth step step' G s' t' as) :=
      match step s a, step' t a with
      | none, _ => isTrue trivial
      | some _, none => isTrue trivial
      | some s', some t' => AlongBoth.decidable s' t' as
    inferInstanceAs (Decidable (_ ∧ _))

/-- The rule for two systems with a condition on the pair of their states. -/
theorem run_paired {τ : Type*} {step' : τ → α → Option τ} {G : σ → τ → α → Prop}
    {R : σ → τ → Prop}
    (hstep : ∀ s t a u, R s t → G s t a → step s a = some u → ∃ v, step' t a = some v ∧ R u v)
    {s u : σ} {t : τ} {as : List α} (h : R s t) (hG : AlongBoth step step' G s t as)
    (hrun : run step s as = some u) : ∃ v, run step' t as = some v ∧ R u v := by
  induction as generalizing s t with
  | nil =>
    cases hrun
    exact ⟨t, rfl, h⟩
  | cons a as ih =>
    obtain ⟨s', hs', hrest⟩ := run_cons_eq_some.mp hrun
    obtain ⟨t', ht', hR⟩ := hstep s t a s' h hG.1 hs'
    have hG' : AlongBoth step step' G s' t' as := by simpa [AlongBoth, hs', ht'] using hG.2
    obtain ⟨v, hv, hRv⟩ := ih hR hG' hrest
    exact ⟨v, run_cons_eq_some.mpr ⟨t', ht', hv⟩, hRv⟩

lemma AlongBoth.and {τ : Type*} {step' : τ → α → Option τ} {G G' : σ → τ → α → Prop} {s : σ}
    {t : τ} {as : List α} (h : AlongBoth step step' G s t as)
    (h' : AlongBoth step step' G' s t as) :
    AlongBoth step step' (fun s t a => G s t a ∧ G' s t a) s t as := by
  induction as generalizing s t with
  | nil => trivial
  | cons a as ih =>
    refine ⟨⟨h.1, h'.1⟩, ?_⟩
    cases hs : step s a with
    | none => trivial
    | some s' =>
      cases ht : step' t a with
      | none => trivial
      | some t' =>
        have hrest : AlongBoth step step' G s' t' as := by simpa [AlongBoth, hs, ht] using h.2
        exact ih hrest (by simpa [AlongBoth, hs, ht] using h'.2)

lemma AlongBoth.mono {τ : Type*} {step' : τ → α → Option τ} {G G' : σ → τ → α → Prop}
    (hG : ∀ s t a, G s t a → G' s t a) {s : σ} {t : τ} {as : List α}
    (h : AlongBoth step step' G s t as) : AlongBoth step step' G' s t as := by
  induction as generalizing s t with
  | nil => trivial
  | cons a as ih =>
    refine ⟨hG s t a h.1, ?_⟩
    cases hs : step s a with
    | none => trivial
    | some s' =>
      cases ht : step' t a with
      | none => trivial
      | some t' => exact ih (by simpa [AlongBoth, hs, ht] using h.2)

lemma Along.of_inv (Inv : σ → Prop) {G' : σ → α → Prop}
    (hstep : ∀ s a t, Inv s → G s a → step s a = some t → Inv t)
    (hG : ∀ s a, Inv s → G s a → G' s a) {s : σ} {as : List α} (h : Inv s)
    (ha : Along step G s as) : Along step G' s as := by
  induction as generalizing s with
  | nil => trivial
  | cons a as ih =>
    refine ⟨hG s a h ha.1, ?_⟩
    cases ht : step s a with
    | none => trivial
    | some t => exact ih (hstep s a t h ha.1 ht) (by simpa [Along, ht] using ha.2)

/-- The system that carries a history along. -/
def track (step : σ → α → Option σ) (upd : γ → σ → α → σ → γ) : γ × σ → α → Option (γ × σ) :=
  fun x a => (step x.2 a).map fun t => (upd x.1 x.2 a t, t)

variable {upd : γ → σ → α → σ → γ}

lemma run_track {s u : σ} {as : List α} (g : γ) (h : run step s as = some u) :
    run (track step upd) (g, s) as = some (history step upd g s as, u) := by
  induction as generalizing s g with
  | nil =>
    cases h
    rfl
  | cons a as ih =>
    obtain ⟨t, ht, hrest⟩ := run_cons_eq_some.mp h
    refine run_cons_eq_some.mpr ⟨(upd g s a t, t), ?_, ?_⟩
    · simp only [track, ht, Option.map_some]
    · simp only [history, ht, Option.elim_some]
      exact ih _ hrest

lemma along_track {s : σ} {as : List α} (g : γ) (h : Along step G s as) :
    Along (track step upd) (fun x a => G x.2 a) (g, s) as := by
  induction as generalizing s g with
  | nil => trivial
  | cons a as ih =>
    refine ⟨h.1, ?_⟩
    cases hstep : step s a with
    | none => simp [track, hstep]
    | some t =>
      have hrest : Along step G t as := by simpa [Along, hstep] using h.2
      simpa [track, hstep] using ih (upd g s a t) hrest

lemma along_of_track {s : σ} {g : γ} {as : List α}
    (h : Along (track step upd) (fun x a => G x.2 a) (g, s) as) : Along step G s as := by
  induction as generalizing s g with
  | nil => trivial
  | cons a as ih =>
    refine ⟨h.1, ?_⟩
    cases hstep : step s a with
    | none => trivial
    | some t =>
      have htrack : track step upd (g, s) a = some (upd g s a t, t) := by
        simp only [track, hstep, Option.map_some]
      exact ih ((along_cons htrack).mp h).2

/-- The same rule for a relation between the state and a history of the run, with a condition
on the steps that may look at the history. -/
theorem run_track_inv {Inv : γ → σ → Prop} {G : γ × σ → α → Prop}
    (hstep : ∀ g s a t, Inv g s → G (g, s) a → step s a = some t → Inv (upd g s a t) t)
    {s u : σ} {g : γ} {as : List α} (h : Inv g s) (hG : Along (track step upd) G (g, s) as)
    (hrun : run step s as = some u) : Inv (history step upd g s as) u := by
  have hpair : ∀ x a y, Inv x.1 x.2 → G x a → track step upd x a = some y → Inv y.1 y.2 := by
    intro x a y hx hGx hy
    obtain ⟨t, ht, rfl⟩ := Option.map_eq_some_iff.mp hy
    exact hstep x.1 x.2 a t hx hGx ht
  exact run_inv hpair h hG (run_track g hrun)

/-- The rule for a condition that does not. -/
theorem run_history_inv {Inv : σ → γ → Prop}
    (hstep : ∀ s g a t, Inv s g → G s a → step s a = some t → Inv t (upd g s a t))
    {s u : σ} {g : γ} {as : List α} (h : Inv s g) (hG : Along step G s as)
    (hrun : run step s as = some u) : Inv u (history step upd g s as) :=
  run_track_inv (fun g s a t hinv hG ht => hstep s g a t hinv hG ht) h (along_track g hG) hrun

lemma throughout_end {Q : σ → Prop} {s u : σ} {as : List α} (h : Throughout step Q s as)
    (hrun : run step s as = some u) : Q u := by
  induction as generalizing s with
  | nil => cases hrun; exact h
  | cons a as ih =>
    obtain ⟨t, ht, hrest⟩ := run_cons_eq_some.mp hrun
    exact ih (by simpa [Throughout, ht] using h.2) hrest

lemma Throughout.along {Q : σ → Prop} {s : σ} {as : List α} (h : Throughout step Q s as) :
    Along step (fun s _ => Q s) s as := by
  induction as generalizing s with
  | nil => trivial
  | cons a as ih =>
    refine ⟨h.1, ?_⟩
    cases hstep : step s a with
    | none => trivial
    | some t => exact ih (by simpa [Throughout, hstep] using h.2)

lemma Throughout.start {Q : σ → Prop} {s : σ} {as : List α} (h : Throughout step Q s as) : Q s := by
  cases as with
  | nil => exact h
  | cons a as => exact h.1

lemma Throughout.next {Q : σ → Prop} {s : σ} {as : List α} (h : Throughout step Q s as) :
    Along step (fun s a => ∀ t, step s a = some t → Q t) s as := by
  induction as generalizing s with
  | nil => trivial
  | cons a as ih =>
    have hrest : ∀ t, step s a = some t → Throughout step Q t as := fun t ht => by
      simpa [Throughout, ht] using h.2
    refine ⟨fun t ht => (hrest t ht).start, ?_⟩
    cases hstep : step s a with
    | none => trivial
    | some t => exact ih (hrest t hstep)

/-- The rule for what follows from an invariant in every state a run passes through. -/
theorem throughout_inv {Inv Q : σ → Prop}
    (hstep : ∀ s a t, Inv s → G s a → step s a = some t → Inv t) (hQ : ∀ s, Inv s → Q s)
    {s : σ} {as : List α} (h : Inv s) (hG : Along step G s as) : Throughout step Q s as := by
  induction as generalizing s with
  | nil => exact hQ s h
  | cons a as ih =>
    refine ⟨hQ s h, ?_⟩
    cases ht : step s a with
    | none => trivial
    | some t =>
      rw [along_cons ht] at hG
      exact ih (hstep s a t h hG.1 ht) hG.2

end LvimKeyring.Transition
