import Mathlib.Data.List.GetD
import Mathlib.Data.Nat.Find
import Mathlib.Order.Iterate
import LvimKeyring.Lib.Transition

/-!
Runs that go on for ever, and what happens on them sooner or later.

A step is waited for under a condition that nothing but the step can end. If it is taken on
every path on which the condition goes on, it is taken.
-/

namespace LvimKeyring.Transition

variable {σ α : Type*}

/-- A run without end. -/
structure Path (step : σ → α → Option σ) where
  state : ℕ → σ
  label : ℕ → α
  next : ∀ n, step (state n) (label n) = some (state (n + 1))

namespace Path

variable {step : σ → α → Option σ} (ρ : Path step)

/-- What only some steps can end goes on until one of them is taken. -/
theorem until_taken {P : σ → Prop} {A : σ → α → Prop} {n : ℕ}
    (hstay : ∀ s a t, step s a = some t → P s → ¬ A s a → P t)
    (htaken : (∀ m ≥ n, P (ρ.state m)) → ∃ m ≥ n, A (ρ.state m) (ρ.label m))
    (h : P (ρ.state n)) :
    ∃ m ≥ n, A (ρ.state m) (ρ.label m) ∧ ∀ k ≥ n, k ≤ m → P (ρ.state k) := by
  classical
  have hsome : ∃ m, m ≥ n ∧ A (ρ.state m) (ρ.label m) := by
    by_contra hnever
    push Not at hnever
    have hforever : ∀ m ≥ n, P (ρ.state m) := by
      intro m hm
      induction m, hm using Nat.le_induction with
      | base => exact h
      | succ m hm ih => exact hstay _ _ _ (ρ.next m) ih (hnever m hm)
    obtain ⟨m, hm, hA⟩ := htaken hforever
    exact hnever m hm hA
  obtain ⟨hge, hA⟩ := Nat.find_spec hsome
  refine ⟨Nat.find hsome, hge, hA, fun k hk hle => ?_⟩
  induction k, hk using Nat.le_induction with
  | base => exact h
  | succ k hk ih =>
    have hnot : ¬ A (ρ.state k) (ρ.label k) := fun hAk => Nat.find_min hsome hle ⟨hk, hAk⟩
    exact hstay _ _ _ (ρ.next k) (ih (Nat.le_of_succ_le hle)) hnot

/-- What does not go on for ever ends with a step. -/
theorem exists_last {P : σ → Prop} {n : ℕ} (h : P (ρ.state n))
    (hends : ∃ m ≥ n, ¬ P (ρ.state m)) :
    ∃ m ≥ n, P (ρ.state m) ∧ ¬ P (ρ.state (m + 1)) ∧ ∀ k ≥ n, k ≤ m → P (ρ.state k) := by
  classical
  obtain ⟨hge, hnot⟩ := Nat.find_spec hends
  have hbefore : ∀ k ≥ n, k < Nat.find hends → P (ρ.state k) := by
    intro k hk hlt
    by_contra hPk
    exact Nat.find_min hends hlt ⟨hk, hPk⟩
  have hpos : n < Nat.find hends := by
    rcases hge.lt_or_eq with hlt | heq
    · exact hlt
    · rw [← heq] at hnot
      exact absurd h hnot
  refine ⟨Nat.find hends - 1, by omega, hbefore _ (by omega) (by omega), ?_, fun k hk hle => ?_⟩
  · rwa [Nat.sub_add_cancel (by omega)]
  · exact hbefore k hk (by omega)

/-- What every step keeps holds from some place on. -/
theorem stays {P : σ → Prop} (hstay : ∀ s a t, step s a = some t → P s → P t) {n : ℕ}
    (h : P (ρ.state n)) : ∀ m ≥ n, P (ρ.state m) := by
  intro m hm
  induction m, hm using Nat.le_induction with
  | base => exact h
  | succ m hm ih => exact hstay _ _ _ (ρ.next m) ih

/-- A run, and then one label that is always enabled. -/
def ofRun (f : σ → σ) (b : α) (hf : ∀ s, step s b = some (f s)) (s : σ) (as : List α)
    (h : (run step s as).isSome) : Path step where
  state n := f^[n - as.length] ((run step s (as.take n)).getD s)
  label n := as.getD n b
  next n := by
    obtain ⟨u, hu⟩ := Option.isSome_iff_exists.mp h
    by_cases hn : n < as.length
    · rw [← List.take_append_drop (n + 1) as, run_append_eq_some] at hu
      obtain ⟨v, hv, -⟩ := hu
      have hv' := hv
      rw [List.take_succ_eq_append_getElem hn, run_append_eq_some] at hv'
      obtain ⟨w, hw, hstep⟩ := hv'
      obtain ⟨v', hstep, hnil⟩ := run_cons_eq_some.mp hstep
      cases hnil
      rw [Nat.sub_eq_zero_of_le hn.le, Nat.sub_eq_zero_of_le hn, hw, hv]
      simpa [List.getD_eq_getElem?_getD, List.getElem?_eq_getElem hn] using hstep
    · have hle : as.length ≤ n := Nat.le_of_not_lt hn
      rw [List.getD_eq_default _ _ hle, hf, Nat.succ_sub hle, Function.iterate_succ_apply',
        List.take_of_length_le hle, List.take_of_length_le (Nat.le_succ_of_le hle)]

end Path

end LvimKeyring.Transition
