import Mathlib.Tactic.Common

/-!
Inversion rules for computations in `Except`: what a success or a failure of a composite
says of its parts.
-/

namespace LvimKeyring.Result

universe u v

variable {ε ε' : Type u} {α β : Type v}

@[simp] lemma bind_eq_ok {x : Except ε α} {f : α → Except ε β} {b : β} :
    x >>= f = .ok b ↔ ∃ a, x = .ok a ∧ f a = .ok b := by
  cases x <;> simp [bind, Except.bind]

@[simp] lemma bind_eq_error {x : Except ε α} {f : α → Except ε β} {e : ε} :
    x >>= f = .error e ↔ x = .error e ∨ ∃ a, x = .ok a ∧ f a = .error e := by
  cases x <;> simp [bind, Except.bind]

@[simp] lemma pure_eq_ok {a b : α} : (pure a : Except ε α) = .ok b ↔ a = b := by
  simp [pure, Except.pure]

@[simp] lemma mapError_eq_ok {x : Except ε α} {f : ε → ε'} {a : α} :
    x.mapError f = .ok a ↔ x = .ok a := by
  cases x <;> simp [Except.mapError]

@[simp] lemma mapError_eq_error {x : Except ε α} {f : ε → ε'} {e : ε'} :
    x.mapError f = .error e ↔ ∃ e', x = .error e' ∧ f e' = e := by
  cases x <;> simp [Except.mapError]

@[simp] lemma ok_bind {a : α} {f : α → Except ε β} : (Except.ok a >>= f) = f a := rfl

@[simp] lemma error_bind {e : ε} {f : α → Except ε β} : (Except.error e >>= f) = .error e := rfl

lemma forM_eq_ok {γ : Type*} {f : γ → Except ε PUnit} {l : List γ} :
    forM l f = .ok ⟨⟩ ↔ ∀ c ∈ l, f c = .ok ⟨⟩ := by
  induction l with
  | nil => simp
  | cons c l ih =>
    rw [List.forM_cons, bind_eq_ok, List.forall_mem_cons, ← ih]
    exact ⟨fun ⟨_, hc, hl⟩ => ⟨hc, hl⟩, fun ⟨hc, hl⟩ => ⟨⟨⟩, hc, hl⟩⟩

end LvimKeyring.Result
