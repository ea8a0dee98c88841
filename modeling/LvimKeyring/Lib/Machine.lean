import Mathlib.Tactic.Common

/-!
Machines: a state, and a step that answers every input.
-/

namespace LvimKeyring.Machine

variable {σ τ α β : Type*}

/-- The answers to a list of inputs. -/
def answers (step : σ → α → σ × β) : σ → List α → List β
  | _, [] => []
  | s, a :: as => (step s a).2 :: answers step (step s a).1 as

/-- Two machines whose steps keep a relation between their states and answer alike, on the
inputs that satisfy `P`, give the same answers to every list of such inputs. -/
theorem answers_eq {step : σ → α → σ × β} {step' : τ → α → τ × β} {R : σ → τ → Prop}
    {P : α → Prop} (hstep : ∀ s t a, R s t → P a →
      R (step s a).1 (step' t a).1 ∧ (step s a).2 = (step' t a).2)
    {s : σ} {t : τ} (h : R s t) {as : List α} (hP : ∀ a ∈ as, P a) :
    answers step s as = answers step' t as := by
  induction as generalizing s t with
  | nil => rfl
  | cons a as ih =>
    obtain ⟨hR, hans⟩ := hstep s t a h (hP a List.mem_cons_self)
    have hrest := ih hR fun b hb => hP b (List.mem_cons_of_mem a hb)
    rw [answers, answers, hans, hrest]

/-- The state after a list of inputs. -/
def final (step : σ → α → σ × β) : σ → List α → σ
  | s, [] => s
  | s, a :: as => final step (step s a).1 as

/-- Two machines whose steps keep a relation between their states, on the inputs that satisfy
`P`, are related after every list of such inputs. -/
theorem final_related {step : σ → α → σ × β} {step' : τ → α → τ × β} {R : σ → τ → Prop}
    {P : α → Prop} (hstep : ∀ s t a, R s t → P a → R (step s a).1 (step' t a).1)
    {s : σ} {t : τ} (h : R s t) {as : List α} (hP : ∀ a ∈ as, P a) :
    R (final step s as) (final step' t as) := by
  induction as generalizing s t with
  | nil => exact h
  | cons a as ih =>
    refine ih (hstep s t a h (hP a List.mem_cons_self)) fun b hb => ?_
    exact hP b (List.mem_cons_of_mem a hb)

/-! ### What one observer sees -/

/-- The answers to the inputs that are looked at. -/
def picked (looks : α → Bool) (as : List α) (bs : List β) : List β :=
  (as.zip bs).filterMap fun p => if looks p.1 then some p.2 else none

lemma answers_map {γ : Type*} (step : σ → α → σ × β) (f : γ → α) (s : σ) (cs : List γ) :
    answers step s (cs.map f) = answers (fun s c => step s (f c)) s cs := by
  induction cs generalizing s with
  | nil => rfl
  | cons c cs ih => rw [List.map_cons, answers, answers, ih]

/-- Inputs that differ only where nobody looks, on a step that keeps what they differ in out of
the answers that are looked at, are answered alike. -/
theorem picked_eq {step : σ → α → σ × β} {looks : α → Bool} {R : σ → σ → Prop} {E : α → α → Prop}
    (hlooks : ∀ a b, E a b → looks a = looks b)
    (hstep : ∀ s t a b, R s t → E a b → R (step s a).1 (step t b).1 ∧
      (looks a = true → (step s a).2 = (step t b).2))
    {s t : σ} (h : R s t) {as bs : List α} (hE : List.Forall₂ E as bs) :
    picked looks as (answers step s as) = picked looks bs (answers step t bs) := by
  induction hE generalizing s t with
  | nil => rfl
  | @cons a b as bs hab _ ih =>
    obtain ⟨hR, hans⟩ := hstep s t a b h hab
    have hrest := ih hR
    unfold picked at hrest ⊢
    cases ha : looks a with
    | false => simp [answers, ← hlooks a b hab, ha, hrest]
    | true => simp [answers, ← hlooks a b hab, ha, hans ha, hrest]

end LvimKeyring.Machine
