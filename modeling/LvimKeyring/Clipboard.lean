import Mathlib.Data.Nat.Basic
import Mathlib.Logic.Function.Basic
import Mathlib.Order.Basic
import LvimKeyring.Lib.Transition

/-!
The register that secrets are copied to, and the timers that clear it.

Every copy from the panel starts a timer of its own, which knows its text again. What
`:LvimKeyring generate` writes is left in the register. Times are in milliseconds.
-/

namespace LvimKeyring.Clipboard

open Transition

/-! ### The register -/

structure Clip where
  reg : String
  now : ℕ
  /-- The timers that run: the text of the copy that started it, and when it fires. -/
  timers : List (String × ℕ)

/-- The window of `clear_seconds`. -/
def window (secs : ℕ) : ℕ := secs * 1000

namespace Clip

def setreg (x : Clip) (value : String) : Clip := { x with reg := value }

def yank (secs : ℕ) (x : Clip) (value : String) : Clip :=
  { x.setreg value with
    timers := if 0 < secs then (value, x.now + window secs) :: x.timers else x.timers }

/-- What a timer does. -/
def expire (x : Clip) (value : String) : Clip := if x.reg = value then x.setreg "" else x

end Clip

/-- What the callback of a request about an entry is given: for a TOTP entry its code, else its
value, and the error. -/
inductive Answer
  | totp (code : Option String) (err : Option String)
  | value (value : Option String) (err : Option String)

/-- What `M.copy` yanks. -/
def copied : Answer → Option String
  | .totp code err => if err.isSome then none else code
  | .value value err => if err.isSome then none else value

/-- What the button of the popup that `M.reveal` shows yanks. -/
def revealed : Answer → Option String
  | .totp code err => if err.isSome then none else code
  | .value value err => if err.isSome then none else some (value.getD "")

/-- What `:LvimKeyring generate` writes. -/
def generated (value err : Option String) : Option String := if err.isSome then none else value

inductive Event
  /-- Time passes, up to the moment a timer fires at most. -/
  | pass (d : ℕ)
  | copy (a : Answer)
  /-- The button of a popup that was shown with an answer. -/
  | button (a : Answer)
  | generate (value err : Option String)
  | yank (text : String)
  | fire (value : String)

variable (secs : ℕ)

def step (x : Clip) : Event → Option Clip
  | .pass d => if ∀ t ∈ x.timers, x.now + d ≤ t.2 then some { x with now := x.now + d } else none
  | .copy a => some ((copied a).elim x (x.yank secs))
  | .button a => some ((revealed a).elim x (x.yank secs))
  | .generate value err => some ((generated value err).elim x x.setreg)
  | .yank text => some (x.setreg text)
  | .fire value =>
    if (value, x.now) ∈ x.timers then
      some { x.expire value with timers := x.timers.erase (value, x.now) }
    else none

def start (reg : String) (now : ℕ) : Clip := ⟨reg, now, []⟩

/-! ### The statement -/

/-- What has been copied so far. -/
structure Seen where
  copied : String → Option ℕ
  generated : String → Option ℕ
  /-- The user has yanked a text since the plugin last copied it. -/
  yanked : String → Bool
  /-- When `:LvimKeyring generate` wrote the register, if nothing has been written to it since. -/
  wrote : Option ℕ

def fresh : Seen := ⟨fun _ => none, fun _ => none, fun _ => false, none⟩

namespace Seen

def copy (s : Seen) (now : ℕ) (v : String) : Seen :=
  { s with
    copied := Function.update s.copied v (some now)
    yanked := Function.update s.yanked v false
    wrote := none }

def generate (s : Seen) (now : ℕ) (v : String) : Seen :=
  { s.copy now v with
    generated := Function.update s.generated v (some now)
    wrote := some now }

def yank (s : Seen) (v : String) : Seen :=
  { s with yanked := Function.update s.yanked v true, wrote := none }

@[simp] lemma copied_copy_self (s : Seen) (now : ℕ) (v : String) :
    (s.copy now v).copied v = some now := Function.update_self _ _ _

lemma copied_copy_ne (s : Seen) (now : ℕ) {u v : String} (h : u ≠ v) :
    (s.copy now v).copied u = s.copied u := Function.update_of_ne h _ _

@[simp] lemma generated_generate_self (s : Seen) (now : ℕ) (v : String) :
    (s.generate now v).generated v = some now := Function.update_self _ _ _

lemma generated_generate_ne (s : Seen) (now : ℕ) {u v : String} (h : u ≠ v) :
    (s.generate now v).generated u = s.generated u := Function.update_of_ne h _ _

@[simp] lemma yanked_yank_self (s : Seen) (v : String) : (s.yank v).yanked v = true :=
  Function.update_self _ _ _

end Seen

def note (s : Seen) (x : Clip) (e : Event) (_ : Clip) : Seen :=
  match e with
  | .pass _ => s
  | .copy a => (copied a).elim s (s.copy x.now)
  | .button a => (revealed a).elim s (s.copy x.now)
  | .generate value err => (generated value err).elim s (s.generate x.now)
  | .yank text => s.yank text
  | .fire value => if x.reg = value then { s with wrote := none } else s

/-- A secret is out of the register when its time has passed, unless the user has yanked it since.
An empty register holds none. -/
def OnTime (s : Seen) (x : Clip) : Prop :=
  ∀ v t, v ≠ "" → s.copied v = some t → s.yanked v = false → t + window secs < x.now → x.reg ≠ v

/-- What is asked of one step. Only a timer empties the register: a copy of an empty value, which
leaves nothing in it either, is a copy. -/
def Timely (x : Seen × Clip) (e : Event) : Prop :=
  ∀ y, track (step secs) note x e = some y → OnTime secs y.1 y.2 ∧
    ∀ v, e = .fire v → x.2.reg ≠ "" → y.2.reg = "" →
      ∃ t, x.1.copied x.2.reg = some t ∧ t + window secs ≤ x.2.now

/-- A timer that finds its text has no other one for it that is to fire later, nor was the text
generated within the window. No time passes that would leave what was generated in the register
for longer. -/
def Clean (x : Seen × Clip) : Event → Prop
  | .pass d => (∀ t ∈ x.2.timers, x.2.now + d ≤ t.2) → x.2.reg ≠ "" →
      ∀ g ∈ x.1.wrote, x.2.now + d ≤ g + window secs
  | .fire v => (v, x.2.now) ∈ x.2.timers → x.2.reg = v → v ≠ "" →
      (∀ t ∈ x.2.timers, t.1 = v → t.2 ≤ x.2.now) ∧
        ∀ g ∈ x.1.generated v, g + window secs ≤ x.2.now
  | _ => True

instance (x : Seen × Clip) : DecidablePred (Clean secs x)
  | .pass _ => inferInstanceAs (Decidable (_ → _ → ∀ g ∈ x.1.wrote, _))
  | .fire v => inferInstanceAs (Decidable (_ → _ → _ → _ ∧ ∀ g ∈ x.1.generated v, _))
  | .copy _ | .button _ | .generate _ _ | .yank _ => isTrue trivial

/-! ### What a step does -/

variable {secs} {s s' : Seen} {x y : Clip} {e : Event}

/-- A step of the register and what has been copied, whatever path it is taken on. -/
inductive Moves (secs : ℕ) (s : Seen) (x : Clip) : Seen → Clip → Prop
  | same : Moves secs s x s x
  | pass (d : ℕ) (h : ∀ t ∈ x.timers, x.now + d ≤ t.2) :
    Moves secs s x s { x with now := x.now + d }
  | copy (v : String) : Moves secs s x (s.copy x.now v) (x.yank secs v)
  | generate (v : String) : Moves secs s x (s.generate x.now v) (x.setreg v)
  | yank (v : String) : Moves secs s x (s.yank v) (x.setreg v)
  | fire (v : String) (h : (v, x.now) ∈ x.timers) :
    Moves secs s x (if x.reg = v then { s with wrote := none } else s)
      { x.expire v with timers := x.timers.erase (v, x.now) }

lemma moves_of_step (h : step secs x e = some y) : Moves secs s x (note s x e y) y := by
  have hcopy (v : Option String) :
      Moves secs s x (v.elim s (s.copy x.now)) (v.elim x (x.yank secs)) := by
    cases v with
    | none => exact .same
    | some v => exact .copy v
  cases e with
  | pass d =>
    simp only [step] at h
    split at h
    · next hpass =>
      cases h
      exact .pass d hpass
    · cases h
  | copy a =>
    cases h
    exact hcopy (copied a)
  | button a =>
    cases h
    exact hcopy (revealed a)
  | generate value err =>
    cases h
    rw [note]
    cases generated value err with
    | none => exact .same
    | some v => exact .generate v
  | yank text =>
    cases h
    exact .yank text
  | fire v =>
    simp only [step] at h
    split at h
    · next hmem =>
      cases h
      exact .fire v hmem
    · cases h

/-! ### What holds of every run -/

/-- What is known of the copies, whether they are cleared on time or not. -/
structure Inv (secs : ℕ) (s : Seen) (x : Clip) : Prop where
  past : ∀ v t, s.copied v = some t → t ≤ x.now
  generated : ∀ v g, s.generated v = some g → ∃ t, s.copied v = some t ∧ g ≤ t
  timer : ∀ v d, (v, d) ∈ x.timers → x.now ≤ d ∧ ∃ t, s.copied v = some t ∧ d ≤ t + window secs
  pending : ∀ v t, s.copied v = some t →
    s.generated v = some t ∨ (v, t + window secs) ∈ x.timers ∨ t + window secs ≤ x.now
  held : ∀ t, x.reg ≠ "" → s.copied x.reg = some t → s.yanked x.reg = false →
    s.wrote = some t ∨ (x.reg, t + window secs) ∈ x.timers
  wrote : ∀ g, s.wrote = some g → s.copied x.reg = some g ∧ s.yanked x.reg = false

/-- What was generated is not in the register for longer than the window. -/
def Late (secs : ℕ) (s : Seen) (x : Clip) : Prop :=
  x.reg ≠ "" → ∀ g ∈ s.wrote, x.now ≤ g + window secs

lemma inv_start (secs : ℕ) (reg : String) (now : ℕ) : Inv secs fresh (start reg now) where
  past _ _ h := by cases h
  generated _ _ h := by cases h
  timer _ _ h := by cases h
  pending _ _ h := by cases h
  held _ _ h _ := by cases h
  wrote _ h := by cases h

lemma late_start (secs : ℕ) (reg : String) (now : ℕ) : Late secs fresh (start reg now) :=
  fun _ _ h => by cases h

lemma onTime_iff (h : Inv secs s x) : OnTime secs s x ↔ Late secs s x := by
  constructor
  · intro htime hne g hg
    obtain ⟨hcopied, hyanked⟩ := h.wrote g hg
    by_contra hlate
    exact htime x.reg g hne hcopied hyanked (Nat.lt_of_not_le hlate) rfl
  · rintro hlate v t hne hcopied hyanked hlt rfl
    rcases h.held t hne hcopied hyanked with hwrote | htimer
    · have := hlate hne t hwrote
      omega
    · have := (h.timer _ _ htimer).1
      omega

lemma copied_copy (now : ℕ) {u v : String} {t : ℕ} (h : (s.copy now v).copied u = some t) :
    (u = v ∧ t = now) ∨ (u ≠ v ∧ s.copied u = some t) := by
  by_cases hu : u = v
  · subst hu
    rw [Seen.copied_copy_self] at h
    exact .inl ⟨rfl, (Option.some.inj h).symm⟩
  · rw [Seen.copied_copy_ne s now hu] at h
    exact .inr ⟨hu, h⟩

lemma exists_copied (h : Inv secs s x) (v : String) {u : String} {t : ℕ}
    (ht : s.copied u = some t) : ∃ t', (s.copy x.now v).copied u = some t' ∧ t ≤ t' := by
  by_cases hu : u = v
  · subst hu
    exact ⟨x.now, s.copied_copy_self x.now u, h.past u t ht⟩
  · exact ⟨t, (s.copied_copy_ne x.now hu).trans ht, le_rfl⟩

lemma past_copy (h : Inv secs s x) (v : String) {u : String} {t : ℕ}
    (ht : (s.copy x.now v).copied u = some t) : t ≤ x.now := by
  rcases copied_copy x.now ht with ⟨-, rfl⟩ | ⟨-, ht⟩
  · exact le_rfl
  · exact h.past u t ht

lemma timer_copy (h : Inv secs s x) (v : String) {u : String} {d : ℕ} (hd : (u, d) ∈ x.timers) :
    x.now ≤ d ∧ ∃ t, (s.copy x.now v).copied u = some t ∧ d ≤ t + window secs := by
  obtain ⟨hnow, t, ht, hle⟩ := h.timer u d hd
  obtain ⟨t', ht', hle'⟩ := exists_copied h v ht
  exact ⟨hnow, t', ht', by omega⟩

lemma inv_copy (hsecs : 0 < secs) (h : Inv secs s x) (v : String) :
    Inv secs (s.copy x.now v) (x.yank secs v) := by
  have htimers : (x.yank secs v).timers = (v, x.now + window secs) :: x.timers := if_pos hsecs
  refine ⟨fun u t ht => past_copy h v ht, fun u g hg => ?_, fun u d hd => ?_, fun u t ht => ?_,
    fun t _ ht _ => ?_, fun g hg => by cases hg⟩
  · obtain ⟨t, ht, hle⟩ := h.generated u g hg
    obtain ⟨t', ht', hle'⟩ := exists_copied h v ht
    exact ⟨t', ht', hle.trans hle'⟩
  · rw [htimers] at hd
    rcases List.mem_cons.mp hd with heq | hd
    · cases heq
      exact ⟨Nat.le_add_right _ _, x.now, s.copied_copy_self x.now _, le_rfl⟩
    · exact timer_copy h v hd
  · rw [htimers]
    rcases copied_copy x.now ht with ⟨rfl, rfl⟩ | ⟨-, ht⟩
    · exact .inr (.inl List.mem_cons_self)
    · rcases h.pending u t ht with hgen | hmem | hdue
      · exact .inl hgen
      · exact .inr (.inl (List.mem_cons_of_mem _ hmem))
      · exact .inr (.inr hdue)
  · rw [htimers]
    rcases copied_copy x.now ht with ⟨-, rfl⟩ | ⟨hne, -⟩
    · exact .inr List.mem_cons_self
    · exact absurd rfl hne

lemma inv_generate (h : Inv secs s x) (v : String) :
    Inv secs (s.generate x.now v) (x.setreg v) := by
  refine ⟨fun u t ht => past_copy h v ht, fun u g hg => ?_, fun u d hd => timer_copy h v hd,
    fun u t ht => ?_, fun t _ ht _ => ?_, fun g hg => ?_⟩
  · by_cases hu : u = v
    · subst hu
      rw [Seen.generated_generate_self] at hg
      cases hg
      exact ⟨x.now, s.copied_copy_self x.now u, le_rfl⟩
    · rw [Seen.generated_generate_ne s x.now hu] at hg
      obtain ⟨t, ht, hle⟩ := h.generated u g hg
      exact ⟨t, (s.copied_copy_ne x.now hu).trans ht, hle⟩
  · rcases copied_copy x.now ht with ⟨rfl, rfl⟩ | ⟨hne, ht⟩
    · exact .inl (s.generated_generate_self x.now u)
    · rcases h.pending u t ht with hgen | hmem | hdue
      · exact .inl ((s.generated_generate_ne x.now hne).trans hgen)
      · exact .inr (.inl hmem)
      · exact .inr (.inr hdue)
  · rcases copied_copy x.now ht with ⟨-, rfl⟩ | ⟨hne, -⟩
    · exact .inl rfl
    · exact absurd rfl hne
  · cases hg
    exact ⟨s.copied_copy_self x.now v, Function.update_self _ _ _⟩

lemma inv_yank (h : Inv secs s x) (v : String) : Inv secs (s.yank v) (x.setreg v) where
  past := h.past
  generated := h.generated
  timer := h.timer
  pending := h.pending
  held t _ _ hyanked := by
    have htrue := s.yanked_yank_self v
    rw [show (x.setreg v).reg = v from rfl, htrue] at hyanked
    cases hyanked
  wrote g hg := by cases hg

lemma inv_pass (h : Inv secs s x) {d : ℕ} (hd : ∀ t ∈ x.timers, x.now + d ≤ t.2) :
    Inv secs s { x with now := x.now + d } where
  past v t ht := (h.past v t ht).trans (Nat.le_add_right _ _)
  generated := h.generated
  timer v due hmem := ⟨hd _ hmem, (h.timer v due hmem).2⟩
  pending v t ht := by
    rcases h.pending v t ht with hgen | hmem | hdue
    · exact .inl hgen
    · exact .inr (.inl hmem)
    · exact .inr (.inr (hdue.trans (Nat.le_add_right _ _)))
  held := h.held
  wrote := h.wrote

lemma inv_fire (h : Inv secs s x) (v : String) :
    Inv secs (if x.reg = v then { s with wrote := none } else s)
      { x.expire v with timers := x.timers.erase (v, x.now) } := by
  have hpending : ∀ u t, s.copied u = some t → s.generated u = some t ∨
      (u, t + window secs) ∈ x.timers.erase (v, x.now) ∨ t + window secs ≤ x.now := by
    intro u t ht
    rcases h.pending u t ht with hgen | hmem | hdue
    · exact .inl hgen
    · by_cases heq : (u, t + window secs) = (v, x.now)
      · exact .inr (.inr (Prod.mk.inj heq).2.le)
      · exact .inr (.inl ((List.mem_erase_of_ne heq).mpr hmem))
    · exact .inr (.inr hdue)
  have htimer : ∀ u d, (u, d) ∈ x.timers.erase (v, x.now) →
      x.now ≤ d ∧ ∃ t, s.copied u = some t ∧ d ≤ t + window secs :=
    fun u d hmem => h.timer u d (List.mem_of_mem_erase hmem)
  by_cases hreg : x.reg = v
  · rw [if_pos hreg, Clip.expire, if_pos hreg]
    exact ⟨h.past, h.generated, htimer, hpending, fun t hne => absurd rfl hne,
      fun g hg => by cases hg⟩
  · rw [if_neg hreg, Clip.expire, if_neg hreg]
    refine ⟨h.past, h.generated, htimer, hpending, fun t hne ht hyanked => ?_, h.wrote⟩
    rcases h.held t hne ht hyanked with hwrote | hmem
    · exact .inl hwrote
    · have hother : (x.reg, t + window secs) ≠ (v, x.now) := fun heq => hreg (Prod.mk.inj heq).1
      exact .inr ((List.mem_erase_of_ne hother).mpr hmem)

lemma inv_step (hsecs : 0 < secs) (h : Inv secs s x) (hstep : step secs x e = some y) :
    Inv secs (note s x e y) y := by
  have hmoves := moves_of_step (s := s) hstep
  generalize note s x e y = s' at hmoves ⊢
  cases hmoves with
  | same => exact h
  | pass d hd => exact inv_pass h hd
  | copy v => exact inv_copy hsecs h v
  | generate v => exact inv_generate h v
  | yank v => exact inv_yank h v
  | fire v hmem => exact inv_fire h v

/-! ### When it is cleared on time, and only then -/

lemma track_eq_some {z : Seen × Clip} : track (step secs) note (s, x) e = some z ↔
    ∃ y, step secs x e = some y ∧ z = (note s x e y, y) := by
  rw [track, Option.map_eq_some_iff]
  exact exists_congr fun y => and_congr_right fun _ => eq_comm

/-- Only time makes late what is not. -/
lemma late_step (hlate : Late secs s x) (hpass : ∀ d, e ≠ .pass d)
    (hstep : step secs x e = some y) : Late secs (note s x e y) y := by
  have hcopy (v : Option String) :
      Late secs (v.elim s (s.copy x.now)) (v.elim x (x.yank secs)) := by
    cases v with
    | none => exact hlate
    | some v => exact fun _ g hg => by cases hg
  cases e with
  | pass d => exact absurd rfl (hpass d)
  | copy a =>
    cases hstep
    exact hcopy (copied a)
  | button a =>
    cases hstep
    exact hcopy (revealed a)
  | generate value err =>
    cases hstep
    rw [note]
    cases generated value err with
    | none => exact hlate
    | some v =>
      intro _ g hg
      cases hg
      exact Nat.le_add_right _ _
  | yank text =>
    cases hstep
    exact fun _ g hg => by cases hg
  | fire v =>
    simp only [step] at hstep
    split at hstep
    · cases hstep
      by_cases hreg : x.reg = v
      · rw [note, if_pos hreg]
        exact fun _ g hg => by cases hg
      · rw [note, if_neg hreg, Clip.expire, if_neg hreg]
        exact hlate
    · cases hstep

lemma timely_of_quiet (hsecs : 0 < secs) (h : Inv secs s x) (hlate : Late secs s x)
    (hpass : ∀ d, e ≠ .pass d) (hfire : ∀ v, e ≠ .fire v) : Timely secs (s, x) e := by
  intro z hz
  obtain ⟨y, hy, rfl⟩ := track_eq_some.mp hz
  exact ⟨(onTime_iff (inv_step hsecs h hy)).mpr (late_step hlate hpass hy),
    fun v hv => absurd hv (hfire v)⟩

lemma timely_pass (hsecs : 0 < secs) (h : Inv secs s x) (d : ℕ) :
    Timely secs (s, x) (.pass d) ↔ Clean secs (s, x) (.pass d) := by
  constructor
  · intro htimely hd hne g hg
    have hy : step secs x (.pass d) = some { x with now := x.now + d } := if_pos hd
    have htime := (htimely _ (track_eq_some.mpr ⟨_, hy, rfl⟩)).1
    exact (onTime_iff (inv_step hsecs h hy)).mp htime hne g hg
  · intro hclean z hz
    obtain ⟨y, hy, rfl⟩ := track_eq_some.mp hz
    refine ⟨(onTime_iff (inv_step hsecs h hy)).mpr ?_, fun v hv => by cases hv⟩
    simp only [step] at hy
    split at hy
    · next hd =>
      cases hy
      exact hclean hd
    · cases hy

lemma timely_fire (hsecs : 0 < secs) (h : Inv secs s x) (hlate : Late secs s x) (v : String) :
    Timely secs (s, x) (.fire v) ↔ Clean secs (s, x) (.fire v) := by
  constructor
  · intro htimely hmem hreg hne
    have hy : step secs x (.fire v)
        = some { x.expire v with timers := x.timers.erase (v, x.now) } := if_pos hmem
    have hempty : (x.expire v).reg = "" := by
      rw [Clip.expire, if_pos hreg]
      rfl
    obtain ⟨t, ht, hdue⟩ := (htimely _ (track_eq_some.mpr ⟨_, hy, rfl⟩)).2 v rfl (hreg ▸ hne) hempty
    have ht : s.copied v = some t := hreg ▸ ht
    constructor
    · rintro ⟨u, d⟩ hd rfl
      obtain ⟨-, t', ht', hle⟩ := h.timer u d hd
      cases ht.symm.trans ht'
      exact hle.trans hdue
    · intro g hg
      obtain ⟨t', ht', hle⟩ := h.generated v g hg
      cases ht.symm.trans ht'
      exact (Nat.add_le_add_right hle _).trans hdue
  · intro hclean z hz
    obtain ⟨y, hy, rfl⟩ := track_eq_some.mp hz
    have hlate' := late_step hlate (fun d hd => by cases hd) hy
    refine ⟨(onTime_iff (inv_step hsecs h hy)).mpr hlate', ?_⟩
    rintro u ⟨⟩ hne hempty
    simp only [step] at hy
    split at hy
    · next hmem =>
      cases hy
      have hreg : x.reg = v := by
        by_contra hother
        rw [Clip.expire, if_neg hother] at hempty
        exact hne hempty
      obtain ⟨htimers, hgen⟩ := hclean hmem hreg (hreg ▸ hne)
      obtain ⟨-, t, ht, -⟩ := h.timer v x.now hmem
      refine ⟨t, hreg.symm ▸ ht, ?_⟩
      rcases h.pending v t ht with hg | htimer | hdue
      · exact hgen t hg
      · exact htimers _ htimer rfl
      · exact hdue
    · cases hy

lemma timely_iff (hsecs : 0 < secs) (h : Inv secs s x) (hlate : Late secs s x) :
    Timely secs (s, x) e ↔ Clean secs (s, x) e := by
  cases e with
  | pass d => exact timely_pass hsecs h d
  | fire v => exact timely_fire hsecs h hlate v
  | copy | button | generate | yank =>
    refine iff_of_true (timely_of_quiet hsecs h hlate (fun _ hd => ?_) fun _ hv => ?_) trivial
    · cases hd
    · cases hv

/-- The register is cleared on time, and only then, on every run on which no timer finds the text of
a later copy and nothing that was generated stays, and on no other. -/
theorem timely_iff_clean (hsecs : 0 < secs) (reg : String) (now : ℕ) (es : List Event) :
    Along (track (step secs) note) (Timely secs) (fresh, start reg now) es ↔
      Along (track (step secs) note) (Clean secs) (fresh, start reg now) es := by
  let Known : Seen × Clip → Prop := fun z => Inv secs z.1 z.2 ∧ Late secs z.1 z.2
  have hstart : Known (fresh, start reg now) := ⟨inv_start secs reg now, late_start secs reg now⟩
  have hstep : ∀ z e z', Known z → Timely secs z e → track (step secs) note z e = some z' →
      Known z' := by
    rintro ⟨s, x⟩ e z' ⟨hinv, -⟩ htimely hz
    have htime := (htimely z' hz).1
    obtain ⟨y, hy, rfl⟩ := track_eq_some.mp hz
    have hinv' := inv_step hsecs hinv hy
    exact ⟨hinv', (onTime_iff hinv').mp htime⟩
  constructor
  · intro h
    exact h.of_inv Known hstep (fun z e hz => (timely_iff hsecs hz.1 hz.2).mp) hstart
  · intro h
    refine h.of_inv Known (fun z e z' hz hclean => hstep z e z' hz ?_)
      (fun z e hz => (timely_iff hsecs hz.1 hz.2).mpr) hstart
    exact (timely_iff hsecs hz.1 hz.2).mpr hclean

/-! ### Three runs -/

def password : Answer := .value (some "pw") none

def code : Answer := .totp (some "123456") none

/-- A password is copied, then a code, and then the password again. Each goes in its time. -/
def spaced : List Event :=
  [.copy password, .pass 20000, .button code, .pass 10000, .fire "pw", .copy password, .pass 20000,
    .fire "123456", .pass 10000, .fire "pw"]

theorem timely_iff_clean_spaced :
    (run (step 30) (start "" 0) spaced).isSome = true ∧
      Along (track (step 30) note) (Timely 30) (fresh, start "" 0) spaced :=
  ⟨by decide +kernel, (timely_iff_clean (by decide) "" 0 spaced).mpr (by decide +kernel)⟩

/-- A password is generated, and stays. -/
def stays : List Event := [.generate (some "pw") none, .pass 30001]

/-- A password is copied again, and then the timer of the first copy fires. -/
def again : List Event := [.copy password, .pass 20000, .copy password, .pass 10000]

theorem not_timely : ¬ Along (track (step 30) note) (Timely 30) (fresh, start "" 0) stays ∧
    ¬ Along (track (step 30) note) (Timely 30) (fresh, start "" 0) (again ++ [.fire "pw"]) := by
  constructor
  · intro h
    have hpass := h.2.1
    have htime := (hpass _ rfl).1
    exact htime "pw" 0 (by decide) rfl rfl (by decide) rfl
  · intro h
    have hfire := h.at_end rfl
    obtain ⟨t, ht, hdue⟩ := (hfire _ rfl).2 "pw" rfl (by decide) rfl
    cases ht
    exact absurd hdue (by decide)

end LvimKeyring.Clipboard
