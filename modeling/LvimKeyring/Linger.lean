import LvimKeyring.Lifetime

/-!
The linger window, with an exact clock.

A connection that closes has no requests in flight, so that its task unregisters it and goes on
at one stroke. When no client remains, the task starts a timer; the timer that fires and finds
nobody ends the process. Times are in nanoseconds.
-/

namespace LvimKeyring.Linger

open Rpc Crypto Vault Server Daemon Transition Lifetime

variable {Key : Type}

/-! ### The process and its clock -/

structure Timed (Key : Type) where
  process : Process Key
  now : ℕ
  /-- The timers that sleep: the connection of the task that started it, and when it fires. -/
  timers : List (ℕ × ℕ)

def Timed.clients (x : Timed Key) : List ℕ := x.process.daemon.shared.clients

inductive Event
  /-- Time passes, up to the moment a timer fires at most. -/
  | pass (d : ℕ)
  | connect
  | disconnect (c : ℕ)
  | fire (c : ℕ)
  /-- What the daemon does by itself. -/
  | own (e : Lifetime.Event)

/-- The linger window, in nanoseconds. -/
def window (cfg : Config) : ℕ := cfg.linger * nanos

variable (L : Packages Key) (cfg : Config)

/-- A timer has found nobody: the task ends the process. -/
def finish (c : ℕ) (p : Process Key) : Option (Process Key) :=
  if p.phase c = .locking then run (Lifetime.step L cfg) p [.lock c, .unlink c, .exit c] else some p

def step (x : Timed Key) : Event → Option (Timed Key)
  | .pass d =>
    if x.process.exited.isNone ∧ ∀ t ∈ x.timers, x.now + d ≤ t.2 then
      some { x with now := x.now + d }
    else none
  | .connect => (Lifetime.step L cfg x.process .connect).map fun process => { x with process }
  | .disconnect c =>
    (run (Lifetime.step L cfg) x.process [.hangup c, .drained c]).map fun process =>
      { x with
        process
        timers := if process.phase c = .lingering then (c, x.now + window cfg) :: x.timers
          else x.timers }
  | .fire c =>
    if (c, x.now) ∈ x.timers then
      ((Lifetime.step L cfg x.process (.timer c)).bind (finish L cfg c)).map fun process =>
        { x with process, timers := x.timers.erase (c, x.now) }
    else none
  | .own e =>
    if e.own then (Lifetime.step L cfg x.process e).map fun process => { x with process } else none

def start (fs : FileSystem) (clock : ℕ) : Timed Key := ⟨Lifetime.start Key fs clock, clock, []⟩

/-! ### The statement -/

/-- When a client was last registered. -/
def note (seen : Option ℕ) (x : Timed Key) (_ : Event) (y : Timed Key) : Option ℕ :=
  if x.clients ≠ [] ∨ y.clients ≠ [] then some y.now else seen

/-- If the step ends the process, no client is registered, and none was for the whole window. -/
def Honours (x : Option ℕ × Timed Key) (e : Event) : Prop :=
  ∀ y, step L cfg x.2 e = some y → y.process.exited.isSome = true →
    y.clients = [] ∧ ∀ s, note x.1 x.2 e y = some s → s + window cfg ≤ y.now

instance (x : Option ℕ × Timed Key) (e : Event) : Decidable (Honours L cfg x e) :=
  inferInstanceAs (Decidable (∀ y ∈ step L cfg x.2 e, _ → _ ∧ ∀ s ∈ note x.1 x.2 e y, _))

/-- The process never ends before nobody has been there for the whole window. -/
def WindowHonoured : Prop :=
  ∀ (Key : Type) (L : Packages Key) (cfg : Config) (fs : FileSystem) (clock : ℕ) (es : List Event),
    0 < cfg.linger → cfg.persist = false →
    Along (track (step L cfg) note) (Honours L cfg) (none, start fs clock) es

/-- A timer that fires and finds nobody is the last one started: none is to fire later. -/
def LastStarted (x : Option ℕ × Timed Key) : Event → Prop
  | .fire c => x.2.process.exited = none → (c, x.2.now) ∈ x.2.timers → x.2.clients = [] →
      ∀ t ∈ x.2.timers, t.2 ≤ x.2.now
  | _ => True

instance (x : Option ℕ × Timed Key) : DecidablePred (LastStarted x)
  | .fire _ => inferInstanceAs (Decidable (_ → _ → _ → _))
  | .pass _ | .connect | .disconnect _ | .own _ => isTrue trivial

/-! ### What the tasks do -/

variable {L cfg} {p q : Process Key} {c : ℕ}

lemma step_alive {e : Lifetime.Event} (h : Lifetime.step L cfg p e = some q) :
    p.exited = none ∧ p.react L cfg e = some q := by
  simp only [Lifetime.step] at h
  split at h
  · cases h
  · rename_i hexited
    exact ⟨by simpa using hexited, h⟩

lemma own_kept {e : Lifetime.Event} (he : e.own = true) (h : Lifetime.step L cfg p e = some q) :
    p.exited = none ∧ Kept p q :=
  ⟨(step_alive h).1, react_own he (step_alive h).2⟩

lemma connect_spec (h : Lifetime.step L cfg p .connect = some q) :
    p.exited = none ∧ q.exited = none ∧
      q.daemon.shared.clients = p.daemon.shared.nextClient :: p.daemon.shared.clients ∧
      q.daemon.shared.nextClient = p.daemon.shared.nextClient + 1 ∧
      q.phase = Function.update p.phase p.daemon.shared.nextClient .reading := by
  obtain ⟨halive, hreact⟩ := step_alive h
  simp only [Process.react] at hreact
  obtain ⟨r, hr, rfl⟩ := Option.map_eq_some_iff.mp hreact
  obtain ⟨d, hd, rfl⟩ := act_eq_some hr
  cases hd
  exact ⟨halive, halive, rfl, rfl, rfl⟩

lemma hangup_spec (h : Lifetime.step L cfg p (.hangup c) = some q) :
    p.exited = none ∧ q.exited = none ∧ p.phase c = .reading ∧ c ∈ p.daemon.shared.clients ∧
      q.daemon.shared.clients = p.daemon.shared.clients.filter (· ≠ c) ∧
      q.daemon.shared.nextClient = p.daemon.shared.nextClient ∧
      q.phase = Function.update p.phase c (.draining q.daemon.shared.clients.length) := by
  obtain ⟨halive, hreact⟩ := step_alive h
  simp only [Process.react] at hreact
  split at hreact
  · rename_i hreading
    obtain ⟨r, hr, rfl⟩ := Option.map_eq_some_iff.mp hreact
    obtain ⟨d, hd, rfl⟩ := act_eq_some hr
    cases stepped hd with
    | disconnect _ hc => exact ⟨halive, halive, hreading, hc, rfl, rfl, rfl⟩
  · cases hreact

lemma drained_spec {remaining : ℕ} (hc : p.phase c = .draining remaining)
    (h : Lifetime.step L cfg p (.drained c) = some q) :
    q = p.withPhase c (afterDraining cfg remaining) := by
  have hreact := (step_alive h).2
  simp only [Process.react, hc] at hreact
  split at hreact <;> cases hreact
  rfl

lemma disconnect_spec (hlinger : 0 < cfg.linger) (hpersist : cfg.persist = false)
    (h : run (Lifetime.step L cfg) p [.hangup c, .drained c] = some q) :
    p.exited = none ∧ q.exited = none ∧ p.phase c = .reading ∧ c ∈ p.daemon.shared.clients ∧
      q.daemon.shared.clients = p.daemon.shared.clients.filter (· ≠ c) ∧
      q.daemon.shared.nextClient = p.daemon.shared.nextClient ∧
      q.phase = Function.update p.phase c
        (if q.daemon.shared.clients = [] then .lingering else .closed) := by
  obtain ⟨r, hr, hrest⟩ := run_cons_eq_some.mp h
  obtain ⟨q', hq, hnil⟩ := run_cons_eq_some.mp hrest
  cases hnil
  obtain ⟨halive, halive', hreading, hc, hclients, hnext, hphase⟩ := hangup_spec hr
  have hdraining : r.phase c = .draining r.daemon.shared.clients.length := by
    rw [hphase, Function.update_self]
  have hq' := drained_spec hdraining hq
  subst hq'
  refine ⟨halive, halive', hreading, hc, hclients, hnext, ?_⟩
  have hafter : afterDraining cfg r.daemon.shared.clients.length
      = if r.daemon.shared.clients = [] then .lingering else .closed := by
    simp only [afterDraining, hpersist, hlinger.ne', Bool.false_eq_true, or_false, if_false, ne_eq,
      List.length_eq_zero_iff]
    exact ite_not _ _ _
  simp only [Process.withPhase, hphase, Function.update_idem, hafter]

variable (L cfg) in
lemma fire_spec (halive : p.exited = none) (hc : p.phase c = .lingering) :
    ∃ q, (Lifetime.step L cfg p (.timer c)).bind (finish L cfg c) = some q ∧
      q.daemon.shared.clients = p.daemon.shared.clients ∧
      q.daemon.shared.nextClient = p.daemon.shared.nextClient ∧
      (∀ b, b ≠ c → q.phase b = p.phase b) ∧
      q.exited = if p.daemon.shared.clients = [] then some [] else none := by
  have hstep : Lifetime.step L cfg p (.timer c) = some (p.withPhase c
      (if p.daemon.shared.clients.length = 0 then .locking else .closed)) := by
    simp [Lifetime.step, halive, Process.react, hc]
  rw [hstep, Option.bind_some]
  by_cases hnobody : p.daemon.shared.clients = []
  · rw [if_pos (List.length_eq_zero_iff.mpr hnobody), if_pos hnobody]
    refine ⟨{ p with
      daemon.shared := p.daemon.shared.withSession none
      phase := Function.update p.phase c .exiting
      exited := some [] }, ?_, rfl, rfl, fun b hb => Function.update_of_ne hb _ _, rfl⟩
    simp [finish, run, Lifetime.step, Process.react, Process.withPhase, halive, hnobody,
      Shared.withSession]
  · rw [if_neg (fun h => hnobody (List.length_eq_zero_iff.mp h)), if_neg hnobody]
    refine ⟨p.withPhase c .closed, ?_, rfl, rfl, fun b hb => Function.update_of_ne hb _ _, halive⟩
    simp [finish, Process.withPhase]

/-! ### The timers and the last client -/

/-- As long as the process runs: no timer fires later than a window after a client was last
registered, and when none is registered, one timer fires just then. -/
structure Pending (cfg : Config) (seen : Option ℕ) (x : Timed Key) : Prop where
  upto : ∀ t ∈ x.timers, ∃ s, seen = some s ∧ t.2 ≤ s + window cfg
  last : x.clients = [] → ∀ s, seen = some s → ∃ c, (c, s + window cfg) ∈ x.timers
  ahead : ∀ t ∈ x.timers, x.now ≤ t.2
  lingering : ∀ t ∈ x.timers, x.process.phase t.1 = .lingering
  apart : (x.timers.map Prod.fst).Nodup
  past : ∀ s, seen = some s → s ≤ x.now
  absent : ∀ c, x.process.daemon.shared.nextClient ≤ c → x.process.phase c = .absent

variable {seen : Option ℕ} {x y : Timed Key}

lemma pending_start (cfg : Config) (fs : FileSystem) (clock : ℕ) :
    Pending cfg none (start fs clock : Timed Key) where
  upto t ht := by cases ht
  last _ s hs := by cases hs
  ahead t ht := by cases ht
  lingering t ht := by cases ht
  apart := List.nodup_nil
  past s hs := by cases hs
  absent c hc := rfl

lemma Pending.upto_note (hx : Pending cfg seen x) (hnow : x.now ≤ y.now) (e : Event) :
    ∀ t ∈ x.timers, ∃ s, note seen x e y = some s ∧ t.2 ≤ s + window cfg := by
  intro t ht
  obtain ⟨s, hs, hle⟩ := hx.upto t ht
  unfold note
  split
  · have hpast := hx.past s hs
    exact ⟨y.now, rfl, by omega⟩
  · exact ⟨s, hs, hle⟩

lemma Pending.past_note (hx : Pending cfg seen x) (hnow : x.now ≤ y.now) (e : Event) :
    ∀ s, note seen x e y = some s → s ≤ y.now := by
  intro s hs
  unfold note at hs
  split at hs
  · exact (Option.some.inj hs).ge
  · have hpast := hx.past s hs
    omega

lemma note_empty {e : Event} (hx : x.clients = []) (hy : y.clients = []) :
    note seen x e y = seen :=
  if_neg fun h => h.elim (fun hne => hne hx) fun hne => hne hy

lemma Pending.idle (hx : Pending cfg seen x) (e : Event) (hnow : x.now ≤ y.now)
    (hahead : ∀ t ∈ x.timers, y.now ≤ t.2) (htimers : y.timers = x.timers)
    (hkept : Kept x.process y.process) : Pending cfg (note seen x e y) y := by
  refine ⟨?_, fun hnobody s hs => ?_, ?_, ?_, ?_, hx.past_note hnow e, ?_⟩
  · rw [htimers]
    exact hx.upto_note hnow e
  · have hbefore : x.clients = [] := hkept.clients.symm.trans hnobody
    rw [note_empty hbefore hnobody] at hs
    rw [htimers]
    exact hx.last hbefore s hs
  · rw [htimers]
    exact hahead
  · rw [htimers, hkept.phase]
    exact hx.lingering
  · rw [htimers]
    exact hx.apart
  · rw [hkept.nextClient, hkept.phase]
    exact hx.absent

lemma pending_connect (hx : Pending cfg seen x) (h : step L cfg x .connect = some y) :
    Pending cfg (note seen x .connect y) y := by
  obtain ⟨q, hq, hy⟩ := Option.map_eq_some_iff.mp h
  have hnow : x.now = y.now := by rw [← hy]
  have hupto := hx.upto_note hnow.le .connect
  have hpast := hx.past_note hnow.le .connect
  subst hy
  obtain ⟨-, -, hclients, hnext, hphase⟩ := connect_spec hq
  refine ⟨hupto, fun hnobody => ?_, hx.ahead, fun t ht => ?_, hx.apart, hpast, fun c hc => ?_⟩
  · simp only [Timed.clients, hclients] at hnobody
    cases hnobody
  · have hne : t.1 ≠ x.process.daemon.shared.nextClient := by
      intro heq
      have hlingering := hx.lingering t ht
      rw [heq, hx.absent _ le_rfl] at hlingering
      cases hlingering
    simp only [hphase, Function.update_of_ne hne]
    exact hx.lingering t ht
  · simp only [hnext] at hc
    have hne : c ≠ x.process.daemon.shared.nextClient := by omega
    simp only [hphase, Function.update_of_ne hne]
    exact hx.absent c (by omega)

lemma pending_disconnect (hlinger : 0 < cfg.linger) (hpersist : cfg.persist = false)
    (hx : Pending cfg seen x) (h : step L cfg x (.disconnect c) = some y) :
    Pending cfg (note seen x (.disconnect c) y) y := by
  obtain ⟨q, hq, hy⟩ := Option.map_eq_some_iff.mp h
  have hnow : x.now = y.now := by rw [← hy]
  have hupto := hx.upto_note hnow.le (.disconnect c)
  have hpast := hx.past_note hnow.le (.disconnect c)
  obtain ⟨-, -, hreading, hc, hclients, hnext, hphase⟩ := disconnect_spec hlinger hpersist hq
  have hsomebody : x.clients ≠ [] := List.ne_nil_of_mem hc
  have hother : ∀ t ∈ x.timers, t.1 ≠ c := by
    intro t ht heq
    have hlingering := hx.lingering t ht
    rw [heq, hreading] at hlingering
    cases hlingering
  have hseen : note seen x (.disconnect c) y = some x.now := by
    rw [note, if_pos (.inl hsomebody), hnow]
  rw [hseen] at hupto hpast ⊢
  have hold : ∀ t ∈ x.timers, q.phase t.1 = .lingering := by
    intro t ht
    rw [hphase, Function.update_of_ne (hother t ht)]
    exact hx.lingering t ht
  have habsent : ∀ b, q.daemon.shared.nextClient ≤ b → q.phase b = .absent := by
    intro b hb
    rw [hnext] at hb
    have hne : b ≠ c := by
      rintro rfl
      rw [hx.absent b hb] at hreading
      cases hreading
    rw [hphase, Function.update_of_ne hne]
    exact hx.absent b hb
  -- Nobody is left, so the task that ends starts a timer of its own.
  by_cases hnobody : q.daemon.shared.clients = []
  · have hlingering : q.phase c = .lingering := by
      rw [hphase, Function.update_self, if_pos hnobody]
    simp only [hlingering, if_true] at hy
    subst hy
    refine ⟨?_, fun _ s hs => ?_, ?_, ?_, ?_, hpast, habsent⟩
    · rintro t (_ | ⟨_, ht⟩)
      · exact ⟨x.now, rfl, le_rfl⟩
      · exact hupto t ht
    · rw [← Option.some.inj hs]
      exact ⟨c, List.mem_cons_self⟩
    · rintro t (_ | ⟨_, ht⟩)
      · exact Nat.le_add_right _ _
      · exact hx.ahead t ht
    · rintro t (_ | ⟨_, ht⟩)
      · exact hlingering
      · exact hold t ht
    · refine List.nodup_cons.mpr ⟨fun hmem => ?_, hx.apart⟩
      obtain ⟨t, ht, heq⟩ := List.mem_map.mp hmem
      exact hother t ht heq
  · have hclosed : q.phase c ≠ .lingering := by
      rw [hphase, Function.update_self, if_neg hnobody]
      simp
    simp only [hclosed, if_false] at hy
    subst hy
    exact ⟨hupto, fun h => absurd h hnobody, hx.ahead, hold, hx.apart, hpast, habsent⟩

lemma fired (hlingering : ∀ t ∈ x.timers, x.process.phase t.1 = .lingering)
    (halive : x.process.exited = none) (h : step L cfg x (.fire c) = some y) :
    (c, x.now) ∈ x.timers ∧ ∃ q : Process Key,
      q.daemon.shared.clients = x.clients ∧
      q.daemon.shared.nextClient = x.process.daemon.shared.nextClient ∧
      (∀ b, b ≠ c → q.phase b = x.process.phase b) ∧
      q.exited = (if x.clients = [] then some [] else none) ∧
      y = { x with process := q, timers := x.timers.erase (c, x.now) } := by
  simp only [step] at h
  split at h
  · rename_i hmem
    obtain ⟨q, hq, hclients, hnext, hphase, hexited⟩ :=
      fire_spec L cfg halive (hlingering _ hmem)
    rw [hq] at h
    exact ⟨hmem, q, hclients, hnext, hphase, hexited, (Option.some.inj h).symm⟩
  · cases h

/-- A timer that finds somebody is gone. -/
lemma pending_fire (hx : Pending cfg seen x) (halive : x.process.exited = none)
    (h : step L cfg x (.fire c) = some y) (hy : y.process.exited = none) :
    Pending cfg (note seen x (.fire c) y) y := by
  obtain ⟨hmem, q, hclients, hnext, hphase, hexited, hfired⟩ := fired hx.lingering halive h
  have hnow : x.now = y.now := by rw [hfired]
  have hupto := hx.upto_note hnow.le (.fire c)
  have hpast := hx.past_note hnow.le (.fire c)
  subst hfired
  have hsomebody : x.clients ≠ [] := by
    intro hnobody
    rw [hy, if_pos hnobody] at hexited
    cases hexited
  have hrest : ∀ t ∈ x.timers.erase (c, x.now), t ∈ x.timers := fun t ht => List.mem_of_mem_erase ht
  have hother : ∀ t ∈ x.timers.erase (c, x.now), t.1 ≠ c := by
    intro t ht heq
    have hne := ((List.Nodup.of_map _ hx.apart).mem_erase_iff.mp ht).1
    exact hne (List.inj_on_of_nodup_map hx.apart (hrest t ht) hmem heq)
  refine ⟨fun t ht => hupto t (hrest t ht), fun hnobody => ?_,
    fun t ht => hx.ahead t (hrest t ht), fun t ht => ?_, ?_, hpast, fun b hb => ?_⟩
  · exact absurd (hclients.symm.trans hnobody) hsomebody
  · rw [hphase t.1 (hother t ht)]
    exact hx.lingering t (hrest t ht)
  · exact hx.apart.sublist (List.erase_sublist.map _)
  · rw [hnext] at hb
    have hne : b ≠ c := by
      rintro rfl
      have hlingering := hx.lingering _ hmem
      rw [hx.absent b hb] at hlingering
      cases hlingering
    rw [hphase b hne]
    exact hx.absent b hb

/-- The invariant of a process that runs. -/
def Inv (cfg : Config) (x : Option ℕ × Timed Key) : Prop :=
  x.2.process.exited = none → Pending cfg x.1 x.2

lemma alive_of_step {e : Event} (h : step L cfg x e = some y) : x.process.exited = none := by
  cases e with
  | pass d =>
    simp only [step] at h
    split at h
    · rename_i hd
      exact Option.isNone_iff_eq_none.mp hd.1
    · cases h
  | connect =>
    obtain ⟨q, hq, -⟩ := Option.map_eq_some_iff.mp h
    exact (step_alive hq).1
  | disconnect c =>
    obtain ⟨q, hq, -⟩ := Option.map_eq_some_iff.mp h
    obtain ⟨r, hr, -⟩ := run_cons_eq_some.mp hq
    exact (step_alive hr).1
  | fire c =>
    simp only [step] at h
    split at h
    · obtain ⟨q, hq, -⟩ := Option.map_eq_some_iff.mp h
      obtain ⟨r, hr, -⟩ := Option.bind_eq_some_iff.mp hq
      exact (step_alive hr).1
    · cases h
  | own e =>
    simp only [step] at h
    split at h
    · obtain ⟨q, hq, -⟩ := Option.map_eq_some_iff.mp h
      exact (step_alive hq).1
    · cases h

lemma inv_step (hlinger : 0 < cfg.linger) (hpersist : cfg.persist = false) {e : Event}
    (hx : Inv cfg (seen, x)) (h : step L cfg x e = some y) : Inv cfg (note seen x e y, y) := by
  intro hy
  have halive := alive_of_step h
  have hp := hx halive
  cases e with
  | pass d =>
    simp only [step] at h
    split at h <;> cases h
    rename_i hd
    exact hp.idle (.pass d) (Nat.le_add_right _ _) hd.2 rfl ⟨rfl, rfl, rfl, rfl⟩
  | connect => exact pending_connect hp h
  | disconnect c => exact pending_disconnect hlinger hpersist hp h
  | fire c => exact pending_fire hp halive h hy
  | own e =>
    simp only [step] at h
    split at h
    · rename_i he
      obtain ⟨q, hq, rfl⟩ := Option.map_eq_some_iff.mp h
      exact hp.idle (.own e) le_rfl hp.ahead rfl (own_kept he hq).2
    · cases h

lemma exits_by_fire (hlinger : 0 < cfg.linger) (hpersist : cfg.persist = false) {e : Event}
    (he : ∀ c, e ≠ .fire c) (h : step L cfg x e = some y) : y.process.exited = none := by
  have halive := alive_of_step h
  cases e with
  | pass d =>
    simp only [step] at h
    split at h <;> cases h
    exact halive
  | connect =>
    obtain ⟨q, hq, rfl⟩ := Option.map_eq_some_iff.mp h
    exact (connect_spec hq).2.1
  | disconnect c =>
    obtain ⟨q, hq, rfl⟩ := Option.map_eq_some_iff.mp h
    exact (disconnect_spec hlinger hpersist hq).2.1
  | fire c => exact absurd rfl (he c)
  | own e =>
    simp only [step] at h
    split at h
    · rename_i howned
      obtain ⟨q, hq, rfl⟩ := Option.map_eq_some_iff.mp h
      exact (own_kept howned hq).2.exited.trans halive
    · cases h

/-- A timer honours the window when it is the last one started, and only then. -/
lemma fire_honours_iff (hx : Inv cfg (seen, x)) :
    Honours L cfg (seen, x) (.fire c) ↔ LastStarted (seen, x) (.fire c) := by
  unfold Honours LastStarted
  constructor
  · intro h halive hmem hnobody
    have hp := hx halive
    obtain ⟨q, hq, hclients, -, -, hexited⟩ :=
      fire_spec L cfg halive (hp.lingering _ hmem)
    have hstep : step L cfg x (.fire c)
        = some { x with process := q, timers := x.timers.erase (c, x.now) } := by
      simp only [step, if_pos hmem, hq, Option.map_some]
    have hexit : q.exited.isSome = true := by
      rw [hexited]
      exact congrArg Option.isSome (if_pos hnobody)
    obtain ⟨hnobody', hwindow⟩ := h _ hstep hexit
    rw [note_empty hnobody hnobody'] at hwindow
    intro t ht
    obtain ⟨s, hs, hle⟩ := hp.upto t ht
    exact hle.trans (hwindow s hs)
  · intro h y hy hexit
    have halive := alive_of_step hy
    have hp := hx halive
    obtain ⟨hmem, q, hclients, -, -, hexited, rfl⟩ := fired hp.lingering halive hy
    by_cases hnobody : x.clients = []
    · have hnobody' :
          Timed.clients { x with process := q, timers := x.timers.erase (c, x.now) } = [] :=
        hclients.trans hnobody
      refine ⟨hnobody', fun s hs => ?_⟩
      rw [note_empty hnobody hnobody'] at hs
      obtain ⟨b, hb⟩ := hp.last hnobody s hs
      exact h halive hmem hnobody _ hb
    · rw [hexited, if_neg hnobody] at hexit
      cases hexit

/-- Ten seconds. -/
def lingering : Config := { Sample.config with linger := 10 }

/-- The second client comes and goes while the timer of the first one sleeps. -/
def overlapping : List Event :=
  [.connect, .disconnect 1, .pass (5 * nanos), .connect, .disconnect 2, .pass (5 * nanos), .fire 1]

/-- It stays until that timer has fired. -/
def stayed : List Event :=
  [.connect, .disconnect 1, .pass (5 * nanos), .connect, .pass (5 * nanos), .fire 1, .disconnect 2,
    .pass (10 * nanos), .fire 2]

end LvimKeyring.Linger
