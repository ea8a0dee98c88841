import LvimKeyring.Lib.Fair
import LvimKeyring.Parking
import LvimKeyring.Sample
import LvimKeyring.Serving

/-!
Every request is answered.

A thread that serves a request goes through its sections in an order that a rank decreases
along, but for the loop of a parked call. Out of that loop it gets by what it waits for or by its
deadline. What it can be kept waiting for besides is the lock of the condition variable, which
whoever has it gives back.
-/

namespace LvimKeyring.Liveness

open Rpc Crypto Vault Server Daemon Parking Transition
open Editors (serves spoken exec_spoken exec_serving serves_rouse)

variable {Key : Type}

/-! ### What is asked of the schedule -/

/-- The sections of the loop of a parked call. -/
def looping : Pc Key → Bool
  | .recheck _ _ | .decide _ _ | .asleep _ _ | .woken _ _ => true
  | _ => false

def deciding : Pc Key → Bool
  | .decide _ _ => true
  | _ => false

/-- The thread takes its turn. -/
def Turned (t : ℕ) : Action → Prop
  | .run u _ _ => u = t
  | _ => False

variable (L : Packages Key) (cfg : Config)

/-- A turn of the thread is possible. -/
def Enabled (t : ℕ) (d : State Key) : Prop :=
  ∀ env expired, (step L cfg d (.run t env expired)).isSome

variable {L cfg}

/-- A thread that can take a turn over and over takes one; a wait on the condition variable
returns, at its deadline at the latest; and a loop that looks at the clock over and over finds
the deadline passed. -/
structure Fair (ρ : Path (step L cfg)) : Prop where
  turns : ∀ t n, (∀ m ≥ n, ∃ k ≥ m, Enabled L cfg t (ρ.state k)) → ∃ m ≥ n, Turned t (ρ.label m)
  returns : ∀ t n, sleeping ((ρ.state n).pc t) = true →
    ∃ m ≥ n, sleeping ((ρ.state m).pc t) = false
  expires : ∀ t n, (∀ m ≥ n, ∃ k ≥ m, deciding ((ρ.state k).pc t) = true ∧ Turned t (ρ.label k)) →
    ∃ m ≥ n, deciding ((ρ.state m).pc t) = true ∧ ∃ env, ρ.label m = .run t env true

/-! ### A turn -/

/-- The sections that have to wait for `unlock_gen`. -/
def locking : Pc Key → Bool
  | .capture _ | .woken _ _ | .call .unlockCancel => true
  | _ => false

/-- How many turns there are to the response, a parked call apart. -/
def rank : Pc Key → ℕ
  | .dispatch _ _ => 9
  | .call _ => 8
  | .createWrite _ | .rotateWrite _ _ _ => 7
  | .install _ _ | .park _ => 6
  | .resetFails _ | .signal _ | .queryExists _ _ => 5
  | .announceUnlocked _ | .capture _ | .querySummaries _ _ _ => 4
  | .wake _ | .recheck _ _ | .decide _ _ | .asleep _ _ | .woken _ _ | .queryLocked _ _ _ => 3
  | .unlockedSummaries | .countFailure _ | .announceLocked _ | .wakeCancelled | .access _
  | .queryIdle _ _ _ => 2
  | .respond _ => 1
  | .idle | .tickLocked | .tickIdle | .tickTake => 0

variable {env : Env} {expired : Bool} {t : ℕ} {origin : ℕ × ℕ} {sh sh' : Shared Key} {p p' : Pc Key}

lemma rank_begin {c : Call} (h : begin L cfg env sh c = some (sh', p')) : rank p' < 8 := by
  cases c with
  | create | unlock | rotate | unlockCancel =>
    simp only [begin] at h
    split at h <;> cases h <;> simp [rank]
  | session wait op =>
    simp only [begin] at h
    split at h <;> cases h
    · simp [rank]
    · cases wait <;> simp [rank]
  | lock =>
    cases h
    split <;> simp [rank]
  | hello | status | bare =>
    cases h
    simp [rank]

/-- A turn outside the loop brings the response nearer. -/
lemma rank_exec (h : p.exec L cfg env expired t origin sh = some (sh', p'))
    (hp : serves p = true) (hloop : looping p = false) : rank p' < rank p := by
  cases p with
  | idle | tickLocked | tickIdle | tickTake => cases hp
  | recheck | decide | asleep | woken => cases hloop
  | call c => exact rank_begin h
  | dispatch method params =>
    simp only [Pc.exec] at h
    split at h <;> cases h <;> simp [rank]
  | createWrite password =>
    simp only [Pc.exec, Option.some.injEq] at h
    rcases afterWrite_cases h with ⟨s, rfl⟩ | ⟨e, rfl⟩ <;> simp [rank]
  | rotateWrite current old new =>
    simp only [Pc.exec, Option.some.injEq] at h
    rcases afterWrite_cases h with ⟨s, rfl⟩ | ⟨e, rfl⟩ <;> simp [rank]
  | wake k => cases k <;> cases h <;> simp [rank]
  | capture op =>
    simp only [Pc.exec] at h
    split at h <;> cases h
    simp [rank]
  | announceLocked timer =>
    cases h
    split <;> simp [rank]
  | park op =>
    cases h
    split <;> simp [rank]
  | querySummaries full locked ex =>
    cases h
    split
    · simp [rank]
    · split <;> simp [rank]
  | queryLocked locked ex entries =>
    cases h
    split <;> simp [rank]
  | install | resetFails | announceUnlocked | unlockedSummaries | countFailure | wakeCancelled
  | signal | access | queryExists | queryIdle | respond =>
    cases h
    simp [rank]

lemma looping_exec (h : p.exec L cfg env expired t origin sh = some (sh', p'))
    (hloop : looping p = true) : looping p' = true ∨
      (serves p' = true ∧ looping p' = false ∧ rank p' < 3) := by
  cases p with
  | recheck op start =>
    simp only [Pc.exec] at h
    split at h <;> cases h
    · exact .inr ⟨rfl, rfl, by simp [rank]⟩
    · exact .inl rfl
  | decide op start =>
    simp only [Pc.exec] at h
    split at h <;> cases h
    · exact .inr ⟨rfl, rfl, by simp [rank]⟩
    · exact .inl rfl
  | woken op start =>
    simp only [Pc.exec] at h
    split at h <;> cases h
    exact .inl rfl
  | asleep op start => cases h
  | _ => cases hloop

lemma exec_isSome (env : Env) (expired : Bool) (hp : serves p = true) (hs : sleeping p = false)
    (hlock : locking p = true → sh.holder = none) :
    (p.exec L cfg env expired t origin sh).isSome = true := by
  cases p with
  | idle | tickLocked | tickIdle | tickTake => cases hp
  | asleep => cases hs
  | capture | woken => simp [Pc.exec, hlock rfl]
  | call c =>
    cases c with
    | unlockCancel => simp [Pc.exec, begin, hlock rfl]
    | create | unlock | rotate | session =>
      simp only [Pc.exec, begin]
      split <;> rfl
    | hello | status | lock | bare => rfl
  | dispatch | recheck | decide =>
    simp only [Pc.exec]
    split <;> rfl
  | wake k => cases k <;> rfl
  | createWrite | rotateWrite | install | resetFails | announceUnlocked | unlockedSummaries
  | countFailure | announceLocked | wakeCancelled | park | signal | access | queryExists
  | querySummaries | queryLocked | queryIdle | respond => rfl

variable {d d' : State Key}

lemma enabled_of_ready (hp : serves (d.pc t) = true) (hs : sleeping (d.pc t) = false)
    (hlock : locking (d.pc t) = true → d.shared.holder = none) : Enabled L cfg t d := by
  intro env expired
  have hsome : ((d.pc t).exec L cfg env expired t (d.origin t) d.shared).isSome = true :=
    exec_isSome env expired hp hs hlock
  obtain ⟨⟨sh', p'⟩, hexec⟩ := Option.isSome_iff_exists.mp hsome
  simp only [step, hexec, Option.isSome_some]

/-- A thread that serves a request is moved by its own turns only, unless it is woken. -/
lemma pc_other {a : Action} (hstep : step L cfg d a = some d') (hp : serves (d.pc t) = true)
    (ha : ¬ Turned t a) :
    (d'.pc t = d.pc t ∨ d'.pc t = rouse (d.pc t)) ∧ d'.origin t = d.origin t := by
  cases a with
  | run u env expired =>
    obtain ⟨p, -, -, hothers⟩ := step_run hstep
    refine ⟨?_, by rw [origin_run hstep]⟩
    rw [hothers t fun heq => ha heq.symm]
    split
    · exact .inr rfl
    · exact .inl rfl
  | connect | disconnect =>
    cases stepped hstep
    exact ⟨.inl rfl, rfl⟩
  | request u c id method params =>
    obtain ⟨-, hidle, -, -, -, hothers⟩ := request_threads hstep
    have hne : t ≠ u := fun heq => by
      rw [heq, hidle] at hp
      cases hp
    exact ⟨.inl (hothers t hne).1, (hothers t hne).2⟩
  | tick u =>
    cases stepped hstep with
    | tick _ hidle =>
      have hne : t ≠ u := fun heq => by
        rw [heq, hidle] at hp
        cases hp
      exact ⟨.inl (Function.update_of_ne hne _ _), rfl⟩
  | rouse u =>
    cases stepped hstep with
    | rouse _ op start hpc =>
      refine ⟨?_, rfl⟩
      by_cases hu : t = u
      · subst hu
        right
        rw [hpc]
        exact Function.update_self _ _ _
      · exact .inl (Function.update_of_ne hu _ _)

lemma stays_put {a : Action} (hstep : step L cfg d a = some d') (hp : serves (d.pc t) = true)
    (hs : sleeping (d.pc t) = false) (ha : ¬ Turned t a) :
    d'.pc t = d.pc t ∧ d'.origin t = d.origin t := by
  have hrouse : rouse (d.pc t) = d.pc t := by
    cases hpc : d.pc t <;> rw [hpc] at hs <;> first | rfl | cases hs
  obtain ⟨hpc | hpc, horigin⟩ := pc_other hstep hp ha
  · exact ⟨hpc, horigin⟩
  · exact ⟨hpc.trans hrouse, horigin⟩

lemma serves_of_looping (h : looping p = true) : serves p = true := by
  cases p <;> first | rfl | cases h

lemma looping_rouse (p : Pc Key) : looping (rouse p) = looping p := by
  cases p <;> rfl

lemma stays_looping {a : Action} (hstep : step L cfg d a = some d')
    (hp : looping (d.pc t) = true) (ha : ¬ Turned t a) :
    looping (d'.pc t) = true ∧ d'.origin t = d.origin t := by
  obtain ⟨hpc | hpc, horigin⟩ := pc_other hstep (serves_of_looping hp) ha
  · exact ⟨hpc ▸ hp, horigin⟩
  · exact ⟨by rw [hpc, looping_rouse, hp], horigin⟩

/-! ### A run without end -/

section Runs

variable {ρ : Path (step L cfg)} {n : ℕ}

/-- The thread serves the request of an origin over a stretch of the run. -/
def Busy (ρ : Path (step L cfg)) (t : ℕ) (o : ℕ × ℕ) (n m : ℕ) : Prop :=
  ∀ k ≥ n, k ≤ m → serves ((ρ.state k).pc t) = true ∧ (ρ.state k).origin t = o

lemma Busy.trans {o : ℕ × ℕ} {k m : ℕ} (h : Busy ρ t o n k) (h' : Busy ρ t o (k + 1) m) :
    Busy ρ t o n m := by
  intro i hi hle
  rcases Nat.lt_or_ge k i with hlt | hge
  · exact h' i hlt hle
  · exact h i hi hge

lemma turned_at {m : ℕ} (h : Turned t (ρ.label m)) : ∃ env expired p,
    ρ.label m = .run t env expired ∧
      ((ρ.state m).pc t).exec L cfg env expired t ((ρ.state m).origin t) (ρ.state m).shared
        = some ((ρ.state (m + 1)).shared, p) ∧
      (ρ.state (m + 1)).pc t = p ∧ (ρ.state (m + 1)).origin t = (ρ.state m).origin t := by
  have hnext := ρ.next m
  cases ha : ρ.label m with
  | run u env expired =>
    rw [ha] at h hnext
    obtain rfl : u = t := h
    obtain ⟨p, hexec, hp, -⟩ := step_run hnext
    exact ⟨env, expired, p, rfl, hexec, hp, by rw [origin_run hnext]⟩
  | connect | disconnect | request | tick | rouse =>
    rw [ha] at h
    exact h.elim

lemma takes_turn (hfair : Fair ρ) (hserves : serves ((ρ.state n).pc t) = true)
    (hs : sleeping ((ρ.state n).pc t) = false)
    (hfree : locking ((ρ.state n).pc t) = true →
      ∀ m ≥ n, ∃ k ≥ m, (ρ.state k).shared.holder = none) :
    ∃ m ≥ n, Turned t (ρ.label m) ∧ ∀ k ≥ n, k ≤ m →
      (ρ.state k).pc t = (ρ.state n).pc t ∧ (ρ.state k).origin t = (ρ.state n).origin t := by
  refine ρ.until_taken (A := fun _ a => Turned t a)
    (P := fun s => s.pc t = (ρ.state n).pc t ∧ s.origin t = (ρ.state n).origin t) ?_ ?_ ⟨rfl, rfl⟩
  · rintro s a s' hstep ⟨hpc, horigin⟩ ha
    obtain ⟨hpc', horigin'⟩ := stays_put hstep (hpc ▸ hserves) (hpc ▸ hs) ha
    exact ⟨hpc'.trans hpc, horigin'.trans horigin⟩
  · intro hforever
    refine hfair.turns t n fun m hm => ?_
    have hk : ∃ k ≥ m, locking ((ρ.state n).pc t) = true → (ρ.state k).shared.holder = none := by
      cases hlock : locking ((ρ.state n).pc t) with
      | false => exact ⟨m, le_rfl, fun h => by cases h⟩
      | true =>
        obtain ⟨k, hk, hfree⟩ := hfree hlock m hm
        exact ⟨k, hk, fun _ => hfree⟩
    obtain ⟨k, hk, hholder⟩ := hk
    have hpc := (hforever k (le_trans hm hk)).1
    refine ⟨k, hk, enabled_of_ready ?_ ?_ ?_⟩ <;> rw [hpc]
    · exact hserves
    · exact hs
    · exact hholder

lemma next_section (hfair : Fair ρ) (hserves : serves ((ρ.state n).pc t) = true)
    (hs : sleeping ((ρ.state n).pc t) = false)
    (hfree : locking ((ρ.state n).pc t) = true →
      ∀ m ≥ n, ∃ k ≥ m, (ρ.state k).shared.holder = none) :
    ∃ m ≥ n, ∃ env expired, ρ.label m = .run t env expired ∧
      (ρ.state m).pc t = (ρ.state n).pc t ∧ Busy ρ t ((ρ.state n).origin t) n m ∧
      ((ρ.state n).pc t).exec L cfg env expired t ((ρ.state n).origin t) (ρ.state m).shared
        = some ((ρ.state (m + 1)).shared, (ρ.state (m + 1)).pc t) ∧
      (ρ.state (m + 1)).origin t = (ρ.state n).origin t := by
  obtain ⟨m, hm, hturn, hsame⟩ := takes_turn hfair hserves hs hfree
  obtain ⟨env, expired, p, hlabel, hexec, rfl, horigin⟩ := turned_at hturn
  obtain ⟨hpc, ho⟩ := hsame m hm le_rfl
  rw [hpc, ho] at hexec
  refine ⟨m, hm, env, expired, hlabel, hpc, fun k hk hle => ?_, hexec, horigin.trans ho⟩
  rw [(hsame k hk hle).1]
  exact ⟨hserves, (hsame k hk hle).2⟩

lemma freed_of_decide (hfair : Fair ρ) {op : Op} {start : UInt64}
    (hpc : (ρ.state n).pc t = .decide op start) : ∃ m ≥ n, (ρ.state m).shared.holder = none := by
  obtain ⟨m, hm, env, expired, -, -, -, hexec, -⟩ := next_section (t := t) (n := n) hfair
    (by rw [hpc]; rfl) (by rw [hpc]; rfl) (by rw [hpc]; rintro ⟨⟩)
  refine ⟨m + 1, by omega, ?_⟩
  rw [hpc] at hexec
  simp only [Pc.exec] at hexec
  split at hexec <;>
  · simp only [Option.some.injEq, Prod.mk.injEq] at hexec
    rw [← hexec.1]
    rfl

lemma freed_again (hfair : Fair ρ) (hmutex : ∀ n, Mutex (ρ.state n)) (n : ℕ) :
    ∃ m ≥ n, (ρ.state m).shared.holder = none := by
  cases hholder : (ρ.state n).shared.holder with
  | none => exact ⟨n, le_rfl, hholder⟩
  | some u =>
    have hholding := (hmutex n u).mp hholder
    cases hpc : (ρ.state n).pc u with
    | decide op start => exact freed_of_decide hfair hpc
    | recheck op start =>
      obtain ⟨m, hm, env, expired, -, -, -, hexec, -⟩ := next_section (t := u) (n := n) hfair
        (by rw [hpc]; rfl) (by rw [hpc]; rfl) (by rw [hpc]; rintro ⟨⟩)
      rw [hpc] at hexec
      simp only [Pc.exec] at hexec
      split at hexec <;> simp only [Option.some.injEq, Prod.mk.injEq] at hexec
      · exact ⟨m + 1, by omega, by rw [← hexec.1]; rfl⟩
      · obtain ⟨k, hk, hfree⟩ := freed_of_decide hfair hexec.2.symm
        exact ⟨k, by omega, hfree⟩
    | _ =>
      rw [hpc] at hholding
      cases hholding

lemma decides_of_recheck (hfair : Fair ρ) {op : Op} {start : UInt64}
    (hforever : ∀ m ≥ n, looping ((ρ.state m).pc t) = true)
    (hpc : (ρ.state n).pc t = .recheck op start ∨ (ρ.state n).pc t = .decide op start) :
    ∃ m ≥ n, deciding ((ρ.state m).pc t) = true ∧ Turned t (ρ.label m) := by
  have hdecide : ∀ k ≥ n, (ρ.state k).pc t = .decide op start →
      ∃ m ≥ n, deciding ((ρ.state m).pc t) = true ∧ Turned t (ρ.label m) := by
    intro k hk hpc
    obtain ⟨m, hm, hturn, hsame⟩ := takes_turn (t := t) (n := k) hfair (by rw [hpc]; rfl)
      (by rw [hpc]; rfl) (by rw [hpc]; rintro ⟨⟩)
    exact ⟨m, by omega, by rw [(hsame m hm le_rfl).1, hpc]; rfl, hturn⟩
  rcases hpc with hpc | hpc
  · obtain ⟨m, hm, env, expired, -, -, -, hexec, -⟩ := next_section (t := t) (n := n) hfair
      (by rw [hpc]; rfl) (by rw [hpc]; rfl) (by rw [hpc]; rintro ⟨⟩)
    rw [hpc] at hexec
    simp only [Pc.exec] at hexec
    split at hexec <;> simp only [Option.some.injEq, Prod.mk.injEq] at hexec
    · have hloop := hforever (m + 1) (by omega)
      rw [← hexec.2] at hloop
      cases hloop
    · exact hdecide (m + 1) (by omega) hexec.2.symm
  · exact hdecide n le_rfl hpc

lemma decides_of_awake (hfair : Fair ρ) (hmutex : ∀ n, Mutex (ρ.state n))
    (hforever : ∀ m ≥ n, looping ((ρ.state m).pc t) = true)
    (hs : sleeping ((ρ.state n).pc t) = false) :
    ∃ m ≥ n, deciding ((ρ.state m).pc t) = true ∧ Turned t (ρ.label m) := by
  have hloop := hforever n le_rfl
  cases hpc : (ρ.state n).pc t with
  | recheck op start => exact decides_of_recheck hfair hforever (.inl hpc)
  | decide op start => exact decides_of_recheck hfair hforever (.inr hpc)
  | woken op start =>
    obtain ⟨m, hm, env, expired, -, -, -, hexec, -⟩ := next_section (t := t) (n := n) hfair
      (by rw [hpc]; rfl) hs fun _ k _ => freed_again hfair hmutex k
    rw [hpc] at hexec
    simp only [Pc.exec] at hexec
    split at hexec
    · cases hexec
    · simp only [Option.some.injEq, Prod.mk.injEq] at hexec
      obtain ⟨k, hk, hdecides⟩ := decides_of_recheck hfair
        (fun k hk => hforever k (by omega)) (.inl hexec.2.symm)
      exact ⟨k, by omega, hdecides⟩
  | asleep =>
    rw [hpc] at hs
    cases hs
  | _ =>
    rw [hpc] at hloop
    cases hloop

/-- A parked call is not parked for ever. -/
lemma ends_loop (hfair : Fair ρ) (hmutex : ∀ n, Mutex (ρ.state n)) (n : ℕ) :
    ∃ m ≥ n, ¬ looping ((ρ.state m).pc t) = true := by
  by_contra hnever
  push Not at hnever
  have hagain : ∀ m ≥ n, ∃ k ≥ m, deciding ((ρ.state k).pc t) = true ∧ Turned t (ρ.label k) := by
    intro m hm
    have hawake : ∃ i ≥ m, sleeping ((ρ.state i).pc t) = false := by
      cases hs : sleeping ((ρ.state m).pc t) with
      | false => exact ⟨m, le_rfl, hs⟩
      | true => exact hfair.returns t m hs
    obtain ⟨i, hi, hs⟩ := hawake
    obtain ⟨k, hk, hdecides⟩ :=
      decides_of_awake hfair hmutex (fun j hj => hnever j (by omega)) hs
    exact ⟨k, by omega, hdecides⟩
  obtain ⟨m, hm, hdeciding, env, hlabel⟩ := hfair.expires t n hagain
  have hturn : Turned t (ρ.label m) := by
    rw [hlabel]
    rfl
  obtain ⟨env', expired, p, hlabel', hexec, hp, -⟩ := turned_at hturn
  rw [hlabel] at hlabel'
  cases hlabel'
  have hloop := hnever (m + 1) (by omega)
  rw [hp] at hloop
  cases hpc : (ρ.state m).pc t with
  | decide op start =>
    rw [hpc] at hexec
    simp only [Pc.exec, or_true, if_true, Option.some.injEq, Prod.mk.injEq] at hexec
    rw [← hexec.2] at hloop
    cases hloop
  | _ =>
    rw [hpc] at hdeciding
    cases hdeciding

lemma leaves_loop (hfair : Fair ρ) (hmutex : ∀ n, Mutex (ρ.state n))
    (hloop : looping ((ρ.state n).pc t) = true) :
    ∃ m ≥ n, Busy ρ t ((ρ.state n).origin t) n m ∧ serves ((ρ.state (m + 1)).pc t) = true ∧
      rank ((ρ.state (m + 1)).pc t) < 3 ∧ (ρ.state (m + 1)).origin t = (ρ.state n).origin t := by
  obtain ⟨i, hi, hout⟩ := ends_loop (t := t) hfair hmutex n
  obtain ⟨m, hm, ⟨hin, horigin⟩, hlast, hall⟩ := ρ.exists_last (n := n)
    (P := fun s => looping (s.pc t) = true ∧ s.origin t = (ρ.state n).origin t) ⟨hloop, rfl⟩
    ⟨i, hi, fun h => hout h.1⟩
  have hturn : Turned t (ρ.label m) := by
    by_contra hother
    obtain ⟨hstill, ho⟩ := stays_looping (ρ.next m) hin hother
    exact hlast ⟨hstill, ho.trans horigin⟩
  obtain ⟨env, expired, p, -, hexec, hp, ho⟩ := turned_at hturn
  refine ⟨m, hm, fun k hk hle => ?_, ?_⟩
  · exact ⟨serves_of_looping (hall k hk hle).1, (hall k hk hle).2⟩
  · rcases looping_exec hexec hin with hstill | ⟨hserves, -, hrank⟩
    · exact absurd ⟨hp ▸ hstill, ho.trans horigin⟩ hlast
    · rw [hp]
      exact ⟨hserves, hrank, ho.trans horigin⟩

/-- A thread that serves a request comes to respond to it. -/
lemma responds (hfair : Fair ρ) (hmutex : ∀ n, Mutex (ρ.state n)) (N n : ℕ)
    (hrank : rank ((ρ.state n).pc t) ≤ N) (hserves : serves ((ρ.state n).pc t) = true) :
    ∃ m ≥ n, ∃ r, Busy ρ t ((ρ.state n).origin t) n m ∧ (ρ.state m).pc t = .respond r ∧
      Turned t (ρ.label m) := by
  induction N generalizing n with
  | zero =>
    cases hpc : (ρ.state n).pc t <;> rw [hpc] at hrank hserves <;>
      simp [rank, serves] at hrank hserves
  | succ N ih =>
    have hgo : ∀ m ≥ n, Busy ρ t ((ρ.state n).origin t) n m →
        serves ((ρ.state (m + 1)).pc t) = true → rank ((ρ.state (m + 1)).pc t) ≤ N →
        (ρ.state (m + 1)).origin t = (ρ.state n).origin t →
        ∃ k ≥ n, ∃ r, Busy ρ t ((ρ.state n).origin t) n k ∧ (ρ.state k).pc t = .respond r ∧
          Turned t (ρ.label k) := by
      intro m hm hbusy hserves' hrank' ho
      obtain ⟨k, hk, r, hbusy', hrest⟩ := ih (m + 1) hrank' hserves'
      rw [ho] at hbusy'
      exact ⟨k, by omega, r, hbusy.trans hbusy', hrest⟩
    cases hloop : looping ((ρ.state n).pc t) with
    | true =>
      have hthree : rank ((ρ.state n).pc t) = 3 := by
        cases hpc : (ρ.state n).pc t <;> rw [hpc] at hloop <;> first | rfl | cases hloop
      obtain ⟨m, hm, hbusy, hserves', hrank', ho⟩ := leaves_loop hfair hmutex hloop
      exact hgo m hm hbusy hserves' (by omega) ho
    | false =>
      have hawake : sleeping ((ρ.state n).pc t) = false := by
        cases hpc : (ρ.state n).pc t <;> rw [hpc] at hloop <;> first | rfl | cases hloop
      obtain ⟨m, hm, env, expired, hlabel, hpc, hbusy, hexec, ho⟩ :=
        next_section hfair hserves hawake fun _ k _ => freed_again hfair hmutex k
      rcases (exec_serving hexec).stays hserves with hserves' | ⟨r, hr⟩
      · have hlt := rank_exec hexec hserves hloop
        exact hgo m hm hbusy hserves' (by omega) ho
      · exact ⟨m, hm, r, hbusy, hpc.trans hr, by rw [hlabel]; rfl⟩

end Runs

/-- On a fair run every request is answered, by the thread that took it up, on the channel of its
client and under its id. -/
theorem answered_of_fair (L : Packages Key) (cfg : Config) (fs : FileSystem) (clock : ℕ)
    (ρ : Path (step L cfg)) (hstart : ρ.state 0 = start Key fs clock) (hfair : Fair ρ)
    (n t c id : ℕ) (method : String) (params : Json)
    (hrequest : ρ.label n = .request t c id method params) :
    ∃ m > n, ∃ r, (∀ k > n, k ≤ m →
        serves ((ρ.state k).pc t) = true ∧ (ρ.state k).origin t = (c, id)) ∧
      (ρ.state (m + 1)).pc t = .idle ∧
        (ρ.state (m + 1)).shared.channel c = (ρ.state m).shared.channel c ++ [.response id r] := by
  have hmutex : ∀ n, Mutex (ρ.state n) := fun n =>
    ρ.stays (fun _ _ _ hstep h => mutex_step h hstep) (hstart ▸ mutex_start fs clock) n n.zero_le
  have hnext := ρ.next n
  rw [hrequest] at hnext
  obtain ⟨-, -, hpc, horigin, -⟩ := request_threads hnext
  obtain ⟨m, hm, r, hbusy, hrespond, hturn⟩ :=
    responds hfair hmutex 9 (n + 1) (by rw [hpc]; exact le_rfl) (by rw [hpc]; rfl)
  rw [horigin] at hbusy
  obtain ⟨env, expired, p, -, hexec, hp, -⟩ := turned_at hturn
  rw [hrespond, (hbusy m hm le_rfl).2] at hexec
  refine ⟨m, by omega, r, fun k hk hle => hbusy k (by omega) hle, ?_, ?_⟩
  · simp only [Pc.exec, Option.some.injEq, Prod.mk.injEq] at hexec
    rw [hp, ← hexec.2]
  · rw [exec_spoken hexec c]
    simp [spoken]

/-! ### A run that comes to rest -/

lemma fair_of_idle (ρ : Path (step L cfg)) {N : ℕ}
    (hidle : ∀ n ≥ N, ∀ t, (ρ.state n).pc t = .idle) :
    Fair ρ where
  turns t n h := by
    obtain ⟨k, hk, henabled⟩ := h (max n N) (le_max_left _ _)
    have hsome := henabled Sample.env false
    rw [step, hidle k (le_trans (le_max_right _ _) hk) t] at hsome
    cases hsome
  returns t n _ := ⟨max n N, le_max_left _ _, by rw [hidle _ (le_max_right _ _) t]; rfl⟩
  expires t n h := by
    obtain ⟨k, hk, hdeciding, -⟩ := h (max n N) (le_max_left _ _)
    rw [hidle k (le_trans (le_max_right _ _) hk) t] at hdeciding
    cases hdeciding

/-- A client connects. -/
def joined (d : State Key) : State Key :=
  { d with shared := { d.shared with
      clients := d.shared.nextClient :: d.shared.clients
      nextClient := d.shared.nextClient + 1 } }

/-- A read that is parked, and given up at its deadline. -/
def expiring : List Action :=
  .connect :: Sample.served 0 "secret.get" [("name", .str "a")] 6 ++
    [.run 0 Sample.env true, .run 0 Sample.env false]

lemma expiring_runs : ((run Sample.step Sample.started expiring).map fun d =>
    (d.pc 0).isIdle) = some true := by
  decide +kernel

/-- The read, and after it clients that connect for ever. -/
def expiringPath : Path Sample.step :=
  .ofRun joined .connect (fun _ => rfl) Sample.started expiring <| by
    obtain ⟨d, hd, -⟩ := Option.map_eq_some_iff.mp expiring_runs
    rw [hd]
    rfl

lemma expiringPath_fair : Fair expiringPath := by
  refine fair_of_idle expiringPath (N := expiring.length) fun n hn t => ?_
  obtain ⟨d, hd, h0⟩ := Option.map_eq_some_iff.mp expiring_runs
  have hd_idle : d.pc t = .idle := by
    rcases Nat.eq_zero_or_pos t with rfl | hpos
    · exact isIdle_eq h0
    · exact idle_of_below hd (n := 1) (by decide) hpos rfl
  have hjoined : ∀ k, (joined^[k] d).pc t = d.pc t := by
    intro k
    induction k with
    | zero => rfl
    | succ k ih => rw [Function.iterate_succ_apply', ← ih, joined]
  simp only [expiringPath, Path.ofRun, List.take_of_length_le hn, hd, Option.getD_some, hjoined,
    hd_idle]

theorem answered_expiring : ∃ m > 1, ∃ r, (∀ k > 1, k ≤ m →
      serves ((expiringPath.state k).pc 0) = true ∧ (expiringPath.state k).origin 0 = (1, 0)) ∧
    (expiringPath.state (m + 1)).pc 0 = .idle ∧
      (expiringPath.state (m + 1)).shared.channel 1 =
        (expiringPath.state m).shared.channel 1 ++ [.response 0 r] :=
  answered_of_fair Sample.packages Sample.config Sample.created.fs 0 expiringPath rfl
    expiringPath_fair 1 0 1 0 "secret.get" (.obj [("name", .str "a")]) rfl

end LvimKeyring.Liveness
