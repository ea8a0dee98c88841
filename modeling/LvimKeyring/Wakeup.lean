import LvimKeyring.Parking
import LvimKeyring.Sample

/-!
Waking the calls that are parked.

A notification can fall between the look at the session and the wait, and then the call sleeps
on in an unlocked vault. In a run where the last notification never falls there, no call is
forgotten.
-/

namespace LvimKeyring.Parking

open Rpc Crypto Vault Server Daemon Transition

variable {Key : Type} {L : Packages Key} {cfg : Config} {env : Env} {expired : Bool} {t : ℕ}
variable {sh sh' : Shared Key} {p p' : Pc Key} {d d' : State Key}

/-- Asleep, or about to be whatever happens to the session. -/
def waiting (gen : UInt64) : Pc Key → Bool
  | .asleep _ _ => true
  | .decide _ start => start == gen
  | _ => false

/-- A handler that will install a session, or has and is still to notify. -/
def unlocking : Pc Key → Bool
  | .call (.create _) | .call (.unlock _) | .call (.rotate _ _) | .createWrite _
  | .rotateWrite _ _ _ | .install _ _ | .resetFails _ | .announceUnlocked _ | .wake _ => true
  | _ => false

/-- Once the vault is unlocked and every unlocking handler has notified, no call sleeps. -/
def NoneForgotten (d : State Key) : Prop :=
  d.shared.session.isSome → (∀ u, unlocking (d.pc u) = false) → ∀ r, sleeping (d.pc r) = false

/-- A parked call is never forgotten. -/
def ParkedIsWoken : Prop :=
  ∀ (Key : Type) (L : Packages Key) (cfg : Config) (fs : FileSystem) (clock : ℕ)
    (as : List Action) (d : State Key),
    run (step L cfg) (start Key fs clock) as = some d → NoneForgotten d

/-- The last notification of an unlocked vault does not come while the thread that has
`unlock_gen` locked is about to sleep. -/
def Heard (d : State Key) : Action → Prop
  | .run t _ _ =>
    match d.pc t, d.shared.holder with
    | .wake _, some r => waiting d.shared.gen (d.pc r) = true →
        d.shared.session = none ∨ ∃ u, u ≠ t ∧ notifying (d.pc u) = true
    | _, _ => True
  | _ => True

/-- While the vault is unlocked, a notification is still to come for every call that waits. -/
structure Inv (d : State Key) : Prop where
  mutex : Mutex d
  heard : ∀ r, waiting d.shared.gen (d.pc r) = true → d.shared.session.isSome →
    ∃ u, notifying (d.pc u) = true

lemma notifying_rouse (p : Pc Key) : notifying (rouse p) = notifying p := by
  cases p <;> rfl

lemma notifying_other (hstep : step L cfg d (.run t env expired) = some d') {u : ℕ} (hu : u ≠ t) :
    notifying (d'.pc u) = notifying (d.pc u) := by
  obtain ⟨p, -, -, hothers⟩ := step_run hstep
  rw [hothers u hu]
  split
  · exact notifying_rouse _
  · rfl

lemma waiting_outside {gen : UInt64} (hp : inner p = false) : waiting gen p = false := by
  cases p <;> first | rfl | cases hp

lemma notifying_outside (hp : inner p = false) : notifying p = false := by
  cases p <;> first | rfl | cases hp

lemma Turn.waiting_self (h : Turn t expired sh sh' p p') (hw : waiting sh'.gen p' = true) :
    (waiting sh.gen p = true ∧ notifying p = false ∧ sh'.session = sh.session) ∨
      sh'.session = none := by
  cases h with
  | sleep hgen hsh =>
    rw [hsh]
    exact .inl ⟨by simp [waiting, hgen], rfl, rfl⟩
  | notFound hlocked hsh => exact .inr (by rw [hsh]; exact hlocked)
  | wake h hp =>
    rw [waiting_outside hp] at hw
    cases hw
  | outside hp hp' h =>
    rw [waiting_outside hp'] at hw
    cases hw
  | _ => cases hw

lemma Turn.notifying_self (h : Turn t expired sh sh' p p') :
    (sh.session = none → sh'.session.isSome → notifying p' = true) ∧
      (notifying p = true → p.notifies = false → notifying p' = true) := by
  cases h with
  | install => exact ⟨fun _ _ => rfl, fun hp => by cases hp⟩
  | resetFails h | announceUnlocked h => exact ⟨fun _ _ => rfl, fun _ _ => rfl⟩
  | wake h hp => exact ⟨fun hn hs => by simp [h.locked hn] at hs, fun _ hp => by cases hp⟩
  | cancel _ _ _ hlocked => exact ⟨fun hn hs => by simp [hlocked hn] at hs, fun hp => by cases hp⟩
  | cancelled h | signal h =>
    exact ⟨fun hn hs => by simp [h.locked hn] at hs, fun hp => by cases hp⟩
  | capture _ hsh | found _ hsh | notFound _ hsh | refused hsh | sleep _ hsh | relock _ hsh =>
    refine ⟨fun hn hs => ?_, fun hp => by cases hp⟩
    rw [hsh] at hs
    simp [Shared.session, Shared.hold] at hs hn
    simp [hn] at hs
  | outside hp hp' h =>
    refine ⟨fun hn hs => by simp [h.locked hn] at hs, fun hn => ?_⟩
    rw [notifying_outside hp] at hn
    cases hn

lemma Turn.gen_of_held (h : Turn t expired sh sh' p p') (hheld : sh.holder ≠ none) :
    sh'.gen = sh.gen := by
  cases h with
  | install hgen => exact hgen
  | cancel hfree => exact absurd hfree hheld
  | resetFails h | announceUnlocked h | wake h | cancelled h | signal h | outside _ _ h =>
    exact h.gen
  | notFound _ hsh => rw [hsh]
  | capture _ hsh | found _ hsh | refused hsh | sleep _ hsh | relock _ hsh => exact gen_of_hold hsh

lemma notifies_eq {p : Pc Key} (hn : notifying p = true) (hp : p.notifies = true) :
    ∃ k, p = .wake k := by
  cases p with
  | wake k => exact ⟨k, rfl⟩
  | resetFails | announceUnlocked => cases hp
  | _ => cases hn

lemma notifying_moved (h : Moved p p') : notifying p' = notifying p := by
  cases h <;> rfl

lemma waiting_moved {gen : UInt64} (h : Moved p p') (hw : waiting gen p' = true) :
    waiting gen p = true := by
  cases h with
  | same => exact hw
  | rouse | request | tick => cases hw

lemma waiting_rouse (gen : UInt64) (p : Pc Key) (h : waiting gen (rouse p) = true) :
    waiting gen p = true ∧ holding p = true := by
  cases p with
  | decide op start => exact ⟨h, rfl⟩
  | _ => cases h

lemma waiting_other (hm : Mutex d) (hstep : step L cfg d (.run t env expired) = some d') {u : ℕ}
    (hu : u ≠ t) (hw : waiting d'.shared.gen (d'.pc u) = true) :
    waiting d.shared.gen (d.pc u) = true ∧
      ((d.pc t).notifies = true → d.shared.holder = some u) := by
  obtain ⟨p, hexec, -, hothers⟩ := step_run hstep
  have hpc : waiting d'.shared.gen (d.pc u) = true ∧
      ((d.pc t).notifies = true → holding (d.pc u) = true) := by
    rw [hothers u hu] at hw
    split at hw
    · exact ⟨(waiting_rouse _ _ hw).1, fun _ => (waiting_rouse _ _ hw).2⟩
    · rename_i hn
      exact ⟨hw, fun h => absurd h hn⟩
  refine ⟨?_, fun hn => (hm u).mpr (hpc.2 hn)⟩
  cases hp : d.pc u with
  | asleep op start => rfl
  | decide op start =>
    have hheld : d.shared.holder = some u := (hm u).mpr (by rw [hp]; rfl)
    have hgen := (exec_turn hexec).gen_of_held (by rw [hheld]; simp)
    rw [← hp, ← hgen]
    exact hpc.1
  | _ =>
    rw [hp] at hpc
    cases hpc.1

lemma inv_run_step (h : Inv d) (hstep : step L cfg d (.run t env expired) = some d')
    (hG : Heard d (.run t env expired)) : Inv d' := by
  refine ⟨mutex_step h.mutex hstep, fun r hr hopen => ?_⟩
  obtain ⟨p, hexec, hp, hothers⟩ := step_run hstep
  have hturn := exec_turn hexec
  -- a session that is new brings the notification of its installer
  by_cases hnew : d.shared.session = none
  · exact ⟨t, by rw [hp]; exact hturn.notifying_self.1 hnew hopen⟩
  have hwas : d.shared.session.isSome := by
    cases hs : d.shared.session with
    | none => exact absurd hs hnew
    | some s => rfl
  have hold : waiting d.shared.gen (d.pc r) = true ∧ (r = t → notifying (d.pc t) = false) ∧
      (r ≠ t → (d.pc t).notifies = true → d.shared.holder = some r) := by
    by_cases hrt : r = t
    · subst hrt
      rw [hp] at hr
      rcases hturn.waiting_self hr with ⟨hw, hn, -⟩ | hlocked
      · exact ⟨hw, fun _ => hn, fun hne => absurd rfl hne⟩
      · simp [hlocked] at hopen
    · obtain ⟨hw, hheld⟩ := waiting_other h.mutex hstep hrt hr
      exact ⟨hw, fun heq => absurd heq hrt, fun _ => hheld⟩
  obtain ⟨u, hu⟩ := h.heard r hold.1 hwas
  by_cases hut : u = t
  · subst hut
    cases hn : (d.pc u).notifies with
    | false => exact ⟨u, by rw [hp]; exact hturn.notifying_self.2 hu hn⟩
    | true =>
      -- the notification is made: it was not the last, or nobody could miss it
      obtain ⟨k, hk⟩ := notifies_eq hu hn
      have hru : r ≠ u := fun heq => by simp [hold.2.1 heq] at hu
      simp only [Heard, hk, hold.2.2 hru hn] at hG
      rcases hG hold.1 with hlocked | ⟨v, hvu, hv⟩
      · exact absurd hlocked hnew
      · exact ⟨v, by rw [notifying_other hstep hvu, hv]⟩
  · exact ⟨u, by rw [notifying_other hstep hut, hu]⟩

theorem inv_step {a : Action} (h : Inv d) (hG : Heard d a) (hstep : step L cfg d a = some d') :
    Inv d' := by
  by_cases ha : ∃ t env expired, a = .run t env expired
  · obtain ⟨t, env, expired, rfl⟩ := ha
    exact inv_run_step h hstep hG
  · have hq := step_quiet hstep fun t env expired heq => ha ⟨t, env, expired, heq⟩
    refine ⟨mutex_step h.mutex hstep, fun r hr hopen => ?_⟩
    rw [Shared.gen, hq.world] at hr
    rw [Shared.session, hq.world] at hopen
    obtain ⟨u, hu⟩ := h.heard r (waiting_moved (hq.moved r) hr) hopen
    exact ⟨u, by rw [notifying_moved (hq.moved u), hu]⟩

lemma inv_start (fs : FileSystem) (clock : ℕ) : Inv (start Key fs clock) :=
  ⟨mutex_start fs clock, fun r hr => by cases hr⟩

lemma unlocking_of_notifying (h : notifying p = true) : unlocking p = true := by
  cases p <;> first | rfl | cases h

lemma waiting_of_sleeping (gen : UInt64) (h : sleeping p = true) : waiting gen p = true := by
  cases p <;> first | rfl | cases h

/-- If no last notification comes too early for a call, no call is forgotten. -/
theorem noneForgotten_of_heard (L : Packages Key) (cfg : Config) (fs : FileSystem) (clock : ℕ)
    (as : List Action) (d : State Key)
    (hguard : Along (step L cfg) Heard (start Key fs clock) as)
    (hrun : run (step L cfg) (start Key fs clock) as = some d) : NoneForgotten d := by
  have hinv : Inv d := run_inv (fun _ _ _ h hG hstep => inv_step h hG hstep) (inv_start fs clock)
    hguard hrun
  intro hopen hdone r
  cases hr : sleeping (d.pc r) with
  | false => rfl
  | true =>
    obtain ⟨u, hu⟩ := hinv.heard r (waiting_of_sleeping _ hr) hopen
    have hun := unlocking_of_notifying hu
    rw [hdone u] at hun
    cases hun

/-- A read looks at the session, a whole unlock goes by, and the read goes to sleep. -/
def missedUnlock : List Action :=
  .connect :: (Sample.served 0 "secret.get" [("name", .str "a")] 6 ++
    (Sample.served 1 "vault.unlock" [("password", .str "pw")] 8 ++ Sample.turns 0 1))

theorem not_parkedIsWoken : ¬ ParkedIsWoken := by
  intro h
  have hend : (run Sample.step Sample.started missedUnlock).map (fun d => (d.shared.session.isSome,
      sleeping (d.pc 0), unlocking (d.pc 0), unlocking (d.pc 1))) =
        some (true, true, false, false) := by
    decide +kernel
  obtain ⟨d, hrun, hd⟩ := Option.map_eq_some_iff.mp hend
  simp only [Prod.mk.injEq] at hd
  obtain ⟨hopen, hsleep, h0, h1⟩ := hd
  have hdone : ∀ u, unlocking (d.pc u) = false := by
    intro u
    by_cases hu : 2 ≤ u
    · rw [idle_of_below hrun (by decide +kernel) hu rfl]
      rfl
    · obtain rfl | rfl : u = 0 ∨ u = 1 := by omega
      · exact h0
      · exact h1
  have hnone := h Sample.Key Sample.packages Sample.config _ 0 missedUnlock d hrun hopen hdone 0
  rw [hsleep] at hnone
  cases hnone

/-- Nobody has `unlock_gen` locked when a notification is made. -/
def Unheld (d : State Key) : Action → Prop
  | .run t _ _ => (d.pc t).notifies = true → d.shared.holder = none
  | _ => True

instance (d : State Key) : DecidablePred (Unheld d)
  | .run t _ _ => inferInstanceAs (Decidable ((d.pc t).notifies = true → d.shared.holder = none))
  | .connect | .disconnect _ | .request _ _ _ _ _ | .tick _ | .rouse _ => isTrue trivial

lemma heard_of_unheld {a : Action} (h : Unheld d a) : Heard d a := by
  cases a with
  | run t env expired =>
    simp only [Heard]
    split
    · rename_i hpc hheld
      simp only [Unheld, hpc, hheld] at h
      cases h rfl
    · trivial
  | _ => trivial

/-- The same read and unlock, with the read asleep by the time it is woken. -/
def wokenByUnlock : List Action :=
  .connect :: (Sample.served 0 "secret.get" [("name", .str "a")] 7 ++
    Sample.served 1 "vault.unlock" [("password", .str "pw")] 8)

theorem noneForgotten_wokenByUnlock : ∃ d, run Sample.step Sample.started wokenByUnlock = some d ∧
    NoneForgotten d := by
  obtain ⟨d, hrun⟩ : ∃ d, run Sample.step Sample.started wokenByUnlock = some d :=
    Option.isSome_iff_exists.mp (by decide +kernel)
  have hunheld : Along Sample.step Unheld Sample.started wokenByUnlock := by decide +kernel
  exact ⟨d, hrun, noneForgotten_of_heard Sample.packages Sample.config _ 0 wokenByUnlock d
    (hunheld.mono fun _ _ => heard_of_unheld) hrun⟩

end LvimKeyring.Parking
