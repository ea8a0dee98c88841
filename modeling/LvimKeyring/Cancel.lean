import LvimKeyring.Parking
import LvimKeyring.Sample

/-!
Cancelling the calls that are parked.

The generation that tells a parked call of a cancel is captured after the prompt has been asked
for, so a cancel that comes before the capture goes unseen. One that comes after it is heeded.
-/

namespace LvimKeyring.Parking

open Rpc Crypto Vault Server Daemon Transition

variable {Key : Type} {L : Packages Key} {cfg : Config} {env : Env} {expired : Bool} {t : ℕ}
variable {sh sh' : Shared Key} {p p' : Pc Key} {d d' : State Key}

def captured : Pc Key → Option UInt64
  | .recheck _ start | .decide _ start | .asleep _ start | .woken _ start => some start
  | _ => none

/-- A call that has asked for the prompt and has not been answered. -/
def parked : Pc Key → Bool
  | .capture _ | .recheck _ _ | .decide _ _ | .asleep _ _ | .woken _ _ => true
  | _ => false

/-- What is seen of a parked call and of the cancel it should heed, from the bump on: whether
the cancel has notified, whether the call went to sleep, and its answer. -/
structure Watch where
  notified : Bool
  slept : Bool
  answer : Option (Except Err Reply)

def Watch.start : Watch := ⟨false, false, none⟩

/-- The answer a thread is about to give. -/
def answering : Pc Key → Option (Except Err Reply)
  | .respond r => some r
  | _ => none

/-- Whether a section of `r` was its going to sleep. -/
def goesToSleep (d : State Key) (d' : State Key) (r : ℕ) : Bool :=
  !sleeping (d.pc r) && sleeping (d'.pc r)

/-- The watch over thread `r`, under the cancel of thread `k`. -/
def Watch.update (r k : ℕ) (g : Watch) (d : State Key) : Action → State Key → Watch
  | .run t _ _, d' =>
    { notified := g.notified || (t == k && (d.pc k).notifies)
      slept := g.slept || (g.answer.isNone && t == r && goesToSleep d d' r)
      answer := if g.answer.isNone && t == r then answering (d.pc r) else g.answer }
  | _, _ => g

/-- Some turns of a thread, none of which finds the deadline passed. -/
def turnsOf (t : ℕ) (env : Env) (n : ℕ) : List Action := List.replicate n (.run t env false)

/-- The thread, if it has `unlock_gen` or can have it, is about to answer "locked" after three
sections at most. -/
def Releases (L : Packages Key) (cfg : Config) (r : ℕ) (d : State Key) : Prop :=
  d.shared.holder = none ∨ d.shared.holder = some r → ∀ env, ∃ n ≤ 3, ∃ d',
    run (step L cfg) d (turnsOf r env n) = some d' ∧
      answering (d'.pc r) = some (.error .locked)

/-- The cancel is heeded: the call never goes to sleep after the bump, it answers "locked", and
once it has been notified nothing keeps it from answering. -/
structure Heeded (L : Packages Key) (cfg : Config) (r : ℕ) (d : State Key) (g : Watch) : Prop where
  awake : g.slept = false
  locked : ∀ x, g.answer = some x → x = .error .locked
  released : g.notified = true → g.answer = none → Releases L cfg r d

def Locked (d : State Key) : Prop := d.shared.session = none

/-- A cancel is never swallowed: once it has bumped the generation, every call parked at that
moment heeds it, as long as the vault stays locked. -/
def CancelIsHeeded : Prop :=
  ∀ (Key : Type) (L : Packages Key) (cfg : Config) (fs : FileSystem) (clock : ℕ)
    (as bs : List Action) (d₁ d₂ d₃ : State Key) (r k : ℕ) (env : Env) (expired : Bool),
    run (step L cfg) (start Key fs clock) as = some d₁ → parked (d₁.pc r) = true →
    d₁.pc k = .call .unlockCancel → Locked d₁ →
    step L cfg d₁ (.run k env expired) = some d₂ → Throughout (step L cfg) Locked d₂ bs →
    run (step L cfg) d₂ bs = some d₃ →
    Heeded L cfg r d₃ (history (step L cfg) (Watch.update r k) .start d₂ bs)

/-- A cancel does not bring the generation to the value that thread `r` has captured. -/
def NoReturn (r : ℕ) (d : State Key) : Action → Prop
  | .run t _ _ =>
    match d.pc t with
    | .call .unlockCancel => captured (d.pc r) ≠ some (d.shared.gen + 1)
    | _ => True
  | _ => True

def cancelling : Pc Key → Bool
  | .call .unlockCancel => true
  | _ => false

lemma cancelling_eq (h : cancelling p = true) : p = .call .unlockCancel := by
  cases p with
  | call c =>
    cases c with
    | unlockCancel => rfl
    | _ => cases h
  | _ => cases h

lemma noReturn_iff {r : ℕ} : NoReturn r d (.run t env expired) ↔
    (cancelling (d.pc t) = true → captured (d.pc r) ≠ some (d.shared.gen + 1)) := by
  simp only [NoReturn]
  split
  · rename_i hp
    simp [hp, cancelling]
  · rename_i hp
    exact ⟨fun _ hc => absurd (cancelling_eq hc) hp, fun _ => trivial⟩

instance (r : ℕ) (d : State Key) : DecidablePred (NoReturn r d)
  | .run _ _ _ => decidable_of_iff _ noReturn_iff.symm
  | .connect | .disconnect _ | .request _ _ _ _ _ | .tick _ | .rouse _ => isTrue trivial

/-- Where a call can be once the generation is not the one it captured: on its way to answer
"locked", or asleep with a notification to come. -/
def Aside (gen : UInt64) (pending : Prop) : Pc Key → Prop
  | .woken _ start | .recheck _ start | .decide _ start => start ≠ gen
  | .asleep _ start => start ≠ gen ∧ pending
  | .respond x => x = .error .locked
  | _ => False

/-- The cancel of thread `k` has not notified yet. -/
def Pending (k : ℕ) (d : State Key) (g : Watch) : Prop :=
  g.notified = false ∧ d.pc k = .wakeCancelled

structure Watched (r k : ℕ) (d : State Key) (g : Watch) : Prop where
  mutex : Mutex d
  awake : g.slept = false
  locked : ∀ x, g.answer = some x → x = .error .locked
  aside : g.answer = none → Aside d.shared.gen (Pending k d g) (d.pc r)

lemma Turn.gen_cases (h : Turn t expired sh sh' p p') :
    sh'.gen = sh.gen ∨ (p = .call .unlockCancel ∧ p' = .wakeCancelled ∧ sh'.gen = sh.gen + 1) := by
  cases h with
  | install hgen => exact .inl hgen
  | cancel _ _ hgen => exact .inr ⟨rfl, rfl, hgen⟩
  | resetFails h | announceUnlocked h | wake h | cancelled h | signal h | outside _ _ h =>
    exact .inl h.gen
  | notFound _ hsh => exact .inl (by rw [hsh])
  | capture _ hsh | found _ hsh | refused hsh | sleep _ hsh | relock _ hsh =>
    exact .inl (gen_of_hold hsh)

lemma sleeping_outside (hp : inner p = false) : sleeping p = false := by
  cases p <;> first | rfl | cases hp

lemma Turn.aside_self {pending : Prop} (pending' : Prop) (h : Turn t expired sh sh' p p')
    (hlocked : sh.session = none) (ha : Aside sh.gen pending p) :
    sleeping p' = false ∧ (answering p = some (.error .locked) ∨
      (answering p = none ∧ Aside sh'.gen pending' p')) := by
  cases h with
  | relock _ hsh => exact ⟨rfl, .inr ⟨rfl, by rw [gen_of_hold hsh]; exact ha⟩⟩
  | found hopen => simp [hlocked] at hopen
  | notFound _ hsh => exact ⟨rfl, .inr ⟨rfl, by rw [hsh]; exact ha⟩⟩
  | refused hsh => exact ⟨rfl, .inr ⟨rfl, rfl⟩⟩
  | sleep hgen => exact absurd hgen.symm ha
  | outside hp hp' =>
    refine ⟨sleeping_outside hp', .inl ?_⟩
    cases p with
    | respond x => exact congrArg some ha
    | woken | recheck | decide | asleep => cases hp
    | _ => cases ha
  | _ => cases ha

lemma aside_gen {gen gen' : UInt64} {pending : Prop} (h : Aside gen pending p)
    (hgen : ∀ start, captured p = some start → start ≠ gen → start ≠ gen') :
    Aside gen' pending p := by
  cases p with
  | woken op start | recheck op start | decide op start => exact hgen start rfl h
  | asleep op start => exact ⟨hgen start rfl h.1, h.2⟩
  | respond x => exact h
  | _ => exact h

lemma aside_rouse {gen : UInt64} {pending pending' : Prop} (h : Aside gen pending p) :
    Aside gen pending' (rouse p) := by
  cases p with
  | asleep op start => exact h.1
  | _ => exact h

lemma aside_mono {gen : UInt64} {pending pending' : Prop} (h : Aside gen pending p)
    (hp : pending → pending') : Aside gen pending' p := by
  cases p with
  | asleep op start => exact ⟨h.1, hp h.2⟩
  | _ => exact h

lemma aside_moved {gen : UInt64} {pending pending' : Prop} (hm : Moved p p')
    (h : Aside gen pending p) (hp : pending → pending') : Aside gen pending' p' := by
  cases hm with
  | same => exact aside_mono h hp
  | rouse op start => exact h.1
  | request | tick => cases h

lemma wakeCancelled_moved (hm : Moved p p') (h : p = .wakeCancelled) : p' = .wakeCancelled := by
  cases hm with
  | same => exact h
  | rouse | request | tick => cases h

lemma watched_self {r k : ℕ} {g : Watch} (h : Watched r k d g) (hlocked : Locked d)
    (hstep : step L cfg d (.run r env expired) = some d') :
    Watched r k d' (g.update r k d (.run r env expired) d') := by
  obtain ⟨p, hexec, hp, -⟩ := step_run hstep
  have hturn := exec_turn hexec
  have hmutex := mutex_step h.mutex hstep
  cases hans : g.answer with
  | some x =>
    refine ⟨hmutex, ?_, ?_, ?_⟩
    · simp [Watch.update, hans, h.awake]
    · simpa [Watch.update, hans] using h.locked x hans
    · simp [Watch.update, hans]
  | none =>
    obtain ⟨hslept, hcase⟩ := hturn.aside_self
      (Pending k d' (g.update r k d (.run r env expired) d')) hlocked (h.aside hans)
    refine ⟨hmutex, ?_, ?_, ?_⟩
    · simp [Watch.update, hans, h.awake, goesToSleep, hp, hslept]
    · intro x hx
      rcases hcase with hres | ⟨hres, -⟩
      · simp only [Watch.update, hans, hres] at hx
        simpa using hx.symm
      · simp [Watch.update, hans, hres] at hx
    · intro hx
      rcases hcase with hres | ⟨-, haside⟩
      · simp [Watch.update, hans, hres] at hx
      · rw [hp]
        exact haside

/-- A section of another thread. -/
lemma watched_other {r k : ℕ} {g : Watch} (h : Watched r k d g) (hrt : r ≠ t)
    (hno : NoReturn r d (.run t env expired))
    (hstep : step L cfg d (.run t env expired) = some d') :
    Watched r k d' (g.update r k d (.run t env expired) d') := by
  obtain ⟨p, hexec, hp, hothers⟩ := step_run hstep
  have hanswer : (g.update r k d (.run t env expired) d').answer = g.answer := by
    simp [Watch.update, Ne.symm hrt]
  refine ⟨mutex_step h.mutex hstep, ?_, ?_, ?_⟩
  · simp [Watch.update, h.awake, Ne.symm hrt]
  · rw [hanswer]
    exact h.locked
  · intro hx
    rw [hanswer] at hx
    have hgen : ∀ start, captured (d.pc r) = some start → start ≠ d.shared.gen →
        start ≠ d'.shared.gen := by
      intro start hstart hne
      rcases (exec_turn hexec).gen_cases with hsame | ⟨hcancel, -, hnext⟩
      · rwa [hsame]
      · simp only [NoReturn, hcancel, hstart] at hno
        rw [hnext]
        exact fun heq => hno (congrArg some heq)
    have haside := aside_gen (h.aside hx) hgen
    rw [hothers r hrt]
    split
    · exact aside_rouse haside
    · rename_i hquiet
      refine aside_mono haside fun hpending => ?_
      have htk : t ≠ k := by
        rintro rfl
        rw [hpending.2] at hquiet
        exact hquiet rfl
      refine ⟨by simp [Watch.update, hpending.1, htk], ?_⟩
      rw [hothers k (Ne.symm htk), if_neg hquiet]
      exact hpending.2

theorem watched_step {r k : ℕ} {g : Watch} {a : Action} (h : Watched r k d g) (hlocked : Locked d)
    (hno : NoReturn r d a) (hstep : step L cfg d a = some d') :
    Watched r k d' (g.update r k d a d') := by
  by_cases ha : ∃ t env expired, a = .run t env expired
  · obtain ⟨t, env, expired, rfl⟩ := ha
    by_cases hrt : r = t
    · subst hrt
      exact watched_self h hlocked hstep
    · exact watched_other h hrt hno hstep
  · have hq := step_quiet hstep fun t env expired heq => ha ⟨t, env, expired, heq⟩
    have hg : g.update r k d a d' = g := by
      cases a with
      | run t env expired => exact absurd ⟨t, env, expired, rfl⟩ ha
      | _ => rfl
    rw [hg]
    refine ⟨mutex_step h.mutex hstep, h.awake, h.locked, fun hx => ?_⟩
    rw [Shared.gen, hq.world]
    refine aside_moved (hq.moved r) (h.aside hx) fun hpending => ⟨hpending.1, ?_⟩
    exact wakeCancelled_moved (hq.moved k) hpending.2

lemma watched_bump {d₁ d₂ : State Key} {r k : ℕ} (hm : Mutex d₁) (hparked : parked (d₁.pc r) = true)
    (hcancel : d₁.pc k = .call .unlockCancel)
    (hcaptured : ∃ start, captured (d₁.pc r) = some start ∧ start ≠ d₁.shared.gen + 1)
    (hstep : step L cfg d₁ (.run k env expired) = some d₂) : Watched r k d₂ .start := by
  obtain ⟨p, hexec, hp, hothers⟩ := step_run hstep
  have hrk : r ≠ k := by
    rintro rfl
    rw [hcancel] at hparked
    cases hparked
  refine ⟨mutex_step hm hstep, rfl, (fun x hx => by cases hx), fun _ => ?_⟩
  have hgen : d₂.shared.gen = d₁.shared.gen + 1 ∧ p = .wakeCancelled := by
    rw [hcancel] at hexec
    simp only [Pc.exec, begin] at hexec
    split at hexec
    · cases hexec
    · simp only [Option.some.injEq, Prod.mk.injEq] at hexec
      exact ⟨by rw [← hexec.1]; rfl, hexec.2.symm⟩
  obtain ⟨start, hstart, hne⟩ := hcaptured
  rw [hothers r hrk, hcancel]
  simp only [Pc.notifies, Bool.false_eq_true, if_false, hgen.1]
  cases hpc : d₁.pc r with
  | recheck op s | decide op s | woken op s =>
    rw [hpc] at hstart
    rwa [← Option.some.inj hstart] at hne
  | asleep op s =>
    rw [hpc] at hstart
    rw [← Option.some.inj hstart] at hne
    exact ⟨hne, rfl, hp.trans hgen.2⟩
  | _ => rw [hpc] at hstart; cases hstart

/-! ### The way out -/

lemma releases_decide {r : ℕ} {op : Op} {start : UInt64} (hp : d.pc r = .decide op start)
    (hne : start ≠ d.shared.gen) (env : Env) :
    ∃ d', step L cfg d (.run r env false) = some d' ∧ d'.pc r = .respond (.error .locked) := by
  have hexec : (d.pc r).exec L cfg env false r (d.origin r) d.shared
      = some (d.shared.hold none, .respond (.error .locked)) := by
    simp [hp, Pc.exec, Ne.symm hne]
  simp only [step, hexec]
  exact ⟨_, rfl, Function.update_self _ _ _⟩

lemma releases_recheck {r : ℕ} {op : Op} {start : UInt64} (hp : d.pc r = .recheck op start)
    (hlocked : Locked d) (env : Env) :
    ∃ d', step L cfg d (.run r env false) = some d' ∧ d'.pc r = .decide op start ∧
      d'.shared = d.shared := by
  have hexec : (d.pc r).exec L cfg env false r (d.origin r) d.shared
      = some (d.shared, .decide op start) := by
    simp [hp, Pc.exec, show d.shared.session = none from hlocked]
  simp only [step, hexec]
  exact ⟨_, rfl, Function.update_self _ _ _, rfl⟩

lemma releases_woken {r : ℕ} {op : Op} {start : UInt64} (hp : d.pc r = .woken op start)
    (hfree : d.shared.holder = none) (env : Env) :
    ∃ d', step L cfg d (.run r env false) = some d' ∧ d'.pc r = .recheck op start ∧
      d'.shared = d.shared.hold (some r) := by
  have hexec : (d.pc r).exec L cfg env false r (d.origin r) d.shared
      = some (d.shared.hold (some r), .recheck op start) := by
    simp [hp, Pc.exec, hfree]
  simp only [step, hexec]
  exact ⟨_, rfl, Function.update_self _ _ _, rfl⟩

lemma run_turnsOf {r n : ℕ} {env : Env} {d' d'' : State Key}
    (h : step L cfg d (.run r env false) = some d')
    (hrun : run (step L cfg) d' (turnsOf r env n) = some d'') :
    run (step L cfg) d (turnsOf r env (n + 1)) = some d'' :=
  run_cons_eq_some.mpr ⟨d', h, hrun⟩

/-- A call that is aside and awake answers "locked" in three sections at most. -/
theorem releases_of_aside {r : ℕ} {pending : Prop} (hm : Mutex d) (hlocked : Locked d)
    (ha : Aside d.shared.gen pending (d.pc r)) (hawake : ¬ pending) : Releases L cfg r d := by
  intro hfree env
  cases hp : d.pc r with
  | respond x =>
    rw [hp] at ha
    exact ⟨0, by omega, d, rfl, by rw [hp]; exact congrArg some ha⟩
  | decide op start =>
    rw [hp] at ha
    obtain ⟨d₁, h₁, hp₁⟩ := releases_decide (L := L) hp ha env
    exact ⟨1, by omega, d₁, run_turnsOf h₁ rfl, by rw [hp₁]; rfl⟩
  | recheck op start =>
    rw [hp] at ha
    obtain ⟨d₁, h₁, hp₁, hsh₁⟩ := releases_recheck (L := L) hp hlocked env
    obtain ⟨d₂, h₂, hp₂⟩ := releases_decide (L := L) hp₁ (by rw [hsh₁]; exact ha) env
    exact ⟨2, by omega, d₂, run_turnsOf h₁ (run_turnsOf h₂ rfl), by rw [hp₂]; rfl⟩
  | woken op start =>
    rw [hp] at ha
    have hnone : d.shared.holder = none := by
      rcases hfree with hnone | hheld
      · exact hnone
      · have hholding := (hm r).mp hheld
        rw [hp] at hholding
        cases hholding
    obtain ⟨d₁, h₁, hp₁, hsh₁⟩ := releases_woken (L := L) hp hnone env
    have hlocked₁ : Locked d₁ := by
      rw [Locked, hsh₁]
      exact hlocked
    obtain ⟨d₂, h₂, hp₂, hsh₂⟩ := releases_recheck (L := L) hp₁ hlocked₁ env
    have hne : start ≠ d₂.shared.gen := by
      rw [hsh₂, hsh₁]
      exact ha
    obtain ⟨d₃, h₃, hp₃⟩ := releases_decide (L := L) hp₂ hne env
    exact ⟨3, by omega, d₃, run_turnsOf h₁ (run_turnsOf h₂ (run_turnsOf h₃ rfl)),
      by rw [hp₃]; rfl⟩
  | asleep op start =>
    rw [hp] at ha
    exact absurd ha.2 hawake
  | _ => rw [hp] at ha; exact absurd ha id

/-- A cancel is heeded by every parked call that has captured the generation before the bump,
unless the generation comes round to the captured value. -/
theorem heeded_of_captured (L : Packages Key) (cfg : Config) (fs : FileSystem) (clock : ℕ)
    (as bs : List Action) (d₁ d₂ d₃ : State Key) (r k : ℕ) (env : Env) (expired : Bool)
    (hrun : run (step L cfg) (start Key fs clock) as = some d₁)
    (hparked : parked (d₁.pc r) = true) (hcancel : d₁.pc k = .call .unlockCancel)
    (hstep : step L cfg d₁ (.run k env expired) = some d₂)
    (hlocked : Throughout (step L cfg) Locked d₂ bs) (hrest : run (step L cfg) d₂ bs = some d₃)
    (hcaptured : ∃ start, captured (d₁.pc r) = some start ∧ start ≠ d₁.shared.gen + 1)
    (hno : Along (step L cfg) (NoReturn r) d₂ bs) :
    Heeded L cfg r d₃ (history (step L cfg) (Watch.update r k) .start d₂ bs) := by
  have hstart : Watched r k d₂ .start :=
    watched_bump (mutex_run hrun) hparked hcancel hcaptured hstep
  have hend : Watched r k d₃ (history (step L cfg) (Watch.update r k) .start d₂ bs) := by
    refine run_history_inv (fun s g a u h hG hs => ?_) hstart (hlocked.along.and hno) hrest
    exact watched_step h hG.1 hG.2 hs
  refine ⟨hend.awake, hend.locked, fun hnotified hans => ?_⟩
  refine releases_of_aside hend.mutex (throughout_end hlocked hrest) (hend.aside hans) ?_
  rintro ⟨hnot, -⟩
  rw [hnotified] at hnot
  cases hnot

/-- A read asks for the prompt, and a cancel comes up to its bump. -/
def promptThenCancel (n : ℕ) : List Action :=
  .connect :: (Sample.served 0 "secret.get" [("name", .str "a")] n ++
    Sample.served 1 "vault.unlock_cancel" [] 1)

def bump : Action := .run 1 Sample.env false

/-- The cancel notifies, and the read goes on. -/
def afterBump : List Action := Sample.turns 1 1 ++ Sample.turns 0 3

instance : DecidablePred (Locked : State Key → Prop) := fun d =>
  decidable_of_iff (d.shared.session.isNone = true) Option.isNone_iff_eq_none

lemma bumped {n : ℕ} (hbefore : (run Sample.step Sample.started (promptThenCancel n)).all
      (fun d => parked (d.pc 0) && cancelling (d.pc 1)) = true)
    (hsome : (run Sample.step Sample.started (promptThenCancel n ++ [bump])).isSome = true) :
    ∃ d₁ d₂, run Sample.step Sample.started (promptThenCancel n) = some d₁ ∧
      parked (d₁.pc 0) = true ∧ d₁.pc 1 = .call .unlockCancel ∧
      Sample.step d₁ bump = some d₂ ∧
      run Sample.step Sample.started (promptThenCancel n ++ [bump]) = some d₂ := by
  obtain ⟨d₂, h₂⟩ := Option.isSome_iff_exists.mp hsome
  obtain ⟨d₁, h₁, hlast⟩ := run_append_eq_some.mp h₂
  obtain ⟨d, hstep, hd⟩ := run_cons_eq_some.mp hlast
  cases hd
  simp only [h₁, Option.all_some, Bool.and_eq_true] at hbefore
  exact ⟨d₁, d₂, h₁, hbefore.1, cancelling_eq hbefore.2, hstep, h₂⟩

/-- A read that is still to capture the generation sleeps through the cancel. -/
theorem not_cancelIsHeeded : ¬ CancelIsHeeded := by
  intro h
  obtain ⟨d₁, d₂, h₁, hparked, hcancel, hstep, h₂⟩ :=
    bumped (n := 4) (by decide +kernel) (by decide +kernel)
  have hafter : (run Sample.step Sample.started (promptThenCancel 4 ++ [bump])).all (fun d =>
      decide (Throughout Sample.step Locked d afterBump) &&
        (history Sample.step (Watch.update 0 1) .start d afterBump).slept &&
        (run Sample.step d afterBump).isSome) = true := by
    decide +kernel
  have hlocked : (run Sample.step Sample.started (promptThenCancel 4)).all
      (fun d => decide (Locked d)) = true := by
    decide +kernel
  simp only [h₂, Option.all_some, Bool.and_eq_true, decide_eq_true_eq] at hafter
  simp only [h₁, Option.all_some, decide_eq_true_eq] at hlocked
  obtain ⟨⟨hthroughout, hslept⟩, hrun⟩ := hafter
  obtain ⟨d₃, h₃⟩ := Option.isSome_iff_exists.mp hrun
  have hheeded := h Sample.Key Sample.packages Sample.config _ 0 (promptThenCancel 4) afterBump d₁
    d₂ d₃ 0 1 Sample.env false h₁ hparked hcancel hlocked hstep hthroughout h₃
  rw [hheeded.awake] at hslept
  cases hslept

/-- A read that is asleep at the bump heeds the cancel. -/
theorem heeded_asleep : ∃ d₂ d₃,
    run Sample.step Sample.started (promptThenCancel 7 ++ [bump]) = some d₂ ∧
      run Sample.step d₂ afterBump = some d₃ ∧
        Heeded Sample.packages Sample.config 0 d₃
          (history Sample.step (Watch.update 0 1) .start d₂ afterBump) := by
  obtain ⟨d₁, d₂, h₁, hparked, hcancel, hstep, h₂⟩ :=
    bumped (n := 7) (by decide +kernel) (by decide +kernel)
  have hafter : (run Sample.step Sample.started (promptThenCancel 7 ++ [bump])).all (fun d =>
      decide (Throughout Sample.step Locked d afterBump) &&
        decide (Along Sample.step (NoReturn 0) d afterBump) &&
        (run Sample.step d afterBump).isSome) = true := by
    decide +kernel
  have hcaptured : (run Sample.step Sample.started (promptThenCancel 7)).all
      (fun d => decide (captured (d.pc 0) = some 0) && decide (0 ≠ d.shared.gen + 1)) = true := by
    decide +kernel
  simp only [h₂, Option.all_some, Bool.and_eq_true, decide_eq_true_eq] at hafter
  simp only [h₁, Option.all_some, Bool.and_eq_true, decide_eq_true_eq] at hcaptured
  obtain ⟨⟨hthroughout, hno⟩, hrun⟩ := hafter
  obtain ⟨d₃, h₃⟩ := Option.isSome_iff_exists.mp hrun
  exact ⟨d₂, d₃, h₂, h₃, heeded_of_captured Sample.packages Sample.config _ 0 _ afterBump d₁ d₂ d₃
    0 1 Sample.env false h₁ hparked hcancel hstep hthroughout h₃ ⟨0, hcaptured⟩ hno⟩

end LvimKeyring.Parking
