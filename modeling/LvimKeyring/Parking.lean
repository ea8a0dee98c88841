import LvimKeyring.Daemon

/-!
Calls parked for an unlock: what each section of the daemon means to them.

A parked call looks at the session and at the generation with `unlock_gen` locked, and gives
the lock back when it goes to sleep. The session is installed, and the condition variable
notified, without it.
-/

namespace LvimKeyring.Parking

open Rpc Crypto Vault Server Daemon Transition

variable {Key : Type}

/-! ### The sections of a parked call -/

/-- `unlock_gen` is locked from this section to the next. -/
def holding : Pc Key → Bool
  | .recheck _ _ | .decide _ _ => true
  | _ => false

/-- The sections a handler comes to only from the one before. -/
def inner : Pc Key → Bool
  | .resetFails _ | .announceUnlocked _ | .wake _ | .wakeCancelled | .capture _ | .recheck _ _
  | .decide _ _ | .asleep _ _ | .woken _ _ => true
  | _ => false

/-- A session has been installed and its notification is still to come. -/
def notifying : Pc Key → Bool
  | .resetFails _ | .announceUnlocked _ | .wake _ => true
  | _ => false

def sleeping : Pc Key → Bool
  | .asleep _ _ => true
  | _ => false

/-- Neither the generation nor its lock changes, and no session is installed. -/
structure Keeps (sh sh' : Shared Key) : Prop where
  gen : sh'.gen = sh.gen
  holder : sh'.holder = sh.holder
  locked : sh.session = none → sh'.session = none

/-- What a section means to the calls that are parked. -/
inductive Turn (t : ℕ) (expired : Bool) (sh sh' : Shared Key) : Pc Key → Pc Key → Prop
  | install {s : Session Key} {k : Installer} (hgen : sh'.gen = sh.gen)
      (hholder : sh'.holder = sh.holder) : Turn t expired sh sh' (.install s k) (.resetFails k)
  | resetFails {k : Installer} (h : Keeps sh sh') :
      Turn t expired sh sh' (.resetFails k) (.announceUnlocked k)
  | announceUnlocked {k : Installer} (h : Keeps sh sh') :
      Turn t expired sh sh' (.announceUnlocked k) (.wake k)
  | wake {k : Installer} {p : Pc Key} (h : Keeps sh sh') (hp : inner p = false) :
      Turn t expired sh sh' (.wake k) p
  | cancel (hfree : sh.holder = none) (hholder : sh'.holder = none)
      (hgen : sh'.gen = sh.gen + 1) (hlocked : sh.session = none → sh'.session = none) :
      Turn t expired sh sh' (.call .unlockCancel) .wakeCancelled
  | cancelled (h : Keeps sh sh') : Turn t expired sh sh' .wakeCancelled (.respond (.ok .unit))
  | signal {op : Op} (h : Keeps sh sh') : Turn t expired sh sh' (.signal op) (.capture op)
  | capture {op : Op} (hfree : sh.holder = none) (hsh : sh' = sh.hold (some t)) :
      Turn t expired sh sh' (.capture op) (.recheck op sh.gen)
  | found {op : Op} {start : UInt64} (hopen : sh.session.isSome) (hsh : sh' = sh.hold none) :
      Turn t expired sh sh' (.recheck op start) (.access op)
  | notFound {op : Op} {start : UInt64} (hlocked : sh.session = none) (hsh : sh' = sh) :
      Turn t expired sh sh' (.recheck op start) (.decide op start)
  | refused {op : Op} {start : UInt64} (hsh : sh' = sh.hold none) :
      Turn t expired sh sh' (.decide op start) (.respond (.error .locked))
  | sleep {op : Op} {start : UInt64} (hgen : sh.gen = start) (hsh : sh' = sh.hold none) :
      Turn t expired sh sh' (.decide op start) (.asleep op start)
  | relock {op : Op} {start : UInt64} (hfree : sh.holder = none) (hsh : sh' = sh.hold (some t)) :
      Turn t expired sh sh' (.woken op start) (.recheck op start)
  | outside {p p' : Pc Key} (hp : inner p = false) (hp' : inner p' = false) (h : Keeps sh sh') :
      Turn t expired sh sh' p p'

variable {L : Packages Key} {cfg : Config} {env : Env} {expired : Bool} {t : ℕ} {origin : ℕ × ℕ}
variable {sh sh' : Shared Key} {p p' : Pc Key}

lemma Keeps.refl (sh : Shared Key) : Keeps sh sh := ⟨rfl, rfl, id⟩

lemma begin_turn {c : Call} (h : begin L cfg env sh c = some (sh', p')) :
    Turn t expired sh sh' (.call c) p' := by
  cases c with
  | unlockCancel =>
    simp only [begin] at h
    split at h
    · cases h
    · rename_i hfree
      cases h
      have hnone : sh.holder = none := by simpa using hfree
      exact .cancel hnone hnone rfl id
  | lock =>
    cases h
    exact .outside rfl (by split <;> rfl) ⟨rfl, rfl, fun _ => rfl⟩
  | create password =>
    simp only [begin] at h
    split at h <;> cases h <;> exact .outside rfl rfl (.refl sh)
  | unlock password =>
    simp only [begin] at h
    split at h <;> cases h <;> exact .outside rfl rfl (.refl sh)
  | rotate old new =>
    simp only [begin] at h
    split at h <;> cases h <;> exact .outside rfl rfl (.refl sh)
  | session wait op =>
    simp only [begin] at h
    split at h <;> cases h
    · exact .outside rfl rfl (.refl sh)
    · exact .outside rfl (by split <;> rfl) (.refl sh)
  | hello | status | bare =>
    cases h
    exact .outside rfl rfl (.refl sh)

lemma afterWrite_turn {k : Installer} {r : FileSystem × Except Err (Session Key)}
    (hp : inner p = false) (h : afterWrite sh k r = (sh', p')) : Turn t expired sh sh' p p' := by
  obtain ⟨fs, e | s⟩ := r
  · cases h
    exact .outside hp rfl ⟨rfl, rfl, id⟩
  · cases h
    exact .outside hp rfl ⟨rfl, rfl, id⟩

lemma withSession_keeps (op : Op) (sh : Shared Key) :
    Keeps sh { sh with world := (Server.withSession L cfg env false op sh.world).world } := by
  obtain ⟨session, hsession, hinner⟩ := withSession_inner L cfg env false op sh.world
  have hlocked : session.isNone = sh.session.isNone := hsession
  refine ⟨?_, rfl, fun hnone => ?_⟩
  · simp only [Shared.gen, hinner]
  · rw [hnone] at hlocked
    simp only [Shared.session, hinner]
    exact Option.isNone_iff_eq_none.mp hlocked

lemma exec_turn (h : p.exec L cfg env expired t origin sh = some (sh', p')) :
    Turn t expired sh sh' p p' := by
  cases p with
  | idle | asleep => cases h
  | call c => exact begin_turn h
  | dispatch method params =>
    simp only [Pc.exec] at h
    split at h <;> cases h <;> refine .outside rfl rfl
      ⟨?_, ?_, ?_⟩ <;> split <;> first | rfl | exact id
  | createWrite password =>
    simp only [Pc.exec, Option.some.injEq] at h
    exact afterWrite_turn rfl h
  | rotateWrite current old new =>
    simp only [Pc.exec, Option.some.injEq] at h
    exact afterWrite_turn rfl h
  -- The install is the one section that changes what is locked, and it leaves the lock alone.
  | install s k => cases h; exact .install rfl rfl
  | resetFails k => cases h; exact .resetFails ⟨rfl, rfl, id⟩
  | announceUnlocked k => cases h; exact .announceUnlocked ⟨rfl, rfl, id⟩
  | wake k => cases k <;> cases h <;> exact .wake (.refl sh) rfl
  | wakeCancelled => cases h; exact .cancelled (.refl sh)
  | signal op => cases h; exact .signal ⟨rfl, rfl, id⟩
  | capture op =>
    simp only [Pc.exec] at h
    split at h
    · cases h
    · rename_i hfree
      cases h
      exact .capture (by simpa using hfree) rfl
  | recheck op start =>
    simp only [Pc.exec] at h
    split at h
    · rename_i hopen
      cases h
      exact .found hopen rfl
    · rename_i hlocked
      cases h
      exact .notFound (by simpa using hlocked) rfl
  -- The deadline, or a generation that has moved on, ends the wait.
  | decide op start =>
    simp only [Pc.exec] at h
    split at h
    · cases h
      exact .refused rfl
    · rename_i hsleep
      cases h
      exact .sleep (by simpa using (not_or.mp hsleep).1) rfl
  | woken op start =>
    simp only [Pc.exec] at h
    split at h
    · cases h
    · rename_i hfree
      cases h
      exact .relock (by simpa using hfree) rfl
  | access op =>
    cases h
    exact .outside rfl rfl (withSession_keeps op sh)
  | tickTake =>
    cases h
    exact .outside rfl (by split <;> rfl) ⟨rfl, rfl, fun _ => rfl⟩
  | announceLocked timer =>
    cases h
    exact .outside rfl (by split <;> rfl) ⟨rfl, rfl, id⟩
  | park op =>
    cases h
    exact .outside rfl (by split <;> rfl) (.refl sh)
  | querySummaries full locked ex =>
    cases h
    refine .outside rfl ?_ (.refl sh)
    split
    · rfl
    · split <;> rfl
  | queryLocked locked ex entries =>
    cases h
    exact .outside rfl (by split <;> rfl) (.refl sh)
  | tickLocked =>
    cases h
    exact .outside rfl (by split <;> rfl) (.refl sh)
  | tickIdle =>
    cases h
    exact .outside rfl (by split <;> rfl) (.refl sh)
  | unlockedSummaries | countFailure | queryExists | queryIdle | respond =>
    cases h
    exact .outside rfl rfl ⟨rfl, rfl, id⟩

/-! ### The lock of the condition variable -/

/-- The thread that has `unlock_gen` locked is the one in the loop. -/
def Mutex (d : State Key) : Prop := ∀ t, d.shared.holder = some t ↔ holding (d.pc t) = true

lemma gen_of_hold {u : Option ℕ} (h : sh' = sh.hold u) : sh'.gen = sh.gen := by
  rw [h]
  rfl

lemma holding_outside (hp : inner p = false) : holding p = false := by
  cases p <;> first | rfl | cases hp

lemma Turn.holder_cases (h : Turn t expired sh sh' p p') :
    (sh'.holder = sh.holder ∧ holding p' = holding p) ∨
      (sh.holder = none ∧ sh'.holder = some t ∧ holding p' = true) ∨
      (holding p = true ∧ sh'.holder = none ∧ holding p' = false) := by
  cases h with
  | install hgen hholder => exact .inl ⟨hholder, rfl⟩
  | resetFails h | announceUnlocked h | cancelled h | signal h => exact .inl ⟨h.holder, rfl⟩
  | wake h hp => exact .inl ⟨h.holder, holding_outside hp⟩
  | cancel hfree hholder => exact .inl ⟨hholder.trans hfree.symm, rfl⟩
  | capture hfree hsh | relock hfree hsh => exact .inr (.inl ⟨hfree, by rw [hsh]; rfl, rfl⟩)
  | found _ hsh | refused hsh | sleep _ hsh => exact .inr (.inr ⟨rfl, by rw [hsh]; rfl, rfl⟩)
  | notFound _ hsh => exact .inl ⟨by rw [hsh], rfl⟩
  | outside hp hp' h => exact .inl ⟨h.holder, (holding_outside hp').trans (holding_outside hp).symm⟩

lemma holding_rouse (p : Pc Key) : holding (rouse p) = holding p := by
  cases p <;> rfl

lemma holding_moved (h : Moved p p') : holding p' = holding p := by
  cases h <;> rfl

variable {d d' : State Key}

lemma holding_other (hstep : step L cfg d (.run t env expired) = some d') {u : ℕ} (hu : u ≠ t) :
    holding (d'.pc u) = holding (d.pc u) := by
  obtain ⟨p, -, -, hothers⟩ := step_run hstep
  rw [hothers u hu]
  split
  · exact holding_rouse _
  · rfl

theorem mutex_step {a : Action} (h : Mutex d) (hstep : step L cfg d a = some d') : Mutex d' := by
  by_cases ha : ∃ t env expired, a = .run t env expired
  · obtain ⟨t, env, expired, rfl⟩ := ha
    obtain ⟨p, hexec, hp, -⟩ := step_run hstep
    intro u
    by_cases hu : u = t
    · subst hu
      rw [hp]
      rcases (exec_turn hexec).holder_cases with ⟨hsame, hpc⟩ | ⟨-, htaken, hpc⟩ | ⟨-, hfree, hpc⟩
      · rw [hsame, hpc]
        exact h u
      · simp [htaken, hpc]
      · simp [hfree, hpc]
    · rw [holding_other hstep hu, ← h u]
      rcases (exec_turn hexec).holder_cases with ⟨hsame, -⟩ | ⟨hfree, htaken, -⟩ | ⟨hheld, hfree, -⟩
      · rw [hsame]
      · simp [hfree, htaken, Ne.symm hu]
      · rw [hfree, (h t).mpr hheld]
        simp [Ne.symm hu]
  · have hq := step_quiet hstep fun t env expired heq => ha ⟨t, env, expired, heq⟩
    intro u
    rw [hq.holder, holding_moved (hq.moved u)]
    exact h u

lemma mutex_start (fs : FileSystem) (clock : ℕ) : Mutex (start Key fs clock) := fun t => by
  simp [start, holding]

theorem mutex_run {fs : FileSystem} {clock : ℕ} {as : List Action}
    (hrun : run (step L cfg) (start Key fs clock) as = some d) : Mutex d :=
  run_inv (G := fun _ _ => True) (fun _ _ _ h _ hstep => mutex_step h hstep)
    (mutex_start fs clock) (along_of_forall fun _ _ _ => trivial) hrun

end LvimKeyring.Parking
