import LvimKeyring.Sample

/-!
What the clients are told of the lock state.

A handler changes the session in one section and broadcasts the new state in another, so the
broadcasts of two handlers can come in the other order than their changes. The last broadcast
is right in every run where none contradicts the session, unless a handler that agrees with it
is still to broadcast.
-/

namespace LvimKeyring.Announce

open Rpc Crypto Vault Server Daemon Transition

variable {Key : Type}

/-! ### The notifications of a channel -/

/-- The last `vault.state` on a channel. -/
def lastState (l : List Line) : Option Bool :=
  l.foldl (fun b line => match line with | .note (.state locked) => some locked | _ => b) none

@[simp] lemma lastState_state (l : List Line) (locked : Bool) :
    lastState (l ++ [.note (.state locked)]) = some locked := by
  simp [lastState]

@[simp] lemma lastState_unlockNeeded (l : List Line) :
    lastState (l ++ [.note .unlockNeeded]) = lastState l := by
  simp [lastState]

@[simp] lemma lastState_response (l : List Line) (id : ℕ) (r : Except Err Reply) :
    lastState (l ++ [.response id r]) = lastState l := by
  simp [lastState]

/-! ### The statement -/

/-- A change of the session whose broadcast is still to come, with what it will say. -/
def pending : Pc Key → Option Bool
  | .resetFails _ | .announceUnlocked _ => some false
  | .announceLocked _ => some true
  | _ => none

/-- The broadcast a section makes. -/
def announces : Pc Key → Option Bool
  | .announceUnlocked _ => some false
  | .announceLocked _ => some true
  | _ => none

/-- Whether a section changes the session. -/
def changes (sh : Shared Key) : Pc Key → Bool
  | .install _ _ => true
  | .call .lock | .tickTake => sh.session.isSome
  | _ => false

/-- The clients that were registered before the last change of the session. -/
def veterans (g : List ℕ) (d : State Key) : Action → State Key → List ℕ
  | .run t _ _, _ => if changes d.shared (d.pc t) then d.shared.clients else g
  | _, _ => g

/-- When no handler is between its change and its broadcast, the last state each veteran has
been sent is the state. -/
def ToldRight (d : State Key) (g : List ℕ) : Prop :=
  (∀ u, pending (d.pc u) = none) → ∀ c ∈ g, c ∈ d.shared.clients →
    lastState (d.shared.channel c) = some d.shared.session.isNone

/-- The lock notifications agree with the lock state. -/
def NotificationsAgree : Prop :=
  ∀ (Key : Type) (L : Packages Key) (cfg : Config) (fs : FileSystem) (clock : ℕ)
    (as : List Action) (d : State Key), run (step L cfg) (start Key fs clock) as = some d →
    ToldRight d (history (step L cfg) veterans [] (start Key fs clock) as)

/-- A broadcast says what is the case, or a handler that will is still to broadcast. -/
def InOrder (d : State Key) : Action → Prop
  | .run t _ _ => ∀ locked, announces (d.pc t) = some locked →
      locked = d.shared.session.isNone ∨
        ∃ u, u ≠ t ∧ pending (d.pc u) = some d.shared.session.isNone
  | _ => True

/-! ### The sections -/

variable {L : Packages Key} {cfg : Config} {env : Env} {expired : Bool} {t : ℕ} {origin : ℕ × ℕ}
variable {sh sh' : Shared Key} {p p' : Pc Key} {d d' : State Key} {g : List ℕ}

/-- What a section means to the clients. -/
structure Told (sh sh' : Shared Key) (p p' : Pc Key) : Prop where
  clients : sh'.clients = sh.clients
  nextClient : sh'.nextClient = sh.nextClient
  session : if changes sh p then pending p' = some sh'.session.isNone
    else sh'.session.isNone = sh.session.isNone
  pending : announces p = none → ∀ locked, Announce.pending p = some locked →
    Announce.pending p' = some locked
  channel : ∀ c, lastState (sh'.channel c) =
    if c ∈ sh.clients ∧ (announces p).isSome then announces p else lastState (sh.channel c)

lemma told_of_silent (hc : changes sh p = false) (hp : pending p = none)
    (hsession : sh'.session.isNone = sh.session.isNone) (hclients : sh'.clients = sh.clients)
    (hnext : sh'.nextClient = sh.nextClient)
    (hchannel : ∀ c, lastState (sh'.channel c) = lastState (sh.channel c)) :
    Told sh sh' p p' := by
  have hann : announces p = none := by
    cases p <;> first | rfl | cases hp
  refine ⟨hclients, hnext, by simp [hc, hsession], ?_, by simp [hann, hchannel]⟩
  intro _ locked hl
  rw [hp] at hl
  cases hl

lemma told_of_reading (hc : changes sh p = false) (hp : pending p = none) : Told sh sh p p' :=
  told_of_silent hc hp rfl rfl rfl fun _ => rfl

lemma lastState_broadcast (sh : Shared Key) (locked : Bool) (c : ℕ) :
    lastState ((sh.broadcast (.state locked)).channel c) =
      if c ∈ sh.clients then some locked else lastState (sh.channel c) := by
  simp only [Shared.broadcast]
  split
  · exact lastState_state _ _
  · rfl

lemma told_of_announcing {locked : Bool} (hc : changes sh p = false)
    (hp : announces p = some locked) : Told sh (sh.broadcast (.state locked)) p p' := by
  refine ⟨rfl, rfl, by simp [hc, Shared.session], fun hnone => ?_, fun c => ?_⟩
  · rw [hp] at hnone
    cases hnone
  · rw [lastState_broadcast]
    simp [hp]

lemma taken_told {timer : Bool} {done : Pc Key} (hc : changes sh p = sh.session.isSome)
    (hp : pending p = none) (hsh : sh' = sh.withSession none) :
    Told sh sh' p (if sh.session.isSome then .announceLocked timer else done) := by
  subst hsh
  have hann : announces p = none := by
    cases p <;> first | rfl | cases hp
  cases hs : sh.session with
  | none =>
    rw [hs] at hc
    exact told_of_silent hc hp (by simp [hs]) rfl rfl fun _ => rfl
  | some s =>
    rw [hs] at hc
    refine ⟨rfl, rfl, ?_, ?_, fun c => ?_⟩
    · simp [hc, pending]
    · intro _ locked hl
      rw [hp] at hl
      cases hl
    · simp [hann]
      rfl

lemma begin_told {c : Call} (h : begin L cfg env sh c = some (sh', p')) :
    Told sh sh' (.call c) p' := by
  cases c with
  | lock =>
    cases h
    exact taken_told rfl rfl rfl
  | unlockCancel =>
    simp only [begin] at h
    split at h <;> cases h
    exact told_of_silent rfl rfl rfl rfl rfl fun _ => rfl
  | create password =>
    simp only [begin] at h
    split at h <;> cases h <;> exact told_of_reading rfl rfl
  | unlock password =>
    simp only [begin] at h
    split at h <;> cases h <;> exact told_of_reading rfl rfl
  | rotate old new =>
    simp only [begin] at h
    split at h <;> cases h <;> exact told_of_reading rfl rfl
  | session wait op =>
    simp only [begin] at h
    split at h <;> cases h <;> exact told_of_reading rfl rfl
  | hello | status | bare =>
    cases h
    exact told_of_reading rfl rfl

lemma afterWrite_told {k : Installer} {r : FileSystem × Except Err (Session Key)}
    (hc : changes sh p = false) (hp : pending p = none) (h : afterWrite sh k r = (sh', p')) :
    Told sh sh' p p' := by
  obtain ⟨fs, e | s⟩ := r <;> cases h <;> exact told_of_silent hc hp rfl rfl rfl fun _ => rfl

lemma exec_told (h : p.exec L cfg env expired t origin sh = some (sh', p')) :
    Told sh sh' p p' := by
  cases p with
  | idle | asleep => cases h
  | call c => exact begin_told h
  | dispatch method params =>
    simp only [Pc.exec] at h
    split at h <;> cases h <;> split <;> exact told_of_silent rfl rfl rfl rfl rfl fun _ => rfl
  | createWrite password =>
    simp only [Pc.exec, Option.some.injEq] at h
    exact afterWrite_told rfl rfl h
  | rotateWrite current old new =>
    simp only [Pc.exec, Option.some.injEq] at h
    exact afterWrite_told rfl rfl h
  -- The lock state changes here, and the broadcast of it is left to come.
  | install s k =>
    cases h
    exact ⟨rfl, rfl, rfl, (fun _ locked hl => by cases hl), fun c => by simp [announces]; rfl⟩
  | resetFails k =>
    cases h
    exact ⟨rfl, rfl, rfl, fun _ locked hl => hl, fun c => by simp [announces]; rfl⟩
  | announceUnlocked k =>
    cases h
    exact told_of_announcing rfl rfl
  | announceLocked timer =>
    cases h
    exact told_of_announcing rfl rfl
  | wake k => cases k <;> cases h <;> exact told_of_reading rfl rfl
  -- `vault.unlock_needed` is no announcement of the lock state.
  | signal op =>
    cases h
    refine told_of_silent rfl rfl rfl rfl rfl fun c => ?_
    simp only [Shared.broadcast]
    split
    · exact lastState_unlockNeeded _
    · rfl
  | capture op =>
    simp only [Pc.exec] at h
    split at h <;> cases h
    exact told_of_silent rfl rfl rfl rfl rfl fun _ => rfl
  | woken op start =>
    simp only [Pc.exec] at h
    split at h <;> cases h
    exact told_of_silent rfl rfl rfl rfl rfl fun _ => rfl
  | recheck op start =>
    simp only [Pc.exec] at h
    split at h <;> cases h <;> exact told_of_silent rfl rfl rfl rfl rfl fun _ => rfl
  | decide op start =>
    simp only [Pc.exec] at h
    split at h <;> cases h <;> exact told_of_silent rfl rfl rfl rfl rfl fun _ => rfl
  | access op =>
    cases h
    exact told_of_silent rfl rfl
      (withSession_isNone L cfg env false op sh.world) rfl rfl fun _ => rfl
  | tickTake =>
    cases h
    exact taken_told rfl rfl rfl
  | respond r =>
    cases h
    refine told_of_silent rfl rfl rfl rfl rfl fun c => ?_
    simp only [Shared.send]
    by_cases hc : c = origin.1
    · subst hc
      rw [Function.update_self]
      exact lastState_response _ _ _
    · rw [Function.update_of_ne hc]
  | unlockedSummaries | countFailure | wakeCancelled | park | queryExists | querySummaries
  | queryLocked | queryIdle | tickLocked | tickIdle =>
    cases h
    exact told_of_silent rfl rfl rfl rfl rfl fun _ => rfl

/-! ### The invariant -/

/-- A broadcast of what is the case is still to come, or every veteran has had it. -/
structure Inv (d : State Key) (g : List ℕ) : Prop where
  registered : ∀ c ∈ d.shared.clients, c < d.shared.nextClient
  veterans : ∀ c ∈ g, c < d.shared.nextClient
  told : (∃ u, pending (d.pc u) = some d.shared.session.isNone) ∨
    ∀ c ∈ g, c ∈ d.shared.clients →
      lastState (d.shared.channel c) = some d.shared.session.isNone

lemma pending_moved (h : Moved p p') : pending p' = pending p := by
  cases h <;> rfl

lemma pending_other (hstep : step L cfg d (.run t env expired) = some d') {u : ℕ} (hu : u ≠ t) :
    pending (d'.pc u) = pending (d.pc u) := by
  obtain ⟨p, -, -, hothers⟩ := step_run hstep
  rw [hothers u hu]
  split
  · exact pending_moved (moved_rouse _)
  · rfl

lemma inv_run_step (h : Inv d g) (hG : InOrder d (.run t env expired))
    (hstep : step L cfg d (.run t env expired) = some d') :
    Inv d' (veterans g d (.run t env expired) d') := by
  obtain ⟨p, hexec, hp, -⟩ := step_run hstep
  have htold := exec_told hexec
  have hsession := htold.session
  simp only [veterans]
  cases hc : changes d.shared (d.pc t) with
  | true =>
    rw [if_pos hc] at hsession
    refine ⟨?_, ?_, .inl ⟨t, by rw [hp]; exact hsession⟩⟩
    · rw [htold.clients, htold.nextClient]
      exact h.registered
    · rw [htold.nextClient]
      exact h.registered
  | false =>
    simp only [hc, Bool.false_eq_true, if_false] at hsession ⊢
    refine ⟨?_, ?_, ?_⟩
    · rw [htold.clients, htold.nextClient]
      exact h.registered
    · rw [htold.nextClient]
      exact h.veterans
    · rw [hsession]
      have hpending {u : ℕ} {locked : Bool} (hut : u ≠ t) (hu : pending (d.pc u) = some locked) :
          ∃ v, pending (d'.pc v) = some locked :=
        ⟨u, by rw [pending_other hstep hut, hu]⟩
      -- Each is still to be told, or the last thing they have been told is right.
      cases hann : announces (d.pc t) with
      | none =>
        rcases h.told with ⟨u, hu⟩ | htold'
        · by_cases hut : u = t
          · subst hut
            exact .inl ⟨u, by rw [hp]; exact htold.pending hann _ hu⟩
          · exact .inl (hpending hut hu)
        · right
          intro c hcg hcc
          rw [htold.channel c, hann]
          simpa using htold' c hcg (by rwa [← htold.clients])
      | some locked =>
        -- A broadcast that is out of date is made while the one of a later change is still to come.
        rcases hG locked hann with hright | ⟨u, hut, hu⟩
        · right
          intro c hcg hcc
          rw [htold.channel c, hann, ← hright, if_pos ⟨by rwa [← htold.clients], rfl⟩]
        · exact .inl (hpending hut hu)

theorem inv_step {a : Action} (h : Inv d g) (hG : InOrder d a)
    (hstep : step L cfg d a = some d') : Inv d' (veterans g d a d') := by
  by_cases ha : ∃ t env expired, a = .run t env expired
  · obtain ⟨t, env, expired, rfl⟩ := ha
    exact inv_run_step h hG hstep
  · have hq := step_quiet hstep fun t env expired heq => ha ⟨t, env, expired, heq⟩
    have hg : veterans g d a d' = g := by
      cases a with
      | run t env expired => exact absurd ⟨t, env, expired, rfl⟩ ha
      | _ => rfl
    rw [hg]
    refine ⟨fun c hc => ?_, fun c hc => lt_of_lt_of_le (h.veterans c hc) hq.nextClient, ?_⟩
    · rcases hq.clients c hc with hold | ⟨rfl, hnext⟩
      · exact lt_of_lt_of_le (h.registered c hold) hq.nextClient
      · omega
    · rw [Shared.session, hq.world]
      rcases h.told with ⟨u, hu⟩ | htold
      · exact .inl ⟨u, by rw [pending_moved (hq.moved u)]; exact hu⟩
      · right
        intro c hcg hcc
        rw [hq.channel]
        rcases hq.clients c hcc with hold | ⟨hnew, -⟩
        · exact htold c hcg hold
        · have hlt := h.veterans c hcg
          omega

/-- If no broadcast contradicts the session for good, the last one every veteran has been sent
is right. -/
theorem toldRight_of_inOrder (L : Packages Key) (cfg : Config) (fs : FileSystem) (clock : ℕ)
    (as : List Action) (d : State Key)
    (hguard : Along (step L cfg) InOrder (start Key fs clock) as)
    (hrun : run (step L cfg) (start Key fs clock) as = some d) :
    ToldRight d (history (step L cfg) veterans [] (start Key fs clock) as) := by
  have hnone {q : ℕ → Prop} : ∀ c ∈ ([] : List ℕ), q c := fun c hc => by cases hc
  have hstart : Inv (start Key fs clock) [] := ⟨hnone, hnone, .inr hnone⟩
  have hinv : Inv d (history (step L cfg) veterans [] (start Key fs clock) as) := by
    refine run_history_inv (fun s g a u h hG hs => ?_) hstart hguard hrun
    exact inv_step h hG hs
  intro hquiet c hcg hcc
  rcases hinv.told with ⟨u, hu⟩ | htold
  · rw [hquiet u] at hu
    cases hu
  · exact htold c hcg hcc

/-! ### A lock overtakes an unlock -/

/-- An unlock installs its session, a lock takes it and broadcasts, and then the unlock
broadcasts. -/
def overtakenUnlock : List Action :=
  .connect :: (Sample.served 0 "vault.unlock" [("password", .str "pw")] 3 ++
    (Sample.served 1 "vault.lock" [] 4 ++ Sample.turns 0 5))

theorem not_notificationsAgree : ¬ NotificationsAgree := by
  intro h
  have hend : (run Sample.step Sample.started overtakenUnlock).map (fun d =>
      (d.shared.session.isNone, lastState (d.shared.channel 1), d.shared.clients,
        pending (d.pc 0), pending (d.pc 1))) = some (true, some false, [1], none, none) := by
    decide +kernel
  have hveterans : history Sample.step veterans [] Sample.started overtakenUnlock = [1] := by
    decide +kernel
  obtain ⟨d, hrun, hd⟩ := Option.map_eq_some_iff.mp hend
  simp only [Prod.mk.injEq] at hd
  obtain ⟨hlocked, hlast, hclients, h0, h1⟩ := hd
  have hquiet : ∀ u, pending (d.pc u) = none := by
    intro u
    by_cases hu : 2 ≤ u
    · rw [idle_of_below hrun (by decide +kernel) hu rfl]
      rfl
    · obtain rfl | rfl : u = 0 ∨ u = 1 := by omega
      · exact h0
      · exact h1
  have htold := h Sample.Key Sample.packages Sample.config _ 0 overtakenUnlock d hrun hquiet 1
    (by rw [hveterans]; exact List.mem_singleton_self 1)
    (by rw [hclients]; exact List.mem_singleton_self 1)
  rw [hlast, hlocked] at htold
  cases htold

/-- No broadcast contradicts the session. -/
def Truthful (d : State Key) : Action → Prop
  | .run t _ _ => (announces (d.pc t)).all (· == d.shared.session.isNone) = true
  | _ => True

instance (d : State Key) : DecidablePred (Truthful d)
  | .run t _ _ => inferInstanceAs (Decidable ((announces (d.pc t)).all _ = true))
  | .connect | .disconnect _ | .request _ _ _ _ _ | .tick _ | .rouse _ => isTrue trivial

lemma inOrder_of_truthful {a : Action} (h : Truthful d a) : InOrder d a := by
  cases a with
  | run t env expired =>
    intro locked hann
    simp only [Truthful, hann, Option.all_some, beq_iff_eq] at h
    exact .inl h
  | _ => trivial

/-- The unlock and the lock one after the other. -/
def unlockThenLock : List Action :=
  .connect :: (Sample.served 0 "vault.unlock" [("password", .str "pw")] 8 ++
    Sample.served 1 "vault.lock" [] 4)

theorem toldRight_unlockThenLock : ∃ d,
    run Sample.step Sample.started unlockThenLock = some d ∧
      ToldRight d (history Sample.step veterans [] Sample.started unlockThenLock) := by
  obtain ⟨d, hrun⟩ : ∃ d, run Sample.step Sample.started unlockThenLock = some d :=
    Option.isSome_iff_exists.mp (by decide +kernel)
  have htruthful : Along Sample.step Truthful Sample.started unlockThenLock := by decide +kernel
  exact ⟨d, hrun, toldRight_of_inOrder Sample.packages Sample.config _ 0 unlockThenLock d
    (htruthful.mono fun _ _ => inOrder_of_truthful) hrun⟩

end LvimKeyring.Announce
