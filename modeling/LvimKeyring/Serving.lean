import LvimKeyring.Editors

/-!
What the threads of the agent are to the editors they serve.

A thread serves one request of one client from its start to its answer, and what it says on the
way goes to the clients that are connected.
-/

namespace LvimKeyring.Editors

open Rpc Crypto Vault Server Daemon Editor Transition

variable {Key : Type} {L : Packages Key} {cfg : Config} {env : Env} {expired : Bool} {t : ℕ}
variable {origin : ℕ × ℕ} {sh sh' : Shared Key} {p p' : Pc Key} {d d' : State Key} {x : Seat}

/-! ### What a section says -/

/-- The lines a section puts on a client's channel. -/
def spoken (sh : Shared Key) (p : Pc Key) (origin : ℕ × ℕ) (c : ℕ) : List Line :=
  match p with
  | .announceUnlocked _ => if c ∈ sh.clients then [.note (.state false)] else []
  | .announceLocked _ => if c ∈ sh.clients then [.note (.state true)] else []
  | .signal _ => if c ∈ sh.clients then [.note .unlockNeeded] else []
  | .respond r => if c = origin.1 then [.response origin.2 r] else []
  | _ => []

lemma channel_broadcast (sh : Shared Key) (n : Note) (c : ℕ) :
    (sh.broadcast n).channel c = sh.channel c ++ if c ∈ sh.clients then [.note n] else [] := by
  simp only [Shared.broadcast]
  split <;> simp

lemma channel_begin {k : Call} (h : begin L cfg env sh k = some (sh', p')) :
    sh'.channel = sh.channel := by
  cases k with
  | create password | unlock password | rotate old new | session wait op | unlockCancel =>
    simp only [begin] at h
    split at h <;> cases h <;> rfl
  | lock | hello | status | bare => cases h; rfl

lemma channel_afterWrite {k : Installer} {r : FileSystem × Except Err (Session Key)}
    (h : afterWrite sh k r = (sh', p')) : sh'.channel = sh.channel := by
  obtain ⟨fs, e | s⟩ := r <;> cases h <;> rfl

lemma exec_spoken (h : p.exec L cfg env expired t origin sh = some (sh', p')) (c : ℕ) :
    sh'.channel c = sh.channel c ++ spoken sh p origin c := by
  cases p with
  | idle | asleep => cases h
  | call k =>
    rw [channel_begin h]
    simp [spoken]
  | dispatch method params =>
    simp only [Pc.exec] at h
    split at h <;> cases h <;> split <;> simp [spoken]
  | createWrite password =>
    simp only [Pc.exec, Option.some.injEq] at h
    rw [channel_afterWrite h]
    simp [spoken]
  | rotateWrite current old new =>
    simp only [Pc.exec, Option.some.injEq] at h
    rw [channel_afterWrite h]
    simp [spoken]
  | announceUnlocked k | announceLocked timer | signal op =>
    cases h
    exact channel_broadcast _ _ _
  | wake k => cases k <;> cases h <;> simp [spoken]
  | capture op | woken op start | recheck op start | decide op start =>
    simp only [Pc.exec] at h
    split at h <;> cases h <;> simp [spoken, Shared.hold]
  | respond r =>
    cases h
    simp only [Shared.send, spoken]
    by_cases hc : c = origin.1
    · subst hc
      rw [Function.update_self, if_pos rfl]
    · rw [Function.update_of_ne hc, if_neg hc, List.append_nil]
  | _ =>
    cases h
    simp [spoken, Shared.withSession, Shared.withInner]

/-! ### What a thread serves -/

/-- The thread serves a request and has not answered it. -/
def serves : Pc Key → Bool
  | .idle | .tickLocked | .tickIdle | .tickTake | .announceLocked true => false
  | _ => true

/-- The sections of `hello`. -/
def greeting : Pc Key → Bool
  | .dispatch method _ => method == "rpc.hello"
  | .call .hello | .queryExists false _ | .querySummaries false _ _ => true
  | .respond r => accepted r
  | _ => false

/-- The sections of `create` and `unlock`. -/
def submitting : Pc Key → Bool
  | .dispatch method _ => method == "vault.create" || method == "vault.unlock"
  | .call (.create _) | .call (.unlock _) | .createWrite _ | .install _ _ | .resetFails _
  | .announceUnlocked _ | .wake _ | .unlockedSummaries | .countFailure _ | .respond _ => true
  | _ => false

/-- Those after the session has been installed. -/
def past : Pc Key → Bool
  | .resetFails _ | .announceUnlocked _ | .wake _ | .unlockedSummaries | .respond (.ok _) => true
  | _ => false

/-- What a section makes of the request that is served. -/
structure Serving (p p' : Pc Key) : Prop where
  born : serves p' = true → serves p = true
  stays : serves p = true → serves p' = true ∨ ∃ r, p = .respond r
  greets : greeting p = true → serves p' = true → greeting p' = true
  submits : submitting p = true → serves p' = true → submitting p' = true
  passes : submitting p = true → past p' = true → past p = true ∨ ∃ s k, p = .install s k

lemma serving_of_other (hp : serves p = true) (hp' : serves p' = true) (hg : greeting p = false)
    (hs : submitting p = false) : Serving p p' :=
  ⟨fun _ => hp, fun _ => .inl hp', by simp [hg], by simp [hs], by simp [hs]⟩

lemma serving_of_submitting (hp : serves p = true) (hp' : serves p' = true)
    (hg : greeting p = false) (hs : submitting p' = true)
    (hpast : past p' = true → past p = true ∨ ∃ s k, p = .install s k) : Serving p p' :=
  ⟨fun _ => hp, fun _ => .inl hp', by simp [hg], fun _ _ => hs, fun _ => hpast⟩

lemma begin_serving {k : Call} (h : begin L cfg env sh k = some (sh', p')) :
    Serving (.call k) p' := by
  cases k with
  | hello =>
    cases h
    exact ⟨fun _ => rfl, fun _ => .inl rfl, fun _ _ => rfl, fun hs => (by cases hs),
      fun hs => (by cases hs)⟩
  | create password =>
    simp only [begin] at h
    split at h <;> cases h <;> exact serving_of_submitting rfl rfl rfl rfl fun hp => by cases hp
  | unlock password =>
    simp only [begin] at h
    split at h <;> cases h <;> exact serving_of_submitting rfl rfl rfl rfl fun hp => by cases hp
  | rotate old new | unlockCancel =>
    simp only [begin] at h
    split at h <;> cases h <;> exact serving_of_other rfl rfl rfl rfl
  | session wait op =>
    simp only [begin] at h
    split at h
    · cases h
      exact serving_of_other rfl rfl rfl rfl
    · cases h
      exact serving_of_other rfl (by split <;> rfl) rfl rfl
  | lock =>
    cases h
    exact serving_of_other rfl (by split <;> rfl) rfl rfl
  | status | bare => cases h; exact serving_of_other rfl rfl rfl rfl

lemma prepare_hello {random : ℕ → UInt8} {params : Json} :
    prepare random "rpc.hello" params = .ok .hello := rfl

lemma prepare_submitting {random : ℕ → UInt8} {method : String} {params : Json} {k : Call}
    (hm : method = "vault.create" ∨ method = "vault.unlock")
    (h : prepare random method params = .ok k) : submitting (.call k : Pc Key) = true := by
  have hmethod := prepare_method h
  cases k with
  | create | unlock => rfl
  | session wait op => rcases hm with rfl | rfl <;> cases op <;> simp [Call.method] at hmethod
  | _ => rcases hm with rfl | rfl <;> simp [Call.method] at hmethod

lemma dispatch_serving {method : String} {params : Json}
    (h : (Pc.dispatch method params).exec L cfg env expired t origin sh = some (sh', p')) :
    Serving (.dispatch method params) p' := by
  simp only [Pc.exec] at h
  split at h <;> cases h
  · rename_i k hk
    refine ⟨fun _ => rfl, fun _ => .inl rfl, fun hg _ => ?_, fun hs _ => ?_,
      fun _ hp => (by cases hp)⟩
    · obtain rfl := eq_of_beq hg
      rw [prepare_hello] at hk
      cases hk
      rfl
    · simp only [submitting, Bool.or_eq_true, beq_iff_eq] at hs
      exact prepare_submitting hs hk
  · rename_i e he
    refine ⟨fun _ => rfl, fun _ => .inl rfl, fun hg _ => ?_, fun _ _ => rfl,
      fun _ hp => (by cases hp)⟩
    obtain rfl := eq_of_beq hg
    rw [prepare_hello] at he
    cases he

lemma exec_serving (h : p.exec L cfg env expired t origin sh = some (sh', p')) : Serving p p' := by
  cases p with
  | idle | asleep => cases h
  | call k => exact begin_serving h
  | dispatch method params => exact dispatch_serving h
  | createWrite password =>
    simp only [Pc.exec, Option.some.injEq] at h
    rcases afterWrite_cases h with ⟨s, rfl⟩ | ⟨e, rfl⟩ <;>
      exact serving_of_submitting rfl rfl rfl rfl fun hp => (by cases hp)
  -- A rotation has no prompt, so nobody asks what has become of it.
  | rotateWrite current old new =>
    simp only [Pc.exec, Option.some.injEq] at h
    rcases afterWrite_cases h with ⟨s, rfl⟩ | ⟨e, rfl⟩ <;> exact serving_of_other rfl rfl rfl rfl
  | install s k => cases h; exact serving_of_submitting rfl rfl rfl rfl fun _ => .inr ⟨s, k, rfl⟩
  | resetFails k | announceUnlocked k | unlockedSummaries =>
    cases h
    exact serving_of_submitting rfl rfl rfl rfl fun _ => .inl rfl
  | wake k =>
    cases k <;> cases h <;> exact serving_of_submitting rfl rfl rfl rfl fun _ => .inl rfl
  | countFailure e =>
    cases h
    exact serving_of_submitting rfl rfl rfl rfl fun hp => by cases hp
  | respond r =>
    cases h
    exact ⟨fun hp => (by cases hp), fun _ => .inr ⟨r, rfl⟩, fun _ hp => (by cases hp),
      fun _ hp => (by cases hp), fun _ hp => (by cases hp)⟩
  | announceLocked timer =>
    cases h
    cases timer with
    | true => exact ⟨id, fun hp => (by cases hp), fun hp => (by cases hp), fun hp => (by cases hp),
        fun hp => (by cases hp)⟩
    | false => exact serving_of_other rfl rfl rfl rfl
  | tickLocked | tickIdle | tickTake =>
    cases h
    refine ⟨fun hp => ?_, fun hp => (by cases hp), fun hp => (by cases hp), fun hp => (by cases hp),
      fun hp => (by cases hp)⟩
    split at hp <;> cases hp
  | capture op | woken op start | recheck op start | decide op start =>
    simp only [Pc.exec] at h
    split at h <;> cases h <;> exact serving_of_other rfl rfl rfl rfl
  | park op =>
    cases h
    exact serving_of_other rfl (by split <;> rfl) rfl rfl
  | queryExists full locked =>
    cases h
    cases full with
    | true => exact serving_of_other rfl rfl rfl rfl
    | false => exact ⟨fun _ => rfl, fun _ => .inl rfl, fun _ _ => rfl, fun hs => (by cases hs),
        fun hs => (by cases hs)⟩
  | querySummaries full locked ex =>
    cases h
    cases full with
    | true =>
      refine serving_of_other rfl ?_ rfl rfl
      simp only [Bool.not_true, Bool.false_eq_true, if_false]
      split <;> rfl
    | false => exact ⟨fun _ => rfl, fun _ => .inl rfl, fun _ _ => rfl, fun hs => (by cases hs),
        fun hs => (by cases hs)⟩
  | queryLocked locked ex entries =>
    cases h
    exact serving_of_other rfl (by split <;> rfl) rfl rfl
  | wakeCancelled | signal | access | queryIdle =>
    cases h
    exact serving_of_other rfl rfl rfl rfl

/-! ### The threads of a client -/

/-- The sections of the requests a callback is used with. -/
def attends : Callback → Pc Key → Bool
  | .handshake, p => greeting p
  | .promptCreate, p | .promptUnlock, p => submitting p
  | _, _ => true

/-- The thread serves the client. -/
def Attending (c : ℕ) (d : State Key) (t : ℕ) : Prop :=
  serves (d.pc t) = true ∧ (d.origin t).1 = c

/-- The threads that serve the client are the same, and some may have been woken. -/
structure SameFor (c : ℕ) (d d' : State Key) : Prop where
  back : ∀ t, Attending c d' t → Attending c d t
  forth : ∀ t, Attending c d t → Attending c d' t
  origin : ∀ t, Attending c d t → d'.origin t = d.origin t
  pc : ∀ t, Attending c d t → d'.pc t = d.pc t ∨ d'.pc t = rouse (d.pc t)

lemma serves_rouse (p : Pc Key) : serves (rouse p) = serves p := by
  cases p <;> rfl

lemma attends_rouse (k : Callback) (p : Pc Key) : attends k (rouse p) = attends k p := by
  cases p with
  | asleep op start => cases k <;> rfl
  | _ => rfl

lemma attends_same {c : ℕ} (h : SameFor c d d') (ha : Attending c d t) (k : Callback) :
    attends k (d'.pc t) = attends k (d.pc t) := by
  rcases h.pc t ha with hpc | hpc
  · rw [hpc]
  · rw [hpc, attends_rouse]

/-- An action that is no thread's turn leaves the threads of a client as they are, unless it is
a request of that client. -/
lemma same_of_quiet {a : Action} {c : ℕ} (hd : Daemon.step L cfg d a = some d')
    (ha : ∀ t env expired, a ≠ .run t env expired)
    (hc : ∀ t id method params, a ≠ .request t c id method params) : SameFor c d d' := by
  have hrefl {d' : State Key} (ho : d'.origin = d.origin)
      (hpc : ∀ t, d'.pc t = d.pc t ∨ d'.pc t = rouse (d.pc t) ∨
        (serves (d.pc t) = false ∧ serves (d'.pc t) = false)) : SameFor c d d' := by
    have hserves : ∀ t, serves (d'.pc t) = serves (d.pc t) := by
      intro t
      rcases hpc t with h | h | ⟨h, h'⟩
      · rw [h]
      · rw [h, serves_rouse]
      · rw [h, h']
    refine ⟨fun t ht => ?_, fun t ht => ?_, fun t _ => by rw [ho], fun t ht => ?_⟩
    · rwa [Attending, hserves, ho] at ht
    · rwa [Attending, hserves, ho]
    · rcases hpc t with h | h | ⟨h, -⟩
      · exact .inl h
      · exact .inr h
      · have hs := ht.1
        rw [h] at hs
        cases hs
  cases stepped hd with
  | run t env expired => exact absurd rfl (ha t env expired)
  | connect | disconnect => exact hrefl rfl fun t => .inl rfl
  | tick u hidle =>
    refine hrefl rfl fun t => ?_
    by_cases htu : t = u
    · subst htu
      rw [hidle]
      exact .inr (.inr ⟨rfl, by simp [State.withPc, serves]⟩)
    · exact .inl (by simp [State.withPc, Function.update_of_ne htu])
  | rouse u op start hpc =>
    refine hrefl rfl fun t => ?_
    by_cases htu : t = u
    · subst htu
      refine .inr (.inl ?_)
      simp [State.withPc, hpc, rouse]
    · exact .inl (by simp [State.withPc, Function.update_of_ne htu])
  | request u b id method params hidle =>
    have hbc : b ≠ c := by
      rintro rfl
      exact hc u id method params rfl
    have hother : ∀ t, t ≠ u → (Function.update d.origin u (b, id)) t = d.origin t ∧
        (Function.update d.pc u (.dispatch method params)) t = d.pc t :=
      fun t ht => ⟨Function.update_of_ne ht _ _, Function.update_of_ne ht _ _⟩
    have hnot {t : ℕ} (ht : Attending c d t) : t ≠ u := by
      rintro rfl
      have hs := ht.1
      rw [hidle] at hs
      cases hs
    refine ⟨fun t ht => ?_, fun t ht => ?_, fun t ht => (hother t (hnot ht)).1,
      fun t ht => .inl (hother t (hnot ht)).2⟩
    · have htu : t ≠ u := by
        rintro rfl
        refine hbc ?_
        have horigin := ht.2
        simpa [State.withPc] using horigin
      simpa [Attending, State.withPc, Function.update_of_ne htu] using ht
    · have htu := hnot ht
      simpa [Attending, State.withPc, Function.update_of_ne htu] using ht

lemma attends_dispatch {k : Callback} {method : String} {params : Json}
    (h : k.fits method = true) : attends k (.dispatch method params : Pc Key) = true := by
  cases k with
  | handshake => exact h
  | promptCreate => simp_all [attends, submitting, Callback.fits]
  | promptUnlock => simp_all [attends, submitting, Callback.fits]
  | status | promptStatus | other => rfl

/-! ### A thread's turn -/

lemma hear_turn (hd : Daemon.step L cfg d (.run t env expired) = some d') :
    x.hear d.shared.channel d'.shared.channel =
      { x with wire := x.wire ++ match x.link.client with
        | some c => spoken d.shared (d.pc t) (d.origin t) c
        | none => [] } := by
  obtain ⟨p, hexec, -, -⟩ := step_run hd
  cases hc : x.link.client with
  | some c =>
    simp only [Seat.hear, hc]
    rw [exec_spoken hexec c, List.drop_left]
  | none => simp only [Seat.hear, hc, List.append_nil]

lemma response_spoken {sh : Shared Key} {p : Pc Key} {origin : ℕ × ℕ} {c id : ℕ}
    {r : Except Err Reply} (h : .response id r ∈ spoken sh p origin c) :
    p = .respond r ∧ origin = (c, id) := by
  cases p with
  | announceUnlocked k | announceLocked timer | signal op =>
    simp only [spoken] at h
    split at h <;> simp at h
  | respond r' =>
    simp only [spoken] at h
    split at h
    · rename_i hc
      simp only [List.mem_singleton, Line.response.injEq] at h
      obtain ⟨rfl, rfl⟩ := h
      exact ⟨rfl, by rw [hc]⟩
    · cases h
  | _ => cases h

lemma turn_threads (hd : Daemon.step L cfg d (.run t env expired) = some d') {c : ℕ} {u : ℕ}
    (hu : Attending c d' u) : Attending c d u ∧
      ∀ k, attends k (d.pc u) = true → attends k (d'.pc u) = true := by
  obtain ⟨p, hexec, hp, hothers⟩ := step_run hd
  have horigin := origin_run hd
  rw [Attending, horigin] at hu
  by_cases hut : u = t
  · subst hut
    have hserving := exec_serving hexec
    rw [hp] at hu ⊢
    refine ⟨⟨hserving.born hu.1, hu.2⟩, fun k hk => ?_⟩
    cases k with
    | handshake => exact hserving.greets hk hu.1
    | promptCreate | promptUnlock => exact hserving.submits hk hu.1
    | status | promptStatus | other => rfl
  · rw [hothers u hut] at hu ⊢
    split
    · rename_i hn
      rw [if_pos hn, serves_rouse] at hu
      exact ⟨hu, fun k hk => by rw [attends_rouse]; exact hk⟩
    · rename_i hn
      rw [if_neg hn] at hu
      exact ⟨hu, fun k hk => hk⟩

lemma turn_stays (hd : Daemon.step L cfg d (.run t env expired) = some d') {c : ℕ} {u : ℕ}
    (hu : Attending c d u) : Attending c d' u ∨ (u = t ∧ ∃ r, d.pc t = .respond r) := by
  obtain ⟨p, hexec, hp, hothers⟩ := step_run hd
  have horigin := origin_run hd
  by_cases hut : u = t
  · subst hut
    rcases (exec_serving hexec).stays hu.1 with hserves | hr
    · exact .inl ⟨by rw [hp]; exact hserves, by rw [horigin]; exact hu.2⟩
    · exact .inr ⟨rfl, hr⟩
  · left
    refine ⟨?_, by rw [horigin]; exact hu.2⟩
    rw [hothers u hut]
    split
    · rw [serves_rouse]
      exact hu.1
    · exact hu.1

lemma agent_clients {a : Action} (hd : Daemon.step L cfg d a = some d')
    (h : ∀ c ∈ d.shared.clients, c < d.shared.nextClient) :
    d.shared.nextClient ≤ d'.shared.nextClient ∧
      ∀ c ∈ d'.shared.clients, c < d'.shared.nextClient := by
  by_cases ha : ∃ t env expired, a = .run t env expired
  · obtain ⟨t, env, expired, rfl⟩ := ha
    obtain ⟨p, hexec, -, -⟩ := step_run hd
    have htold := Announce.exec_told hexec
    rw [htold.clients, htold.nextClient]
    exact ⟨le_rfl, h⟩
  · have hq := step_quiet hd fun t env expired heq => ha ⟨t, env, expired, heq⟩
    refine ⟨hq.nextClient, fun c hc => ?_⟩
    rcases hq.clients c hc with hold | ⟨-, hnext⟩
    · exact lt_of_lt_of_le (h c hold) hq.nextClient
    · omega

end LvimKeyring.Editors
