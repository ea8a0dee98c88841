import LvimKeyring.Daemon
import LvimKeyring.Sample
import LvimKeyring.Serving

/-!
The order in which the requests of a connection take effect.

Every request is served by a thread of its own, so requests written back to back can overtake
each other. A request served alone does in its sections what it does handled at one stroke, and
requests that each wait for the reply to the one before take effect in the order they are sent.
-/

namespace LvimKeyring.Ordering

open Rpc Crypto Vault Server Daemon Transition
open Editors (spoken exec_spoken)

variable {Key : Type}

/-! ### Handling requests one after another -/

/-- A request as it is written. -/
structure Sent where
  id : ℕ
  method : String
  params : Json

/-- The state after a list of requests, each handled at one stroke in an environment of its own,
and the answers to them. -/
def handled (L : Packages Key) (cfg : Config) :
    World Key → List (Env × Sent) → World Key × List (ℕ × Except Err Reply)
  | w, [] => (w, [])
  | w, (env, r) :: rs =>
    let o := Server.dispatch L cfg env w r.method r.params
    let (w', answers) := handled L cfg o.world rs
    (w', (r.id, o.reply) :: answers)

/-- Everything in an environment is from one of some others. -/
structure Mixed (es : List Env) (e : Env) : Prop where
  now : ∃ a ∈ es, e.now = a.now
  clock : ∃ a ∈ es, e.clock = a.clock
  salt : ∃ a ∈ es, e.salt = a.salt
  nonce : ∃ a ∈ es, e.nonce = a.nonce
  random : ∃ a ∈ es, e.random = a.random
  fails : ∀ call, ∃ a ∈ es, e.io.fails call = a.io.fails call
  torn : ∃ a ∈ es, e.io.torn = a.io.torn

/-! ### The statement -/

/-- A step of the handlers of a connection, or a request on it. -/
def Action.on (c : ℕ) : Action → Prop
  | .request _ b _ _ _ => b = c
  | .run _ _ _ | .rouse _ => True
  | .connect | .disconnect _ | .tick _ => False

instance (c : ℕ) : DecidablePred (Action.on c)
  | .request _ b _ _ _ => inferInstanceAs (Decidable (b = c))
  | .run _ _ _ | .rouse _ => isTrue trivial
  | .connect | .disconnect _ | .tick _ => isFalse id

/-- The requests of a schedule, in the order they are written. -/
def sent : List Action → List Sent
  | [] => []
  | .request _ _ id method params :: as => ⟨id, method, params⟩ :: sent as
  | _ :: as => sent as

/-- The environments the sections of a schedule meet. -/
def environments : List Action → List Env
  | [] => []
  | .run _ env _ :: as => env :: environments as
  | _ :: as => environments as

def Line.answer : Line → Option (ℕ × Except Err Reply)
  | .response id r => some (id, r)
  | .note _ => none

/-- The responses on a channel. -/
def answers (d : State Key) (c : ℕ) : List (ℕ × Except Err Reply) :=
  (d.shared.channel c).filterMap Line.answer

/-- The session, the vault file and the replies are those of handling the requests of a schedule
one after another in the order they were sent. -/
def InOrder (L : Packages Key) (cfg : Config) (c : ℕ) (d₀ : State Key) (as : List Action)
    (d : State Key) : Prop :=
  ∃ rs : List (Env × Sent), rs.map Prod.snd = sent as ∧
    (∀ r ∈ rs, Mixed (environments as) r.1) ∧
    d.shared.session = (handled L cfg d₀.shared.world rs).1.inner.session ∧
    d.shared.world.fs cfg.vaultPath = (handled L cfg d₀.shared.world rs).1.fs cfg.vaultPath ∧
    (answers d c).Perm (answers d₀ c ++ (handled L cfg d₀.shared.world rs).2)

/-- Requests of one connection take effect in the order sent. -/
def TakeEffectInOrder : Prop :=
  ∀ (Key : Type) (L : Packages Key) (cfg : Config) (c : ℕ) (d₀ : State Key) (as : List Action)
    (d : State Key), (∀ t, d₀.pc t = .idle) → (∀ a ∈ as, Action.on c a) →
    run (step L cfg) d₀ as = some d → (∀ t, d.pc t = .idle) → InOrder L cfg c d₀ as d

/-- The thread that serves the last request written. -/
def lastThread (g : Option ℕ) (_ : State Key) : Action → State Key → Option ℕ
  | .request t _ _ _ _, _ => some t
  | _, _ => g

/-- A request is written once the one before it has been answered. -/
def Waits (x : Option ℕ × State Key) : Action → Bool
  | .request _ _ _ _ _ => x.1.all fun t => (x.2.pc t).isIdle
  | _ => true

/-! ### Environments -/

lemma Mixed.of_mem {es : List Env} {e : Env} (h : e ∈ es) : Mixed es e :=
  ⟨⟨e, h, rfl⟩, ⟨e, h, rfl⟩, ⟨e, h, rfl⟩, ⟨e, h, rfl⟩, ⟨e, h, rfl⟩, fun _ => ⟨e, h, rfl⟩,
    ⟨e, h, rfl⟩⟩

lemma traced {α : Type} {f : Env → α} {es es' : List Env} {e : Env} (h : ∃ a ∈ es, f e = f a)
    (hes : ∀ a ∈ es, ∃ b ∈ es', f a = f b) : ∃ b ∈ es', f e = f b := by
  obtain ⟨a, ha, heq⟩ := h
  obtain ⟨b, hb, heq'⟩ := hes a ha
  exact ⟨b, hb, heq.trans heq'⟩

lemma Mixed.trans {es es' : List Env} {e : Env} (h : Mixed es e) (hes : ∀ a ∈ es, Mixed es' a) :
    Mixed es' e where
  now := traced h.now fun a ha => (hes a ha).now
  clock := traced h.clock fun a ha => (hes a ha).clock
  salt := traced h.salt fun a ha => (hes a ha).salt
  nonce := traced h.nonce fun a ha => (hes a ha).nonce
  random := traced h.random fun a ha => (hes a ha).random
  fails call := traced (h.fails call) fun a ha => (hes a ha).fails call
  torn := traced h.torn fun a ha => (hes a ha).torn

lemma Mixed.mono {es es' : List Env} {e : Env} (h : Mixed es e) (hsub : es ⊆ es') : Mixed es' e :=
  h.trans fun _ ha => .of_mem (hsub ha)

/-! ### What is left of a request -/

/-- What a request leaves behind, and its answer. -/
abbrev Result (Key : Type) := World Key × Except Err Reply

def resultOf (o : Outcome Key) : Result Key := (o.world, o.reply)

/-- The answer of a request that has installed a session. -/
def answerOf (k : Installer) (w : World Key) : Reply :=
  match k with
  | .unlock _ => .listing ((w.inner.session.map fun s => summaries s.body).getD [])
  | .create _ | .rotate _ _ => .unit

def installed (w : World Key) (s : Session Key) : World Key :=
  { w with inner := { w.inner with session := some s, failCount := 0 } }

def written (w : World Key) (k : Installer) : FileSystem × Except Err (Session Key) → Result Key
  | (fs, .ok s) =>
    let w' := installed { w with fs } s
    (w', .ok (answerOf k w'))
  | (fs, .error e) => ({ w with fs }, .error e)

variable (L : Packages Key) (cfg : Config)

/-- What comes of a request from the section its thread is in, handled from there on at one
stroke. -/
def finish (env : Env) (w : World Key) : Pc Key → Result Key
  | .dispatch method params => resultOf (Server.dispatch L cfg env w method params)
  | .call c => resultOf (exec L cfg env w c)
  | .createWrite password =>
    written w (.create password)
      (createAbsent L.toLibrary env.io w.fs cfg.vaultPath (asBytes password) cfg.kdf env.salt
        env.nonce)
  | .rotateWrite current old new =>
    written w (.rotate old new)
      (rotateRead L.toLibrary env.io w.fs cfg.vaultPath current (asBytes new) cfg.kdf env.salt
        env.nonce)
  | .install s k => (installed w s, .ok (answerOf k (installed w s)))
  | .resetFails k =>
    let w' := { w with inner := { w.inner with failCount := 0 } }
    (w', .ok (answerOf k w'))
  | .announceUnlocked k | .wake k => (w, .ok (answerOf k w))
  | .unlockedSummaries =>
    (w, .ok (.listing ((w.inner.session.map fun s => summaries s.body).getD [])))
  | .countFailure e =>
    ({ w with inner := { w.inner with failCount := min (w.inner.failCount + 1) maxFails } },
      .error e)
  | .announceLocked _ | .wakeCancelled => (w, .ok .unit)
  | .park op | .signal op | .capture op | .recheck op _ | .decide op _ | .asleep op _
  | .woken op _ | .access op => resultOf (Server.withSession L cfg env false op w)
  | .queryExists full _ | .querySummaries full _ _ =>
    (w, .ok (if full then status cfg env w else hello cfg w))
  | .queryLocked _ _ _ | .queryIdle _ _ _ => (w, .ok (status cfg env w))
  | .respond r => (w, r)
  -- the sections of no request
  | .idle | .tickLocked | .tickIdle | .tickTake => (w, .ok .unit)

/-- What a thread has seen is still so, and it serves a request. -/
def Fresh (w : World Key) : Pc Key → Prop
  | .idle | .tickLocked | .tickIdle | .tickTake => False
  | .announceLocked timer => timer = false
  | .decide _ _ | .asleep _ _ => w.inner.session = none
  | .queryExists _ locked => locked = w.inner.isLocked
  | .querySummaries _ locked ex => locked = w.inner.isLocked ∧ ex = fileExists w.fs cfg.vaultPath
  | .queryLocked locked ex entries =>
    locked = w.inner.isLocked ∧ ex = fileExists w.fs cfg.vaultPath ∧
      entries = (w.inner.session.map fun s => summaries s.body) ∧ cfg.lockTimeout ≠ 0
  | .queryIdle locked ex entries =>
    locked = w.inner.isLocked ∧ ex = fileExists w.fs cfg.vaultPath ∧
      entries = (w.inner.session.map fun s => summaries s.body) ∧ cfg.lockTimeout ≠ 0 ∧
      w.inner.session.isSome
  | _ => True

variable {L cfg} {env : Env} {expired : Bool} {t : ℕ} {origin : ℕ × ℕ} {sh sh' : Shared Key}
  {p p' : Pc Key}

/-- What a section leaves to be done comes, in any environment, to what there was to be done
before it, in an environment that has what the section itself has met from there. -/
structure Continues (L : Packages Key) (cfg : Config) (env : Env) (w : World Key) (p : Pc Key)
    (w' : World Key) (p' : Pc Key) : Prop where
  fresh : Fresh cfg w' p'
  finish : ∀ later, ∃ e, Mixed [env, later] e ∧ finish L cfg e w p = finish L cfg later w' p'

lemma mixed_later (env later : Env) : Mixed [env, later] later :=
  .of_mem (List.mem_cons_of_mem _ (List.mem_singleton_self _))

lemma Continues.of_eq {w w' : World Key} (hfresh : Fresh cfg w' p')
    (h : ∀ e, Ordering.finish L cfg e w p = Ordering.finish L cfg e w' p') :
    Continues L cfg env w p w' p' :=
  ⟨hfresh, fun later => ⟨later, mixed_later env later, h later⟩⟩

lemma Continues.of_now {w w' : World Key} (hfresh : Fresh cfg w' p')
    (h : ∀ e, Ordering.finish L cfg env w p = Ordering.finish L cfg e w' p') :
    Continues L cfg env w p w' p' :=
  ⟨hfresh, fun later => ⟨env, .of_mem List.mem_cons_self, h later⟩⟩

/-! ### The sections -/

lemma resultOf_withSession (wait : Bool) (op : Op) (w : World Key) :
    resultOf (Server.withSession L cfg env wait op w)
      = resultOf (Server.withSession L cfg env false op w) := by
  unfold Server.withSession
  cases w.inner.session with
  | none => rfl
  | some s => rfl

lemma resultOf_withSession_none {op : Op} {w : World Key} (h : w.inner.session = none) :
    resultOf (Server.withSession L cfg env false op w) = (w, .error .locked) := by
  simp only [Server.withSession, h]
  rfl

/-- Reading the requests' parameters takes the random bytes and, for the idle timer, the time. -/
lemma continues_dispatch {method : String} {params : Json}
    (h : (Pc.dispatch method params).exec L cfg env expired t origin sh = some (sh', p')) :
    Continues L cfg env sh.world (.dispatch method params) sh'.world p' := by
  simp only [Pc.exec] at h
  -- The time a request is counted as use at matters only if it does count.
  have hworld : ∀ e : Env, (touches method = true → e.clock = env.clock) →
      (if touches method then touch e sh.world else sh.world)
        = (if touches method then { sh with world := touch env sh.world } else sh).world := by
    intro e hclock
    cases htouch : touches method with
    | true => simp only [if_true, touch, hclock htouch]
    | false => rfl
  cases hprepare : prepare env.random method params with
  | error err =>
    rw [hprepare] at h
    cases h
    refine ⟨trivial, fun later => ⟨env, .of_mem List.mem_cons_self, ?_⟩⟩
    simp only [finish, Server.dispatch, hprepare, resultOf, Outcome.of, hworld env fun _ => rfl]
  -- Only the random bytes and the time of this section are used; the rest is for later ones.
  | ok c =>
    rw [hprepare] at h
    cases h
    refine ⟨trivial, fun later => ?_⟩
    refine ⟨{ later with random := env.random
                         clock := if touches method then env.clock else later.clock }, ?_, ?_⟩
    · refine ⟨?_, ?_, ?_, ?_, ⟨env, List.mem_cons_self, rfl⟩, fun call => ?_, ?_⟩
      · exact ⟨later, by simp, rfl⟩
      · cases touches method
        · exact ⟨later, by simp, rfl⟩
        · exact ⟨env, by simp, rfl⟩
      all_goals exact ⟨later, by simp, rfl⟩
    · have hsame := hworld { later with
          random := env.random
          clock := if touches method then env.clock else later.clock } fun ht => if_pos ht
      simp only [finish, Server.dispatch, hprepare, hsame]
      cases c with
      | status =>
        -- asking for the status is no use of the vault
        have hquiet : touches method = false := by
          rw [prepare_method hprepare]
          rfl
        simp only [hquiet]
        rfl
      | _ => rfl

/-- Faults met in reading from one environment, and in writing from another. -/
def readThenWrite (io io' : Faults) : Faults :=
  { io' with fails := Function.update io'.fails .read (io.fails .read) }

lemma unlock_readThenWrite (L : Library Key) (io io' : Faults) (fs : FileSystem) (path : String)
    (pw : Bytes) :
    Vault.unlock L (readThenWrite io io') fs path pw = Vault.unlock L io fs path pw :=
  rfl

lemma rotateRead_readThenWrite (L : Library Key) (io io' : Faults) (fs : FileSystem)
    (path : String) (current : Session Key) (pw : Bytes) (kdf : KdfParams) (salt : Salt)
    (nonce : Nonce) : rotateRead L (readThenWrite io io') fs path current pw kdf salt nonce
      = rotateRead L io' fs path current pw kdf salt nonce := rfl

lemma continues_rotate {old new : String}
    (h : begin L cfg env sh (.rotate old new) = some (sh', p')) :
    Continues L cfg env sh.world (.call (.rotate old new)) sh'.world p' := by
  simp only [begin] at h
  cases hread : Vault.unlock L.toLibrary env.io sh.world.fs cfg.vaultPath (asBytes old) with
  | error e =>
    rw [hread] at h
    cases h
    refine .of_now trivial fun _ => ?_
    simp only [finish, exec, Server.rotate, Vault.rotate, hread]
    rfl
  | ok s =>
    rw [hread] at h
    cases h
    refine ⟨trivial, fun later => ?_⟩
    refine ⟨{ later with io := readThenWrite env.io later.io }, ?_, ?_⟩
    · refine ⟨?_, ?_, ?_, ?_, ?_, fun call => ?_, ?_⟩
      case refine_6 =>
        by_cases hcall : call = .read
        · exact ⟨env, by simp, by simp [readThenWrite, hcall]⟩
        · exact ⟨later, by simp, by simp [readThenWrite, hcall]⟩
      all_goals exact ⟨later, by simp, rfl⟩
    · simp only [finish, exec, Server.rotate, Vault.rotate, unlock_readThenWrite, hread,
        rotateRead_readThenWrite]
      rcases rotateRead L.toLibrary later.io sh.world.fs cfg.vaultPath s (asBytes new) cfg.kdf
        later.salt later.nonce with ⟨fs, r⟩
      cases r <;> rfl

/-- The first section of a handler. -/
lemma continues_begin {c : Call} (h : begin L cfg env sh c = some (sh', p')) :
    Continues L cfg env sh.world (.call c) sh'.world p' := by
  cases c with
  | rotate old new => exact continues_rotate h
  | hello | status =>
    cases h
    exact .of_eq rfl fun _ => rfl
  | bare value =>
    cases h
    exact .of_eq trivial fun _ => rfl
  | create password =>
    simp only [begin] at h
    cases hfile : fileExists sh.world.fs cfg.vaultPath with
    | true =>
      rw [hfile] at h
      cases h
      refine .of_eq trivial fun e => ?_
      simp only [finish, exec, Server.create, Vault.create, hfile]
      rfl
    | false =>
      rw [hfile] at h
      cases h
      refine .of_eq trivial fun e => ?_
      simp only [finish, exec, Server.create, Vault.create, hfile]
      rcases createAbsent L.toLibrary e.io sh.world.fs cfg.vaultPath (asBytes password) cfg.kdf
        e.salt e.nonce with ⟨fs, r⟩
      cases r <;> rfl
  | unlock password =>
    simp only [begin] at h
    cases hread : Vault.unlock L.toLibrary env.io sh.world.fs cfg.vaultPath (asBytes password) with
    | ok s =>
      rw [hread] at h
      cases h
      refine .of_now trivial fun _ => ?_
      simp only [finish, exec, Server.unlock, hread]
      rfl
    | error e =>
      rw [hread] at h
      cases h
      refine .of_now trivial fun _ => ?_
      simp only [finish, exec, Server.unlock, hread]
      rfl
  | lock =>
    cases hsession : sh.session with
    | none =>
      simp only [begin, hsession] at h
      cases h
      exact .of_eq trivial fun _ => rfl
    | some s =>
      simp only [begin, hsession] at h
      cases h
      exact .of_eq rfl fun _ => rfl
  | unlockCancel =>
    simp only [begin] at h
    split at h <;> cases h
    exact .of_eq trivial fun _ => rfl
  | session wait op =>
    simp only [begin] at h
    cases hsession : sh.session with
    | some s =>
      rw [hsession] at h
      cases h
      exact .of_eq trivial fun e => resultOf_withSession wait op sh.world
    | none =>
      rw [hsession] at h
      cases h
      cases wait with
      | true => exact .of_eq trivial fun e => resultOf_withSession true op sh.world
      | false => exact .of_eq trivial fun e => resultOf_withSession_none hsession

lemma continues_afterWrite {k : Installer} {r : FileSystem × Except Err (Session Key)}
    (hp : finish L cfg env sh.world p = written sh.world k r)
    (h : afterWrite sh k r = (sh', p')) : Continues L cfg env sh.world p sh'.world p' := by
  obtain ⟨fs, e | s⟩ := r
  · cases h
    exact .of_now trivial fun _ => hp
  · cases h
    exact .of_now trivial fun _ => hp

theorem exec_continues (hfresh : Fresh cfg sh.world p)
    (h : p.exec L cfg env expired t origin sh = some (sh', p')) (hp : ∀ r, p ≠ .respond r) :
    Continues L cfg env sh.world p sh'.world p' := by
  -- The sections are those of `Pc.exec`; only the ones that read the session, the clock or random
  -- bytes have something to show.
  cases p with
  | idle | tickLocked | tickIdle | tickTake => exact hfresh.elim
  | respond r => exact absurd rfl (hp r)
  | asleep => cases h
  | dispatch method params => exact continues_dispatch h
  | call c => exact continues_begin h
  | createWrite password =>
    exact continues_afterWrite rfl (Option.some.inj h)
  | rotateWrite current old new =>
    exact continues_afterWrite rfl (Option.some.inj h)
  | access op =>
    cases h
    exact .of_now trivial fun _ => rfl
  | install s k | resetFails k | announceUnlocked k | unlockedSummaries | countFailure e
  | wakeCancelled | signal op =>
    cases h
    exact .of_eq trivial fun _ => rfl
  | wake k =>
    cases k <;> cases h <;> exact .of_eq trivial fun _ => rfl
  | announceLocked timer =>
    obtain rfl : timer = false := hfresh
    cases h
    exact .of_eq trivial fun _ => rfl
  | park op =>
    cases h
    split <;> exact .of_eq trivial fun _ => rfl
  | capture op | woken op start =>
    simp only [Pc.exec] at h
    split at h <;> cases h
    exact .of_eq trivial fun _ => rfl
  | recheck op start =>
    simp only [Pc.exec] at h
    split at h
    · cases h
      exact .of_eq trivial fun _ => rfl
    · rename_i hlocked
      cases h
      have hnone : sh.world.inner.session = none := Option.not_isSome_iff_eq_none.mp hlocked
      exact .of_eq hnone fun _ => rfl
  -- Locked at the last look is locked now: nobody else has run in between.
  | decide op start =>
    have hnone : sh.world.inner.session = none := hfresh
    simp only [Pc.exec] at h
    split at h
    · cases h
      exact .of_eq trivial fun _ => resultOf_withSession_none hnone
    · cases h
      exact .of_eq hnone fun _ => rfl
  | queryExists full locked =>
    cases h
    exact .of_eq ⟨hfresh, rfl⟩ fun _ => rfl
  | querySummaries full locked ex =>
    obtain ⟨rfl, rfl⟩ := hfresh
    simp only [Pc.exec, Option.some.injEq, Prod.mk.injEq] at h
    obtain ⟨rfl, rfl⟩ := h
    cases full with
    | false => exact .of_eq trivial fun _ => rfl
    | true =>
      by_cases htimeout : cfg.lockTimeout = 0
      · simp only [htimeout]
        refine .of_eq trivial fun e => ?_
        simp only [finish, status, autolockIn, htimeout]
        rfl
      · simp only [htimeout, if_false]
        exact .of_eq ⟨rfl, rfl, rfl, htimeout⟩ fun _ => rfl
  | queryLocked locked ex entries =>
    obtain ⟨rfl, rfl, rfl, htimeout⟩ := hfresh
    simp only [Pc.exec, Option.some.injEq, Prod.mk.injEq] at h
    obtain ⟨rfl, rfl⟩ := h
    cases hsession : sh.session with
    | none =>
      have hnone : sh.world.inner.session = none := hsession
      refine .of_eq trivial fun e => ?_
      simp only [finish, status, autolockIn, Inner.isLocked, hnone]
      simp
    | some s =>
      have hsome : sh.world.inner.session = some s := hsession
      refine .of_eq ⟨rfl, rfl, rfl, htimeout, by rw [hsome]; rfl⟩ fun _ => rfl
  | queryIdle locked ex entries =>
    obtain ⟨rfl, rfl, rfl, htimeout, hsome⟩ := hfresh
    cases h
    refine .of_now trivial fun _ => ?_
    have hopen : sh.world.inner.isLocked = false := by
      rw [Inner.isLocked, ← Option.not_isSome, hsome]
      rfl
    simp only [finish, status, autolockIn, htimeout, hopen]
    simp

/-! ### A run -/

variable {c : ℕ} {d d' : State Key} {as : List Action} {g : Option ℕ}

/-- All the threads are idle but one, which serves a request of the connection. -/
structure Busy (cfg : Config) (c : ℕ) (d : State Key) (t id : ℕ) : Prop where
  origin : d.origin t = (c, id)
  fresh : Fresh cfg d.shared.world (d.pc t)
  others : ∀ u, u ≠ t → d.pc u = .idle

/-- What a run makes of the requests written in it. -/
def Done (L : Packages Key) (cfg : Config) (c : ℕ) (d : State Key) (as : List Action)
    (d' : State Key) : Prop :=
  ∃ rs : List (Env × Sent), rs.map Prod.snd = sent as ∧
    (∀ r ∈ rs, Mixed (environments as) r.1) ∧
    d'.shared.world = (handled L cfg d.shared.world rs).1 ∧
    answers d' c = answers d c ++ (handled L cfg d.shared.world rs).2

/-- What a run makes of the request that thread `t` serves, and of those written after it. -/
def Rest (L : Packages Key) (cfg : Config) (c : ℕ) (d : State Key) (t id : ℕ) (as : List Action)
    (d' : State Key) : Prop :=
  ∃ (e : Env) (w : World Key) (r : Except Err Reply) (rs : List (Env × Sent)),
    Mixed (environments as) e ∧ finish L cfg e d.shared.world (d.pc t) = (w, r) ∧
    rs.map Prod.snd = sent as ∧ (∀ r ∈ rs, Mixed (environments as) r.1) ∧
    d'.shared.world = (handled L cfg w rs).1 ∧
    answers d' c = answers d c ++ (id, r) :: (handled L cfg w rs).2

lemma not_idle_of_fresh {w : World Key} (h : Fresh cfg w p) : p.isIdle = false := by
  cases p with
  | idle => exact h.elim
  | _ => rfl

lemma spoken_answers (sh : Shared Key) (hp : ∀ r, p ≠ .respond r) (origin : ℕ × ℕ) (c : ℕ) :
    (spoken sh p origin c).filterMap Line.answer = [] := by
  cases p with
  | respond r => exact absurd rfl (hp r)
  | announceUnlocked | announceLocked | signal =>
    simp only [spoken]
    split <;> rfl
  | _ => rfl

lemma answers_run (h : step L cfg d (.run t env expired) = some d') (c : ℕ) :
    answers d' c = answers d c ++ (spoken d.shared (d.pc t) (d.origin t) c).filterMap
      Line.answer := by
  obtain ⟨p, hexec, -, -⟩ := step_run h
  rw [answers, exec_spoken hexec, List.filterMap_append]
  rfl

lemma others_run (h : step L cfg d (.run t env expired) = some d')
    (hothers : ∀ u, u ≠ t → d.pc u = .idle) : ∀ u, u ≠ t → d'.pc u = .idle := by
  obtain ⟨-, -, -, hrest⟩ := step_run h
  intro u hu
  rw [hrest u hu, hothers u hu]
  split <;> rfl

lemma respond_run {r : Except Err Reply} {id : ℕ} (hbusy : Busy cfg c d t id)
    (hp : d.pc t = .respond r) (h : step L cfg d (.run t env expired) = some d') :
    (∀ u, d'.pc u = .idle) ∧ d'.shared.world = d.shared.world ∧
      answers d' c = answers d c ++ [(id, r)] := by
  obtain ⟨p, hexec, hp', -⟩ := step_run h
  have hans := answers_run h c
  rw [hp] at hexec hans
  simp only [Pc.exec, Option.some.injEq, Prod.mk.injEq] at hexec
  obtain ⟨hsh, rfl⟩ := hexec
  refine ⟨fun u => ?_, by rw [← hsh]; rfl, ?_⟩
  · by_cases hu : u = t
    · rw [hu, hp']
    · exact others_run h hbusy.others u hu
  · rw [hans, hbusy.origin]
    simp [spoken, Line.answer]

lemma busy_run {id : ℕ} (hbusy : Busy cfg c d t id) (hp : ∀ r, d.pc t ≠ .respond r)
    (h : step L cfg d (.run t env expired) = some d') :
    Busy cfg c d' t id ∧ answers d' c = answers d c ∧
      Continues L cfg env d.shared.world (d.pc t) d'.shared.world (d'.pc t) := by
  obtain ⟨p, hexec, hp', -⟩ := step_run h
  have hcontinues := exec_continues hbusy.fresh hexec hp
  rw [← hp'] at hcontinues
  refine ⟨⟨?_, hcontinues.fresh, others_run h hbusy.others⟩, ?_, hcontinues⟩
  · rw [origin_run h, hbusy.origin]
  · rw [answers_run h, spoken_answers d.shared hp, List.append_nil]

lemma busy_request {id : ℕ} {method : String} {params : Json} (hidle : ∀ u, d.pc u = .idle)
    (h : step L cfg d (.request t c id method params) = some d') :
    Busy cfg c d' t id ∧ d'.pc t = .dispatch method params ∧
      d'.shared = d.shared := by
  obtain ⟨hshared, -, hpc, horigin, -, hothers⟩ := request_threads h
  refine ⟨⟨horigin, ?_, fun u hu => ?_⟩, hpc, hshared⟩
  · rw [hpc]
    trivial
  · rw [(hothers u hu).1]
    exact hidle u

lemma done_of_request {id : ℕ} {method : String} {params : Json} {d₁ : State Key}
    (hpc : d₁.pc t = .dispatch method params) (hshared : d₁.shared = d.shared)
    (h : Rest L cfg c d₁ t id as d') :
    Done L cfg c d (.request t c id method params :: as) d' := by
  obtain ⟨e, w, r, rs, hmixed, hfinish, hsent, hrs, hworld, hans⟩ := h
  rw [hpc, hshared] at hfinish
  obtain ⟨rfl, rfl⟩ := Prod.mk.inj hfinish
  refine ⟨(e, ⟨id, method, params⟩) :: rs, ?_, ?_, hworld, ?_⟩
  · simp only [List.map_cons, hsent, sent]
  · rintro r hr
    rcases List.mem_cons.mp hr with rfl | hr
    · exact hmixed
    · exact hrs r hr
  · rw [hans, answers, answers, hshared]
    rfl

lemma rest_of_respond {r : Except Err Reply} {id : ℕ} {d₁ : State Key}
    (hpc : d.pc t = .respond r) (hworld₁ : d₁.shared.world = d.shared.world)
    (hans₁ : answers d₁ c = answers d c ++ [(id, r)]) (h : Done L cfg c d₁ as d') :
    Rest L cfg c d t id (.run t env expired :: as) d' := by
  obtain ⟨rs, hsent, hrs, hworld, hans⟩ := h
  refine ⟨env, d.shared.world, r, rs, .of_mem List.mem_cons_self, by rw [hpc]; rfl, hsent,
    fun r hr => (hrs r hr).mono (List.subset_cons_self _ _), ?_, ?_⟩
  · rw [hworld, hworld₁]
  · rw [hans, hans₁, hworld₁, List.append_assoc]
    rfl

lemma rest_of_section {id : ℕ} {d₁ : State Key} (hans₁ : answers d₁ c = answers d c)
    (hcontinues : Continues L cfg env d.shared.world (d.pc t) d₁.shared.world (d₁.pc t))
    (h : Rest L cfg c d₁ t id as d') : Rest L cfg c d t id (.run t env expired :: as) d' := by
  obtain ⟨later, w, r, rs, hmixed, hfinish, hsent, hrs, hworld, hans⟩ := h
  obtain ⟨e, he, heq⟩ := hcontinues.finish later
  refine ⟨e, w, r, rs, he.trans fun a ha => ?_, heq.trans hfinish, hsent,
    fun r hr => (hrs r hr).mono (List.subset_cons_self _ _), hworld, ?_⟩
  · rcases List.mem_cons.mp ha with rfl | ha
    · exact .of_mem List.mem_cons_self
    · rw [List.mem_singleton.mp ha]
      exact hmixed.mono (List.subset_cons_self _ _)
  · rw [hans, hans₁]

lemma rest_of_rouse {id : ℕ} {d₁ : State Key} (hbusy : Busy cfg c d t id)
    (hs : step L cfg d (.rouse t) = some d₁) : Busy cfg c d₁ t id ∧
      (Rest L cfg c d₁ t id as d' → Rest L cfg c d t id (.rouse t :: as) d') := by
  cases stepped hs with
  | rouse _ op start hpc =>
    have hpc₁ : (d.withPc t (.woken op start)).pc t = .woken op start := Function.update_self _ _ _
    refine ⟨⟨hbusy.origin, ?_, fun u hu => ?_⟩, ?_⟩
    · rw [hpc₁]
      trivial
    · exact (Function.update_of_ne hu _ _).trans (hbusy.others u hu)
    · rintro ⟨e, w, r, rs, hmixed, hfinish, hrest⟩
      rw [hpc₁] at hfinish
      refine ⟨e, w, r, rs, hmixed, ?_, hrest⟩
      rw [hpc]
      exact hfinish

lemma idle_stuck (hidle : ∀ u, d.pc u = .idle) {a : Action}
    (ha : (∃ t env expired, a = .run t env expired) ∨ ∃ t, a = .rouse t) :
    step L cfg d a = none := by
  rcases ha with ⟨t, env, expired, rfl⟩ | ⟨t, rfl⟩
  · simp only [step, hidle t]
    rfl
  · simp only [step, hidle t]

/-- The induction is on the schedule, from a daemon that is idle or busy with one request. -/
theorem done_of_run (hend : ∀ t, d'.pc t = .idle) (as : List Action) (g : Option ℕ)
    (d : State Key) (hwait : Along (track (step L cfg) lastThread) (fun x a => Waits x a) (g, d) as)
    (hon : ∀ a ∈ as, Action.on c a) (hrun : run (step L cfg) d as = some d') :
    ((∀ t, d.pc t = .idle) → Done L cfg c d as d') ∧
      ∀ t id, g = some t → Busy cfg c d t id → Rest L cfg c d t id as d' := by
  induction as generalizing g d with
  | nil =>
    cases hrun
    refine ⟨fun _ => ⟨[], rfl, fun r hr => (by cases hr), rfl, (List.append_nil _).symm⟩, ?_⟩
    intro t id _ hbusy
    have hfalse := not_idle_of_fresh hbusy.fresh
    rw [hend t] at hfalse
    cases hfalse
  | cons a as ih =>
    obtain ⟨d₁, hs, hrest⟩ := run_cons_eq_some.mp hrun
    have htrack : track (step L cfg) lastThread (g, d) a = some (lastThread g d a d₁, d₁) := by
      simp only [track, hs, Option.map_some]
    rw [along_cons htrack] at hwait
    have ha := hon a List.mem_cons_self
    obtain ⟨ihDone, ihRest⟩ := ih (lastThread g d a d₁) d₁ hwait.2
      (fun b hb => hon b (List.mem_cons_of_mem a hb)) hrest
    -- Either nothing is under way, or one request is: the two halves call on each other.
    refine ⟨fun hidle => ?_, fun t id hg hbusy => ?_⟩
    · cases a with
      | request t b id method params =>
        obtain rfl : b = c := ha
        obtain ⟨hbusy, hpc, hshared⟩ := busy_request hidle hs
        exact done_of_request hpc hshared (ihRest t id rfl hbusy)
      | run t env expired =>
        rw [idle_stuck hidle (.inl ⟨t, env, expired, rfl⟩)] at hs
        cases hs
      | rouse t =>
        rw [idle_stuck hidle (.inr ⟨t, rfl⟩)] at hs
        cases hs
      | connect | disconnect | tick => exact ha.elim
    · cases a with
      | request u b id' method params =>
        -- the request before it has not been answered
        have hidle : (d.pc t).isIdle = true := by
          have hall : Option.all (fun t => (d.pc t).isIdle) g = true := hwait.1
          rwa [hg] at hall
        rw [not_idle_of_fresh hbusy.fresh] at hidle
        cases hidle
      | run u env expired =>
        by_cases hu : u = t
        · subst hu
          by_cases hp : ∃ r, d.pc u = .respond r
          · obtain ⟨r, hp⟩ := hp
            obtain ⟨hidle, hworld, hans⟩ := respond_run hbusy hp hs
            exact rest_of_respond hp hworld hans (ihDone hidle)
          · obtain ⟨hbusy₁, hans, hcontinues⟩ := busy_run hbusy (fun r hr => hp ⟨r, hr⟩) hs
            exact rest_of_section hans hcontinues (ihRest u id hg hbusy₁)
        · simp only [step, hbusy.others u hu] at hs
          cases hs
      | rouse u =>
        by_cases hu : u = t
        · subst hu
          obtain ⟨hbusy₁, hrouse⟩ := rest_of_rouse hbusy hs
          exact hrouse (ihRest u id hg hbusy₁)
        · simp only [step, hbusy.others u hu] at hs
          cases hs
      | connect | disconnect | tick => exact ha.elim

/-- Requests of one connection that each wait for the reply to the one before take effect in the
order sent. -/
theorem inOrder_of_waiting (L : Packages Key) (cfg : Config) (c : ℕ) (d₀ : State Key)
    (as : List Action) (d : State Key) (hstart : ∀ t, d₀.pc t = .idle)
    (hon : ∀ a ∈ as, Action.on c a)
    (hwait : Along (track (step L cfg) lastThread) (fun x a => Waits x a) (none, d₀) as)
    (hrun : run (step L cfg) d₀ as = some d) (hend : ∀ t, d.pc t = .idle) :
    InOrder L cfg c d₀ as d := by
  obtain ⟨rs, hsent, hrs, hworld, hans⟩ := (done_of_run hend as none d₀ hwait hon hrun).1 hstart
  refine ⟨rs, hsent, hrs, ?_, ?_, ?_⟩
  · rw [Shared.session, hworld]
  · rw [hworld]
  · rw [hans]

/-! ### Two mutations of one name -/

/-- An unlocked daemon with one client. -/
def unlocked : State Sample.Key where
  shared := ⟨Sample.created, none, [1], 2, fun _ => []⟩
  pc _ := .idle
  origin _ := (0, 0)

/-- A thread is asked to store a value under `a`. -/
def set (t : ℕ) (value : String) : Action :=
  .request t 1 t "secret.set" (.obj [("name", .str "a"), ("value", .str value)])

/-- The second of two requests is served first. -/
def overtaken : List Action :=
  [set 0 "x", set 1 "y"] ++ Sample.turns 1 4 ++ Sample.turns 0 4

/-- The second is written when the first has been answered. -/
def inTurn : List Action :=
  set 0 "x" :: Sample.turns 0 4 ++ set 1 "y" :: Sample.turns 1 4

lemma idle_of_two {as : List Action} {d : State Sample.Key}
    (h : run Sample.step unlocked as = some d)
    (hbelow : below 2 as = true) (hends : (d.pc 0).isIdle && (d.pc 1).isIdle) (t : ℕ) :
    d.pc t = .idle := by
  obtain ⟨h0, h1⟩ := (Bool.and_eq_true _ _).mp hends
  by_cases ht : 2 ≤ t
  · exact idle_of_below h hbelow ht rfl
  · have hcases : t = 0 ∨ t = 1 := by omega
    rcases hcases with rfl | rfl
    · exact isIdle_eq h0
    · exact isIdle_eq h1

lemma Mixed.eq {es : List Env} {e b : Env} (h : Mixed es e) (hall : ∀ a ∈ es, a = b) : e = b := by
  have hpart : ∀ {α : Type} {f : Env → α}, (∃ a ∈ es, f e = f a) → f e = f b := by
    rintro α f ⟨a, ha, heq⟩
    rw [heq, hall a ha]
  have hfails : e.io.fails = b.io.fails := funext fun call =>
    hpart (f := fun e : Env => e.io.fails call) (h.fails call)
  have hnow := hpart h.now
  have hclock := hpart h.clock
  have hsalt := hpart h.salt
  have hnonce := hpart h.nonce
  have hrandom := hpart h.random
  have htorn := hpart (f := fun e : Env => e.io.torn) h.torn
  obtain ⟨now, clock, salt, nonce, random, ⟨fails, torn⟩⟩ := e
  obtain ⟨now', clock', salt', nonce', random', ⟨fails', torn'⟩⟩ := b
  simp_all

theorem not_takeEffectInOrder : ¬ TakeEffectInOrder := by
  intro h
  have hends : (run Sample.step unlocked overtaken).map (fun d =>
      ((d.pc 0).isIdle && (d.pc 1).isIdle,
        d.shared.session.map fun s => s.body.entries["a"]?)) =
      some (true, some (some (newEntry "x" 7))) := by
    decide +kernel
  have hturn : (handled Sample.packages Sample.config unlocked.shared.world
      [(Sample.env, ⟨0, "secret.set", .obj [("name", .str "a"), ("value", .str "x")]⟩),
        (Sample.env,
          ⟨1, "secret.set", .obj [("name", .str "a"), ("value", .str "y")]⟩)]).1.inner.session.map
      (fun s => s.body.entries["a"]?) = some (some (newEntry "y" 7)) := by
    decide +kernel
  obtain ⟨d, hrun, hd⟩ := Option.map_eq_some_iff.mp hends
  obtain ⟨hidle, hstored⟩ := Prod.mk.inj hd
  have hon : ∀ a ∈ overtaken, Action.on 1 a := by decide
  obtain ⟨rs, hsent, hmixed, hsession, -, -⟩ :=
    h Sample.Key Sample.packages Sample.config 1 unlocked
    overtaken d (fun _ => rfl) hon hrun (idle_of_two hrun (by decide) hidle)
  have henv : ∀ a ∈ environments overtaken, a = Sample.env := by
    simp [overtaken, set, environments, Sample.turns]
  rcases rs with - | ⟨⟨e, r⟩, - | ⟨⟨e', r'⟩, - | ⟨r'', rs⟩⟩⟩
  · cases hsent
  · cases hsent
  · cases hsent
    have he : e = Sample.env := (hmixed (e, _) List.mem_cons_self).eq henv
    have he' : e' = Sample.env :=
      (hmixed (e', _) (List.mem_cons_of_mem _ (List.mem_singleton_self _))).eq henv
    rw [he, he'] at hsession
    rw [← hsession, hstored] at hturn
    have hsame := congrArg Entry.value (Option.some.inj (Option.some.inj hturn))
    exact absurd hsame (by decide)
  · cases hsent

theorem inOrder_inTurn : ∃ d, run Sample.step unlocked inTurn = some d ∧
    InOrder Sample.packages Sample.config 1 unlocked inTurn d := by
  have hends : (run Sample.step unlocked inTurn).map
      (fun d => (d.pc 0).isIdle && (d.pc 1).isIdle) = some true := by
    decide +kernel
  obtain ⟨d, hrun, hidle⟩ := Option.map_eq_some_iff.mp hends
  exact ⟨d, hrun, inOrder_of_waiting Sample.packages Sample.config 1 unlocked inTurn d
    (fun _ => rfl) (by decide) (by decide +kernel) hrun (idle_of_two hrun (by decide) hidle)⟩

end LvimKeyring.Ordering
