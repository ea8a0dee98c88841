import LvimKeyring.Announce

/-!
The end of the daemon.

Every connection has a task, `handle_conn`. When its client hangs up, the task unregisters the
client, keeps the number of clients that remain, and waits for its writer, which ends only once
every request of the connection has been answered. The task of the last client then locks the
vault and ends the process, whoever has connected since.
-/

namespace LvimKeyring.Lifetime

open Rpc Crypto Vault Server Daemon Transition

variable {Key : Type}

/-- Where the task of a connection is. -/
inductive Phase
  | absent
  | reading
  /-- Its client is unregistered, and so many remained: it waits for the writer. -/
  | draining (remaining : ℕ)
  | lingering
  | locking
  | unlinking
  | exiting
  | closed
  deriving DecidableEq

/-- The process: the daemon and the tasks of its connections. -/
structure Process (Key : Type) where
  daemon : State Key
  phase : ℕ → Phase
  /-- The requests of each connection that hold a clone of its sender. -/
  inFlight : ℕ → ℕ
  /-- Whether the writer of each connection has met an error and stopped. -/
  broken : ℕ → Bool
  /-- Once the process has exited, the clients that were registered then. -/
  exited : Option (List ℕ)

inductive Event
  | connect
  | request (t c id : ℕ) (method : String) (params : Json)
  | tick (t : ℕ)
  | run (t : ℕ) (env : Env) (expired : Bool)
  | rouse (t : ℕ)
  | writerFails (c : ℕ)
  | hangup (c : ℕ)
  /-- The writer of a connection has returned. -/
  | drained (c : ℕ)
  | timer (c : ℕ)
  /-- `do_lock`, without the `vault.state` it broadcasts: nobody is registered by it, or leaves. -/
  | lock (c : ℕ)
  | unlink (c : ℕ)
  | exit (c : ℕ)

namespace Process

def withPhase (p : Process Key) (c : ℕ) (ph : Phase) : Process Key :=
  { p with phase := Function.update p.phase c ph }

/-- A step of the daemon itself. -/
def act (L : Packages Key) (cfg : Config) (p : Process Key) (a : Action) : Option (Process Key) :=
  (Daemon.step L cfg p.daemon a).map fun daemon => { p with daemon }

def count (p : Process Key) (c n : ℕ) : Process Key :=
  { p with inFlight := Function.update p.inFlight c n }

end Process

def Pc.responds : Pc Key → Bool
  | .respond _ => true
  | _ => false

variable (L : Packages Key) (cfg : Config)

/-- What the task of a connection does next, so many clients having remained when its own was
unregistered. -/
def afterDraining (remaining : ℕ) : Phase :=
  if remaining ≠ 0 ∨ cfg.persist then .closed
  else if cfg.linger = 0 then .locking
  else .lingering

/-- One step of a process that has not exited. -/
def Process.react (p : Process Key) : Event → Option (Process Key)
  | .connect => (p.act L cfg .connect).map fun q =>
      q.withPhase p.daemon.shared.nextClient .reading
  | .request t c id method params =>
    if p.phase c = .reading then
      (p.act L cfg (.request t c id method params)).map fun q => q.count c (p.inFlight c + 1)
    else none
  | .tick t => p.act L cfg (.tick t)
  | .run t env expired => (p.act L cfg (.run t env expired)).map fun q =>
      let c := (p.daemon.origin t).1
      -- A request gives up its sender when its response is on the channel.
      if Pc.responds (p.daemon.pc t) then q.count c (p.inFlight c - 1) else q
  | .rouse t => p.act L cfg (.rouse t)
  | .writerFails c => some { p with broken := Function.update p.broken c true }
  | .hangup c =>
    if p.phase c = .reading then
      (p.act L cfg (.disconnect c)).map fun q =>
        q.withPhase c (.draining q.daemon.shared.clients.length)
    else none
  | .drained c =>
    match p.phase c with
    | .draining remaining =>
      if p.inFlight c = 0 ∨ p.broken c then some (p.withPhase c (afterDraining cfg remaining))
      else none
    | _ => none
  | .timer c =>
    if p.phase c = .lingering then
      some (p.withPhase c (if p.daemon.shared.clients.length = 0 then .locking else .closed))
    else none
  | .lock c =>
    if p.phase c = .locking then
      some (({ p with daemon.shared := p.daemon.shared.withSession none }).withPhase c .unlinking)
    else none
  | .unlink c => if p.phase c = .unlinking then some (p.withPhase c .exiting) else none
  | .exit c =>
    if p.phase c = .exiting then some { p with exited := p.daemon.shared.clients } else none

def step (p : Process Key) (e : Event) : Option (Process Key) :=
  if p.exited.isSome then none else p.react L cfg e

def start (Key : Type) (fs : FileSystem) (clock : ℕ) : Process Key where
  daemon := Daemon.start Key fs clock
  phase _ := .absent
  inFlight _ := 0
  broken _ := false
  exited := none

/-! ### The statement -/

/-- If the process has exited, no client was registered. -/
def LeavesNobody (p : Process Key) : Prop := ∀ clients, p.exited = some clients → clients = []

/-- The daemon never exits under a live client. -/
def NeverUnderAClient : Prop :=
  ∀ (Key : Type) (L : Packages Key) (cfg : Config) (fs : FileSystem) (clock : ℕ)
    (es : List Event) (p : Process Key), cfg.persist = false →
    run (step L cfg) (start Key fs clock) es = some p → LeavesNobody p

/-- A connection whose task ends the process without looking at the clients again. -/
def Phase.bound (cfg : Config) : Phase → Bool
  | .draining remaining => remaining = 0 ∧ cfg.linger = 0 ∧ cfg.persist = false
  | .locking | .unlinking | .exiting => true
  | _ => false

/-- Nobody connects once a task is bound to end the process. -/
def InTime (cfg : Config) (p : Process Key) : Event → Prop
  | .connect => ∀ c < p.daemon.shared.nextClient, (p.phase c).bound cfg = false
  | _ => True

instance (p : Process Key) (e : Event) : Decidable (InTime cfg p e) := by
  cases e <;> unfold InTime <;> infer_instance

/-! ### The invariant -/

variable {L cfg} {p q : Process Key}

/-- While a task is bound to end the process, no client is registered. -/
structure Inv (cfg : Config) (p : Process Key) : Prop where
  absent : ∀ c, p.daemon.shared.nextClient ≤ c → p.phase c = .absent
  bound : ∀ c, (p.phase c).bound cfg = true → p.daemon.shared.clients = []
  exited : LeavesNobody p

lemma act_eq_some {a : Action} (h : p.act L cfg a = some q) :
    ∃ d, Daemon.step L cfg p.daemon a = some d ∧ q = { p with daemon := d } := by
  obtain ⟨d, hd, rfl⟩ := Option.map_eq_some_iff.mp h
  exact ⟨d, hd, rfl⟩

/-- The clients are what they were, for all the daemon does by itself. -/
structure Kept (p q : Process Key) : Prop where
  clients : q.daemon.shared.clients = p.daemon.shared.clients
  nextClient : q.daemon.shared.nextClient = p.daemon.shared.nextClient
  phase : q.phase = p.phase
  exited : q.exited = p.exited

lemma Inv.of_kept (h : Inv cfg p) (hk : Kept p q) : Inv cfg q where
  absent := by
    rw [hk.phase, hk.nextClient]
    exact h.absent
  bound := by
    rw [hk.phase, hk.clients]
    exact h.bound
  exited := by
    unfold LeavesNobody
    rw [hk.exited]
    exact h.exited

lemma act_kept {a : Action} (h : p.act L cfg a = some q)
    (ha : a ≠ .connect ∧ ∀ c, a ≠ .disconnect c) : Kept p q := by
  obtain ⟨d, hd, rfl⟩ := act_eq_some h
  cases stepped hd with
  | connect => exact absurd rfl ha.1
  | disconnect c => exact absurd rfl (ha.2 c)
  | run t env expired shared pc hexec =>
    have htold := Announce.exec_told hexec
    exact ⟨htold.clients, htold.nextClient, rfl, rfl⟩
  | request | tick | rouse => exact ⟨rfl, rfl, rfl, rfl⟩

/-- What the daemon does by itself, and what becomes of a writer. -/
def Event.own : Event → Bool
  | .request _ _ _ _ _ | .tick _ | .run _ _ _ | .rouse _ | .writerFails _ => true
  | _ => false

lemma react_own {e : Event} (he : e.own = true) (h : p.react L cfg e = some q) : Kept p q := by
  cases e with
  | request t c id method params =>
    simp only [Process.react] at h
    split at h
    · obtain ⟨r, hr, rfl⟩ := Option.map_eq_some_iff.mp h
      have hk := act_kept hr ⟨by simp, by simp⟩
      exact ⟨hk.clients, hk.nextClient, hk.phase, hk.exited⟩
    · cases h
  | run t env expired =>
    obtain ⟨r, hr, rfl⟩ := Option.map_eq_some_iff.mp h
    have hk := act_kept hr ⟨by simp, by simp⟩
    split
    · exact ⟨hk.clients, hk.nextClient, hk.phase, hk.exited⟩
    · exact hk
  | tick t => exact act_kept h ⟨by simp, by simp⟩
  | rouse t => exact act_kept h ⟨by simp, by simp⟩
  | writerFails c =>
    cases h
    exact ⟨rfl, rfl, rfl, rfl⟩
  | _ => cases he

lemma Inv.moved (h : Inv cfg p) {c : ℕ} {ph : Phase} (hc : p.phase c ≠ .absent)
    (hphase : q.phase = Function.update p.phase c ph)
    (hnext : q.daemon.shared.nextClient = p.daemon.shared.nextClient)
    (hclients : p.daemon.shared.clients = [] → q.daemon.shared.clients = [])
    (hexited : q.exited = p.exited)
    (hbound : ph.bound cfg = true → q.daemon.shared.clients = []) : Inv cfg q where
  absent b hle := by
    rw [hnext] at hle
    have hbc : b ≠ c := by
      rintro rfl
      exact hc (h.absent b hle)
    rw [hphase, Function.update_of_ne hbc]
    exact h.absent b hle
  bound b hb := by
    rw [hphase] at hb
    by_cases hbc : b = c
    · subst hbc
      rw [Function.update_self] at hb
      exact hbound hb
    · rw [Function.update_of_ne hbc] at hb
      exact hclients (h.bound b hb)
  exited := by
    unfold LeavesNobody
    rw [hexited]
    exact h.exited

lemma Inv.withPhase (h : Inv cfg p) {c : ℕ} {ph : Phase} (hc : p.phase c ≠ .absent)
    (hbound : ph.bound cfg = true → p.daemon.shared.clients = []) :
    Inv cfg (p.withPhase c ph) :=
  h.moved hc rfl rfl id rfl hbound

lemma inv_connect (h : Inv cfg p) (hG : InTime cfg p .connect)
    (hstep : p.react L cfg .connect = some q) : Inv cfg q := by
  simp only [Process.react] at hstep
  obtain ⟨r, hr, rfl⟩ := Option.map_eq_some_iff.mp hstep
  obtain ⟨d, hd, rfl⟩ := act_eq_some hr
  cases hd
  have hfree : ∀ c, (p.phase c).bound cfg = false := by
    intro c
    by_cases hc : c < p.daemon.shared.nextClient
    · exact hG c hc
    · rw [h.absent c (by omega)]
      rfl
  refine ⟨fun b hle => ?_, fun b hbound => ?_, h.exited⟩
  · have hne : b ≠ p.daemon.shared.nextClient := by
      simp only [Process.withPhase] at hle
      omega
    simp only [Process.withPhase, Function.update_of_ne hne]
    simp only [Process.withPhase] at hle
    exact h.absent b (by omega)
  · by_cases hb : b = p.daemon.shared.nextClient
    · subst hb
      simp [Process.withPhase, Phase.bound] at hbound
    · simp only [Process.withPhase, Function.update_of_ne hb, hfree b] at hbound
      cases hbound

lemma inv_hangup (h : Inv cfg p) {c : ℕ} (hstep : p.react L cfg (.hangup c) = some q) :
    Inv cfg q := by
  simp only [Process.react] at hstep
  split at hstep
  · rename_i hreading
    obtain ⟨r, hr, rfl⟩ := Option.map_eq_some_iff.mp hstep
    obtain ⟨d, hd, rfl⟩ := act_eq_some hr
    cases stepped hd
    refine h.moved (by simp [hreading]) rfl rfl (fun hnobody => ?_) rfl fun hbound => ?_
    · simp only [Process.withPhase, hnobody, List.filter_nil]
    · simp only [Phase.bound, Bool.decide_and, Bool.and_eq_true, decide_eq_true_eq] at hbound
      exact List.length_eq_zero_iff.mp hbound.1
  · cases hstep

lemma inv_drained (h : Inv cfg p) {c : ℕ} (hstep : p.react L cfg (.drained c) = some q) :
    Inv cfg q := by
  simp only [Process.react] at hstep
  split at hstep
  · rename_i remaining hdraining
    split at hstep <;> cases hstep
    refine h.withPhase (by simp [hdraining]) fun hbound => h.bound c ?_
    rw [hdraining]
    simp only [afterDraining] at hbound
    split at hbound
    · cases hbound
    · rename_i hlast
      split at hbound
      · simp_all [Phase.bound]
      · cases hbound
  · cases hstep

lemma inv_timer (h : Inv cfg p) {c : ℕ} (hstep : p.react L cfg (.timer c) = some q) :
    Inv cfg q := by
  simp only [Process.react] at hstep
  split at hstep <;> cases hstep
  rename_i hlingering
  refine h.withPhase (by simp [hlingering]) fun hbound => ?_
  split at hbound
  · rename_i hnobody
    exact List.length_eq_zero_iff.mp hnobody
  · cases hbound

theorem inv_step {e : Event} (h : Inv cfg p) (hG : InTime cfg p e)
    (hstep : step L cfg p e = some q) : Inv cfg q := by
  simp only [step] at hstep
  split at hstep
  · cases hstep
  · cases e with
    | connect => exact inv_connect h hG hstep
    | hangup c => exact inv_hangup h hstep
    | drained c => exact inv_drained h hstep
    | timer c => exact inv_timer h hstep
    | request | run | tick | rouse | writerFails => exact h.of_kept (react_own rfl hstep)
    | lock c =>
      simp only [Process.react] at hstep
      split at hstep <;> cases hstep
      rename_i hlocking
      have hnobody := h.bound c (by rw [hlocking]; rfl)
      exact h.moved (by simp [hlocking]) rfl rfl id rfl fun _ => hnobody
    | unlink c =>
      simp only [Process.react] at hstep
      split at hstep <;> cases hstep
      rename_i hunlinking
      have hnobody := h.bound c (by rw [hunlinking]; rfl)
      exact h.withPhase (by simp [hunlinking]) fun _ => hnobody
    | exit c =>
      simp only [Process.react] at hstep
      split at hstep <;> cases hstep
      rename_i hexiting
      refine ⟨h.absent, h.bound, fun clients hclients => ?_⟩
      rw [← Option.some.inj hclients]
      exact h.bound c (by rw [hexiting]; rfl)

/-- If nobody connects once a task is bound to end the process, the process ends with no client
registered. -/
theorem leavesNobody_of_inTime (L : Packages Key) (cfg : Config) (fs : FileSystem) (clock : ℕ)
    (es : List Event) (p : Process Key)
    (hguard : Along (step L cfg) (InTime cfg) (start Key fs clock) es)
    (hrun : run (step L cfg) (start Key fs clock) es = some p) : LeavesNobody p := by
  have hstart : Inv cfg (start Key fs clock) :=
    ⟨fun _ _ => rfl, fun _ hbound => (by cases hbound), fun _ hexited => (by cases hexited)⟩
  have hinv : Inv cfg p := by
    refine run_inv (fun p e q h hG hs => ?_) hstart hguard hrun
    exact inv_step h hG hs
  exact hinv.exited

/-! ### A client that connects too late -/

/-- So many sections of one thread. -/
def turns (t n : ℕ) : List Event := List.replicate n (.run t Sample.env false)

/-- The only client asks for a secret and hangs up while the request is parked; another one
connects, and then the request times out. -/
def lateClient : List Event :=
  [.connect, .request 0 1 0 "secret.get" (.obj [("name", .str "a")])] ++ turns 0 7 ++
    [.hangup 1, .connect, .rouse 0] ++ turns 0 2 ++ [.run 0 Sample.env true] ++ turns 0 1 ++
    [.drained 1, .lock 1, .unlink 1, .exit 1]

abbrev started : Process Sample.Key := start Sample.Key Sample.created.fs 0

theorem not_neverUnderAClient : ¬ NeverUnderAClient := by
  intro h
  have hend : (run (step Sample.packages Sample.config) started lateClient).map Process.exited =
      some (some [2]) := by
    decide +kernel
  obtain ⟨p, hrun, hexited⟩ := Option.map_eq_some_iff.mp hend
  have hnobody := h Sample.Key Sample.packages Sample.config _ 0 lateClient p rfl hrun [2] hexited
  cases hnobody

/-- The other client connects before the first one hangs up, and hangs up itself. -/
def earlyClient : List Event :=
  [.connect, .request 0 1 0 "secret.get" (.obj [("name", .str "a")])] ++ turns 0 7 ++
    [.connect, .hangup 1, .rouse 0] ++ turns 0 2 ++ [.run 0 Sample.env true] ++ turns 0 1 ++
    [.drained 1, .hangup 2, .drained 2, .lock 2, .unlink 2, .exit 2]

theorem leavesNobody_earlyClient : ∃ p,
    run (step Sample.packages Sample.config) started earlyClient = some p ∧ LeavesNobody p := by
  obtain ⟨p, hrun⟩ : ∃ p, run (step Sample.packages Sample.config) started earlyClient = some p :=
    Option.isSome_iff_exists.mp (by decide +kernel)
  exact ⟨p, hrun, leavesNobody_of_inTime Sample.packages Sample.config _ 0 earlyClient p
    (by decide +kernel) hrun⟩

end LvimKeyring.Lifetime
