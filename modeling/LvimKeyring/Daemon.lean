import Mathlib.Logic.Function.Basic
import LvimKeyring.Lib.Transition
import LvimKeyring.Server

/-!
The daemon with its requests in flight.

Every request is a thread of its own. What a thread does is cut into sections at the places
where it takes a lock or goes to the file system, sends, sleeps on the condition variable or
notifies it, and one step of the daemon is one section of one thread. `unlock_gen` is the lock
the condition variable belongs to and the only one held from one section to the next. A write of
the vault file is one section here: what two writes do to each other is in `WriteRaces`. A channel
never closes: whether its lines are still read is in `Lifetime` and `Editors`.
-/

namespace LvimKeyring.Daemon

open Rpc Crypto Vault Server Transition

/-- A line sent to a client. -/
inductive Line
  | note (n : Note)
  | response (id : ℕ) (r : Except Err Reply)

/-- What the threads share. A channel is everything ever sent on it. -/
structure Shared (Key : Type) where
  world : World Key
  holder : Option ℕ
  clients : List ℕ
  nextClient : ℕ
  channel : ℕ → List Line

/-- The requests that install a session. -/
inductive Installer
  | create (password : String)
  | unlock (password : String)
  | rotate (oldPassword newPassword : String)
  deriving DecidableEq

/-- Where a thread is: the section it runs next. -/
inductive Pc (Key : Type)
  | idle
  /-- `dispatch`: the idle timer is reset. -/
  | dispatch (method : String) (params : Json)
  | call (c : Call)
  /-- `create`, once the file is known to be absent. -/
  | createWrite (password : String)
  /-- `rotate`, once the old password has been authenticated. -/
  | rotateWrite (current : Session Key) (oldPassword newPassword : String)
  | install (s : Session Key) (k : Installer)
  | resetFails (k : Installer)
  | announceUnlocked (k : Installer)
  | wake (k : Installer)
  /-- The summaries a successful unlock answers with. -/
  | unlockedSummaries
  | countFailure (e : Err)
  /-- A session has been taken, by the idle timer or by a request. -/
  | announceLocked (timer : Bool)
  | wakeCancelled
  /-- `wait_for_unlock`: the check before parking. -/
  | park (op : Op)
  /-- About to broadcast `vault.unlock_needed`. -/
  | signal (op : Op)
  /-- About to lock `unlock_gen` and capture its value. -/
  | capture (op : Op)
  /-- In the loop, `unlock_gen` locked: about to look at the session. -/
  | recheck (op : Op) (start : UInt64)
  /-- In the loop, `unlock_gen` locked: the session was found locked. -/
  | decide (op : Op) (start : UInt64)
  | asleep (op : Op) (start : UInt64)
  /-- Out of the wait, about to lock `unlock_gen` again. -/
  | woken (op : Op) (start : UInt64)
  /-- `with_session` and `read_session` under the lock of the session. -/
  | access (op : Op)
  | queryExists (full locked : Bool)
  | querySummaries (full locked vaultExists : Bool)
  | queryLocked (locked vaultExists : Bool) (entries : Option (List Summary))
  | queryIdle (locked vaultExists : Bool) (entries : Option (List Summary))
  | tickLocked
  | tickIdle
  | tickTake
  | respond (r : Except Err Reply)

variable {Key : Type}

namespace Shared

def session (sh : Shared Key) : Option (Session Key) := sh.world.inner.session

def gen (sh : Shared Key) : UInt64 := sh.world.inner.unlockGen

def withSession (sh : Shared Key) (s : Option (Session Key)) : Shared Key :=
  { sh with world := sh.world.withSession s }

def withFs (sh : Shared Key) (fs : FileSystem) : Shared Key :=
  { sh with world := { sh.world with fs } }

def withInner (sh : Shared Key) (inner : Inner Key) : Shared Key :=
  { sh with world := { sh.world with inner } }

def hold (sh : Shared Key) (t : Option ℕ) : Shared Key := { sh with holder := t }

/-- Every registered client is sent the line. -/
def broadcast (sh : Shared Key) (n : Note) : Shared Key :=
  { sh with channel := fun c =>
      if c ∈ sh.clients then sh.channel c ++ [.note n] else sh.channel c }

def send (sh : Shared Key) (c : ℕ) (l : Line) : Shared Key :=
  { sh with channel := Function.update sh.channel c (sh.channel c ++ [l]) }

end Shared

/-- Wake a thread that sleeps on the condition variable. -/
def rouse : Pc Key → Pc Key
  | .asleep op start => .woken op start
  | p => p

/-- `notify_all`. -/
def Pc.notifies : Pc Key → Bool
  | .wake _ | .wakeCancelled => true
  | _ => false

variable (L : Packages Key) (cfg : Config) (env : Env)

/-- The first section of a handler. -/
def begin (sh : Shared Key) : Call → Option (Shared Key × Pc Key)
  | .hello => some (sh, .queryExists false sh.session.isNone)
  | .status => some (sh, .queryExists true sh.session.isNone)
  | .create password =>
    if fileExists sh.world.fs cfg.vaultPath then
      some (sh, .respond (.error (.vaultExists cfg.vaultPath)))
    else some (sh, .createWrite password)
  | .unlock password =>
    match Vault.unlock L.toLibrary env.io sh.world.fs cfg.vaultPath (asBytes password) with
    | .ok s => some (sh, .install s (.unlock password))
    | .error e => some (sh, .countFailure e)
  | .lock =>
    some (sh.withSession none,
      if sh.session.isSome then .announceLocked false else .respond (.ok .unit))
  | .unlockCancel =>
    if sh.holder.isSome then none
    else some (sh.withInner { sh.world.inner with unlockGen := sh.gen + 1 }, .wakeCancelled)
  | .rotate oldPassword newPassword =>
    match Vault.unlock L.toLibrary env.io sh.world.fs cfg.vaultPath (asBytes oldPassword) with
    | .ok s => some (sh, .rotateWrite s oldPassword newPassword)
    | .error e => some (sh, .respond (.error e))
  | .session wait op =>
    if sh.session.isSome then some (sh, .access op)
    else some (sh, if wait then .park op else .respond (.error .locked))
  | .bare value => some (sh, .respond (.ok (.generated value)))

/-- A write that hands out a session to install. -/
def afterWrite (sh : Shared Key) (k : Installer) :
    FileSystem × Except Err (Session Key) → Shared Key × Pc Key
  | (fs, .ok s) => (sh.withFs fs, .install s k)
  | (fs, .error e) => (sh.withFs fs, .respond (.error e))

/-- One section of thread `t`, which serves the request `origin` of a client; `expired` says
whether the deadline of its wait has passed. A section that has to lock `unlock_gen` waits
until it is free. -/
def Pc.exec (expired : Bool) (t : ℕ) (origin : ℕ × ℕ) (sh : Shared Key) :
    Pc Key → Option (Shared Key × Pc Key)
  | .idle => none
  | .dispatch method params =>
    let sh := if touches method then { sh with world := touch env sh.world } else sh
    match prepare env.random method params with
    | .ok c => some (sh, .call c)
    | .error e => some (sh, .respond (.error e))
  | .call c => begin L cfg env sh c
  | .createWrite password =>
    some (afterWrite sh (.create password)
      (createAbsent L.toLibrary env.io sh.world.fs cfg.vaultPath (asBytes password) cfg.kdf
        env.salt env.nonce))
  | .rotateWrite current oldPassword newPassword =>
    some (afterWrite sh (.rotate oldPassword newPassword)
      (rotateRead L.toLibrary env.io sh.world.fs cfg.vaultPath current (asBytes newPassword)
        cfg.kdf env.salt env.nonce))
  | .install s k => some (sh.withSession (some s), .resetFails k)
  | .resetFails k => some (sh.withInner { sh.world.inner with failCount := 0 }, .announceUnlocked k)
  | .announceUnlocked k => some (sh.broadcast (.state false), .wake k)
  | .wake k =>
    match k with
    | .unlock _ => some (sh, .unlockedSummaries)
    | _ => some (sh, .respond (.ok .unit))
  | .unlockedSummaries =>
    some (sh, .respond (.ok (.listing ((sh.session.map fun s => summaries s.body).getD []))))
  | .countFailure e =>
    let n := min (sh.world.inner.failCount + 1) maxFails
    some (sh.withInner { sh.world.inner with failCount := n }, .respond (.error e))
  | .announceLocked timer =>
    some (sh.broadcast (.state true), if timer then .idle else .respond (.ok .unit))
  | .wakeCancelled => some (sh, .respond (.ok .unit))
  | .park op => some (sh, if sh.session.isSome then .access op else .signal op)
  | .signal op => some (sh.broadcast .unlockNeeded, .capture op)
  | .capture op => if sh.holder.isSome then none else some (sh.hold (some t), .recheck op sh.gen)
  | .recheck op start =>
    if sh.session.isSome then some (sh.hold none, .access op) else some (sh, .decide op start)
  | .decide op start =>
    if sh.gen ≠ start ∨ expired then some (sh.hold none, .respond (.error .locked))
    else some (sh.hold none, .asleep op start)
  | .asleep _ _ => none
  | .woken op start => if sh.holder.isSome then none else some (sh.hold (some t), .recheck op start)
  | .access op =>
    let o := Server.withSession L cfg env false op sh.world
    some ({ sh with world := o.world }, .respond o.reply)
  | .queryExists full locked =>
    some (sh, .querySummaries full locked (fileExists sh.world.fs cfg.vaultPath))
  | .querySummaries full locked ex =>
    let entries := sh.session.map fun s => summaries s.body
    some (sh,
      if !full then .respond (.ok (.hello locked ex entries))
      else if cfg.lockTimeout = 0 then .respond (.ok (.status locked ex entries none))
      else .queryLocked locked ex entries)
  | .queryLocked locked ex entries =>
    some (sh,
      if sh.session.isSome then .queryIdle locked ex entries
      else .respond (.ok (.status locked ex entries none)))
  | .queryIdle locked ex entries =>
    let left := (cfg.lockTimeout * nanos - (env.clock - sh.world.inner.lastActivity)) / nanos
    some (sh, .respond (.ok (.status locked ex entries (some left))))
  | .tickLocked =>
    some (sh, if cfg.lockTimeout = 0 ∨ sh.session.isNone then .idle else .tickIdle)
  | .tickIdle =>
    let idle := env.clock - sh.world.inner.lastActivity
    some (sh, if cfg.lockTimeout * nanos ≤ idle then .tickTake else .idle)
  | .tickTake =>
    some (sh.withSession none, if sh.session.isSome then .announceLocked true else .idle)
  | .respond r => some (sh.send origin.1 (.response origin.2 r), .idle)

/-- The daemon: what its threads share, where each of them is, and the client and the id of
the request it serves. -/
structure State (Key : Type) where
  shared : Shared Key
  pc : ℕ → Pc Key
  origin : ℕ → ℕ × ℕ

inductive Action
  | connect
  | disconnect (c : ℕ)
  | request (t c id : ℕ) (method : String) (params : Json)
  | tick (t : ℕ)
  | run (t : ℕ) (env : Env) (expired : Bool)
  /-- A wait that times out, or wakes for no reason. -/
  | rouse (t : ℕ)

/-- Every file operation of the section succeeds. -/
def Action.faultless : Action → Prop
  | .run _ env _ => env.io = .none
  | _ => True

/-- The requests are among some methods, and the idle timer is off. -/
def Action.only (methods : List String) : Action → Prop
  | .request _ _ _ method _ => method ∈ methods
  | .tick _ => False
  | _ => True

/-- The thread a step is about. -/
def Action.thread : Action → Option ℕ
  | .connect | .disconnect _ => none
  | .request t _ _ _ _ | .tick t | .run t _ _ | .rouse t => some t

def Pc.isIdle : Pc Key → Bool
  | .idle => true
  | _ => false

def State.withPc (d : State Key) (t : ℕ) (p : Pc Key) : State Key :=
  { d with pc := Function.update d.pc t p }

def step (d : State Key) : Action → Option (State Key)
  | .connect =>
    let c := d.shared.nextClient
    some { d with shared :=
      { d.shared with clients := c :: d.shared.clients, nextClient := c + 1 } }
  | .disconnect c =>
    if c ∈ d.shared.clients then
      some { d with shared := { d.shared with clients := d.shared.clients.filter (· ≠ c) } }
    else none
  | .request t c id method params =>
    if (d.pc t).isIdle ∧ c ∈ d.shared.clients then
      some ({ d with origin := Function.update d.origin t (c, id) }.withPc t
        (.dispatch method params))
    else none
  | .tick t => if (d.pc t).isIdle then some (d.withPc t .tickLocked) else none
  | .run t env expired =>
    match (d.pc t).exec L cfg env expired t (d.origin t) d.shared with
    | none => none
    | some (shared, p) =>
      let others := if (d.pc t).notifies then fun u => rouse (d.pc u) else d.pc
      some { d with shared, pc := Function.update others t p }
  | .rouse t =>
    match d.pc t with
    | .asleep op start => some (d.withPc t (.woken op start))
    | _ => none

/-- A daemon that has just been started. -/
def start (Key : Type) (fs : FileSystem) (clock : ℕ) : State Key where
  shared := ⟨⟨fs, Inner.new Key clock⟩, none, [], 1, fun _ => []⟩
  pc _ := .idle
  origin _ := (0, 0)

/-! ### What a step does -/

variable {L cfg env}

@[simp] lemma withSession_session (sh : Shared Key) (s : Option (Session Key)) :
    (sh.withSession s).session = s := rfl

@[simp] lemma withFs_session (sh : Shared Key) (fs : FileSystem) :
    (sh.withFs fs).session = sh.session := rfl

@[simp] lemma broadcast_world (sh : Shared Key) (n : Note) : (sh.broadcast n).world = sh.world :=
  rfl

@[simp] lemma hold_world (sh : Shared Key) (t : Option ℕ) : (sh.hold t).world = sh.world := rfl

@[simp] lemma send_world (sh : Shared Key) (c : ℕ) (l : Line) : (sh.send c l).world = sh.world :=
  rfl

/-- A section that has no session to install or to write from, and no file to create. -/
def Pc.plain : Pc Key → Bool
  | .install _ _ | .createWrite _ | .rotateWrite _ _ _ => false
  | _ => true

/-- A section, other than the first of a handler, that leaves the files and the session alone. -/
def Pc.rests : Pc Key → Bool
  | .createWrite _ | .rotateWrite _ _ _ | .install _ _ | .access _ | .tickTake | .call _ => false
  | _ => true

section Sections

variable {sh sh' : Shared Key} {p p' : Pc Key} {expired : Bool} {t : ℕ} {origin : ℕ × ℕ}

/-- Where a handler can go from its first section. -/
inductive Opened (L : Packages Key) (cfg : Config) (env : Env) (sh : Shared Key) :
    Call → Pc Key → Prop
  | plain {c : Call} {p : Pc Key} (h : p.plain = true) : Opened L cfg env sh c p
  | create {password : String} (h : fileExists sh.world.fs cfg.vaultPath = false) :
    Opened L cfg env sh (.create password) (.createWrite password)
  | unlock {password : String} {s : Session Key}
    (h : Vault.unlock L.toLibrary env.io sh.world.fs cfg.vaultPath (asBytes password) = .ok s) :
    Opened L cfg env sh (.unlock password) (.install s (.unlock password))
  | rotate {old new : String} {s : Session Key}
    (h : Vault.unlock L.toLibrary env.io sh.world.fs cfg.vaultPath (asBytes old) = .ok s) :
    Opened L cfg env sh (.rotate old new) (.rotateWrite s old new)

/-- Nothing but a lock touches the session in its first section, and nothing the files. -/
lemma begin_opened {c : Call} (hc : c ≠ .lock) (h : begin L cfg env sh c = some (sh', p')) :
    sh'.world.fs = sh.world.fs ∧ sh'.session = sh.session ∧ Opened L cfg env sh c p' := by
  cases c with
  | lock => exact absurd rfl hc
  | create password =>
    simp only [begin] at h
    split at h <;> cases h
    · exact ⟨rfl, rfl, .plain rfl⟩
    · rename_i hfile
      exact ⟨rfl, rfl, .create (Bool.eq_false_iff.mpr hfile)⟩
  | unlock password =>
    simp only [begin] at h
    split at h <;> cases h
    · rename_i s hs
      exact ⟨rfl, rfl, .unlock hs⟩
    · exact ⟨rfl, rfl, .plain rfl⟩
  | rotate old new =>
    simp only [begin] at h
    split at h <;> cases h
    · rename_i s hs
      exact ⟨rfl, rfl, .rotate hs⟩
    · exact ⟨rfl, rfl, .plain rfl⟩
  | unlockCancel =>
    simp only [begin] at h
    split at h <;> cases h
    exact ⟨rfl, rfl, .plain rfl⟩
  | session wait op =>
    simp only [begin] at h
    split at h <;> cases h
    · exact ⟨rfl, rfl, .plain rfl⟩
    · exact ⟨rfl, rfl, .plain (by split <;> rfl)⟩
  | hello | status | bare =>
    cases h
    exact ⟨rfl, rfl, .plain rfl⟩

lemma afterWrite_cases {k : Installer} {r : FileSystem × Except Err (Session Key)}
    (h : afterWrite sh k r = (sh', p')) :
    (∃ s, p' = .install s k) ∨ ∃ e, p' = .respond (.error e) := by
  obtain ⟨fs, e | s⟩ := r
  · cases h
    exact .inr ⟨e, rfl⟩
  · cases h
    exact .inl ⟨s, rfl⟩

/-- What a section that rests leaves behind. -/
structure Rests (sh sh' : Shared Key) (p' : Pc Key) : Prop where
  fs : sh'.world.fs = sh.world.fs
  session : sh'.session = sh.session
  plain : p'.plain = true

lemma exec_rests (hp : p.rests = true)
    (h : p.exec L cfg env expired t origin sh = some (sh', p')) : Rests sh sh' p' := by
  cases p with
  | createWrite | rotateWrite | install | access | tickTake | call => cases hp
  | idle | asleep => cases h
  | dispatch method params =>
    simp only [Pc.exec] at h
    split at h <;> cases h
    · refine ⟨?_, ?_, rfl⟩ <;> split <;> rfl
    · refine ⟨?_, ?_, rfl⟩ <;> split <;> rfl
  | wake k =>
    cases k <;> cases h <;> exact ⟨rfl, rfl, rfl⟩
  | capture op | woken op start =>
    simp only [Pc.exec] at h
    split at h <;> cases h
    exact ⟨rfl, rfl, rfl⟩
  | recheck op start | decide op start =>
    simp only [Pc.exec] at h
    split at h <;> cases h <;> exact ⟨rfl, rfl, rfl⟩
  | announceLocked timer | park op | queryLocked locked ex entries | tickLocked | tickIdle =>
    cases h
    exact ⟨rfl, rfl, by split <;> rfl⟩
  | querySummaries full locked ex =>
    cases h
    refine ⟨rfl, rfl, ?_⟩
    split
    · rfl
    · split <;> rfl
  | resetFails | announceUnlocked | unlockedSummaries | countFailure | wakeCancelled | signal
  | queryExists | queryIdle | respond =>
    cases h
    exact ⟨rfl, rfl, rfl⟩

end Sections

lemma isIdle_eq {p : Pc Key} (h : p.isIdle = true) : p = .idle := by
  cases p <;> first | rfl | cases h

/-- What a step does. -/
inductive Stepped (L : Packages Key) (cfg : Config) (d : State Key) : Action → State Key → Prop
  | connect : Stepped L cfg d .connect
      { d with shared := { d.shared with
        clients := d.shared.nextClient :: d.shared.clients
        nextClient := d.shared.nextClient + 1 } }
  | disconnect (c : ℕ) (hc : c ∈ d.shared.clients) : Stepped L cfg d (.disconnect c)
      { d with shared := { d.shared with clients := d.shared.clients.filter (· ≠ c) } }
  | request (t c id : ℕ) (method : String) (params : Json) (hidle : d.pc t = .idle)
    (hc : c ∈ d.shared.clients) : Stepped L cfg d (.request t c id method params)
      ({ d with origin := Function.update d.origin t (c, id) }.withPc t (.dispatch method params))
  | tick (t : ℕ) (hidle : d.pc t = .idle) : Stepped L cfg d (.tick t) (d.withPc t .tickLocked)
  | run (t : ℕ) (env : Env) (expired : Bool) (shared : Shared Key) (p : Pc Key)
    (hexec : (d.pc t).exec L cfg env expired t (d.origin t) d.shared = some (shared, p)) :
    Stepped L cfg d (.run t env expired) { d with
      shared := shared
      pc := Function.update (if (d.pc t).notifies then fun u => rouse (d.pc u) else d.pc) t p }
  | rouse (t : ℕ) (op : Op) (start : UInt64) (hpc : d.pc t = .asleep op start) :
    Stepped L cfg d (.rouse t) (d.withPc t (.woken op start))

lemma stepped {d d' : State Key} {a : Action} (h : step L cfg d a = some d') :
    Stepped L cfg d a d' := by
  cases a with
  | connect =>
    cases h
    exact .connect
  | disconnect c =>
    simp only [step] at h
    split at h <;> cases h
    next hc => exact .disconnect c hc
  | request t c id method params =>
    simp only [step] at h
    split at h <;> cases h
    next hcan => exact .request t c id method params (isIdle_eq hcan.1) hcan.2
  | tick t =>
    simp only [step] at h
    split at h <;> cases h
    next hidle => exact .tick t (isIdle_eq hidle)
  | run t env expired =>
    simp only [step] at h
    split at h <;> cases h
    next shared p hexec => exact .run t env expired shared p hexec
  | rouse t =>
    simp only [step] at h
    split at h <;> cases h
    next op start hpc => exact .rouse t op start hpc

lemma step_run {d d' : State Key} {t : ℕ} {expired : Bool}
    (h : step L cfg d (.run t env expired) = some d') :
    ∃ p, (d.pc t).exec L cfg env expired t (d.origin t) d.shared = some (d'.shared, p) ∧
      d'.pc t = p ∧
      ∀ u, u ≠ t → d'.pc u = if (d.pc t).notifies then rouse (d.pc u) else d.pc u := by
  cases stepped h with
  | run _ _ _ shared p hexec =>
    refine ⟨p, hexec, Function.update_self _ _ _, fun u hu => ?_⟩
    simp only [Function.update_of_ne hu]
    split <;> rfl

lemma origin_run {d d' : State Key} {t : ℕ} {expired : Bool}
    (h : step L cfg d (.run t env expired) = some d') : d'.origin = d.origin := by
  cases stepped h with
  | run => rfl

lemma request_threads {d d' : State Key} {t c id : ℕ} {method : String} {params : Json}
    (h : step L cfg d (.request t c id method params) = some d') :
    d'.shared = d.shared ∧ d.pc t = .idle ∧ d'.pc t = .dispatch method params ∧
      d'.origin t = (c, id) ∧ c ∈ d.shared.clients ∧
      ∀ u, u ≠ t → d'.pc u = d.pc u ∧ d'.origin u = d.origin u := by
  cases stepped h with
  | request _ _ _ _ _ hidle hc =>
    refine ⟨rfl, hidle, ?_, ?_, hc, fun u hu => ⟨?_, ?_⟩⟩
    · exact Function.update_self _ _ _
    · exact Function.update_self _ _ _
    · exact Function.update_of_ne hu _ _
    · exact Function.update_of_ne hu _ _

/-- How a thread can change when it is not its turn: it is started, or woken. -/
inductive Moved : Pc Key → Pc Key → Prop
  | same (p : Pc Key) : Moved p p
  | rouse (op : Op) (start : UInt64) : Moved (.asleep op start) (.woken op start)
  | request (method : String) (params : Json) : Moved .idle (.dispatch method params)
  | tick : Moved .idle .tickLocked

lemma moved_rouse (p : Pc Key) : Moved p (rouse p) := by
  cases p with
  | asleep op start => exact .rouse op start
  | _ => exact .same _

lemma moved_withPc {d : State Key} {t : ℕ} {p : Pc Key} (h : Moved (d.pc t) p) (u : ℕ) :
    Moved (d.pc u) ((d.withPc t p).pc u) := by
  by_cases hu : u = t
  · subst hu
    simpa [State.withPc] using h
  · simp only [State.withPc, Function.update_of_ne hu]
    exact .same _

/-- A step that is no thread's turn. -/
structure Quiet (d d' : State Key) : Prop where
  world : d'.shared.world = d.shared.world
  holder : d'.shared.holder = d.shared.holder
  channel : d'.shared.channel = d.shared.channel
  clients : ∀ c ∈ d'.shared.clients, c ∈ d.shared.clients ∨
    (c = d.shared.nextClient ∧ d'.shared.nextClient = c + 1)
  nextClient : d.shared.nextClient ≤ d'.shared.nextClient
  moved : ∀ u, Moved (d.pc u) (d'.pc u)

lemma step_quiet {d d' : State Key} {a : Action} (h : step L cfg d a = some d')
    (ha : ∀ t env expired, a ≠ .run t env expired) : Quiet d d' := by
  cases stepped h with
  | run t env expired => exact absurd rfl (ha t env expired)
  | connect =>
    refine ⟨rfl, rfl, rfl, fun c hc => ?_, Nat.le_succ _, fun u => .same _⟩
    rcases List.mem_cons.mp hc with rfl | hold
    · exact .inr ⟨rfl, rfl⟩
    · exact .inl hold
  | disconnect c =>
    exact ⟨rfl, rfl, rfl, fun c hc => .inl (List.mem_of_mem_filter hc), le_rfl, fun u => .same _⟩
  | request t c id method params hidle =>
    refine ⟨rfl, rfl, rfl, fun c hc => .inl hc, le_rfl, fun u => ?_⟩
    refine moved_withPc (d := { d with origin := _ }) ?_ u
    rw [hidle]
    exact .request method params
  | tick t hidle =>
    refine ⟨rfl, rfl, rfl, fun c hc => .inl hc, le_rfl, fun u => moved_withPc ?_ u⟩
    rw [hidle]
    exact .tick
  | rouse t op start hpc =>
    refine ⟨rfl, rfl, rfl, fun c hc => .inl hc, le_rfl, fun u => moved_withPc ?_ u⟩
    rw [hpc]
    exact .rouse op start

lemma idle_step {d d' : State Key} {a : Action} (h : step L cfg d a = some d') {u : ℕ}
    (hu : a.thread ≠ some u) (hidle : d.pc u = .idle) : d'.pc u = .idle := by
  cases a with
  | run t env expired =>
    obtain ⟨p, -, -, hothers⟩ := step_run h
    rw [hothers u fun heq => hu (by rw [heq]; rfl), hidle]
    split <;> rfl
  | connect | disconnect c =>
    cases stepped h
    exact hidle
  | request t c id method params | tick t | rouse t =>
    have hne : u ≠ t := fun heq => hu (congrArg some heq.symm)
    cases stepped h
    exact (Function.update_of_ne hne _ _).trans hidle

lemma idle_run {d d' : State Key} {as : List Action} (h : run (step L cfg) d as = some d') {u : ℕ}
    (hu : ∀ a ∈ as, a.thread ≠ some u) (hidle : d.pc u = .idle) : d'.pc u = .idle := by
  have hnot : Along (step L cfg) (fun _ a => a.thread ≠ some u) d as :=
    along_of_forall fun a ha _ => hu a ha
  exact run_inv (fun _ _ _ hinv hne hstep => idle_step hstep hne hinv) hidle hnot h

/-- The steps are about threads below a bound only. -/
def below (n : ℕ) (as : List Action) : Bool := as.all fun a => a.thread.all (· < n)

lemma idle_of_below {d d' : State Key} {as : List Action}
    (h : run (step L cfg) d as = some d') {n : ℕ} (hn : below n as = true) {u : ℕ} (hu : n ≤ u)
    (hidle : d.pc u = .idle) : d'.pc u = .idle := by
  refine idle_run h (fun a ha heq => ?_) hidle
  have hlt := List.all_eq_true.mp hn a ha
  simp only [heq, Option.all_some, decide_eq_true_eq] at hlt
  omega

end LvimKeyring.Daemon
