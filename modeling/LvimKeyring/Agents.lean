import LvimKeyring.Host
import LvimKeyring.Sample
import LvimKeyring.SaveRaces

/-!
The agents of one user on one vault.

The lock that keeps a second agent away goes by the socket path, and what an agent saves is all
it has in memory. Two agents with different sockets save over each other; where all that run
have their lock on one file, each has read the vault after the others were gone.
-/

namespace LvimKeyring.Agents

open Rpc Crypto Vault Server Daemon Transition
open SaveRaces (touched relied run_frame)

variable {Key : Type}

structure State (Key : Type) where
  host : Host.State
  /-- The files of the vault, which the agents share. -/
  fs : FileSystem
  agent : ℕ → Daemon.State Key

inductive Event
  | host (e : Host.Event)
  | act (p : ℕ) (a : Action)

/-- The daemon of a process before the files as they are. -/
def State.seen (x : State Key) (p : ℕ) : Daemon.State Key :=
  { x.agent p with shared := (x.agent p).shared.withFs x.fs }

def lockNow (d : Daemon.State Key) : Daemon.State Key :=
  { d with shared := d.shared.withSession none }

/-- The daemons, once a step of the processes has been taken. -/
def afterHost (agent : ℕ → Daemon.State Key) (e : Host.Event) (p : ℕ) : Daemon.State Key :=
  if e.locks = some p then lockNow (agent p) else agent p

/-- One step, process `p` having been started with the socket path `sock p`. -/
def step (L : Packages Key) (sock : ℕ → String) (cfg : ℕ → Config) (x : State Key) :
    Event → Option (State Key)
  | .host e =>
    (Host.step sock x.host e).map fun host => { x with host, agent := afterHost x.agent e }
  | .act p a =>
    if (x.host.stage p).serves then
      (Daemon.step L (cfg p) (x.seen p) a).map fun d =>
        { x with fs := d.shared.world.fs, agent := Function.update x.agent p d }
    else none

def start (Key : Type) (disk : Disk String UInt8) (fs : FileSystem) (clock : ℕ → ℕ) :
    State Key where
  host := Host.start disk
  fs
  agent p := Daemon.start Key fs (clock p)

/-! ### The statement -/

/-- The entry the last acknowledged mutation of each name has left, and the agent that made it. -/
abbrev Ledger := String → Option (ℕ × Entry)

/-- The names a section is about. -/
def named : Pc Key → List String
  | .access op => touched op
  | _ => []

/-- The names of the mutation that a section has carried out. -/
def acked : Pc Key → Pc Key → List String
  | .access op, .respond (.ok _) => touched op
  | _, _ => []

def Ledger.update (g : Ledger) (x : State Key) : Event → State Key → Ledger
  | .act q (.run t _ _), x' => fun name =>
    if name ∈ acked ((x.agent q).pc t) ((x'.agent q).pc t) then
      ((x'.agent q).shared.session.bind fun s => s.body.entries[name]?).map fun e => (q, e)
    else g name
  | _, _ => g

/-- The names an action is about. -/
def namedBy (d : Daemon.State Key) : Action → List String
  | .run t _ _ => named (d.pc t)
  | _ => []

/-- An action of agent `q` leaves in the vault file what another agent has put there, unless it
is about that very name. -/
def SparesOthers (L : Packages Key) (sock : ℕ → String) (cfg : ℕ → Config) (path : String)
    (x : State Key) (g : Ledger) (q : ℕ) (a : Action) : Prop :=
  ∀ x', step L sock cfg x (.act q a) = some x' → ∀ name p entry f, g name = some (p, entry) →
    p ≠ q → name ∉ namedBy (x.agent q) a → Holds L.toLibrary x.fs path f →
    f.body.entries[name]? = some entry →
    ∃ f', Holds L.toLibrary x'.fs path f' ∧ f'.body.entries[name]? = some entry

/-- No agent removes from the vault what another one has stored. -/
def NeverRemoves : Prop :=
  ∀ (Key : Type) (L : Packages Key) (sock : ℕ → String) (cfg : ℕ → Config) (path : String)
    (disk : Disk String UInt8) (fs : FileSystem) (clock : ℕ → ℕ) (es : List Event) (x : State Key),
    L.toLibrary.Ideal → (∀ p, (cfg p).vaultPath = path) →
    run (step L sock cfg) (start Key disk fs clock) es = some x → ∀ q a,
    SparesOthers L sock cfg path x
      (history (step L sock cfg) Ledger.update (fun _ => none) (start Key disk fs clock) es) q a

/-- A process that comes to its `flock` finds the lock of no other file taken, and no operation
on the session has its save stopped. -/
def Guarded (cfg : ℕ → Config) (x : State Key) : Event → Prop
  | .host (.flock p) => ∀ q lock other, x.host.stage p = .locking lock →
      (x.host.stage q).held = some other → other = lock
  | .act p (.run t env _) => ∀ op, (x.agent p).pc t = .access op →
      op.reads = true ∨ ¬ stops env.io (cfg p).vaultPath
  | _ => True

/-! ### What an agent has read -/

section Files

variable (L : Library Key) (path : String) (foreign : String → Prop)

/-- The session has the entries the file has under the names of others. -/
def Agrees (fs : FileSystem) (s : Session Key) : Prop :=
  ∃ f, Holds L fs path f ∧ ∀ name, foreign name → s.body.entries[name]? = f.body.entries[name]?

/-- The file goes on to have the entries it has under the names of others. -/
def Keeps (fs fs' : FileSystem) : Prop :=
  ∀ f, Holds L fs path f → ∃ f', Holds L fs' path f' ∧
    ∀ name, foreign name → f'.body.entries[name]? = f.body.entries[name]?

/-- A section relies on sessions that agree with the file, and creates one only where no other
agent has stored anything. -/
structure Steady (fs : FileSystem) (p : Pc Key) : Prop where
  sessions : ∀ s ∈ relied p, Agrees L path foreign fs s
  creating : ∀ password, p = .createWrite password → ∀ name, ¬ foreign name

variable {L path foreign} {fs fs' : FileSystem} {s : Session Key} {foreign' : String → Prop}

lemma agrees_of_holds (h : Holds L fs path s) : Agrees L path foreign fs s :=
  ⟨s, h, fun _ _ => rfl⟩

lemma keeps_of_eq (h : fs' path = fs path) : Keeps L path foreign fs fs' :=
  fun f hf => ⟨f, hf.congr h, fun _ _ => rfl⟩

lemma Agrees.kept (h : Agrees L path foreign fs s) (hkeeps : Keeps L path foreign' fs fs')
    (hsub : ∀ name, foreign' name → foreign name) : Agrees L path foreign' fs' s := by
  obtain ⟨f, hf, hs⟩ := h
  obtain ⟨f', hf', hkept⟩ := hkeeps f hf
  exact ⟨f', hf', fun name hname => (hs name (hsub name hname)).trans (hkept name hname).symm⟩

lemma Steady.kept {p : Pc Key} (h : Steady L path foreign fs p)
    (hkeeps : Keeps L path foreign' fs fs') (hsub : ∀ name, foreign' name → foreign name) :
    Steady L path foreign' fs' p :=
  ⟨fun s hs => (h.sessions s hs).kept hkeeps hsub,
    fun password hp name hname => h.creating password hp name (hsub name hname)⟩

lemma steady_of_plain {p : Pc Key} (hp : p.plain = true) : Steady L path foreign fs p := by
  cases p with
  | install | createWrite | rotateWrite => cases hp
  | _ => exact ⟨fun s hs => (by cases hs), fun password heq => (by cases heq)⟩

lemma Steady.moved {p p' : Pc Key} (h : Steady L path foreign fs p) (hmoved : Moved p p') :
    Steady L path foreign fs p' := by
  cases hmoved with
  | same => exact h
  | rouse | request | tick => exact steady_of_plain rfl

lemma keeps_write (hL : L.Ideal) {io : Faults} {nonce : Nonce} {r : Except Err Unit}
    (hw : write L io fs path s nonce = (fs', r))
    (hs : ∀ f, Holds L fs path f → ∀ name, foreign name →
      s.body.entries[name]? = f.body.entries[name]?) : Keeps L path foreign fs fs' := by
  cases r with
  | error e => exact keeps_of_eq (write_error hw)
  | ok _ => exact fun f hf => ⟨s, holds_of_write hL hw, hs f hf⟩

lemma Agrees.eq (hL : L.Ideal) (h : Agrees L path foreign fs s) :
    ∀ f, Holds L fs path f → ∀ name, foreign name →
      s.body.entries[name]? = f.body.entries[name]? := by
  obtain ⟨f, hf, hs⟩ := h
  intro f' hf'
  rw [hf.unique hL hf']
  exact hs

end Files

/-! ### The sections -/

section Sections

variable {L : Packages Key} {cfg : Config} {env : Env} {expired : Bool} {t : ℕ} {origin : ℕ × ℕ}
  {sh sh' : Shared Key} {p p' : Pc Key} {foreign : String → Prop}

/-- What an agent that has read the vault after the others has of their entries: the session and
every session its threads rely on. -/
structure Read (L : Packages Key) (path : String) (foreign : String → Prop) (sh : Shared Key)
    (p : Pc Key) : Prop where
  session : ∀ s, sh.session = some s → Agrees L.toLibrary path foreign sh.world.fs s
  steady : Steady L.toLibrary path foreign sh.world.fs p
  filed : ∀ name, foreign name → ∃ f, Holds L.toLibrary sh.world.fs path f

/-- What a section leaves: the file goes on to have the entries of the others, and the agent
what it has read of them. -/
structure Leaves (L : Packages Key) (path : String) (foreign : String → Prop) (sh sh' : Shared Key)
    (p' : Pc Key) : Prop where
  keeps : Keeps L.toLibrary path foreign sh.world.fs sh'.world.fs
  session : ∀ s, sh'.session = some s → Agrees L.toLibrary path foreign sh'.world.fs s
  steady : Steady L.toLibrary path foreign sh'.world.fs p'

lemma Leaves.of_eq (hfs : sh'.world.fs = sh.world.fs)
    (hsession : ∀ s, sh'.session = some s →
      Agrees L.toLibrary cfg.vaultPath foreign sh.world.fs s)
    (hsteady : Steady L.toLibrary cfg.vaultPath foreign sh.world.fs p') :
    Leaves L cfg.vaultPath foreign sh sh' p' := by
  refine ⟨keeps_of_eq (by rw [hfs]), ?_, ?_⟩
  · rw [hfs]
    exact hsession
  · rw [hfs]
    exact hsteady

lemma Read.leaves_writeNew (hL : L.toLibrary.Ideal) (h : Read L cfg.vaultPath foreign sh p)
    {io : Faults} {s : Session Key} {k : Installer} {nonce : Nonce}
    (hs : ∀ f, Holds L.toLibrary sh.world.fs cfg.vaultPath f → ∀ name, foreign name →
      s.body.entries[name]? = f.body.entries[name]?)
    (hw : afterWrite sh k (writeNew L.toLibrary io sh.world.fs cfg.vaultPath s nonce) = (sh', p')) :
    Leaves L cfg.vaultPath foreign sh sh' p' := by
  rcases hr : write L.toLibrary io sh.world.fs cfg.vaultPath s nonce with ⟨fs', r⟩
  have hkeeps : Keeps L.toLibrary cfg.vaultPath foreign sh.world.fs fs' := keeps_write hL hr hs
  simp only [writeNew, hr] at hw
  cases r with
  | error e =>
    cases hw
    exact ⟨hkeeps, fun u hu => (h.session u hu).kept hkeeps fun _ => id, steady_of_plain rfl⟩
  | ok _ =>
    cases hw
    refine ⟨hkeeps, fun u hu => (h.session u hu).kept hkeeps fun _ => id, fun u hu => ?_,
      fun password heq => (by cases heq)⟩
    rw [List.mem_singleton.mp hu]
    exact agrees_of_holds (holds_of_write hL hr)

/-- The sections that are no operation on the session. -/
lemma Read.exec (hL : L.toLibrary.Ideal) (h : Read L cfg.vaultPath foreign sh p)
    (hp : ∀ op, p ≠ .access op) (hexec : p.exec L cfg env expired t origin sh = some (sh', p')) :
    Leaves L cfg.vaultPath foreign sh sh' p' := by
  cases p with
  | access op => exact absurd rfl (hp op)
  | call c =>
    by_cases hlock : c = .lock
    · subst hlock
      cases hexec
      exact .of_eq rfl (fun s hs => by cases hs)
        (steady_of_plain (by split <;> rfl))
    · obtain ⟨hfs, hsession, hopened⟩ := begin_opened hlock hexec
      refine .of_eq hfs (fun s hs => h.session s (by rw [← hsession, hs])) ?_
      cases hopened with
      | plain hplain => exact steady_of_plain hplain
      | create habsent =>
        refine ⟨fun s hs => (by cases hs), fun password _ name hname => ?_⟩
        obtain ⟨f, hf⟩ := h.filed name hname
        rw [hf.fileExists] at habsent
        cases habsent
      | unlock hu | rotate hu =>
        refine ⟨fun s hs => ?_, fun password heq => (by cases heq)⟩
        rw [List.mem_singleton.mp hs]
        exact agrees_of_holds (unlock_eq_ok.mp hu).2.2
  | createWrite password =>
    simp only [Pc.exec, Option.some.injEq] at hexec
    have hnobody : ∀ name, ¬ foreign name := h.steady.creating password rfl
    unfold createAbsent at hexec
    cases hkey : deriveKey L.toPrimitives (asBytes password) env.salt cfg.kdf with
    | error e =>
      simp only [hkey] at hexec
      cases hexec
      exact .of_eq rfl h.session (steady_of_plain rfl)
    | ok key =>
      simp only [hkey] at hexec
      exact h.leaves_writeNew hL (fun f _ name hname => absurd hname (hnobody name)) hexec
  | rotateWrite current old new =>
    simp only [Pc.exec, Option.some.injEq] at hexec
    have hcurrent := h.steady.sessions current (List.mem_singleton_self _)
    unfold rotateRead at hexec
    cases hkey : deriveKey L.toPrimitives (asBytes new) env.salt cfg.kdf with
    | error e =>
      simp only [hkey] at hexec
      cases hexec
      exact .of_eq rfl h.session (steady_of_plain rfl)
    | ok key =>
      simp only [hkey] at hexec
      exact h.leaves_writeNew hL (s := ⟨⟨current.body.entries⟩, key, env.salt, cfg.kdf⟩)
        (hcurrent.eq hL) hexec
  | install s k =>
    cases hexec
    refine .of_eq rfl (fun u hu => ?_) (steady_of_plain rfl)
    rw [← Option.some.inj hu]
    exact h.steady.sessions s (List.mem_singleton_self _)
  | tickTake =>
    cases hexec
    exact .of_eq rfl (fun s hs => by cases hs) (steady_of_plain (by split <;> rfl))
  | _ =>
    obtain ⟨hfs, hsession, hplain⟩ := exec_rests rfl hexec
    exact .of_eq hfs (fun s hs => h.session s (by rw [← hsession, hs]))
      (steady_of_plain hplain)

lemma Read.access_keeps (hL : L.toLibrary.Ideal) {op : Op}
    (h : Read L cfg.vaultPath foreign sh (.access op))
    (hexec : (Pc.access op).exec L cfg env expired t origin sh = some (sh', p')) :
    Keeps L.toLibrary cfg.vaultPath (fun name => foreign name ∧ name ∉ touched op)
      sh.world.fs sh'.world.fs := by
  cases hexec
  rcases SaveRaces.withSession_saves cfg env hL op sh.world with
    ⟨hw, -⟩ | ⟨s, b, r, hs, hrun, -, -, ⟨-, hheld⟩ | ⟨-, -, hfs⟩⟩
  · exact keeps_of_eq (by rw [hw])
  · refine fun f hf => ⟨_, hheld, fun name hname => ?_⟩
    have hsame := run_frame hrun hname.2
    exact hsame.trans ((h.session s hs).eq hL f hf name hname.1)
  · exact keeps_of_eq hfs

/-- An operation whose save is not stopped is in the file, or has changed nothing. -/
lemma Read.access (hL : L.toLibrary.Ideal) {op : Op}
    (h : Read L cfg.vaultPath foreign sh (.access op))
    (hgoes : op.reads = true ∨ ¬ stops env.io cfg.vaultPath)
    (hexec : (Pc.access op).exec L cfg env expired t origin sh = some (sh', p')) :
    Leaves L cfg.vaultPath (fun name => foreign name ∧ name ∉ acked (.access op) p') sh sh' p' ∧
      ∀ name ∈ acked (.access op) p', ∃ f, Holds L.toLibrary sh'.world.fs cfg.vaultPath f := by
  have hkeeps := h.access_keeps hL hexec
  cases hexec
  rcases SaveRaces.withSession_saves cfg env hL op sh.world with
    ⟨hw, hsame⟩ | ⟨s, b, r, hs, hrun, hop, hs', ⟨hr, hheld⟩ | ⟨hstops, -⟩⟩
  · have hnone : acked (.access op : Pc Key)
        (.respond (Server.withSession L cfg env false op sh.world).reply) = [] := by
      rcases hsame with ⟨e, he⟩ | hreads
      · rw [he]
        rfl
      · cases (Server.withSession L cfg env false op sh.world).reply with
        | error e => rfl
        | ok r => cases op <;> first | rfl | cases hreads
    have hall : (fun name => foreign name ∧ name ∉ acked (.access op : Pc Key)
        (.respond (Server.withSession L cfg env false op sh.world).reply)) = foreign := by
      simp [hnone]
    rw [hall, hnone]
    refine ⟨.of_eq (by rw [hw]) (fun u hu => h.session u ?_) (steady_of_plain rfl), ?_⟩
    · rw [Shared.session, hw] at hu
      exact hu
    · intro name hname
      cases hname
  · have hacked : acked (.access op : Pc Key)
        (.respond (Server.withSession L cfg env false op sh.world).reply) = touched op := by
      rw [hr]
      rfl
    rw [hacked]
    refine ⟨⟨hkeeps, fun u hu => ?_, steady_of_plain rfl⟩, fun _ _ => ⟨_, hheld⟩⟩
    rw [Shared.session, hs'] at hu
    rw [← Option.some.inj hu]
    exact agrees_of_holds hheld
  · rcases hgoes with hreads | hgoes
    · rw [hop] at hreads
      cases hreads
    · exact absurd hstops hgoes

lemma Leaves.mono {foreign' : String → Prop} (h : Leaves L cfg.vaultPath foreign sh sh' p')
    (hsub : ∀ name, foreign' name → foreign name) : Leaves L cfg.vaultPath foreign' sh sh' p' := by
  have hrefl : Keeps L.toLibrary cfg.vaultPath foreign' sh'.world.fs sh'.world.fs := keeps_of_eq rfl
  refine ⟨fun f hf => ?_, fun s hs => (h.session s hs).kept hrefl hsub, h.steady.kept hrefl hsub⟩
  obtain ⟨f', hf', hkept⟩ := h.keeps f hf
  exact ⟨f', hf', fun name hname => hkept name (hsub name hname)⟩

lemma Read.keeps (hL : L.toLibrary.Ideal) (h : Read L cfg.vaultPath foreign sh p)
    (hexec : p.exec L cfg env expired t origin sh = some (sh', p')) :
    Keeps L.toLibrary cfg.vaultPath (fun name => foreign name ∧ name ∉ named p)
      sh.world.fs sh'.world.fs := by
  by_cases hp : ∃ op, p = .access op
  · obtain ⟨op, rfl⟩ := hp
    exact h.access_keeps hL hexec
  · have hleaves := h.exec hL (fun op heq => hp ⟨op, heq⟩) hexec
    exact (hleaves.mono fun _ hname => hname.1).keeps

lemma Read.step (hL : L.toLibrary.Ideal) (h : Read L cfg.vaultPath foreign sh p)
    (hgoes : ∀ op, p = .access op → op.reads = true ∨ ¬ stops env.io cfg.vaultPath)
    (hexec : p.exec L cfg env expired t origin sh = some (sh', p')) :
    Leaves L cfg.vaultPath (fun name => foreign name ∧ name ∉ acked p p') sh sh' p' ∧
      ∀ name ∈ acked p p', ∃ f, Holds L.toLibrary sh'.world.fs cfg.vaultPath f := by
  by_cases hp : ∃ op, p = .access op
  · obtain ⟨op, rfl⟩ := hp
    exact h.access hL (hgoes op rfl) hexec
  · have hp' : ∀ op, p ≠ .access op := fun op heq => hp ⟨op, heq⟩
    have hnone : acked p p' = [] := by
      cases p with
      | access op => exact absurd rfl (hp' op)
      | _ => rfl
    rw [hnone]
    refine ⟨(h.exec hL hp' hexec).mono fun _ hname => hname.1, ?_⟩
    intro name hname
    cases hname

end Sections

/-! ### The invariant -/

variable {L : Packages Key} {sock : ℕ → String} {cfg : ℕ → Config} {path : String}
  {x x' : State Key} {g : Ledger}

/-- The names whose last mutation another agent has made. -/
def foreign (g : Ledger) (p : ℕ) (name : String) : Prop := ∃ q e, g name = some (q, e) ∧ q ≠ p

/-- One agent at most is past its `flock`, and it has read the vault after all the others; an
agent before its `flock` has done nothing. -/
structure Inv (L : Packages Key) (path : String) (g : Ledger) (x : State Key) : Prop where
  held : Host.Held x.host
  alone : ∀ p q, (x.host.stage p).held.isSome → (x.host.stage q).held.isSome → p = q
  early : ∀ p, (x.host.stage p).early = true →
    (x.agent p).shared.session = none ∧ ∀ t, (x.agent p).pc t = .idle
  filed : ∀ name v, g name = some v → ∃ f, Holds L.toLibrary x.fs path f
  read : ∀ p, (x.host.stage p).held.isSome → ∀ t,
    Read L path (foreign g p) (x.seen p).shared ((x.agent p).pc t)

lemma afterHost_pc (agent : ℕ → Daemon.State Key) (e : Host.Event) (p : ℕ) :
    (afterHost agent e p).pc = (agent p).pc := by
  unfold afterHost
  split <;> rfl

lemma afterHost_session (agent : ℕ → Daemon.State Key) (e : Host.Event) (p : ℕ) :
    (afterHost agent e p).shared.session = none ∨
      (afterHost agent e p).shared.session = (agent p).shared.session := by
  unfold afterHost
  split
  · exact .inl rfl
  · exact .inr rfl

lemma held_before {e : Host.Event} {host : Host.State} {p : ℕ}
    (hs : Host.step sock x.host e = some host) (hp : (host.stage p).held.isSome) :
    (x.host.stage p).held.isSome ∨
      ∃ lock, e = .flock p ∧ x.host.stage p = .locking lock ∧ x.host.holder lock = none := by
  have heffect := Host.step_effect hs
  by_cases hpe : p = e.process
  · subst hpe
    cases heffect.advance with
    | rest hheld =>
      rw [hheld] at hp
      exact .inl hp
    | flock lock hlocking hfree hclearing =>
      exact .inr ⟨lock, Host.flock_of_clearing hs hlocking hclearing, hlocking, hfree⟩
    | die hgone =>
      rw [hgone] at hp
      cases hp
  · rw [heffect.others p hpe] at hp
    exact .inl hp

lemma early_before {e : Host.Event} {host : Host.State} {p : ℕ}
    (hs : Host.step sock x.host e = some host) (hp : (host.stage p).early = true) :
    (x.host.stage p).early = true := by
  have heffect := Host.step_effect hs
  by_cases hpe : p = e.process
  · subst hpe
    cases heffect.advance with
    | rest _ _ hearly => exact hearly hp
    | flock lock hlocking hfree hclearing =>
      rw [hclearing] at hp
      cases hp
    | die hgone =>
      rw [hgone] at hp
      cases hp
  · rwa [heffect.others p hpe] at hp

lemma read_of_early (hinv : Inv L path g x) {p : ℕ} (hp : (x.host.stage p).early = true) (t : ℕ) :
    Read L path (foreign g p) (x.seen p).shared ((x.agent p).pc t) := by
  obtain ⟨hsession, hidle⟩ := hinv.early p hp
  refine ⟨fun s hs => ?_, ?_, ?_⟩
  · have hnone : (x.seen p).shared.session = none := hsession
    rw [hnone] at hs
    cases hs
  · rw [hidle t]
    exact steady_of_plain rfl
  · rintro name ⟨q, e, hname, -⟩
    exact hinv.filed name (q, e) hname

lemma inv_host (hinv : Inv L path g x) {e : Host.Event} {host : Host.State}
    (hguard : Guarded cfg x (.host e)) (hs : Host.step sock x.host e = some host) :
    Inv L path g { x with host, agent := afterHost x.agent e } where
  held := Host.held_step hinv.held hs
  alone := by
    -- whoever has just taken a lock has found no other one taken
    have hfirst : ∀ p q lock, e = .flock p → x.host.stage p = .locking lock →
        x.host.holder lock = none → (x.host.stage q).held.isSome → False := by
      intro p q lock he hlocking hfree hq
      subst he
      obtain ⟨other, hother⟩ := Option.isSome_iff_exists.mp hq
      have hsame := hguard q lock other hlocking hother
      have hholder := hinv.held q other hother
      rw [hsame, hfree] at hholder
      cases hholder
    -- Two locks taken in one step would be two processes moving in it.
    intro p q hp hq
    rcases held_before hs hp with hp | ⟨lock, hep, hlocking, hfree⟩
    · rcases held_before hs hq with hq | ⟨lock, heq, hlocking, hfree⟩
      · exact hinv.alone p q hp hq
      · exact (hfirst q p lock heq hlocking hfree hp).elim
    · rcases held_before hs hq with hq | ⟨lock', heq, -⟩
      · exact (hfirst p q lock hep hlocking hfree hq).elim
      · rw [hep] at heq
        cases heq
        rfl
  early p hp := by
    obtain ⟨hsession, hidle⟩ := hinv.early p (early_before hs hp)
    refine ⟨?_, fun t => ?_⟩
    · rcases afterHost_session x.agent e p with hnone | hsame
      · exact hnone
      · exact hsame.trans hsession
    · rw [afterHost_pc]
      exact hidle t
  filed := hinv.filed
  read p hp t := by
    have hread : Read L path (foreign g p) (x.seen p).shared ((x.agent p).pc t) := by
      rcases held_before hs hp with hp | ⟨lock, -, hlocking, -⟩
      · exact hinv.read p hp t
      · exact read_of_early hinv (by rw [hlocking]; rfl) t
    rw [afterHost_pc]
    refine ⟨fun s hsome => ?_, hread.steady, hread.filed⟩
    have hsome' : (afterHost x.agent e p).shared.session = some s := hsome
    rcases afterHost_session x.agent e p with hnone | hsame
    · rw [hnone] at hsome'
      cases hsome'
    · exact hread.session s (hsame.symm.trans hsome')

lemma ne_of_early {p q : ℕ} (hq : (x.host.stage q).early = true)
    (hp : (x.host.stage p).serves = true) : q ≠ p := by
  rintro rfl
  cases hst : x.host.stage q <;> rw [hst] at hq hp <;> cases hq <;> cases hp

/-- What an action of the daemon of process `p` leaves, `d` being that daemon after it. -/
structure Acted (x x' : State Key) (p : ℕ) (d : Daemon.State Key) : Prop where
  host : x'.host = x.host
  fs : x'.fs = d.shared.world.fs
  agent : x'.agent p = d
  others : ∀ q, q ≠ p → x'.agent q = x.agent q

lemma acted_of_step {p : ℕ} {a : Action} (hs : step L sock cfg x (.act p a) = some x') :
    (x.host.stage p).serves = true ∧
      ∃ d, Daemon.step L (cfg p) (x.seen p) a = some d ∧ Acted x x' p d := by
  simp only [step] at hs
  split at hs
  · rename_i hserves
    obtain ⟨d, hd, rfl⟩ := Option.map_eq_some_iff.mp hs
    exact ⟨hserves, d, hd, rfl, rfl, Function.update_self _ _ _,
      fun q hq => Function.update_of_ne hq _ _⟩
  · cases hs

lemma foreign_update {t : ℕ} {env : Env} {expired : Bool} {p : ℕ} {name : String}
    (h : foreign (g.update x (.act p (.run t env expired)) x') p name) :
    foreign g p name ∧ name ∉ acked ((x.agent p).pc t) ((x'.agent p).pc t) := by
  obtain ⟨q, e, hname, hq⟩ := h
  simp only [Ledger.update] at hname
  split at hname
  · obtain ⟨_, -, heq⟩ := Option.map_eq_some_iff.mp hname
    cases heq
    exact absurd rfl hq
  · rename_i hacked
    exact ⟨⟨q, e, hname, hq⟩, hacked⟩

lemma inv_run_act (hL : L.toLibrary.Ideal) (hinv : Inv L path g x) {p t : ℕ} {env : Env}
    {expired : Bool} {d : Daemon.State Key} (hpath : (cfg p).vaultPath = path)
    (hserves : (x.host.stage p).serves = true)
    (hguard : Guarded cfg x (.act p (.run t env expired)))
    (hs : Daemon.step L (cfg p) (x.seen p) (.run t env expired) = some d)
    (hacted : Acted x x' p d) :
    Inv L path (g.update x (.act p (.run t env expired)) x') x' := by
  subst hpath
  have hheld := Host.held_of_serves hserves
  obtain ⟨pc', hexec, hpc', hothers⟩ := step_run hs
  obtain ⟨hhost, hfs, hagent, hagents⟩ := hacted
  obtain ⟨hleaves, hmutated⟩ := (hinv.read p hheld t).step hL hguard hexec
  rw [← hpc', ← hagent] at hleaves hmutated
  have hmine : Leaves L (cfg p).vaultPath (foreign (g.update x (.act p (.run t env expired)) x') p)
      (x.seen p).shared (x'.agent p).shared ((x'.agent p).pc t) :=
    hleaves.mono fun name hname => foreign_update hname
  have hfiled : ∀ name v, g.update x (.act p (.run t env expired)) x' name = some v →
      ∃ f, Holds L.toLibrary x'.fs (cfg p).vaultPath f := by
    intro name v hname
    rw [hfs, ← hagent]
    by_cases hin : name ∈ acked ((x.agent p).pc t) ((x'.agent p).pc t)
    · exact hmutated name hin
    · simp only [Ledger.update, if_neg hin] at hname
      obtain ⟨f, hf⟩ := hinv.filed name v hname
      obtain ⟨f', hf', -⟩ := hleaves.keeps f hf
      exact ⟨f', hf'⟩
  refine ⟨hhost ▸ hinv.held, hhost ▸ hinv.alone, fun q hq => ?_, hfiled, fun q hq u => ?_⟩
  · rw [hhost] at hq
    rw [hagents q (ne_of_early hq hserves)]
    exact hinv.early q hq
  · -- Two processes past their `flock` are one, so the reader is the process that has moved.
    rw [hhost] at hq
    obtain rfl := hinv.alone q p hq hheld
    have hseen : (x'.seen q).shared = (x'.agent q).shared := by
      simp only [State.seen, hfs, ← hagent]
      rfl
    rw [hseen]
    refine ⟨hmine.session, ?_, ?_⟩
    · by_cases hu : u = t
      · rw [hu]
        exact hmine.steady
      · have hold := (hinv.read q hheld u).steady.kept hmine.keeps fun name hname =>
          (foreign_update hname).1
        rw [hagent, hothers u hu, ← hagent]
        split
        · exact hold.moved (moved_rouse _)
        · exact hold
    · rintro name ⟨r, e, hname, -⟩
      rw [← hseen]
      exact hfiled name (r, e) hname

lemma inv_quiet (hinv : Inv L path g x) {p : ℕ} {a : Action} {d : Daemon.State Key}
    (hserves : (x.host.stage p).serves = true)
    (ha : ∀ t env expired, a ≠ .run t env expired)
    (hs : Daemon.step L (cfg p) (x.seen p) a = some d)
    (hacted : Acted x x' p d) : Inv L path g x' := by
  obtain ⟨hhost, hsaved, hagent, hagents⟩ := hacted
  have hquiet := step_quiet hs ha
  have hworld : d.shared.world.fs = x.fs := by
    rw [hquiet.world]
    rfl
  have hfs : x'.fs = x.fs := hsaved.trans hworld
  refine ⟨hhost ▸ hinv.held, hhost ▸ hinv.alone, fun q hq => ?_, fun name v hname => ?_,
    fun q hq u => ?_⟩
  · rw [hhost] at hq
    rw [hagents q (ne_of_early hq hserves)]
    exact hinv.early q hq
  · rw [hfs]
    exact hinv.filed name v hname
  · rw [hhost] at hq
    obtain rfl := hinv.alone q p hq (Host.held_of_serves hserves)
    have hread := hinv.read q hq u
    have hsession : (x'.seen q).shared.session = (x.seen q).shared.session := by
      have hsame : d.shared.session = (x.seen q).shared.session := by
        rw [Shared.session, hquiet.world]
        rfl
      rw [← hsame, ← hagent]
      rfl
    have hseen : (x'.seen q).shared.world.fs = (x.seen q).shared.world.fs := hfs
    refine ⟨fun s hsome => ?_, ?_, fun name hname => ?_⟩
    · rw [hsession] at hsome
      rw [hseen]
      exact hread.session s hsome
    · rw [hseen, hagent]
      exact hread.steady.moved (hquiet.moved u)
    · rw [hseen]
      exact hread.filed name hname

theorem inv_step (hL : L.toLibrary.Ideal) (hpath : ∀ p, (cfg p).vaultPath = path) {e : Event}
    (hinv : Inv L path g x) (hguard : Guarded cfg x e) (hs : step L sock cfg x e = some x') :
    Inv L path (g.update x e x') x' := by
  cases e with
  | host e =>
    obtain ⟨host, hhost, rfl⟩ := Option.map_eq_some_iff.mp hs
    exact inv_host hinv hguard hhost
  | act p a =>
    obtain ⟨hserves, d, hd, hacted⟩ := acted_of_step hs
    by_cases ha : ∃ t env expired, a = .run t env expired
    · obtain ⟨t, env, expired, rfl⟩ := ha
      exact inv_run_act hL hinv (hpath p) hserves hguard hd hacted
    · have ha' : ∀ t env expired, a ≠ .run t env expired :=
        fun t env expired heq => ha ⟨t, env, expired, heq⟩
      have hg : g.update x (.act p a) x' = g := by
        cases a with
        | run t env expired => exact absurd rfl (ha' t env expired)
        | _ => rfl
      rw [hg]
      exact inv_quiet hinv hserves ha' hd hacted

lemma inv_start (L : Packages Key) (path : String) (disk : Disk String UInt8) (fs : FileSystem)
    (clock : ℕ → ℕ) : Inv L path (fun _ => none) (start Key disk fs clock) where
  held := Host.held_start disk
  alone _ _ hp := by cases hp
  early _ _ := ⟨rfl, fun _ => rfl⟩
  filed _ _ hname := by cases hname
  read _ hp := by cases hp

/-- Where all the agents that run have their lock on one file and no save is stopped, none
removes what another has stored. -/
theorem sparesOthers_of_guarded (L : Packages Key) (hL : L.toLibrary.Ideal) (sock : ℕ → String)
    (cfg : ℕ → Config) (path : String) (hpath : ∀ p, (cfg p).vaultPath = path)
    (disk : Disk String UInt8) (fs : FileSystem) (clock : ℕ → ℕ) (es : List Event)
    (x : State Key) (hguard : Along (step L sock cfg) (Guarded cfg) (start Key disk fs clock) es)
    (hrun : run (step L sock cfg) (start Key disk fs clock) es = some x) (q : ℕ) (a : Action) :
    SparesOthers L sock cfg path x
      (history (step L sock cfg) Ledger.update (fun _ => none) (start Key disk fs clock) es)
      q a := by
  have hstep : ∀ x g e x', Inv L path g x → Guarded cfg x e → step L sock cfg x e = some x' →
      Inv L path (Ledger.update g x e x') x' := by
    intro x g e x' hinv hG hs
    exact inv_step hL hpath hinv hG hs
  have hinv : Inv L path (history (step L sock cfg) Ledger.update (fun _ => none)
      (start Key disk fs clock) es) x :=
    run_track_inv (fun g x e x' hinv hG hs => hstep x g e x' hinv hG hs)
      (inv_start L path disk fs clock) (along_track _ hguard) hrun
  intro x' hs name p entry f hname hp hnamed hf hentry
  obtain ⟨hserves, d, hd, hacted⟩ := acted_of_step hs
  rw [hacted.fs]
  by_cases ha : ∃ t env expired, a = .run t env expired
  · obtain ⟨t, env, expired, rfl⟩ := ha
    obtain ⟨pc', hexec, -, -⟩ := step_run hd
    have hread := hinv.read q (Host.held_of_serves hserves) t
    have hforeign : foreign _ q name := ⟨p, entry, hname, hp⟩
    rw [← hpath q] at hread hf ⊢
    obtain ⟨f', hf', hkept⟩ := hread.keeps hL hexec f hf
    exact ⟨f', hf', (hkept name ⟨hforeign, hnamed⟩).trans hentry⟩
  · have hquiet := step_quiet hd fun t env expired heq => ha ⟨t, env, expired, heq⟩
    exact ⟨f, hf.congr (by rw [hquiet.world]; rfl), hentry⟩

/-! ### One socket -/

/-- Every file operation of the agents on the vault succeeds. -/
def Event.faultless : Event → Prop
  | .host _ => True
  | .act _ a => a.faultless

/-- Agents with one socket path have their lock on one file. -/
theorem guarded_of_oneSocket {socket : String} (hlock : Host.lockPath socket ≠ socket)
    {disk : Disk String UInt8} {fs : FileSystem} {clock : ℕ → ℕ} {es : List Event}
    (hio : ∀ e ∈ es, e.faultless) :
    Along (step L (fun _ => socket) cfg) (Guarded cfg) (start Key disk fs clock) es := by
  have hnamed : ∀ (x : State Key) e x', Host.Named (fun _ => socket) x.host → e.faultless →
      step L (fun _ => socket) cfg x e = some x' → Host.Named (fun _ => socket) x'.host := by
    intro x e x' hx _ hs
    cases e with
    | host e =>
      obtain ⟨host, hhost, rfl⟩ := Option.map_eq_some_iff.mp hs
      exact Host.named_step (fun _ _ => hlock) hx hhost
    | act p a =>
      obtain ⟨-, d, -, hacted⟩ := acted_of_step hs
      rw [hacted.host]
      exact hx
  refine Along.of_inv (fun x => Host.Named (fun _ => socket) x.host) hnamed (fun x e hx he => ?_)
    (Host.named_start _ disk) (along_of_forall fun e hin _ => hio e hin)
  cases e with
  | host e =>
    cases e with
    | flock p =>
      intro q lock other hlocking hheld
      have hp := hx p lock (by rw [hlocking]; rfl)
      rw [hx q other (Host.opened_of_held hheld)] at hp
      exact Option.some.inj hp
    | _ => trivial
  | act p a =>
    cases a with
    | run t env expired =>
      intro op _
      have hnone : env.io = .none := he
      rw [hnone]
      exact .inr (not_stops_none _)
    | _ => trivial

/-! ### Two sockets -/

/-- A daemon from its start to its first `accept`. -/
def startup (p : ℕ) : List Event :=
  [.host (.spawn p), .host (.openLock p true), .host (.flock p), .host (.clear p false),
    .host (.bind p true), .host (.listen p true)]

def asked (p : ℕ) (as : List Action) : List Event := as.map (.act p)

/-- The first client of an agent unlocks the vault. -/
def unlocked (p : ℕ) : List Event :=
  asked p (.connect :: Sample.served 0 "vault.unlock" [("password", .str "pw")] 8)

/-- An agent unlocks the vault, stores `a` and leaves; the next one on its socket unlocks it too
and comes to store `b`. -/
def handedOver : List Event :=
  startup 0 ++ unlocked 0 ++
    asked 0 (Sample.served 1 "secret.set" [("name", .str "a"), ("value", .str "x")] 4) ++
    [.host (.leave 0 0), .host (.lock 0 0), .host (.unlink 0 0 true), .host (.exit 0 0)] ++
    startup 1 ++ unlocked 1 ++
    asked 1 (Sample.served 1 "secret.set" [("name", .str "b"), ("value", .str "y")] 2)

/-- The socket paths of a session with a runtime directory and of one without. -/
def twoSockets (p : ℕ) : String :=
  if p = 0 then "/run/user/1000/lvim-keyring/agent.sock" else "/tmp/lvim-keyring-1000/agent.sock"

/-- Both agents unlock the vault, one stores `a`, and the other comes to store `b`. -/
def clobbered : List Event :=
  startup 0 ++ startup 1 ++ unlocked 0 ++ unlocked 1 ++
    asked 0 (Sample.served 1 "secret.set" [("name", .str "a"), ("value", .str "x")] 4) ++
    asked 1 (Sample.served 1 "secret.set" [("name", .str "b"), ("value", .str "y")] 2)

abbrev sampleStep (sock : ℕ → String) : State Sample.Key → Event → Option (State Sample.Key) :=
  step Sample.packages sock fun _ => Sample.config

abbrev sampleStart : State Sample.Key := start Sample.Key .empty Sample.created.fs fun _ => 0

def withEntry (name value : String) : Session Sample.Key :=
  { Sample.session with body := ⟨.ofList [(name, newEntry value 7)]⟩ }

theorem not_neverRemoves : ¬ NeverRemoves := by
  intro h
  have hfiles : ((run (sampleStep twoSockets) sampleStart clobbered).bind fun x =>
      (sampleStep twoSockets x (.act 1 (.run 1 Sample.env false))).map fun x' =>
        (namedBy (x.agent 1) (.run 1 Sample.env false),
          decide (Holds Sample.packages.toLibrary x.fs Sample.config.vaultPath (withEntry "a" "x")),
          decide (Holds Sample.packages.toLibrary x'.fs Sample.config.vaultPath
            (withEntry "b" "y")))) = some (["b"], true, true) := by
    decide +kernel
  have hacked : history (sampleStep twoSockets) Ledger.update (fun _ => none) sampleStart clobbered
      "a" = some (0, newEntry "x" 7) := by
    decide +kernel
  obtain ⟨x, hrun, hx⟩ := Option.bind_eq_some_iff.mp hfiles
  obtain ⟨x', hstep, hx'⟩ := Option.map_eq_some_iff.mp hx
  simp only [Prod.mk.injEq, decide_eq_true_eq] at hx'
  obtain ⟨hnamed, hbefore, hafter⟩ := hx'
  have hspares := h Sample.Key Sample.packages twoSockets (fun _ => Sample.config)
    Sample.config.vaultPath .empty Sample.created.fs (fun _ => 0) clobbered x
    Sample.library_ideal (fun _ => rfl) hrun 1 (.run 1 Sample.env false)
  obtain ⟨f, hf, hentry⟩ := hspares x' hstep "a" 0 (newEntry "x" 7) (withEntry "a" "x") hacked
    (by decide) (by rw [hnamed]; decide) hbefore (by decide +kernel)
  rw [hafter.unique Sample.library_ideal hf] at hentry
  have habsent : (withEntry "b" "y").body.entries["a"]? = none := by decide +kernel
  rw [habsent] at hentry
  cases hentry

theorem sparesOthers_handedOver : ∃ x,
    run (sampleStep fun _ => "agent.sock") sampleStart handedOver = some x ∧
      SparesOthers Sample.packages (fun _ => "agent.sock") (fun _ => Sample.config)
        Sample.config.vaultPath x
        (history (sampleStep fun _ => "agent.sock") Ledger.update (fun _ => none) sampleStart
          handedOver) 1 (.run 1 Sample.env false) := by
  obtain ⟨x, hrun⟩ : ∃ x, run (sampleStep fun _ => "agent.sock") sampleStart handedOver = some x :=
    Option.isSome_iff_exists.mp (by decide +kernel)
  have hserved (p t n : ℕ) (method : String) (params : List (String × Json)) :
      ∀ e ∈ asked p (Sample.served t method params n), e.faultless := by
    intro e he
    obtain ⟨a, ha, rfl⟩ := List.mem_map.mp he
    exact (Sample.plain_served (List.mem_singleton_self method) t n params a ha).1
  have hio : ∀ e ∈ handedOver, e.faultless := by
    simp only [handedOver, unlocked, startup, asked, List.map_cons, List.forall_mem_append,
      List.forall_mem_cons]
    exact ⟨⟨⟨⟨⟨⟨by simp [Event.faultless], trivial, hserved _ _ _ _ _⟩, hserved _ _ _ _ _⟩,
      by simp [Event.faultless]⟩, by simp [Event.faultless]⟩, trivial, hserved _ _ _ _ _⟩,
      hserved _ _ _ _ _⟩
  exact ⟨x, hrun, sparesOthers_of_guarded Sample.packages Sample.library_ideal
    (fun _ => "agent.sock") (fun _ => Sample.config) Sample.config.vaultPath (fun _ => rfl) .empty
    Sample.created.fs (fun _ => 0) handedOver x
    (guarded_of_oneSocket (by decide +kernel) hio) hrun 1 (.run 1 Sample.env false)⟩

end LvimKeyring.Agents
