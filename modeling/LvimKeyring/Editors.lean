import LvimKeyring.Announce
import LvimKeyring.Editor

/-!
One agent and any number of editors.

Every editor has at most one connection. What it sends waits in a queue until the agent reads
it, and what the agent sends it waits on the wire until it is handled. The other clients of the
agent are strangers: they connect, send and leave as they like.
-/

namespace LvimKeyring.Editors

open Rpc Crypto Vault Server Daemon Editor Transition

variable {Key : Type}

/-- The state of an editor's connection. -/
inductive Link
  | none
  | queued
  | served (c : ℕ)
  /-- The agent has ended it, with lines still to come. -/
  | ending (c : ℕ)
  | dead
  deriving DecidableEq

/-- The client that the connection is to the agent. -/
def Link.client : Link → Option ℕ
  | .served c | .ending c => some c
  | _ => Option.none

structure Seat where
  client : Client
  link : Link
  outgoing : List Sent
  wire : List Line

structure System (Key : Type) where
  agent : State Key
  running : Bool
  owner : ℕ → Option ℕ
  seat : ℕ → Seat

inductive Event
  /-- The agent works, or a stranger connects, sends or leaves. -/
  | agent (a : Action)
  /-- The agent locks and exits: on SIGTERM, or after its last client. -/
  | exit
  | spawn (clock : ℕ)
  | connect (e : ℕ)
  | accept (e : ℕ)
  | read (e t : ℕ)
  | hangup (e : ℕ)
  | deliver (e : ℕ)
  /-- Of what an agent that has exited had sent, so many lines come through. -/
  | cut (e n : ℕ)
  | eof (e : ℕ)
  /-- The editor disconnects, or fails to connect; so many lines had been read by then. -/
  | stop (e n : ℕ)
  | send (e : ℕ)
  | user (e : ℕ) (i : Input)

/-- What has come on the channel goes on the wire. -/
def Seat.hear (x : Seat) (before after : ℕ → List Line) : Seat :=
  match x.link.client with
  | some c => { x with wire := x.wire ++ (after c).drop (before c).length }
  | Option.none => x

/-- The agent has exited. -/
def Seat.orphan (x : Seat) : Seat :=
  { x with link := if x.link = .none then .none else .dead, outgoing := [] }

/-- The action is none of an editor's. -/
def foreign (owner : ℕ → Option ℕ) : Action → Bool
  | .request _ c _ _ _ | .disconnect c => (owner c).isNone
  | _ => true

/-- The client is no editor's any more. -/
def disown (owner : ℕ → Option ℕ) : Option ℕ → ℕ → Option ℕ
  | some c => Function.update owner c none
  | none => owner

namespace System

variable (s : System Key)

def withSeat (e : ℕ) (x : Seat) : System Key := { s with seat := Function.update s.seat e x }

def act (L : Packages Key) (cfg : Config) (a : Action) : Option (System Key) :=
  if s.running then
    (Daemon.step L cfg s.agent a).map fun d =>
      { s with
        agent := d
        seat := fun e => (s.seat e).hear s.agent.shared.channel d.shared.channel }
  else none

/-- The editor's end is closed: what it was to the agent is now a stranger. -/
def leave (e : ℕ) (client : Client) (wire : List Line) : System Key :=
  { s with
    owner := disown s.owner (s.seat e).link.client
    seat := Function.update s.seat e ⟨client, .none, [], wire⟩ }

end System

/-- What an agent leaves behind: the files. -/
def remains (d : State Key) : State Key := Daemon.start Key d.shared.world.fs 0

variable (L : Packages Key) (cfg : Config)

def step (s : System Key) : Event → Option (System Key)
  | .agent a => if foreign s.owner a then s.act L cfg a else none
  | .exit =>
    if s.running then
      some ⟨remains s.agent, false, fun _ => none, fun e => (s.seat e).orphan⟩
    else none
  | .spawn clock =>
    if s.running then none
    else some { s with agent := Daemon.start Key s.agent.shared.world.fs clock, running := true }
  | .connect e =>
    let x := s.seat e
    if s.running ∧ x.client.pipe = false then
      let (client, hello) := x.client.connect
      some (s.withSeat e { x with client, link := .queued, outgoing := [hello] })
    else none
  | .accept e =>
    let c := s.agent.shared.nextClient
    if (s.seat e).link = .queued then
      (s.act L cfg .connect).map fun s' =>
        { s' with owner := Function.update s'.owner c (some e) }.withSeat e
          { s'.seat e with link := .served c }
    else none
  | .read e t =>
    match (s.seat e).link, (s.seat e).outgoing with
    | .served c, m :: rest =>
      (s.act L cfg (.request t c m.id m.method m.params)).map fun s' =>
        s'.withSeat e { s'.seat e with outgoing := rest }
    | _, _ => none
  | .hangup e =>
    match (s.seat e).link with
    | .served c =>
      (s.act L cfg (.disconnect c)).map fun s' =>
        s'.withSeat e { s'.seat e with link := .ending c }
    | _ => none
  | .deliver e =>
    let x := s.seat e
    match x.wire with
    | l :: wire =>
      let client := x.client.onMessage l
      -- a handshake that fails closes the pipe
      if x.client.pipe && !client.pipe then some (s.leave e client wire)
      else some (s.withSeat e { x with client, wire })
    | [] => none
  | .cut e n =>
    let x := s.seat e
    if x.link = .dead then some (s.withSeat e { x with wire := x.wire.take n }) else none
  | .eof e =>
    let x := s.seat e
    if x.wire = [] then
      match x.link with
      | .ending _ | .dead => some (s.leave e x.client.teardown [])
      | _ => none
    else none
  | .stop e n =>
    let x := s.seat e
    some (s.leave e x.client.teardown (x.wire.take n))
  | .send e =>
    let x := s.seat e
    x.client.send.map fun (client, m) =>
      s.withSeat e { x with client, outgoing := x.outgoing ++ [m] }
  | .user e i =>
    let x := s.seat e
    (x.client.input i).map fun client => s.withSeat e { x with client }

def start (Key : Type) (fs : FileSystem) (clock : ℕ) : System Key :=
  ⟨Daemon.start Key fs clock, true, fun _ => none, fun _ => ⟨.new, .none, [], []⟩⟩

/-! ### What a step does -/

variable {L cfg} {s s' : System Key}

/-- What a step of the system makes of it. -/
inductive Took (L : Packages Key) (cfg : Config) (s : System Key) : Event → System Key → Prop
  | turn {t : ℕ} {env : Env} {expired : Bool} {d : State Key} (hrun : s.running = true)
      (hd : Daemon.step L cfg s.agent (.run t env expired) = some d) :
      Took L cfg s (.agent (.run t env expired))
        { s with
          agent := d
          seat := fun e => (s.seat e).hear s.agent.shared.channel d.shared.channel }
  | quiet {a : Action} {d : State Key} (hrun : s.running = true)
      (ha : ∀ t env expired, a ≠ .run t env expired) (hf : foreign s.owner a = true)
      (hd : Daemon.step L cfg s.agent a = some d) : Took L cfg s (.agent a) { s with agent := d }
  | exit (hrun : s.running = true) :
      Took L cfg s .exit ⟨remains s.agent, false, fun _ => none, fun e => (s.seat e).orphan⟩
  | spawn {clock : ℕ} (hrun : s.running = false) :
      Took L cfg s (.spawn clock)
        { s with agent := Daemon.start Key s.agent.shared.world.fs clock, running := true }
  | connect {e : ℕ} (hrun : s.running = true) (hpipe : (s.seat e).client.pipe = false) :
      Took L cfg s (.connect e) (s.withSeat e
        { s.seat e with
          client := (s.seat e).client.connect.1
          link := .queued
          outgoing := [(s.seat e).client.connect.2] })
  | accept {e : ℕ} {d : State Key} (hrun : s.running = true) (hlink : (s.seat e).link = .queued)
      (hd : Daemon.step L cfg s.agent .connect = some d) :
      Took L cfg s (.accept e) (({ s with
        agent := d
        owner :=
          Function.update s.owner s.agent.shared.nextClient (some e) } : System Key).withSeat e
          { s.seat e with link := .served s.agent.shared.nextClient })
  | read {e t c : ℕ} {m : Sent} {rest : List Sent} {d : State Key} (hrun : s.running = true)
      (hlink : (s.seat e).link = .served c) (hout : (s.seat e).outgoing = m :: rest)
      (hd : Daemon.step L cfg s.agent (.request t c m.id m.method m.params) = some d) :
      Took L cfg s (.read e t) (({ s with agent := d } : System Key).withSeat e
        { s.seat e with outgoing := rest })
  | hangup {e c : ℕ} {d : State Key} (hrun : s.running = true)
      (hlink : (s.seat e).link = .served c)
      (hd : Daemon.step L cfg s.agent (.disconnect c) = some d) :
      Took L cfg s (.hangup e) (({ s with agent := d } : System Key).withSeat e
        { s.seat e with link := .ending c })
  | deliver {e : ℕ} {l : Line} {wire : List Line} (hwire : (s.seat e).wire = l :: wire)
      (hopen : ¬ ((s.seat e).client.pipe = true ∧ ((s.seat e).client.onMessage l).pipe = false)) :
      Took L cfg s (.deliver e) (s.withSeat e
        { s.seat e with client := (s.seat e).client.onMessage l, wire })
  | refused {e : ℕ} {l : Line} {wire : List Line} (hwire : (s.seat e).wire = l :: wire)
      (hpipe : (s.seat e).client.pipe = true)
      (hclosed : ((s.seat e).client.onMessage l).pipe = false) :
      Took L cfg s (.deliver e) (s.leave e ((s.seat e).client.onMessage l) wire)
  | cut {e n : ℕ} (hlink : (s.seat e).link = .dead) :
      Took L cfg s (.cut e n) (s.withSeat e { s.seat e with wire := (s.seat e).wire.take n })
  | eof {e : ℕ} (hwire : (s.seat e).wire = [])
      (hlink : (s.seat e).link = .dead ∨ ∃ c, (s.seat e).link = .ending c) :
      Took L cfg s (.eof e) (s.leave e (s.seat e).client.teardown [])
  | stop {e n : ℕ} :
      Took L cfg s (.stop e n) (s.leave e (s.seat e).client.teardown ((s.seat e).wire.take n))
  | send {e : ℕ} {client : Client} {m : Sent} (h : (s.seat e).client.send = some (client, m)) :
      Took L cfg s (.send e) (s.withSeat e
        { s.seat e with client, outgoing := (s.seat e).outgoing ++ [m] })
  | user {e : ℕ} {i : Input} {client : Client} (h : (s.seat e).client.input i = some client) :
      Took L cfg s (.user e i) (s.withSeat e { s.seat e with client })


lemma hear_of_silent {x : Seat} {before after : ℕ → List Line} (h : after = before) :
    x.hear before after = x := by
  subst h
  unfold Seat.hear
  split
  · simp
  · rfl

lemma act_eq_some {a : Action} (h : s.act L cfg a = some s') :
    s.running = true ∧ ∃ d, Daemon.step L cfg s.agent a = some d ∧
      s' = { s with
        agent := d
        seat := fun e => (s.seat e).hear s.agent.shared.channel d.shared.channel } := by
  simp only [System.act] at h
  split at h
  · rename_i hrun
    obtain ⟨d, hd, rfl⟩ := Option.map_eq_some_iff.mp h
    exact ⟨hrun, d, hd, rfl⟩
  · cases h

lemma act_quiet {a : Action} (ha : ∀ t env expired, a ≠ .run t env expired)
    (h : s.act L cfg a = some s') :
    s.running = true ∧ ∃ d, Daemon.step L cfg s.agent a = some d ∧ s' = { s with agent := d } := by
  obtain ⟨hrun, d, hd, rfl⟩ := act_eq_some h
  refine ⟨hrun, d, hd, ?_⟩
  simp only [hear_of_silent (step_quiet hd ha).channel]

theorem took_of_step {ev : Event} (h : step L cfg s ev = some s') : Took L cfg s ev s' := by
  cases ev with
  | agent a =>
    simp only [step] at h
    split at h
    · rename_i hf
      -- A turn of a thread is the one action of the agent that puts lines on the wires.
      by_cases ha : ∃ t env expired, a = .run t env expired
      · obtain ⟨t, env, expired, rfl⟩ := ha
        obtain ⟨hrun, d, hd, rfl⟩ := act_eq_some h
        exact .turn hrun hd
      · have ha' : ∀ t env expired, a ≠ .run t env expired :=
          fun t env expired heq => ha ⟨t, env, expired, heq⟩
        obtain ⟨hrun, d, hd, rfl⟩ := act_quiet ha' h
        exact .quiet hrun ha' hf hd
    · cases h
  | exit =>
    simp only [step] at h
    split at h <;> cases h
    exact .exit ‹_›
  | spawn clock =>
    simp only [step] at h
    split at h <;> cases h
    exact .spawn (by simpa using ‹¬ s.running = true›)
  | connect e =>
    simp only [step] at h
    split at h <;> cases h
    rename_i hc
    exact .connect hc.1 hc.2
  | accept e =>
    simp only [step] at h
    split at h
    · rename_i hlink
      obtain ⟨s₁, hs₁, rfl⟩ := Option.map_eq_some_iff.mp h
      obtain ⟨hrun, d, hd, rfl⟩ := act_quiet (by simp) hs₁
      exact .accept hrun hlink hd
    · cases h
  | read e t =>
    simp only [step] at h
    split at h
    · rename_i c m rest hlink hout
      obtain ⟨s₁, hs₁, rfl⟩ := Option.map_eq_some_iff.mp h
      obtain ⟨hrun, d, hd, rfl⟩ := act_quiet (by simp) hs₁
      exact .read hrun hlink hout hd
    · cases h
  | hangup e =>
    simp only [step] at h
    split at h
    · rename_i c hlink
      obtain ⟨s₁, hs₁, rfl⟩ := Option.map_eq_some_iff.mp h
      obtain ⟨hrun, d, hd, rfl⟩ := act_quiet (by simp) hs₁
      exact .hangup hrun hlink hd
    · cases h
  | deliver e =>
    simp only [step] at h
    split at h
    · rename_i l wire hwire
      -- A response that fails the handshake tears the connection down.
      split at h <;> cases h
      · rename_i hc
        simp only [Bool.and_eq_true, Bool.not_eq_true'] at hc
        exact .refused hwire hc.1 hc.2
      · rename_i hc
        simp only [Bool.and_eq_true, Bool.not_eq_true'] at hc
        exact .deliver hwire hc
    · cases h
  | cut e n =>
    simp only [step] at h
    split at h <;> cases h
    exact .cut ‹_›
  | eof e =>
    simp only [step] at h
    split at h
    · rename_i hwire
      split at h <;> cases h
      · exact .eof hwire (.inr ⟨_, ‹_›⟩)
      · exact .eof hwire (.inl ‹_›)
    · cases h
  | stop e n =>
    cases h
    exact .stop
  | send e =>
    obtain ⟨⟨client, m⟩, hsend, rfl⟩ := Option.map_eq_some_iff.mp h
    exact .send hsend
  | user e i =>
    obtain ⟨client, hinput, rfl⟩ := Option.map_eq_some_iff.mp h
    exact .user hinput

/-! ### Runs on the sample agent -/

/-- The thread a step is about. -/
def Event.thread : Event → Option ℕ
  | .agent a => a.thread
  | .read _ t => some t
  | _ => none

lemma idle_took {ev : Event} {u : ℕ} (hs : Took L cfg s ev s') (hu : ev.thread ≠ some u)
    (hidle : s.agent.pc u = .idle) : s'.agent.pc u = .idle := by
  cases hs with
  | turn hrun hd => exact idle_step hd hu hidle
  | quiet hrun ha hf hd => exact idle_step hd hu hidle
  | exit | spawn => rfl
  | accept hrun hlink hd => exact idle_step hd (fun h => by cases h) hidle
  | read hrun hlink hout hd => exact idle_step hd hu hidle
  | hangup hrun hlink hd => exact idle_step hd (fun h => by cases h) hidle
  | connect | deliver | refused | cut | eof | stop | send | user => exact hidle

/-- The steps are about threads below a bound only. -/
def threadsBelow (n : ℕ) (es : List Event) : Bool := es.all fun ev => ev.thread.all (· < n)

lemma idle_of_threadsBelow {es : List Event} (h : run (step L cfg) s es = some s') {n : ℕ}
    (hn : threadsBelow n es = true) {u : ℕ} (hu : n ≤ u) (hidle : s.agent.pc u = .idle) :
    s'.agent.pc u = .idle := by
  have hnot : Along (step L cfg) (fun _ ev => ev.thread ≠ some u) s es := by
    refine along_of_forall fun ev hev _ heq => ?_
    have hlt := List.all_eq_true.mp hn ev hev
    simp only [heq, Option.all_some, decide_eq_true_eq] at hlt
    omega
  exact run_inv (fun _ _ _ hinv hne hstep => idle_took (took_of_step hstep) hne hinv) hidle hnot h

/-- The editor a step is about. -/
def Event.editor : Event → Option ℕ
  | .connect e | .accept e | .read e _ | .hangup e | .deliver e | .cut e _ | .eof e | .stop e _
  | .send e | .user e _ => some e
  | _ => none

/-- An editor that has not been started yet. -/
def unstarted : Seat := ⟨.new, .none, [], []⟩

lemma unstarted_took {ev : Event} {b : ℕ} (hs : Took L cfg s ev s') (hb : ev.editor ≠ some b)
    (h : s.seat b = unstarted) : s'.seat b = unstarted := by
  cases hs with
  | turn hrun hd =>
    simp only [h]
    rfl
  | quiet | spawn => exact h
  | exit hrun =>
    simp only [h]
    rfl
  | connect | accept | read | hangup | deliver | refused | cut | eof | stop | send | user =>
    refine (Function.update_of_ne ?_ _ _).trans h
    rintro rfl
    exact hb rfl

/-- The steps are about editors below a bound only. -/
def editorsBelow (n : ℕ) (es : List Event) : Bool := es.all fun ev => ev.editor.all (· < n)

lemma unstarted_of_editorsBelow {es : List Event} (h : run (step L cfg) s es = some s') {n : ℕ}
    (hn : editorsBelow n es = true) {b : ℕ} (hb : n ≤ b) (hseat : s.seat b = unstarted) :
    s'.seat b = unstarted := by
  have hnot : Along (step L cfg) (fun _ ev => ev.editor ≠ some b) s es := by
    refine along_of_forall fun ev hev _ heq => ?_
    have hlt := List.all_eq_true.mp hn ev hev
    simp only [heq, Option.all_some, decide_eq_true_eq] at hlt
    omega
  exact run_inv (fun _ _ _ hinv hne hstep => unstarted_took (took_of_step hstep) hne hinv) hseat
    hnot h

/-- The agent on the sample vault. -/
abbrev sampleStart : System Sample.Key := start Sample.Key Sample.created.fs 0

abbrev sampleStep : System Sample.Key → Event → Option (System Sample.Key) :=
  step Sample.packages Sample.config

/-- So many sections of one thread. -/
def turns (t n : ℕ) : List Event := List.replicate n (.agent (.run t Sample.env false))

/-- An editor connects, and its handshake is served by a thread and handled. -/
def greeted (e t : ℕ) : List Event :=
  [.connect e, .accept e, .read e t] ++ turns t 5 ++ [.deliver e]

/-- An editor does something that sends a request, and a thread serves so much of it. -/
def asked (e t : ℕ) (i : Input) (n : ℕ) : List Event :=
  [.user e i, .send e, .read e t] ++ turns t n

end LvimKeyring.Editors
