import LvimKeyring.Answering
import LvimKeyring.Lib.Lines
import LvimKeyring.Orphans
import LvimKeyring.Reading
import LvimKeyring.Sample

/-!
The Lua client and the agents it connects to, one after the other.

A pipe is served by the agent that has accepted it. The agent reads the requests written on it
in their order, and what it sends on the channel comes back as bytes, in their order and cut
anywhere. Other clients of an agent connect, send and leave as they like.
-/

namespace LvimKeyring.Correlation

open Rpc Crypto Vault Server Daemon EventLoop Answering Transition

variable {Key : Type}

/-- An agent process, and the record of what it was asked and has answered. -/
structure Agent (Key : Type) where
  state : Daemon.State Key
  record : List Served

structure Net (Key : Type) where
  client : Client
  agents : ℕ → Agent Key
  /-- The agent that has accepted a pipe, and which client of it the pipe is. -/
  link : ℕ → Option (ℕ × ℕ)
  /-- The clients of an agent that are pipes. -/
  mine : ℕ → ℕ → Bool
  taken : ℕ → ℕ
  /-- The bytes that have come on a pipe, and those the client has read. -/
  arrived : ℕ → Bytes
  consumed : ℕ → Bytes

inductive Action
  | client (e : EventLoop.Event)
  | accept (p g : ℕ)
  | read (p t : ℕ)
  /-- Anything else an agent does, with its other clients among it. -/
  | agent (g : ℕ) (a : Daemon.Action)

/-- What the agents print with. -/
structure Printer where
  print : Json → Bytes
  serde : DecodeError → String

/-- The text of a line. -/
def Printer.text (J : Printer) : Line → Bytes
  | .note n => J.print n.toJson
  | .response id r => J.print (respond J.serde id r)

/-- A text has no newline, and decoding keeps the id of a message. -/
structure Faithful (N : Neovim) (J : Printer) : Prop where
  closed : ∀ j, newline ∉ J.print j
  response : ∀ id r msg, message N (J.text (.response id r)) = some msg →
    field msg "id" = some (.num id)
  note : ∀ n msg, message N (J.text (.note n)) = some msg → field msg "id" = none

section Step

variable (L : Packages Key) (cfg : Config) (N : Neovim) (J : Printer)

def Agent.step (s : Agent Key) (a : Daemon.Action) : Option (Agent Key) :=
  (Daemon.step L cfg s.state a).map fun d => ⟨d, Answering.record s.record s.state a⟩

/-- All that an agent has sent to a client. -/
def Agent.stream (s : Agent Key) (c : ℕ) : Bytes :=
  Lines.stream newline ((s.state.shared.channel c).map J.text)

/-- The bytes that arrive are the next ones the agent has sent. -/
def Net.brings (x : Net Key) : EventLoop.Event → Bool
  | .arrive p bytes => (x.link p).any fun gc =>
      (x.arrived p ++ bytes).isPrefixOf ((x.agents gc.1).stream J gc.2)
  | _ => true

def Net.arriving (x : Net Key) : EventLoop.Event → ℕ → Bytes
  | .arrive p bytes => Function.update x.arrived p (x.arrived p ++ bytes)
  | _ => x.arrived

def Net.consuming (x : Net Key) (e : EventLoop.Event) : ℕ → Bytes :=
  match e, x.client.queue with
  | .scheduled _, .chunk p bytes :: _ => Function.update x.consumed p (x.consumed p ++ bytes)
  | _, _ => x.consumed

def Net.withAgent (x : Net Key) (g : ℕ) (s : Agent Key) : Net Key :=
  { x with agents := Function.update x.agents g s }

/-- Nobody else sends a request on a pipe. -/
def Net.foreign (x : Net Key) (g : ℕ) : Daemon.Action → Bool
  | .request _ c _ _ _ => !x.mine g c
  | _ => true

/-- The agent accepts the pipe as its client `c`. -/
def Net.accepted (x : Net Key) (p g c : ℕ) : Net Key :=
  { x with
    link := Function.update x.link p (some (g, c))
    mine := Function.update x.mine g (Function.update (x.mine g) c true) }

def step (x : Net Key) : Action → Option (Net Key)
  | .client e =>
    if x.brings J e then
      (EventLoop.step N x.client e).map fun client =>
        { x with client, arrived := x.arriving e, consumed := x.consuming e }
    else none
  | .accept p g =>
    if p < x.client.dials.length ∧ x.link p = none then
      ((x.agents g).step L cfg .connect).map fun s =>
        (x.withAgent g s).accepted p g (x.agents g).state.shared.nextClient
    else none
  | .read p t =>
    match x.link p, (x.client.sent p)[x.taken p]? with
    | some (g, c), some s =>
      ((x.agents g).step L cfg (.request t c s.id s.method s.params)).map fun s =>
        { x.withAgent g s with taken := Function.update x.taken p (x.taken p + 1) }
    | _, _ => none
  | .agent g a =>
    if x.foreign g a then ((x.agents g).step L cfg a).map fun s => x.withAgent g s else none

end Step

/-- Every agent that is ever started finds some files, at some time. -/
def start (found : ℕ → FileSystem × ℕ) : Net Key where
  client := .new
  agents g := ⟨Daemon.start Key (found g).1 (found g).2, []⟩
  link _ := none
  mine _ _ := false
  taken _ := 0
  arrived _ := []
  consumed _ := []

/-- A chunk is read where the one before it on its connection has left off. -/
def framed (x : Net Key) : Action → Bool
  | .client (.scheduled _) =>
    match x.client.queue with
    | .chunk p _ :: _ =>
      Lines.leftover newline x.client.readTail = Lines.leftover newline (x.consumed p)
    | _ => true
  | _ => true

/-- The result is what the client reads in the response to the very request the callback was
registered with, from the agent that request was sent to. -/
def Answered (N : Neovim) (J : Printer) (x : Net Key) (k : ℕ) (v : Option Json) : Prop :=
  ∃ p g s r msg, x.link p = some (g, s.client) ∧ s ∈ (x.agents g).record ∧ s.reply = some r ∧
    ⟨s.id, s.method, s.params⟩ ∈ x.client.sent p ∧ (s.id, .request k) ∈ x.client.issued ∧
    x.client.Gives k s.method s.params ∧ message N (J.text (.response s.id r)) = some msg ∧
    EventLoop.answer msg = .ok v

/-- Requests and responses correspond. -/
structure Corresponds (N : Neovim) (J : Printer) (x : Net Key) : Prop where
  served : ∀ g, Logged (x.agents g).state (x.agents g).record
  distinct : x.client.issued.Pairwise fun i j => i.1 ≠ j.1
  once : ∀ k, (x.client.calls.filterMap Call.callback).count k ≤ 1
  own : ∀ k v, .answered k (.ok v) ∈ x.client.calls → Answered N J x k v

variable {L : Packages Key} {cfg : Config} {N : Neovim} {J : Printer} {x x' : Net Key}

/-! ### The agents -/

/-- The clients of an agent are numbered as they connect, and its record agrees with what it has
sent. -/
structure Agent.Sound (s : Agent Key) : Prop where
  logged : Logged s.state s.record
  clients : ∀ c ∈ s.state.shared.clients, c < s.state.shared.nextClient
  known : ∀ m ∈ s.record, m.client < s.state.shared.nextClient

/-- What an agent has sent and answered stays. -/
structure Grows (s s' : Agent Key) : Prop where
  channel : ∀ c, s.state.shared.channel c <+: s'.state.shared.channel c
  kept : ∀ m ∈ s.record, m.reply ≠ none → m ∈ s'.record
  nextClient : s.state.shared.nextClient ≤ s'.state.shared.nextClient

lemma Grows.refl (s : Agent Key) : Grows s s := ⟨fun _ => List.prefix_rfl, fun _ h _ => h, le_rfl⟩

variable {s s' : Agent Key} {a : Daemon.Action}

lemma agent_step (h : s.step L cfg a = some s') :
    Daemon.step L cfg s.state a = some s'.state ∧
      s'.record = Answering.record s.record s.state a := by
  obtain ⟨d, hd, rfl⟩ := Option.map_eq_some_iff.mp h
  exact ⟨hd, rfl⟩

lemma channel_step {d d' : Daemon.State Key} (hd : Daemon.step L cfg d a = some d') (c : ℕ) :
    d.shared.channel c <+: d'.shared.channel c := by
  by_cases ha : ∃ t env expired, a = .run t env expired
  · obtain ⟨t, env, expired, rfl⟩ := ha
    obtain ⟨p, hexec, -, -⟩ := step_run hd
    rw [Editors.exec_spoken hexec c]
    exact List.prefix_append _ _
  · have hq := step_quiet hd fun t env expired heq => ha ⟨t, env, expired, heq⟩
    rw [hq.channel]

lemma agent_grows (hs : s.Sound) (h : s.step L cfg a = some s') : Grows s s' := by
  obtain ⟨hd, hrec⟩ := agent_step h
  refine ⟨channel_step hd, fun m hm hr => ?_, (Editors.agent_clients hd hs.clients).1⟩
  rw [hrec]
  exact record_kept hm hr

lemma agent_sound (hs : s.Sound) (h : s.step L cfg a = some s') : s'.Sound := by
  obtain ⟨hd, hrec⟩ := agent_step h
  obtain ⟨hnext, hclients⟩ := Editors.agent_clients hd hs.clients
  refine ⟨?_, hclients, fun m hm => ?_⟩
  · rw [hrec]
    exact logged_step hs.logged hd
  · rw [hrec] at hm
    rcases record_mem hm with ⟨m', hm', hc, -⟩ | hreq
    · have hlt := hs.known m' hm'
      omega
    · subst hreq
      obtain ⟨-, -, -, -, hin, -⟩ := request_threads hd
      exact lt_of_lt_of_le (hs.clients _ hin) hnext

lemma stream_grows (h : Grows s s') (c : ℕ) : s.stream J c <+: s'.stream J c := by
  obtain ⟨ls, hls⟩ := h.channel c
  rw [Agent.stream, Agent.stream, ← hls, List.map_append, Lines.stream_append]
  exact List.prefix_append _ _

/-! ### What stays -/

/-- The links stay, and so does what was sent on them in either direction. -/
structure Extends (x x' : Net Key) : Prop where
  link : ∀ p gc, x.link p = some gc → x'.link p = some gc
  agents : ∀ g, Grows (x.agents g) (x'.agents g)
  sent : ∀ p, x.client.sent p <+: x'.client.sent p
  issued : x.client.issued <+: x'.client.issued
  given : x.client.given <+: x'.client.given

/-- A line that an agent has sent on a pipe of the client. -/
def Genuine (J : Printer) (x : Net Key) (l : Bytes) : Prop :=
  ∃ p g c line, x.link p = some (g, c) ∧ line ∈ (x.agents g).state.shared.channel c ∧
    l = J.text line

/-- Such lines, each closed, and a part of one. -/
def Reads (J : Printer) (x : Net Key) (bs : Bytes) : Prop :=
  ∃ ls part, bs = Lines.stream newline ls ++ part ∧ newline ∉ part ∧
    ∀ l ∈ ls, newline ∉ l ∧ Genuine J x l

lemma Genuine.mono {l : Bytes} (h : Genuine J x l) (hx : Extends x x') : Genuine J x' l := by
  obtain ⟨p, g, c, line, hlink, hline, rfl⟩ := h
  exact ⟨p, g, c, line, hx.link p _ hlink, ((hx.agents g).channel c).subset hline, rfl⟩

lemma Reads.mono {bs : Bytes} (h : Reads J x bs) (hx : Extends x x') : Reads J x' bs := by
  obtain ⟨ls, part, heq, hpart, hls⟩ := h
  exact ⟨ls, part, heq, hpart, fun l hl => ⟨(hls l hl).1, (hls l hl).2.mono hx⟩⟩

lemma reads_nil : Reads J x [] := ⟨[], [], rfl, List.not_mem_nil, fun l hl => by cases hl⟩

lemma gives_mono {c c' : Client} {k : ℕ} {method : String} {params : Json}
    (h : c.Gives k method params) (hgiven : c.given <+: c'.given) : c'.Gives k method params := by
  obtain ⟨ps, hk, heq⟩ := h
  obtain ⟨more, hmore⟩ := hgiven
  have hlt : k < c.given.length := (List.getElem?_eq_some_iff.mp hk).1
  refine ⟨ps, ?_, heq⟩
  rw [← hmore, List.getElem?_append_left hlt, hk]

lemma Answered.mono {k : ℕ} {v : Option Json} (h : Answered N J x k v) (hx : Extends x x') :
    Answered N J x' k v := by
  obtain ⟨p, g, s, r, msg, hlink, hs, hr, hsent, hissued, hgives, hmsg, hv⟩ := h
  have hkept := (hx.agents g).kept s hs (by rw [hr]; exact fun h => by cases h)
  exact ⟨p, g, s, r, msg, hx.link p _ hlink, hkept, hr, (hx.sent p).subset hsent,
    hx.issued.subset hissued, gives_mono hgives hx.given, hmsg, hv⟩

/-! ### The invariant -/

/-- What the client has of the agents, and they of it. -/
structure Sound (N : Neovim) (J : Printer) (x : Net Key) : Prop where
  keyed : x.client.Keyed
  placed : x.client.Placed
  agents : ∀ g, (x.agents g).Sound
  linked : ∀ p g c, x.link p = some (g, c) → x.mine g c = true
  known : ∀ g c, x.mine g c = true → c < (x.agents g).state.shared.nextClient
  single : ∀ p q gc, x.link p = some gc → x.link q = some gc → p = q
  ours : ∀ p g c, x.link p = some (g, c) → ∀ m ∈ (x.agents g).record, m.client = c →
    ⟨m.id, m.method, m.params⟩ ∈ x.client.sent p
  bytes : ∀ p, x.consumed p ++ x.client.chunks p = x.arrived p
  stream : ∀ p, x.arrived p ≠ [] → ∃ g c, x.link p = some (g, c) ∧
    x.arrived p <+: (x.agents g).stream J c
  tail : Reads J x x.client.readTail
  results : ∀ kv ∈ x.client.results, Answered N J x kv.1 kv.2

lemma extends_withAgent {g : ℕ} (hs : Grows (x.agents g) s) : Extends x (x.withAgent g s) where
  link _ _ h := h
  agents b := by
    by_cases hb : b = g
    · subst hb
      simpa [Net.withAgent] using hs
    · simpa [Net.withAgent, hb] using Grows.refl (x.agents b)
  sent _ := List.prefix_rfl
  issued := List.prefix_rfl
  given := List.prefix_rfl

lemma sound_withAgent {g : ℕ} (h : Sound N J x) (hstep : (x.agents g).step L cfg a = some s)
    (hours : ∀ t c id method params, a = .request t c id method params →
      ∀ p, x.link p = some (g, c) → ⟨id, method, params⟩ ∈ x.client.sent p) :
    Sound N J (x.withAgent g s) := by
  have hgrows := agent_grows (h.agents g) hstep
  have hx : Extends x (x.withAgent g s) := extends_withAgent hgrows
  refine ⟨h.keyed, h.placed, fun b => ?_, h.linked, fun b c hmine => ?_, h.single,
    fun p b c hlink m hm hc => ?_, h.bytes, fun p hp => ?_, h.tail.mono hx,
    fun kv hkv => (h.results kv hkv).mono hx⟩
  · by_cases hb : b = g
    · subst hb
      simpa [Net.withAgent] using agent_sound (h.agents b) hstep
    · simpa [Net.withAgent, hb] using h.agents b
  · exact lt_of_lt_of_le (h.known b c hmine) (hx.agents b).nextClient
  · by_cases hb : b = g
    · subst hb
      obtain ⟨-, hrec⟩ := agent_step hstep
      have hm' : m ∈ Answering.record (x.agents b).record (x.agents b).state a := by
        simpa [Net.withAgent, hrec] using hm
      rcases record_mem hm' with ⟨m', hm', hc', hid, hmethod, hparams⟩ | hreq
      · rw [← hid, ← hmethod, ← hparams]
        exact h.ours p b c hlink m' hm' (hc'.trans hc)
      · rw [hc] at hreq
        exact hours _ _ _ _ _ hreq p hlink
    · have hm' : m ∈ (x.agents b).record := by simpa [Net.withAgent, hb] using hm
      exact h.ours p b c hlink m hm' hc
  · obtain ⟨b, c, hlink, hpre⟩ := h.stream p hp
    exact ⟨b, c, hlink, hpre.trans (stream_grows (hx.agents b) c)⟩

/-- A pipe without a link is accepted as a client that has not said anything yet. -/
lemma sound_accepted {p g c : ℕ} (h : Sound N J x) (hlink : x.link p = none)
    (hmine : x.mine g c = false) (hlt : c < (x.agents g).state.shared.nextClient)
    (hnew : ∀ m ∈ (x.agents g).record, m.client ≠ c) : Sound N J (x.accepted p g c) := by
  have hnone : x.arrived p = [] := by
    by_contra hne
    obtain ⟨b, d, hb, -⟩ := h.stream p hne
    rw [hlink] at hb
    cases hb
  have hkeep : ∀ q gc, x.link q = some gc → (x.accepted p g c).link q = some gc := by
    intro q gc hq
    have hqp : q ≠ p := by
      rintro rfl
      rw [hlink] at hq
      cases hq
    simpa [Net.accepted, hqp] using hq
  have hx : Extends x (x.accepted p g c) :=
    ⟨hkeep, fun b => Grows.refl _, fun _ => List.prefix_rfl, List.prefix_rfl, List.prefix_rfl⟩
  -- A link is the new one, or one there was before.
  have hcases : ∀ q gc, (x.accepted p g c).link q = some gc →
      (q = p ∧ gc = (g, c)) ∨ (q ≠ p ∧ x.link q = some gc) := by
    intro q gc hq
    by_cases hqp : q = p
    · subst hqp
      simp only [Net.accepted, Function.update_self, Option.some.injEq] at hq
      exact .inl ⟨rfl, hq.symm⟩
    · exact .inr ⟨hqp, by simpa [Net.accepted, hqp] using hq⟩
  have hfresh : ∀ q, x.link q ≠ some (g, c) := by
    intro q hq
    rw [h.linked q g c hq] at hmine
    cases hmine
  have hmines : ∀ b d, (x.accepted p g c).mine b d = true → (b = g ∧ d = c) ∨
      x.mine b d = true := by
    intro b d hbd
    by_cases hb : b = g
    · subst hb
      by_cases hd : d = c
      · exact .inl ⟨rfl, hd⟩
      · exact .inr (by simpa [Net.accepted, hd] using hbd)
    · exact .inr (by simpa [Net.accepted, hb] using hbd)
  refine ⟨h.keyed, h.placed, h.agents, fun q b d hq => ?_, fun b d hbd => ?_,
    fun q r gc hq hr => ?_,
    fun q b d hq m hm hd => ?_, h.bytes, fun q hq => ?_, h.tail.mono hx,
    fun kv hkv => (h.results kv hkv).mono hx⟩
  · rcases hcases q (b, d) hq with ⟨-, hgc⟩ | ⟨-, hq⟩
    · cases hgc
      simp [Net.accepted]
    · have hold := h.linked q b d hq
      by_cases hb : b = g
      · subst hb
        by_cases hd : d = c
        · subst hd
          simp [Net.accepted]
        · simpa [Net.accepted, hd] using hold
      · simpa [Net.accepted, hb] using hold
  · rcases hmines b d hbd with ⟨rfl, rfl⟩ | hbd
    · exact hlt
    · exact h.known b d hbd
  · rcases hcases q gc hq with ⟨rfl, rfl⟩ | ⟨-, hqold⟩
    · -- The agent gives every pipe a client of its own.
      rcases hcases r (g, c) hr with ⟨rfl, -⟩ | ⟨-, hrold⟩
      · rfl
      · exact absurd hrold (hfresh r)
    · rcases hcases r gc hr with ⟨rfl, rfl⟩ | ⟨-, hrold⟩
      · exact absurd hqold (hfresh q)
      · exact h.single q r gc hqold hrold
  · rcases hcases q (b, d) hq with ⟨-, hgc⟩ | ⟨-, hq⟩
    · cases hgc
      exact absurd hd (hnew m hm)
    · exact h.ours q b d hq m hm hd
  · obtain ⟨b, d, hb, hpre⟩ := h.stream q hq
    exact ⟨b, d, hkeep q _ hb, hpre⟩

/-! ### A step of the client -/

variable {client : Client} {e : EventLoop.Event}

/-- The state after a step of the client. -/
def Net.after (x : Net Key) (e : EventLoop.Event) (client : Client) : Net Key :=
  { x with client, arrived := x.arriving e, consumed := x.consuming e }

lemma extends_after (hstep : EventLoop.step N x.client e = some client) :
    Extends x (x.after e client) := by
  obtain ⟨hsent, hissued, hgiven⟩ := effect_grows (effect_step hstep)
  exact ⟨fun _ _ h => h, fun _ => Grows.refl _, hsent, hissued, hgiven⟩

lemma after_other (harrive : ∀ p bytes, e ≠ .arrive p bytes) (htask : ∀ env, e ≠ .scheduled env) :
    x.arriving e = x.arrived ∧ x.consuming e = x.consumed := by
  cases e with
  | arrive p bytes => exact absurd rfl (harrive p bytes)
  | scheduled env => exact absurd rfl (htask env)
  | _ => exact ⟨rfl, rfl⟩

/-- What the client has read is what it had to read of the bytes that have come. -/
lemma bytes_after (h : Sound N J x) (hstep : EventLoop.step N x.client e = some client) (p : ℕ) :
    (x.after e client).consumed p ++ client.chunks p = (x.after e client).arrived p := by
  have hold := h.bytes p
  cases effect_step hstep with
  | arrive q bytes he heq =>
    subst he heq
    have hconsumed : (x.after (.arrive q bytes) (x.client.schedule (.chunk q bytes))).consumed
        = x.consumed := rfl
    rw [hconsumed]
    by_cases hpq : p = q
    · subst hpq
      simp [Net.after, Net.arriving, Client.chunks, Client.schedule, Task.from, ← hold]
    · simp [Net.after, Net.arriving, Client.chunks, Client.schedule, Task.from, ← hold, hpq,
        Ne.symm hpq]
  | task env t queue he hq heff =>
    subst he
    have hchunks : client.chunks p = queue.flatMap (Task.from p) := heff.chunks p
    have harrived : (x.after (.scheduled env) client).arrived = x.arrived := rfl
    rw [harrived, ← hold, hchunks]
    have hqueue : x.client.chunks p = Task.from p t ++ queue.flatMap (Task.from p) := by
      rw [Client.chunks, hq, List.flatMap_cons]
    rw [hqueue, ← List.append_assoc]
    congr 1
    cases t with
    | chunk q bytes =>
      by_cases hpq : p = q
      · subst hpq
        simp [Net.after, Net.consuming, hq, Task.from]
      · simp [Net.after, Net.consuming, hq, Task.from, hpq, Ne.symm hpq]
    | _ => simp [Net.after, Net.consuming, hq, Task.from]
  | line env line tail he hsplit hheard =>
    subst he
    have hchunks : client.chunks p = x.client.chunks p := by
      cases hheard with
      | nothing hq => exact hq.chunks p
      | answer msg i id k hmsg hid hkey hpending hq => exact hq.chunks p
    rw [hchunks]
    exact hold
  | other harrive htask hq =>
    obtain ⟨harrived, hconsumed⟩ := after_other (x := x) harrive htask
    rw [Net.after, harrived, hconsumed, hq.chunks p]
    exact hold

lemma stream_after (h : Sound N J x) (hb : x.brings J e = true) {p : ℕ}
    (hp : (x.after e client).arrived p ≠ []) : ∃ g c, x.link p = some (g, c) ∧
    (x.after e client).arrived p <+: (x.agents g).stream J c := by
  cases e with
  | arrive q bytes =>
    by_cases hpq : p = q
    · subst hpq
      obtain ⟨gc, hlink, hpre⟩ := (Option.any_eq_true _ _).mp hb
      refine ⟨gc.1, gc.2, hlink, ?_⟩
      simpa [Net.after, Net.arriving] using List.isPrefixOf_iff_prefix.mp hpre
    · have harrived : (x.after (.arrive q bytes) client).arrived p = x.arrived p := by
        simp [Net.after, Net.arriving, hpq]
      rw [harrived] at hp ⊢
      exact h.stream p hp
  | _ => exact h.stream p hp

lemma reads_chunk {p : ℕ} {bytes : Bytes} {queue : List Task} (hN : Faithful N J) (h : Sound N J x)
    (hq : x.client.queue = .chunk p bytes :: queue)
    (hframed : Lines.leftover newline x.client.readTail = Lines.leftover newline (x.consumed p)) :
    Reads J x (x.client.readTail ++ bytes) := by
  have hseen : x.consumed p ++ bytes <+: x.arrived p := by
    rw [← h.bytes p, Client.chunks, hq, List.flatMap_cons]
    simp only [Task.from, if_true]
    rw [← List.append_assoc]
    exact List.prefix_append _ _
  by_cases hnone : x.arrived p = []
  · rw [hnone] at hseen
    have hbytes : bytes = [] := (List.append_eq_nil_iff.mp (List.prefix_nil.mp hseen)).2
    rw [hbytes, List.append_nil]
    exact h.tail
  · obtain ⟨g, c, hlink, hpre⟩ := h.stream p hnone
    have hclosed : ∀ l ∈ ((x.agents g).state.shared.channel c).map J.text, newline ∉ l := by
      intro l hl
      obtain ⟨line, -, rfl⟩ := List.mem_map.mp hl
      cases line <;> exact hN.closed _
    obtain ⟨ls, part, heq, hpart, hls⟩ := Lines.frames_of_append hclosed (hseen.trans hpre)
    obtain ⟨ms, part₀, htail, hpart₀, hms⟩ := h.tail
    rw [htail, Lines.leftover_append (Lines.whole_stream ms) hpart₀] at hframed
    refine ⟨ms ++ ls, part, ?_, hpart, fun l hl => ?_⟩
    · rw [htail, List.append_assoc, hframed, heq, Lines.stream_append, List.append_assoc]
    · rcases List.mem_append.mp hl with hl | hl
      · exact hms l hl
      · obtain ⟨line, hline, rfl⟩ := List.mem_map.mp (hls l hl)
        exact ⟨hclosed _ (hls _ hl), p, g, c, line, hlink, hline, rfl⟩

lemma reads_line {line tail : Bytes} (h : Sound N J x)
    (hsplit : splitLine x.client.readTail = some (line, tail)) :
    Genuine J x line ∧ Reads J x tail := by
  obtain ⟨heq, hline⟩ := splitLine_eq_some hsplit
  obtain ⟨ls, part, htail, hpart, hls⟩ := h.tail
  obtain ⟨ms, rfl, rfl⟩ := Lines.stream_split (fun l hl => (hls l hl).1) hpart hline
    (htail.symm.trans heq)
  exact ⟨(hls line List.mem_cons_self).2, ms, part, rfl, hpart,
    fun l hl => hls l (List.mem_cons_of_mem _ hl)⟩

lemma answered_line {line : Bytes} {msg i : Json} {id k : ℕ} {v : Option Json} (hN : Faithful N J)
    (h : Sound N J x) (hgenuine : Genuine J x line) (hmsg : message N line = some msg)
    (hid : field msg "id" = some i) (hkey : key i = some id)
    (hpending : (id, .request k) ∈ x.client.pending) (hv : EventLoop.answer msg = .ok v) :
    Answered N J x k v := by
  obtain ⟨p, g, c, l, hlink, hl, rfl⟩ := hgenuine
  cases l with
  | note n =>
    rw [hN.note n msg hmsg] at hid
    cases hid
  | response id' r =>
    rw [hN.response id' r msg hmsg] at hid
    cases hid
    have hids : id' = id := by simpa [key] using hkey
    subst hids
    obtain ⟨m, hm, hc, rfl, hr⟩ := (h.agents g).logged.responded hl
    subst hc
    have hsent := h.ours p g m.client hlink m hm rfl
    obtain ⟨hd, hissued, hgives⟩ := h.keyed.sent p _ hsent
    -- What was sent under the id and what is pending under it are one entry.
    have hreg := h.keyed.pending _ hpending
    have hsame : hd = .request k := h.keyed.same_entry hissued hreg
    exact ⟨p, g, m, r, msg, hlink, hm, hr, hsent, hreg, hgives k hsame, hmsg, hv⟩

lemma results_quiet {c c' : Client} (hq : Client.Quiet c c') {P : ℕ × Option Json → Prop}
    (h : ∀ kv ∈ c.results, P kv) : ∀ kv ∈ c'.results, P kv := by
  rw [hq.results]
  exact h

/-- What the client has to read, and the results it has, after a step of its own. -/
lemma heard_after (hN : Faithful N J) (h : Sound N J x)
    (hstep : EventLoop.step N x.client e = some client) (hf : framed x (.client e) = true) :
    Reads J (x.after e client) client.readTail ∧
      ∀ kv ∈ client.results, Answered N J (x.after e client) kv.1 kv.2 := by
  have hx : Extends x (x.after e client) := extends_after hstep
  have hresults : ∀ kv ∈ x.client.results, Answered N J (x.after e client) kv.1 kv.2 :=
    fun kv hkv => (h.results kv hkv).mono hx
  have htail : ∀ {c : Client}, Client.Quiet c client → Reads J x c.readTail →
      Reads J (x.after e client) client.readTail := by
    intro c hq hreads
    rcases hq.tail with heq | heq
    · rw [heq]
      exact hreads.mono hx
    · rw [heq]
      exact reads_nil
  cases effect_step hstep with
  | arrive p bytes he heq =>
    subst heq
    exact ⟨h.tail.mono hx, hresults⟩
  | task env t queue he hq heff =>
    subst he
    refine ⟨htail heff ?_, results_quiet heff hresults⟩
    cases t with
    -- `framed` is about this one case, a chunk that has its turn.
    | chunk p bytes => exact reads_chunk hN h hq (by simpa [framed, hq] using hf)
    | _ => simpa [Task.bytes] using h.tail
  | line env line tail he hsplit hheard =>
    obtain ⟨hgenuine, hreads⟩ := reads_line h hsplit
    cases hheard with
    | nothing hq => exact ⟨htail hq hreads, results_quiet hq hresults⟩
    | answer msg i id k hmsg hid hkey hpending hq =>
      refine ⟨htail hq hreads, results_quiet hq fun kv hkv => ?_⟩
      simp only [Client.results, List.filterMap_append, List.mem_append] at hkv
      rcases hkv with hkv | hkv
      · exact hresults kv hkv
      · cases hv : EventLoop.answer msg with
        | error err => simp [hv, Call.result] at hkv
        | ok v =>
          simp only [hv, Call.result, List.filterMap_cons, List.filterMap_nil,
            List.mem_singleton] at hkv
          subst hkv
          exact (answered_line hN h hgenuine hmsg hid hkey hpending hv).mono hx
  | other harrive htask hq => exact ⟨htail hq h.tail, results_quiet hq hresults⟩

lemma sound_after (hN : Faithful N J) (h : Sound N J x) (hb : x.brings J e = true)
    (hstep : EventLoop.step N x.client e = some client) (hf : framed x (.client e) = true) :
    Sound N J (x.after e client) := by
  have hx : Extends x (x.after e client) := extends_after hstep
  obtain ⟨htail, hresults⟩ := heard_after hN h hstep hf
  refine ⟨keyed_step h.keyed hstep, placed_step h.placed hstep, h.agents, h.linked, h.known,
    h.single, fun p g c hlink m hm hc => ?_, bytes_after h hstep, fun p => stream_after h hb, htail,
    hresults⟩
  exact (hx.sent p).subset (h.ours p g c hlink m hm hc)

/-! ### A step -/

/-- The client, an agent that accepts, one that reads, or one that does something else. -/
lemma net_cases {a : Action} (hstep : step L cfg N J x a = some x') :
    (∃ e client, a = .client e ∧ x.brings J e = true ∧
      EventLoop.step N x.client e = some client ∧ x' = x.after e client) ∨
    (∃ p g s, a = .accept p g ∧ x.link p = none ∧ (x.agents g).step L cfg .connect = some s ∧
      x' = (x.withAgent g s).accepted p g (x.agents g).state.shared.nextClient) ∨
    (∃ p t g c q s, a = .read p t ∧ x.link p = some (g, c) ∧ q ∈ x.client.sent p ∧
      (x.agents g).step L cfg (.request t c q.id q.method q.params) = some s ∧
      x' = { x.withAgent g s with taken := Function.update x.taken p (x.taken p + 1) }) ∨
    (∃ g b s, a = .agent g b ∧ x.foreign g b = true ∧ (x.agents g).step L cfg b = some s ∧
      x' = x.withAgent g s) := by
  cases a with
  | client e =>
    simp only [step] at hstep
    split at hstep
    · rename_i hb
      obtain ⟨client, hclient, rfl⟩ := Option.map_eq_some_iff.mp hstep
      exact .inl ⟨e, client, rfl, hb, hclient, rfl⟩
    · cases hstep
  | accept p g =>
    simp only [step] at hstep
    split at hstep
    · rename_i hp
      obtain ⟨s, hs, rfl⟩ := Option.map_eq_some_iff.mp hstep
      exact .inr (.inl ⟨p, g, s, rfl, hp.2, hs, rfl⟩)
    · cases hstep
  | read p t =>
    simp only [step] at hstep
    split at hstep
    · rename_i g c q hlink hq
      obtain ⟨s, hs, rfl⟩ := Option.map_eq_some_iff.mp hstep
      exact .inr (.inr (.inl ⟨p, t, g, c, q, s, rfl, hlink, List.mem_of_getElem? hq, hs, rfl⟩))
    · cases hstep
  | agent g b =>
    simp only [step] at hstep
    split at hstep
    · rename_i hf
      obtain ⟨s, hs, rfl⟩ := Option.map_eq_some_iff.mp hstep
      exact .inr (.inr (.inr ⟨g, b, s, rfl, hf, hs, rfl⟩))
    · cases hstep

theorem sound_step {a : Action} (hN : Faithful N J) (h : Sound N J x) (hf : framed x a = true)
    (hstep : step L cfg N J x a = some x') : Sound N J x' := by
  rcases net_cases hstep with ⟨e, client, rfl, hb, hclient, rfl⟩ | ⟨p, g, s, rfl, hlink, hs, rfl⟩ |
    ⟨p, t, g, c, q, s, rfl, hlink, hq, hs, rfl⟩ | ⟨g, b, s, rfl, hforeign, hs, rfl⟩
  · exact sound_after hN h hb hclient hf
  · have hold : Sound N J (x.withAgent g s) :=
      sound_withAgent h hs fun _ _ _ _ _ heq => by cases heq
    obtain ⟨hd, hrec⟩ := agent_step hs
    have hnext : s.state.shared.nextClient = (x.agents g).state.shared.nextClient + 1 := by
      rw [← Option.some.inj hd]
    refine sound_accepted hold hlink ?_ ?_ fun m hm => ?_
    · refine Bool.eq_false_iff.mpr fun hmine => ?_
      exact absurd (h.known g _ hmine) (lt_irrefl _)
    · simp [Net.withAgent, hnext]
    · have hm' : m ∈ (x.agents g).record := by
        simpa [Net.withAgent, hrec, Answering.record] using hm
      exact Nat.ne_of_lt ((h.agents g).known m hm')
  · have hread : Sound N J (x.withAgent g s) := by
      refine sound_withAgent h hs fun t' c' id method params heq r hr => ?_
      cases heq
      rw [h.single r p (g, c) hr hlink]
      exact hq
    exact ⟨hread.keyed, hread.placed, hread.agents, hread.linked, hread.known, hread.single,
      hread.ours, hread.bytes, hread.stream, hread.tail, hread.results⟩
  · refine sound_withAgent h hs fun t c id method params heq p hlink => ?_
    subst heq
    rw [Net.foreign, h.linked p g c hlink] at hforeign
    cases hforeign

/-- Every chunk that arrives is made of whole lines. -/
def whole : Action → Prop
  | .client (.arrive _ bytes) => Lines.Whole newline bytes
  | _ => True

/-- All that has arrived, and all that is left to read, is made of whole lines. -/
structure Lined (x : Net Key) : Prop where
  queue : ∀ t ∈ x.client.queue, Lines.Whole newline t.bytes
  tail : Lines.Whole newline x.client.readTail
  consumed : ∀ p, Lines.Whole newline (x.consumed p)

lemma lined_quiet {c c' : Client} (hq : Client.Quiet c c')
    (hqueue : ∀ t ∈ c.queue, Lines.Whole newline t.bytes) (htail : Lines.Whole newline c.readTail) :
    (∀ t ∈ c'.queue, Lines.Whole newline t.bytes) ∧ Lines.Whole newline c'.readTail := by
  refine ⟨fun t ht => ?_, ?_⟩
  · rcases hq.queue t ht with hnil | hold
    · rw [hnil]
      exact Lines.whole_nil
    · exact hqueue t hold
  · rcases hq.tail with heq | heq
    · rw [heq]
      exact htail
    · rw [heq]
      exact Lines.whole_nil

lemma lined_after (h : Lined x) (hw : whole (.client e))
    (hstep : EventLoop.step N x.client e = some client) : Lined (x.after e client) := by
  have hline : ∀ {line tail : Bytes}, splitLine x.client.readTail = some (line, tail) →
      Lines.Whole newline tail := by
    intro line tail hsplit
    have htail := h.tail
    rw [(splitLine_eq_some hsplit).1] at htail
    exact htail.rest
  cases effect_step hstep with
  | arrive p bytes he heq =>
    subst he heq
    refine ⟨fun t ht => ?_, h.tail, h.consumed⟩
    rcases List.mem_append.mp ht with ht | ht
    · exact h.queue t ht
    · rw [List.mem_singleton.mp ht]
      exact hw
  | task env t queue he hq heff =>
    subst he
    have ht : Lines.Whole newline t.bytes := h.queue t (by rw [hq]; exact List.mem_cons_self)
    obtain ⟨hqueue, htail⟩ := lined_quiet heff
      (fun u hu => h.queue u (by rw [hq]; exact List.mem_cons_of_mem _ hu)) (h.tail.append ht)
    refine ⟨hqueue, htail, fun p => ?_⟩
    cases t with
    | chunk q bytes =>
      by_cases hpq : p = q
      · subst hpq
        simpa [Net.after, Net.consuming, hq, Task.bytes] using (h.consumed p).append ht
      · simpa [Net.after, Net.consuming, hq, hpq] using h.consumed p
    | _ => simpa [Net.after, Net.consuming, hq] using h.consumed p
  | line env line tail he hsplit hheard =>
    subst he
    have hboth : (∀ t ∈ client.queue, Lines.Whole newline t.bytes) ∧
        Lines.Whole newline client.readTail := by
      cases hheard with
      | nothing hq => exact lined_quiet hq h.queue (hline hsplit)
      | answer msg i id k hmsg hid hkey hpending hq => exact lined_quiet hq h.queue (hline hsplit)
    exact ⟨hboth.1, hboth.2, h.consumed⟩
  | other harrive htask hq =>
    obtain ⟨-, hconsumed⟩ := after_other (x := x) harrive htask
    obtain ⟨hqueue, htail⟩ := lined_quiet hq h.queue h.tail
    refine ⟨hqueue, htail, fun p => ?_⟩
    rw [Net.after, hconsumed]
    exact h.consumed p

lemma lined_step {a : Action} (h : Lined x) (hw : whole a)
    (hstep : step L cfg N J x a = some x') : Lined x' := by
  rcases net_cases hstep with ⟨e, client, rfl, -, hclient, rfl⟩ | ⟨p, g, s, rfl, -, -, rfl⟩ |
    ⟨p, t, g, c, q, s, rfl, -, -, -, rfl⟩ | ⟨g, b, s, rfl, -, -, rfl⟩
  · exact lined_after h hw hclient
  · exact ⟨h.queue, h.tail, h.consumed⟩
  · exact ⟨h.queue, h.tail, h.consumed⟩
  · exact ⟨h.queue, h.tail, h.consumed⟩

lemma framed_of_whole {found : ℕ → FileSystem × ℕ} {as : List Action}
    (hw : Along (step L cfg N J) (fun _ a => whole a) (start found) as) :
    Along (step L cfg N J) (fun x a => framed x a = true) (start found) as := by
  have hstart : Lined (start found : Net Key) :=
    ⟨fun _ ht => (by cases ht), Lines.whole_nil, fun _ => Lines.whole_nil⟩
  refine Along.of_inv Lined (fun _ _ _ h hw hstep => lined_step h hw hstep) (fun x a h _ => ?_)
    hstart hw
  unfold framed
  split
  · split
    · rw [Lines.leftover_whole h.tail, Lines.leftover_whole (h.consumed _)]
      rfl
    · rfl
  · rfl

lemma sound_start (found : ℕ → FileSystem × ℕ) : Sound N J (start found : Net Key) where
  keyed := keyed_new
  placed _ := rfl
  agents g := ⟨logged_start _ _, fun c hc => by simp [start, Daemon.start] at hc,
    fun m hm => by simp [start] at hm⟩
  linked p g c h := by cases h
  known g c h := by cases h
  single p q gc h := by cases h
  ours p g c h := by cases h
  bytes _ := rfl
  stream p h := absurd rfl h
  tail := reads_nil
  results kv h := by cases h

/-- Whatever the agents and the client do, and however often the client stops and connects again:
every request an agent reads has one response, on its connection and under its id, and no
callback is called twice, or with a result other than what the agent has answered to its
request. -/
theorem corresponds_of_framed {found : ℕ → FileSystem × ℕ} {as : List Action} (hN : Faithful N J)
    (hf : Along (step L cfg N J) (fun x a => framed x a = true) (start found) as)
    (hrun : run (step L cfg N J) (start found) as = some x) : Corresponds N J x := by
  have hkeep : ∀ s a t, Sound N J s → framed s a = true → step L cfg N J s a = some t →
      Sound N J t := fun _ _ _ h hf hstep => sound_step hN h hf hstep
  have h := run_inv hkeep (sound_start found) hf hrun
  refine ⟨fun g => (h.agents g).logged, h.keyed.once, fun k => ?_, fun k v hv => ?_⟩
  · have hk := h.placed k
    unfold Client.places at hk
    split at hk <;> omega
  · exact h.results (k, v) (List.mem_filterMap.mpr ⟨_, hv, rfl⟩)

/-! ### A client and an agent -/

namespace Exchange

/-- The responses of the run below, as they are printed and as they are read. -/
def texts : List (ℕ × String × Json) :=
  [(1, "\x7b\"id\":1,\"ok\":true,\"result\":\x7b\"locked\":true,\"proto\":1," ++
      "\"vault_exists\":true\x7d\x7d",
      .obj [("id", .num 1), ("ok", .bool true), ("result", .obj [("locked", .bool true),
        ("proto", .num 1), ("vault_exists", .bool true)])]),
    (2, "\x7b\"id\":2,\"ok\":true,\"result\":\x7b\x7d\x7d",
      .obj [("id", .num 2), ("ok", .bool true), ("result", .obj [])])]

def number : Json → Option ℤ
  | .num n => some n
  | _ => none

def idOf (j : Json) : Option ℤ := (field j "id").bind number

def printer : Printer where
  print j := (texts.find? fun t => idOf j = some t.1).elim [63] fun t => asBytes t.2.1
  serde _ := ""

def neovim : Neovim where
  decode bytes := (texts.find? fun t => asBytes t.2.1 = bytes).map (·.2.2)
  tonumber := Sample.neovim.tonumber

lemma field_of_idOf {j : Json} {n : ℤ} (h : idOf j = some n) : field j "id" = some (.num n) := by
  obtain ⟨i, hi, hn⟩ := Option.bind_eq_some_iff.mp h
  cases i with
  | num m =>
    cases hn
    exact hi
  | _ => cases hn

lemma message_unknown : message neovim [63] = none :=
  Option.isNone_iff_eq_none.mp (by decide +kernel)

lemma print_cases (j : Json) : printer.print j = [63] ∨
    ∃ t ∈ texts, idOf j = some (t.1 : ℤ) ∧ printer.print j = asBytes t.2.1 := by
  simp only [printer]
  cases hfind : texts.find? fun t => idOf j = some t.1 with
  | none => exact .inl rfl
  | some t =>
    exact .inr ⟨t, List.mem_of_find?_eq_some hfind, by simpa using List.find?_some hfind, rfl⟩

lemma printer_faithful : Faithful neovim printer where
  closed j := by
    have htexts : ∀ t ∈ texts, newline ∉ asBytes t.2.1 := by decide +kernel
    rcases print_cases j with heq | ⟨t, ht, -, heq⟩
    · rw [heq]
      decide
    · rw [heq]
      exact htexts t ht
  response id r msg hmsg := by
    have htexts : ∀ t ∈ texts, (message neovim (asBytes t.2.1)).bind idOf = some (t.1 : ℤ) := by
      decide +kernel
    have hid : idOf (respond printer.serde id r) = some (id : ℤ) := by
      cases r <;> rfl
    rw [Printer.text] at hmsg
    rcases print_cases (respond printer.serde id r) with heq | ⟨t, ht, hsame, heq⟩
    · rw [heq, message_unknown] at hmsg
      cases hmsg
    · have hread := htexts t ht
      rw [heq] at hmsg
      rw [hmsg, Option.bind_some, ← hsame, hid] at hread
      exact field_of_idOf hread
  note n msg hmsg := by
    have hid : idOf n.toJson = none := by
      cases n <;> rfl
    rw [Printer.text] at hmsg
    rcases print_cases n.toJson with heq | ⟨t, -, hsame, -⟩
    · rw [heq, message_unknown] at hmsg
      cases hmsg
    · rw [hid] at hsame
      cases hsame

/-- A thread of the first agent serves a request of a pipe. -/
def served (t n : ℕ) : List Action :=
  .read 0 t :: List.replicate n (.agent 0 (.run t Sample.env false))

/-- The response with an id comes and is read. -/
def heard (id : ℕ) : List Action :=
  [.client
    (.arrive 0 ((texts.find? fun t => t.1 = id).elim [] fun t => asBytes t.2.1 ++ [newline])),
    .client (.scheduled Sample.fine), .client (.resume Sample.fine)]

/-- A request that brings about a connection, is sent, and is answered. -/
def asked : List Action :=
  [.client (.act (.request "vault.lock" none)), .client (.resume Sample.fine),
    .client (.resume Sample.fine), .accept 0 0, .client (.connected 0 false),
    .client (.scheduled Sample.fine)] ++ served 1 5 ++ heard 1 ++
  [.client (.resume Sample.fine), .client (.resume Sample.fine),
    .client (.resume Sample.fine)] ++ served 2 3 ++ heard 2

end Exchange

theorem corresponds_of_framed_asked :
    ∃ x, run (step Sample.packages Sample.config Exchange.neovim
        Exchange.printer) (start fun _ => (Sample.created.fs, 0)) Exchange.asked = some x ∧
      x.client.results.length = 1 ∧ Corresponds Exchange.neovim Exchange.printer x := by
  have hend : (run (step Sample.packages Sample.config Exchange.neovim
      Exchange.printer) (start fun _ => (Sample.created.fs, 0)) Exchange.asked).map
      (fun x => x.client.results.length) = some 1 := by
    decide +kernel
  obtain ⟨x, hx, hresults⟩ := Option.map_eq_some_iff.mp hend
  refine ⟨x, hx, hresults, corresponds_of_framed Exchange.printer_faithful ?_ hx⟩
  decide +kernel

end LvimKeyring.Correlation
