import LvimKeyring.Serving

/-!
What holds of every connection between an agent and its editors.

A request is on its way to the agent, served by a thread, or answered on the wire, and its
callback is kept by an id that no other request of the editor has. A connection is greeted with
the answer to its handshake, which never fails.
-/

namespace LvimKeyring.Editors

open Rpc Crypto Vault Server Daemon Editor Transition

variable {Key : Type} {L : Packages Key} {cfg : Config} {env : Env} {expired : Bool} {t : ℕ}
variable {d d' : State Key} {x : Seat} {s s' : System Key}

/-! ### The invariant -/

/-- What the editor will know once it has handled what is on its way. -/
def settled (x : Seat) : Client := x.client.settle x.wire

lemma settled_append (x : Seat) (w : List Line) :
    settled { x with wire := x.wire ++ w } = (settled x).settle w :=
  settle_append _ _ _

/-- Nothing is in flight on a connection, its end included. -/
def Still (x : Seat) : Prop :=
  x.wire = [] ∧ x.outgoing = [] ∧ (x.client.isRunning = true → x.client.waiters = []) ∧
    (x.link = .none ∨ ∃ c, x.link = .served c)

/-- The connection has been greeted, or its handshake is under way. -/
def Shaking (d : State Key) (x : Seat) (c : ℕ) : Prop :=
  (x.client.settle x.wire).ready = true ∨
    (∃ m ∈ x.outgoing, x.client.pending m.id = some .handshake) ∨
      ∃ t, Attending c d t ∧ x.client.pending (d.origin t).2 = some .handshake

/-- What holds of an editor and its connection. -/
structure Seated (d : State Key) (x : Seat) : Prop where
  closed : x.link = .none ↔ x.client.pipe = false
  unready : x.client.pipe = false → x.client.ready = false ∧ ∀ id, x.client.pending id = none
  registered : ∀ c, x.link = .served c → c ∈ d.shared.clients
  sent : ∀ m ∈ x.outgoing, m.id ≤ x.client.idSeq
  received : ∀ id r, .response id r ∈ x.wire → id ≤ x.client.idSeq
  served : ∀ c, x.link.client = some c → ∀ t, Attending c d t →
    (d.origin t).2 ≤ x.client.idSeq
  fitting : x.client.Fitting
  methods : ∀ m ∈ x.outgoing, ∀ k, x.client.pending m.id = some k → k.fits m.method = true
  attended : ∀ c, x.link.client = some c → ∀ t, Attending c d t → ∀ k,
    x.client.pending (d.origin t).2 = some k → attends k (d.pc t) = true
  calm : Calm x.client x.wire
  queued : x.link = .queued → (x.client.settle x.wire).ready = false ∧
    ∃ m ∈ x.outgoing, x.client.pending m.id = some .handshake
  shaking : ∀ c, x.link = .served c → Shaking d x c

/-- What holds of the system. -/
structure Wired (s : System Key) : Prop where
  clients : ∀ c ∈ s.agent.shared.clients, c < s.agent.shared.nextClient
  origins : ∀ t, serves (s.agent.pc t) = true → (s.agent.origin t).1 < s.agent.shared.nextClient
  owned : ∀ c e, s.owner c = some e → c < s.agent.shared.nextClient
  owner : ∀ e c, (s.seat e).link.client = some c → s.owner c = some e
  unowned : s.running = false → ∀ c, s.owner c = none
  stopped : s.running = false → ∀ e, (s.seat e).link = .none ∨ (s.seat e).link = .dead
  seated : ∀ e, Seated s.agent (s.seat e)

/-! ### The agent moves -/

lemma Shaking.of_same {c : ℕ} (h : Shaking d x c) (hsame : SameFor c d d') : Shaking d' x c := by
  rcases h with hready | hsent | ⟨t, ht, hk⟩
  · exact .inl hready
  · exact .inr (.inl hsent)
  · refine .inr (.inr ⟨t, hsame.forth t ht, ?_⟩)
    rwa [hsame.origin t ht]

lemma Seated.of_same (h : Seated d x) (hreg : ∀ c, x.link = .served c → c ∈ d'.shared.clients)
    (hsame : ∀ c, x.link.client = some c → SameFor c d d') : Seated d' x where
  closed := h.closed
  unready := h.unready
  registered := hreg
  sent := h.sent
  received := h.received
  served c hc t ht := by
    have hback := (hsame c hc).back t ht
    rw [(hsame c hc).origin t hback]
    exact h.served c hc t hback
  fitting := h.fitting
  methods := h.methods
  attended c hc t ht k hk := by
    have hback := (hsame c hc).back t ht
    rw [(hsame c hc).origin t hback] at hk
    rw [attends_same (hsame c hc) hback]
    exact h.attended c hc t hback k hk
  calm := h.calm
  queued := h.queued
  shaking c hc := (h.shaking c hc).of_same (hsame c (by rw [hc]; rfl))

/-! ### A thread's turn -/

lemma calm_turn (h : Seated d x) {c : ℕ} (hc : x.link.client = some c) (t : ℕ) :
    Calm x.client (x.wire ++ spoken d.shared (d.pc t) (d.origin t) c) := by
  intro id r hr hk
  rcases List.mem_append.mp hr with hold | hnew
  · exact h.calm id r hold hk
  · obtain ⟨hp, horigin⟩ := response_spoken hnew
    have hat : Attending c d t := ⟨by rw [hp]; rfl, by rw [horigin]⟩
    have hattends := h.attended c hc t hat .handshake (by rw [horigin]; exact hk)
    rw [hp] at hattends
    exact hattends

lemma ready_of_answer (h : Seated d x) {c : ℕ} (hc : x.link.client = some c)
    {r : Except Err Reply} (hp : d.pc t = .respond r) (hat : Attending c d t)
    (hk : x.client.pending (d.origin t).2 = some .handshake) :
    (x.client.settle (x.wire ++ spoken d.shared (d.pc t) (d.origin t) c)).ready = true := by
  have hcalm := calm_turn h hc t
  have hspoken : spoken d.shared (d.pc t) (d.origin t) c = [.response (d.origin t).2 r] := by
    rw [hp]
    simp only [spoken]
    rw [if_pos hat.2.symm]
  rw [hspoken] at hcalm ⊢
  rw [settle_append]
  have haccepted : accepted r = true :=
    hcalm (d.origin t).2 r (List.mem_append_right _ List.mem_cons_self) hk
  rcases handshake_settle h.calm hk with hpending | hready
  · simp only [settle_cons, settle_nil, Client.onMessage, hpending]
    rw [callback_ready fun _ => haccepted]
    simp
  · refine ready_settle ?_ hready
    intro id r' hr' _
    obtain ⟨-, rfl⟩ : id = _ ∧ r' = r := by simpa using hr'
    exact haccepted

lemma Seated.of_turn (h : Seated d x) (hd : Daemon.step L cfg d (.run t env expired) = some d') :
    Seated d' (x.hear d.shared.channel d'.shared.channel) := by
  obtain ⟨p, hexec, -, -⟩ := step_run hd
  have hclients := (Announce.exec_told hexec).clients
  rw [hear_turn hd]
  cases hc : x.link.client with
  | none =>
    have hnone {c : ℕ} : x.link ≠ .served c := by
      intro hlink
      rw [hlink] at hc
      cases hc
    have hempty : ({ x with wire := x.wire ++ [] } : Seat) = x := by rw [List.append_nil]
    rw [hempty]
    refine h.of_same (fun c hlink => absurd hlink hnone) fun c hlink => ?_
    rw [hc] at hlink
    cases hlink
  | some c =>
    have hcalm := calm_turn h hc t
    refine ⟨h.closed, h.unready, ?_, h.sent, fun id r hr => ?_, ?_, h.fitting, h.methods, ?_, hcalm,
      ?_, ?_⟩
    · rw [hclients]
      exact h.registered
    · rcases List.mem_append.mp hr with hold | hnew
      · exact h.received id r hold
      · obtain ⟨hp, horigin⟩ := response_spoken hnew
        have hid := h.served c hc t ⟨by rw [hp]; rfl, by rw [horigin]⟩
        rwa [horigin] at hid
    · intro b hb u hu
      have hback := (turn_threads hd hu).1
      rw [origin_run hd]
      exact h.served b hb u hback
    · intro b hb u hu k hk
      obtain ⟨hback, hattends⟩ := turn_threads hd hu
      rw [origin_run hd] at hk
      exact hattends k (h.attended b hb u hback k hk)
    · intro hq
      rw [hq] at hc
      cases hc
    · intro b hb
      obtain rfl : b = c := by
        rw [hb] at hc
        exact Option.some.inj hc
      rcases h.shaking b hb with hready | hsent | ⟨u, hu, hk⟩
      · left
        rw [settle_append]
        refine ready_settle ?_ hready
        intro id r hr hk
        exact hcalm id r (List.mem_append_right _ hr) (pending_settle hk)
      · exact .inr (.inl hsent)
      · -- The turn was the answer to the handshake, which now is on the wire.
        rcases turn_stays hd hu with hstays | ⟨rfl, r, hr⟩
        · exact .inr (.inr ⟨u, hstays, by rw [origin_run hd]; exact hk⟩)
        · exact .inl (ready_of_answer h hc hr hu hk)

/-! ### The editor moves -/

lemma Seated.fresh (h : Seated d x) {id : ℕ} {r : Except Err Reply}
    (hr : .response id r ∈ x.wire) : id ≠ x.client.idSeq + 1 := by
  have hle := h.received id r hr
  omega

lemma Seated.connect (h : Seated d x) (hpipe : x.client.pipe = false) :
    Seated d { x with
      client := x.client.connect.1
      link := .queued
      outgoing := [x.client.connect.2] } := by
  obtain ⟨hready, hpending⟩ := h.unready hpipe
  have hkept : ∀ id, id ≠ x.client.idSeq + 1 → x.client.connect.1.pending id = none := by
    intro id hid
    simp only [Client.connect, Client.register, Function.update_of_ne hid]
    exact hpending id
  have hnew : x.client.connect.1.pending (x.client.idSeq + 1) = some .handshake :=
    Function.update_self _ _ _
  -- Nothing on the old wire answers the new handshake.
  have hwire : ∀ id r, .response id r ∈ x.wire →
      x.client.connect.1.pending id ≠ some .handshake := by
    intro id r hr
    rw [hkept id (h.fresh hr)]
    simp
  refine ⟨?_, ?_, ?_, ?_, ?_, ?_, h.fitting, ?_, ?_, ?_, ?_, ?_⟩
  · simp [Client.connect, Client.register]
  · intro hfalse
    cases hfalse
  · intro c hc
    cases hc
  · intro m hm
    rw [List.mem_singleton.mp hm]
    exact le_rfl
  · intro id r hr
    exact Nat.le_succ_of_le (h.received id r hr)
  · intro c hc
    cases hc
  · intro m hm k hk
    rw [List.mem_singleton.mp hm] at hk ⊢
    obtain rfl : k = .handshake := by
      simp only [Client.connect] at hk hnew
      rw [hnew] at hk
      exact (Option.some.inj hk).symm
    rfl
  · intro c hc
    cases hc
  · intro id r hr hk
    exact absurd hk (hwire id r hr)
  · exact fun _ => ⟨not_ready_settle hwire hready, _, List.mem_singleton_self _, hnew⟩
  · intro c hc
    cases hc

lemma seated_left {client : Client} {wire : List Line} (hpipe : client.pipe = false)
    (hready : client.ready = false) (hpending : ∀ id, client.pending id = none)
    (hfitting : client.Fitting) (hwire : ∀ id r, .response id r ∈ wire → id ≤ client.idSeq) :
    Seated d ⟨client, .none, [], wire⟩ where
  closed := ⟨fun _ => hpipe, fun _ => rfl⟩
  unready _ := ⟨hready, hpending⟩
  registered c hc := by cases hc
  sent m hm := by cases hm
  received := hwire
  served c hc := by cases hc
  fitting := hfitting
  methods m hm := by cases hm
  attended c hc := by cases hc
  calm id r _ hk := by
    rw [hpending id] at hk
    cases hk
  queued hc := by cases hc
  shaking c hc := by cases hc

lemma Seated.teardown (h : Seated d x) {wire : List Line} (hwire : ∀ l ∈ wire, l ∈ x.wire) :
    Seated d ⟨x.client.teardown, .none, [], wire⟩ :=
  seated_left rfl rfl (fun _ => rfl) (fitting_drop _ _) fun id r hr =>
    h.received id r (hwire _ hr)

lemma Seated.calm_head (h : Seated d x) {l : Line} {wire : List Line} (hw : x.wire = l :: wire) :
    ∀ id r, l = .response id r → x.client.pending id = some .handshake → accepted r = true := by
  rintro id r rfl
  exact h.calm id r (by rw [hw]; exact List.mem_cons_self)

lemma Seated.deliver (h : Seated d x) {l : Line} {wire : List Line} (hw : x.wire = l :: wire) :
    Seated d { x with client := x.client.onMessage l, wire } := by
  have hl := h.calm_head hw
  have hpipe := pipe_onMessage hl
  have hid := idSeq_onMessage x.client l
  have hcalm : Calm (x.client.onMessage l) wire := by
    have hold := h.calm
    rw [hw] at hold
    exact hold.tail
  -- What the client has become of all its lines does not depend on how many it has read.
  have hsettle : (x.client.onMessage l).settle wire = x.client.settle x.wire := by
    rw [hw, settle_cons]
  refine ⟨?_, ?_, h.registered, ?_, ?_, ?_, h.fitting.onMessage l, ?_, ?_, hcalm, ?_, ?_⟩
  · rw [hpipe]
    exact h.closed
  · intro hclosed
    rw [hpipe] at hclosed
    obtain ⟨hready, hpending⟩ := h.unready hclosed
    refine ⟨?_, fun id => ?_⟩
    · change (x.client.settle [l]).ready = false
      refine not_ready_settle (fun id r _ => ?_) hready
      rw [hpending id]
      simp
    · cases hk : (x.client.onMessage l).pending id with
      | none => rfl
      | some k =>
        have hold := pending_onMessage hk
        rw [hpending id] at hold
        cases hold
  · intro m hm
    rw [hid]
    exact h.sent m hm
  · intro id r hr
    rw [hid]
    exact h.received id r (by rw [hw]; exact List.mem_cons_of_mem _ hr)
  · intro c hc t ht
    rw [hid]
    exact h.served c hc t ht
  · intro m hm k hk
    exact h.methods m hm k (pending_onMessage hk)
  · intro c hc t ht k hk
    exact h.attended c hc t ht k (pending_onMessage hk)
  · intro hq
    obtain ⟨hready, m, hm, hk⟩ := h.queued hq
    rw [hsettle]
    refine ⟨hready, m, hm, ?_⟩
    rcases handshake_onMessage hl hk with hkept | hgreeted
    · exact hkept
    · have hcontra := ready_settle hcalm hgreeted
      rw [hsettle, hready] at hcontra
      cases hcontra
  · intro c hc
    have hgreeted (hr : (x.client.onMessage l).ready = true) :
        Shaking d { x with client := x.client.onMessage l, wire } c := .inl (ready_settle hcalm hr)
    rcases h.shaking c hc with hready | ⟨m, hm, hk⟩ | ⟨t, ht, hk⟩
    · exact .inl (by rw [hsettle]; exact hready)
    · rcases handshake_onMessage hl hk with hkept | hr
      · exact .inr (.inl ⟨m, hm, hkept⟩)
      · exact hgreeted hr
    · rcases handshake_onMessage hl hk with hkept | hr
      · exact .inr (.inr ⟨t, ht, hkept⟩)
      · exact hgreeted hr

lemma Seated.cut (h : Seated d x) (hlink : x.link = .dead) (n : ℕ) :
    Seated d { x with wire := x.wire.take n } where
  closed := h.closed
  unready := h.unready
  registered := h.registered
  sent := h.sent
  received id r hr := h.received id r (List.mem_of_mem_take hr)
  served := h.served
  fitting := h.fitting
  methods := h.methods
  attended := h.attended
  calm id r hr := h.calm id r (List.mem_of_mem_take hr)
  queued hq := by
    rw [hlink] at hq
    cases hq
  shaking c hc := by
    rw [hlink] at hc
    cases hc

/-- The exit of the agent leaves a connection dead. -/
lemma Seated.orphan (h : Seated d x) : Seated d' x.orphan := by
  have hlink : x.orphan.link = .none ∨ x.orphan.link = .dead := by
    simp only [Seat.orphan]
    split
    · exact .inl rfl
    · exact .inr rfl
  have hclient : x.orphan.link.client = none := by
    rcases hlink with hl | hl <;> rw [hl] <;> rfl
  refine ⟨?_, h.unready, ?_, fun m hm => (by cases hm), h.received, ?_, h.fitting,
    fun m hm => (by cases hm), ?_, h.calm, ?_, ?_⟩
  · have hclosed := h.closed
    simp only [Seat.orphan]
    split
    · rename_i hn
      exact ⟨fun _ => hclosed.mp hn, fun _ => rfl⟩
    · rename_i hn
      exact ⟨fun hd => (by cases hd), fun hp => absurd (hclosed.mpr hp) hn⟩
  · intro c hc
    rw [hc] at hclient
    cases hclient
  · intro c hc
    rw [hclient] at hc
    cases hc
  · intro c hc
    rw [hclient] at hc
    cases hc
  · intro hq
    rcases hlink with hl | hl <;> rw [hl] at hq <;> cases hq
  · intro c hc
    rw [hc] at hclient
    cases hclient

lemma Seated.send (h : Seated d x) {client : Client} {m : Sent}
    (hsend : x.client.send = some (client, m)) :
    Seated d { x with client, outgoing := x.outgoing ++ [m] } := by
  obtain ⟨w, rest, hw, hready, hpipe, rfl, rfl⟩ := send_eq_some hsend
  have hkept {id : ℕ} (hid : id ≤ x.client.idSeq) :
      Function.update x.client.pending (x.client.idSeq + 1) (some w.callback) id
        = x.client.pending id :=
    Function.update_of_ne (by omega) _ _
  -- The handshake is not answered on the wire, as its id is a new one.
  have hcalm : Calm (({ x.client with waiters := rest } : Client).register (x.client.idSeq + 1)
      w.callback) x.wire := by
    intro id r hr hk
    simp only [Client.register, hkept (h.received id r hr)] at hk
    exact h.calm id r hr hk
  have hgreeted := ready_settle hcalm hready
  refine ⟨h.closed, ?_, h.registered, ?_, ?_, ?_, ?_, ?_, ?_, hcalm, ?_, ?_⟩
  · intro hclosed
    simp only [Client.register, hpipe] at hclosed
    cases hclosed
  · intro m hm
    rcases List.mem_append.mp hm with hold | hnew
    · exact Nat.le_succ_of_le (h.sent m hold)
    · rw [List.mem_singleton.mp hnew]
      exact le_rfl
  · intro id r hr
    exact Nat.le_succ_of_le (h.received id r hr)
  · intro c hc t ht
    exact Nat.le_succ_of_le (h.served c hc t ht)
  · intro w' hw'
    exact h.fitting w' (by rw [hw]; exact List.mem_cons_of_mem _ hw')
  · intro m hm k hk
    rcases List.mem_append.mp hm with hold | hnew
    · simp only [Client.register, hkept (h.sent m hold)] at hk
      exact h.methods m hold k hk
    · rw [List.mem_singleton.mp hnew] at hk ⊢
      simp only [Client.register, Function.update_self] at hk
      rw [← Option.some.inj hk]
      exact h.fitting w (by rw [hw]; exact List.mem_cons_self)
  · intro c hc t ht k hk
    simp only [Client.register, hkept (h.served c hc t ht)] at hk
    exact h.attended c hc t ht k hk
  · intro hq
    have hnot := (h.queued hq).1
    rw [ready_settle h.calm hready] at hnot
    cases hnot
  · exact fun c _ => .inl hgreeted

lemma Seated.user (h : Seated d x) {i : Input} {client : Client}
    (hinput : x.client.input i = some client) : Seated d { x with client } := by
  obtain ⟨hpipe, hid, hready, hunlocked, hpending⟩ := input_core hinput
  have hcalm : Calm client x.wire := by
    intro id r hr hk
    rw [hpending] at hk
    exact h.calm id r hr hk
  have hsettle : (client.settle x.wire).ready = (x.client.settle x.wire).ready := by
    have hcore : SameCore (fun _ => True) x.client client :=
      ⟨hready, hunlocked, fun id _ => by rw [hpending]⟩
    exact (hcore.settle (fun _ _ _ => trivial) h.calm).ready
  refine ⟨?_, ?_, h.registered, ?_, ?_, ?_, h.fitting.input hinput, ?_, ?_, hcalm, ?_, ?_⟩
  · rw [hpipe]
    exact h.closed
  · rw [hpipe, hready, hpending]
    exact h.unready
  · rw [hid]
    exact h.sent
  · rw [hid]
    exact h.received
  · rw [hid]
    exact h.served
  · rw [hpending]
    exact h.methods
  · rw [hpending]
    exact h.attended
  · rw [hsettle, hpending]
    exact h.queued
  · intro c hc
    have hold := h.shaking c hc
    unfold Shaking at hold ⊢
    rwa [hsettle, hpending]

/-! ### Both ends move -/

lemma Seated.accept (h : Seated d x) (hlink : x.link = .queued)
    (horigins : ∀ t, serves (d.pc t) = true → (d.origin t).1 < d.shared.nextClient)
    (hd : Daemon.step L cfg d .connect = some d') :
    Seated d' { x with link := .served d.shared.nextClient } := by
  cases hd
  have hnone : ∀ c, (Link.served d.shared.nextClient).client = some c →
      ∀ t, ¬ Attending c d t := by
    intro c hc t ht
    have hlt := horigins t ht.1
    rw [ht.2] at hlt
    cases hc
    exact absurd hlt (lt_irrefl _)
  refine ⟨⟨fun hl => (by cases hl), fun hp => ?_⟩, h.unready, fun c hc => ?_, h.sent, h.received,
    fun c hc t ht => absurd ht (hnone c hc t), h.fitting, h.methods,
    fun c hc t ht => absurd ht (hnone c hc t), h.calm, fun hq => (by cases hq), fun c _ => ?_⟩
  · have hl := h.closed.mpr hp
    rw [hlink] at hl
    cases hl
  · cases hc
    exact List.mem_cons_self
  · exact .inr (.inl (h.queued hlink).2)

lemma Seated.hangup (h : Seated d x) {c : ℕ} (hlink : x.link = .served c)
    (hd : Daemon.step L cfg d (.disconnect c) = some d') :
    Seated d' { x with link := .ending c } := by
  have hsame : SameFor c d d' := same_of_quiet hd (by simp) (by simp)
  have hclient : ∀ b, (Link.ending c).client = some b → x.link.client = some b := by
    rw [hlink]
    exact fun b hb => hb
  refine ⟨⟨fun hl => (by cases hl), fun hp => ?_⟩, h.unready, fun b hb => (by cases hb), h.sent,
    h.received, fun b hb t ht => ?_, h.fitting, h.methods, fun b hb t ht k hk => ?_, h.calm,
    fun hq => (by cases hq), fun b hb => (by cases hb)⟩
  · have hl := h.closed.mpr hp
    rw [hlink] at hl
    cases hl
  · obtain rfl := Option.some.inj hb
    have hback := hsame.back t ht
    rw [hsame.origin t hback]
    exact h.served c (hclient c hb) t hback
  · obtain rfl := Option.some.inj hb
    have hback := hsame.back t ht
    rw [hsame.origin t hback] at hk
    rw [attends_same hsame hback]
    exact h.attended c (hclient c hb) t hback k hk

lemma Seated.read (h : Seated d x) {c : ℕ} {m : Sent} {rest : List Sent}
    (hlink : x.link = .served c) (hout : x.outgoing = m :: rest)
    (hd : Daemon.step L cfg d (.request t c m.id m.method m.params) = some d') :
    Seated d' { x with outgoing := rest } := by
  obtain ⟨hshared, hidle, hpc, horigin, -, hothers⟩ := request_threads hd
  have hm : m ∈ x.outgoing := by
    rw [hout]
    exact List.mem_cons_self
  have hrest : ∀ m' ∈ rest, m' ∈ x.outgoing := by
    rw [hout]
    exact fun m' hm' => List.mem_cons_of_mem _ hm'
  have hclient : x.link.client = some c := by
    rw [hlink]
    rfl
  have hcases : ∀ u, Attending c d' u → u = t ∨ (u ≠ t ∧ Attending c d u) := by
    intro u hu
    by_cases hut : u = t
    · exact .inl hut
    · rw [Attending, (hothers u hut).1, (hothers u hut).2] at hu
      exact .inr ⟨hut, hu⟩
  refine ⟨h.closed, h.unready, ?_, fun m' hm' => h.sent m' (hrest m' hm'), h.received, ?_,
    h.fitting, fun m' hm' => h.methods m' (hrest m' hm'), ?_, h.calm, ?_, ?_⟩
  · rw [hshared]
    exact h.registered
  · intro b hb u hu
    obtain rfl : c = b := by
      rw [hclient] at hb
      exact Option.some.inj hb
    rcases hcases u hu with rfl | ⟨hut, hold⟩
    · rw [horigin]
      exact h.sent m hm
    · rw [(hothers u hut).2]
      exact h.served c hb u hold
  · intro b hb u hu k hk
    obtain rfl : c = b := by
      rw [hclient] at hb
      exact Option.some.inj hb
    rcases hcases u hu with rfl | ⟨hut, hold⟩
    · rw [horigin] at hk
      rw [hpc]
      exact attends_dispatch (h.methods m hm k hk)
    · rw [(hothers u hut).2] at hk
      rw [(hothers u hut).1]
      exact h.attended c hb u hold k hk
  · intro hq
    have hcontra : x.link = .queued := hq
    rw [hlink] at hcontra
    cases hcontra
  · intro b hb
    obtain rfl : c = b := by
      have hcontra : x.link = .served b := hb
      rw [hlink] at hcontra
      cases hcontra
      rfl
    rcases h.shaking c hlink with hready | ⟨m', hm', hk⟩ | ⟨u, hu, hk⟩
    · exact .inl hready
    · -- The handshake may be the request that is read here.
      rw [hout] at hm'
      rcases List.mem_cons.mp hm' with rfl | hin
      · refine .inr (.inr ⟨t, ⟨by rw [hpc]; rfl, by rw [horigin]⟩, ?_⟩)
        rw [horigin]
        exact hk
      · exact .inr (.inl ⟨m', hin, hk⟩)
    · have hut : u ≠ t := by
        rintro rfl
        have hs := hu.1
        rw [hidle] at hs
        cases hs
      refine .inr (.inr ⟨u, ?_, ?_⟩)
      · rw [Attending, (hothers u hut).1, (hothers u hut).2]
        exact hu
      · rw [(hothers u hut).2]
        exact hk

/-! ### The system moves -/

lemma seat_withSeat (s : System Key) (e b : ℕ) (y : Seat) :
    (s.withSeat e y).seat b = if b = e then y else s.seat b := by
  simp only [System.withSeat, Function.update_apply]

lemma agent_origins {a : Action} (hd : Daemon.step L cfg d a = some d')
    (hclients : ∀ c ∈ d.shared.clients, c < d.shared.nextClient)
    (h : ∀ t, serves (d.pc t) = true → (d.origin t).1 < d.shared.nextClient) :
    ∀ t, serves (d'.pc t) = true → (d'.origin t).1 < d'.shared.nextClient := by
  intro u hu
  have hnext := (agent_clients hd hclients).1
  by_cases ha : ∃ t env expired, a = .run t env expired
  · obtain ⟨t, env, expired, rfl⟩ := ha
    have hat := (turn_threads hd (c := (d'.origin u).1) ⟨hu, rfl⟩).1
    have hlt := h u hat.1
    rw [origin_run hd]
    omega
  · have ha' : ∀ t env expired, a ≠ .run t env expired :=
      fun t env expired heq => ha ⟨t, env, expired, heq⟩
    by_cases hr : ∃ t id method params, a = .request t (d'.origin u).1 id method params
    · obtain ⟨t, id, method, params, rfl⟩ := hr
      obtain ⟨hshared, -, -, -, hin, -⟩ := request_threads hd
      rw [hshared]
      exact hclients _ hin
    · have hsame : SameFor (d'.origin u).1 d d' :=
        same_of_quiet hd ha' fun t id method params heq => hr ⟨t, id, method, params, heq⟩
      have hat := hsame.back u ⟨hu, rfl⟩
      have hlt := h u hat.1
      rw [hsame.origin u hat]
      omega

lemma Wired.withSeat (h : Wired s) {e : ℕ} {y : Seat} (hy : Seated s.agent y)
    (howner : ∀ c, y.link.client = some c → (s.seat e).link.client = some c)
    (hstopped : s.running = false → y.link = .none ∨ y.link = .dead) : Wired (s.withSeat e y) where
  clients := h.clients
  origins := h.origins
  owned := h.owned
  owner b c hc := by
    rw [seat_withSeat] at hc
    split at hc
    · rename_i hb
      rw [hb]
      exact h.owner e c (howner c hc)
    · exact h.owner b c hc
  unowned := h.unowned
  stopped hrun b := by
    rw [seat_withSeat]
    split
    · exact hstopped hrun
    · exact h.stopped hrun b
  seated b := by
    rw [seat_withSeat]
    split
    · exact hy
    · exact h.seated b

lemma Wired.only (h : Wired s) {e b c : ℕ} (he : (s.seat e).link.client = some c)
    (hb : (s.seat b).link.client = some c) : b = e := by
  have howner := h.owner b c hb
  rw [h.owner e c he] at howner
  exact (Option.some.inj howner).symm

lemma owner_disown {owner : ℕ → Option ℕ} {k : Option ℕ} {c b : ℕ}
    (h : disown owner k c = some b) : owner c = some b := by
  cases k with
  | none => exact h
  | some c' =>
    simp only [disown] at h
    by_cases hcc : c = c'
    · subst hcc
      simp at h
    · rwa [Function.update_of_ne hcc] at h

lemma disown_of_ne {owner : ℕ → Option ℕ} {k : Option ℕ} {c : ℕ} (h : k ≠ some c) :
    disown owner k c = owner c := by
  cases k with
  | none => rfl
  | some c' =>
    have hcc : c ≠ c' := by
      rintro rfl
      exact h rfl
    exact Function.update_of_ne hcc _ _

lemma Wired.leave (h : Wired s) {e : ℕ} {client : Client} {wire : List Line}
    (hy : Seated s.agent ⟨client, .none, [], wire⟩) : Wired (s.leave e client wire) := by
  refine ⟨h.clients, h.origins, fun c b hc => h.owned c b (owner_disown hc), ?_, ?_, ?_, ?_⟩
  · intro b c hc
    by_cases hbe : b = e
    · subst hbe
      simp only [System.leave, Function.update_self] at hc
      cases hc
    · simp only [System.leave, Function.update_of_ne hbe] at hc ⊢
      rw [disown_of_ne fun heq => hbe (h.only heq hc)]
      exact h.owner b c hc
  · intro hrun c
    cases hc : (s.leave e client wire).owner c with
    | none => rfl
    | some b =>
      have hold := owner_disown hc
      rw [h.unowned hrun c] at hold
      cases hold
  · intro hrun b
    by_cases hbe : b = e
    · subst hbe
      simp [System.leave]
    · simp only [System.leave, Function.update_of_ne hbe]
      exact h.stopped hrun b
  · intro b
    by_cases hbe : b = e
    · subst hbe
      simpa [System.leave] using hy
    · simp only [System.leave, Function.update_of_ne hbe]
      exact h.seated b

lemma Wired.seated_quiet (h : Wired s) {e : ℕ} {a : Action}
    (hd : Daemon.step L cfg s.agent a = some d') (ha : ∀ t env expired, a ≠ .run t env expired)
    (hreq : ∀ c t id method params, (s.seat e).link.client = some c →
      a ≠ .request t c id method params)
    (hdis : ∀ c, (s.seat e).link = .served c → a ≠ .disconnect c) :
    Seated d' (s.seat e) := by
  refine (h.seated e).of_same (fun c hc => ?_) fun c hc =>
    same_of_quiet hd ha fun t id method params =>
    hreq c t id method params hc
  have hin := (h.seated e).registered c hc
  cases stepped hd with
  | run t env expired => exact absurd rfl (ha t env expired)
  | connect => exact List.mem_cons_of_mem _ hin
  | disconnect b =>
    have hbc : c ≠ b := by
      rintro rfl
      exact hdis c hc rfl
    exact List.mem_filter.mpr ⟨hin, by simpa using hbc⟩
  | request | tick | rouse => exact hin

lemma Wired.agent_withSeat (h : Wired s) {e : ℕ} {y : Seat} {a : Action}
    (hrun : s.running = true) (hd : Daemon.step L cfg s.agent a = some d')
    (ha : ∀ t env expired, a ≠ .run t env expired)
    (hreq : ∀ b c t id method params, b ≠ e → (s.seat b).link.client = some c →
      a ≠ .request t c id method params)
    (hdis : ∀ b c, b ≠ e → (s.seat b).link = .served c → a ≠ .disconnect c)
    (hy : Seated d' y)
    (howner : ∀ c, y.link.client = some c → (s.seat e).link.client = some c) :
    Wired (({ s with agent := d' } : System Key).withSeat e y) := by
  obtain ⟨hnext, hclients⟩ := agent_clients hd h.clients
  refine ⟨hclients, agent_origins hd h.clients h.origins,
    fun c b hc => lt_of_lt_of_le (h.owned c b hc) hnext, fun b c hc => ?_, h.unowned,
    fun hstop => ?_, fun b => ?_⟩
  · rw [seat_withSeat] at hc
    split at hc
    · rename_i hb
      rw [hb]
      exact h.owner e c (howner c hc)
    · exact h.owner b c hc
  · simp only [System.withSeat, hrun] at hstop
    cases hstop
  · rw [seat_withSeat]
    split
    · exact hy
    · rename_i hb
      exact h.seated_quiet hd ha (fun c t id method params hc => hreq b c t id method params hb hc)
        fun c hc => hdis b c hb hc

lemma start_seated (fs : FileSystem) (clock : ℕ) :
    Seated (Daemon.start Key fs clock) ⟨.new, .none, [], []⟩ :=
  seated_left rfl rfl (fun _ => rfl) (fun _ hw => by cases hw) fun _ _ hr => by cases hr

lemma wired_start (fs : FileSystem) (clock : ℕ) : Wired (start Key fs clock) where
  clients c hc := by cases hc
  origins t ht := by cases ht
  owned c e hc := by cases hc
  owner e c hc := by cases hc
  unowned _ _ := rfl
  stopped hrun := by cases hrun
  seated _ := start_seated fs clock

theorem Wired.took {ev : Event} (h : Wired s) (hs : Took L cfg s ev s') : Wired s' := by
  cases hs with
  | turn hrun hd =>
    obtain ⟨hnext, hclients⟩ := agent_clients hd h.clients
    refine ⟨hclients, agent_origins hd h.clients h.origins,
      fun c b hc => lt_of_lt_of_le (h.owned c b hc) hnext, fun b c hc => ?_, h.unowned,
      fun hstop => ?_, fun b => (h.seated b).of_turn hd⟩
    · simp only [hear_turn hd] at hc
      exact h.owner b c hc
    · rw [hrun] at hstop
      cases hstop
  | quiet hrun ha hf hd =>
    obtain ⟨hnext, hclients⟩ := agent_clients hd h.clients
    refine ⟨hclients, agent_origins hd h.clients h.origins,
      fun c b hc => lt_of_lt_of_le (h.owned c b hc) hnext, h.owner, h.unowned, fun hstop => ?_,
      fun b => ?_⟩
    · rw [hrun] at hstop
      cases hstop
    · refine h.seated_quiet hd ha ?_ ?_
      · rintro c t id method params hc rfl
        simp only [foreign, h.owner b c hc] at hf
        cases hf
      · rintro c hc rfl
        simp only [foreign, h.owner b c (by rw [hc]; rfl)] at hf
        cases hf
  -- Clients are numbered from zero again by the next agent, so no connection may keep its number.
  | exit hrun =>
    refine ⟨fun c hc => (by cases hc), fun t ht => (by cases ht), fun c e hc => (by cases hc),
      fun e c hc => ?_, fun _ _ => rfl, fun _ e => ?_, fun e => (h.seated e).orphan⟩
    · simp only [Seat.orphan] at hc
      split at hc <;> cases hc
    · simp only [Seat.orphan]
      split
      · exact .inl rfl
      · exact .inr rfl
  -- Every connection is gone by now, or still has lines of the old agent to read.
  | spawn hrun =>
    have hnone : ∀ e c, (s.seat e).link.client ≠ some c := by
      intro e c hc
      rcases h.stopped hrun e with hl | hl <;> rw [hl] at hc <;> cases hc
    refine ⟨fun c hc => (by cases hc), fun t ht => (by cases ht), fun c e hc => ?_, h.owner,
      fun hstop => (by cases hstop), fun hstop => (by cases hstop), fun e => ?_⟩
    · have hnobody := h.unowned hrun c
      simp only [hnobody] at hc
      cases hc
    · refine (h.seated e).of_same (fun c hc => ?_) fun c hc => absurd hc (hnone e c)
      exact absurd (by rw [hc]; rfl) (hnone e c)
  | connect hrun hpipe =>
    refine h.withSeat ((h.seated _).connect hpipe) (fun c hc => by cases hc) fun hstop => ?_
    rw [hrun] at hstop
    cases hstop
  | accept hrun hlink hd =>
    rename_i e d
    obtain ⟨hnext, hclients⟩ := agent_clients hd h.clients
    have hnew : d.shared.nextClient = s.agent.shared.nextClient + 1 := by
      cases hd
      rfl
    refine ⟨hclients, agent_origins hd h.clients h.origins, fun c b hc => ?_, fun b c hc => ?_,
      fun hstop => ?_, fun hstop => ?_, fun b => ?_⟩
    · simp only [System.withSeat] at hc ⊢
      by_cases hcn : c = s.agent.shared.nextClient
      · omega
      · rw [Function.update_of_ne hcn] at hc
        exact lt_of_lt_of_le (h.owned c b hc) hnext
    · rw [seat_withSeat] at hc
      simp only [System.withSeat]
      split at hc
      · rename_i hb
        cases hc
        rw [hb, Function.update_self]
      · have hold := h.owner b c hc
        have hlt := h.owned c b hold
        rw [Function.update_of_ne (by omega)]
        exact hold
    · simp only [System.withSeat, hrun] at hstop
      cases hstop
    · simp only [System.withSeat, hrun] at hstop
      cases hstop
    · rw [seat_withSeat]
      split
      · exact (h.seated e).accept hlink h.origins hd
      · exact h.seated_quiet hd (by simp) (by simp) (by simp)
  | read hrun hlink hout hd =>
    rename_i e t c m rest d
    refine h.agent_withSeat hrun hd (by simp) ?_ (by simp) ((h.seated e).read hlink hout hd)
      fun c hc => hc
    rintro b c' t' id method params hb hc heq
    cases heq
    exact hb (h.only (by rw [hlink]; rfl) hc)
  | hangup hrun hlink hd =>
    rename_i e c d
    refine h.agent_withSeat hrun hd (by simp) (by simp) ?_ ((h.seated e).hangup hlink hd) ?_
    · rintro b c' hb hc heq
      cases heq
      exact hb (h.only (by rw [hlink]; rfl) (by rw [hc]; rfl))
    · intro c' hc
      rw [hlink]
      exact hc
  | deliver hwire hopen =>
    exact h.withSeat ((h.seated _).deliver hwire) (fun c hc => hc) fun hstop => h.stopped hstop _
  -- A line of the agent never refuses a handshake, so this does not come to pass.
  | refused hwire hpipe hclosed =>
    have hkept := pipe_onMessage ((h.seated _).calm_head hwire)
    rw [hclosed, hpipe] at hkept
    cases hkept
  | cut hlink =>
    exact h.withSeat ((h.seated _).cut hlink _) (fun c hc => hc) fun hstop => h.stopped hstop _
  | eof hwire hlink => exact h.leave ((h.seated _).teardown fun l hl => by cases hl)
  | stop => exact h.leave ((h.seated _).teardown fun l hl => List.mem_of_mem_take hl)
  | send hsend =>
    exact h.withSeat ((h.seated _).send hsend) (fun c hc => hc) fun hstop => h.stopped hstop _
  | user hinput =>
    exact h.withSeat ((h.seated _).user hinput) (fun c hc => hc) fun hstop => h.stopped hstop _

end LvimKeyring.Editors
