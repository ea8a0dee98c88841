import LvimKeyring.Wiring

/-!
What an editor believes of the lock.

Its cache is written by `vault.state`, by the answer to the handshake and by that to a status
request, and nothing corrects a cache that an answer from before the last transition, or the
end of the connection, has left wrong. In a run without either the cache is right whenever
nothing is under way.
-/

namespace LvimKeyring.LockCache

open Rpc Crypto Vault Server Editor Editors Transition
open Daemon hiding step start
open Announce (announces changes pending exec_told pending_moved pending_other)

variable {Key : Type}

/-! ### The statement -/

/-- The threads that have changed the session and are still to broadcast, in the order of their
changes. -/
def awaiting (g : List ℕ) (s : System Key) : Event → System Key → List ℕ
  | .agent (.run t _ _), _ =>
    if changes s.agent.shared (s.agent.pc t) then g ++ [t]
    else if (announces (s.agent.pc t)).isSome then g.erase t
    else g
  | .exit, _ => []
  | _, _ => g

/-- The broadcasts come in the order of the changes. -/
def InOrder (x : List ℕ × System Key) : Event → Prop
  | .agent (.run t _ _) => (announces (x.2.agent.pc t)).isSome = true → x.1.head? = some t
  | _ => True

instance (x : List ℕ × System Key) (ev : Event) : Decidable (InOrder x ev) := by
  unfold InOrder
  split <;> infer_instance

/-- The cache of an editor is right, unless something is under way. -/
def Converged (e : ℕ) (s : System Key) : Prop :=
  (∀ u, (s.agent.pc u).isIdle = true) → Still (s.seat e) →
    ((s.seat e).client.isUnlocked = true ↔
      (s.seat e).client.isRunning = true ∧ s.agent.shared.session.isSome)

/-- The cached lock state converges to the agent's. -/
def CacheConverges : Prop :=
  ∀ (Key : Type) (L : Packages Key) (cfg : Config) (fs : FileSystem) (clock e : ℕ)
    (es : List Event) (s : System Key),
    Along (track (step L cfg) awaiting) InOrder ([], start Key fs clock) es →
    run (step L cfg) (start Key fs clock) es = some s → Converged e s

/-- The callbacks that write the cache. -/
def caches : Callback → Bool
  | .handshake | .status => true
  | _ => false

/-- If the thread is about to send an answer that the editor will believe, it says what is the
case, or a broadcast is still to come. -/
def Believable (d : State Key) (t : ℕ) (x : Seat) : Prop :=
  match d.pc t, x.client.pending (d.origin t).2 with
  | .respond (.ok r), some k =>
    x.link.client = some (d.origin t).1 → caches k = true →
      (locked? r).getD false = d.shared.session.isNone ∨ ∃ u, (pending (d.pc u)).isSome = true
  | _, _ => True

/-- What the editor is told in an answer is right by then, and its connection ends only after
it has been told that the vault is locked. -/
def Fresh (e : ℕ) (s : System Key) : Event → Prop
  | .agent (.run t _ _) => Believable s.agent t (s.seat e)
  | .eof b => b = e → (s.seat e).client.unlocked = false
  | .stop b n => b = e →
      ((s.seat e).client.teardown.settle ((s.seat e).wire.take n)).unlocked = false
  | _ => True

/-! ### The broadcasts to come -/

variable {L : Packages Key} {cfg : Config} {env : Env} {expired : Bool} {t : ℕ} {origin : ℕ × ℕ}
variable {sh sh' : Shared Key} {p p' : Pc Key} {d d' : State Key} {s s' : System Key} {g : List ℕ}

lemma begin_changes {k : Call} (h : begin L cfg env sh k = some (sh', p'))
    (hp' : (pending p').isSome = true) : changes sh (.call k) = true := by
  cases k with
  | lock =>
    cases h
    split at hp'
    · rename_i hopen
      exact hopen
    · cases hp'
  | create password | unlock password | rotate old new | unlockCancel =>
    simp only [begin] at h
    split at h <;> cases h <;> cases hp'
  | session wait op =>
    simp only [begin] at h
    split at h
    · cases h
      cases hp'
    · cases h
      split at hp' <;> cases hp'
  | hello | status | bare =>
    cases h
    cases hp'

/-- A broadcast that is to come after a section comes from it, or was to come before it. -/
lemma exec_changes (h : p.exec L cfg env expired t origin sh = some (sh', p'))
    (hp' : (pending p').isSome = true) :
    changes sh p = true ∨ ((pending p).isSome = true ∧ announces p = none) := by
  cases p with
  | idle | asleep => cases h
  | call k => exact .inl (begin_changes h hp')
  | install s k => exact .inl rfl
  | resetFails k => exact .inr ⟨rfl, rfl⟩
  | tickTake =>
    cases h
    split at hp'
    · rename_i hopen
      exact .inl hopen
    · cases hp'
  | dispatch method params | capture op | woken op start | recheck op start | decide op start =>
    simp only [Pc.exec] at h
    split at h <;> cases h <;> cases hp'
  | createWrite password | rotateWrite current old new =>
    simp only [Pc.exec, Option.some.injEq] at h
    rcases afterWrite_cases h with ⟨s, rfl⟩ | ⟨e, rfl⟩ <;> cases hp'
  | wake k => cases k <;> cases h <;> cases hp'
  | announceLocked timer =>
    cases timer <;> cases h <;> cases hp'
  | park op | queryLocked locked ex entries | tickLocked | tickIdle =>
    cases h
    split at hp' <;> cases hp'
  | querySummaries full locked ex =>
    cases h
    split at hp'
    · cases hp'
    · split at hp' <;> cases hp'
  | announceUnlocked | unlockedSummaries | countFailure | wakeCancelled | signal | access
  | queryExists | queryIdle | respond =>
    cases h
    cases hp'

/-- The queue holds the threads that are to broadcast, and the last of them will be right. -/
structure Queue (d : State Key) (g : List ℕ) : Prop where
  nodup : g.Nodup
  mem : ∀ u, u ∈ g ↔ (pending (d.pc u)).isSome = true
  last : ∀ u, g.getLast? = some u → pending (d.pc u) = some d.shared.session.isNone

lemma Queue.quiet (h : Queue d g) (hworld : d'.shared.world = d.shared.world)
    (hpc : ∀ u, pending (d'.pc u) = pending (d.pc u)) : Queue d' g where
  nodup := h.nodup
  mem u := by rw [hpc, h.mem]
  last u hu := by
    rw [hpc, Shared.session, hworld]
    exact h.last u hu

lemma queue_start (fs : FileSystem) (clock : ℕ) : Queue (Daemon.start Key fs clock) [] where
  nodup := List.nodup_nil
  mem u := ⟨fun hu => (by cases hu), fun hu => (by cases hu)⟩
  last u hu := by cases hu

lemma pending_of_announces {locked : Bool} (h : announces p = some locked) :
    pending p = some locked := by
  cases p <;> first | exact h | cases h

lemma changes_pending (h : changes sh p = true) : pending p = none := by
  cases p <;> first | rfl | cases h

lemma Queue.turn (h : Queue d g) (hd : Daemon.step L cfg d (.run t env expired) = some d')
    (horder : (announces (d.pc t)).isSome = true → g.head? = some t) :
    Queue d' (if changes d.shared (d.pc t) then g ++ [t]
      else if (announces (d.pc t)).isSome then g.erase t else g) := by
  obtain ⟨p, hexec, hp, -⟩ := step_run hd
  have htold := exec_told hexec
  have hother : ∀ u, u ≠ t → pending (d'.pc u) = pending (d.pc u) := fun u hu => pending_other hd hu
  cases hc : changes d.shared (d.pc t) with
  -- The thread turns the lock state, so it has a broadcast to make, and queues up last.
  | true =>
    have hsession := htold.session
    rw [if_pos hc] at hsession
    have hnot : t ∉ g := by
      rw [h.mem, changes_pending hc]
      simp
    refine ⟨?_, fun u => ?_, fun u hu => ?_⟩
    · exact List.nodup_append.mpr ⟨h.nodup, List.nodup_singleton t, fun a ha b hb => by
        rw [List.mem_singleton.mp hb]
        rintro rfl
        exact hnot ha⟩
    · by_cases hut : u = t
      · subst hut
        simp [hp, hsession]
      · rw [hother u hut, ← h.mem]
        simp [hut]
    · obtain rfl : t = u := by simpa using hu
      rw [hp]
      exact hsession
  | false =>
    have hsession : d'.shared.session.isNone = d.shared.session.isNone := by
      have hs := htold.session
      rwa [if_neg (by simp [hc])] at hs
    cases ha : announces (d.pc t) with
    -- The thread broadcasts, which `horder` lets the first of the queue do only.
    | some locked =>
      obtain ⟨rest, rfl⟩ : ∃ rest, g = t :: rest := by
        have hhead := horder (by simp [ha])
        cases g with
        | nil => cases hhead
        | cons a rest => exact ⟨rest, by cases hhead; rfl⟩
      have hdone : pending p = none := by
        cases hpp : pending p with
        | none => rfl
        | some b =>
          rcases exec_changes hexec (by simp [hpp]) with hcontra | ⟨-, hcontra⟩
          · rw [hc] at hcontra
            cases hcontra
          · rw [ha] at hcontra
            cases hcontra
      have hnodup := List.nodup_cons.mp h.nodup
      simp only [Bool.false_eq_true, if_false, Option.isSome_some, if_true, List.erase_cons_head]
      refine ⟨hnodup.2, fun u => ?_, fun u hu => ?_⟩
      · by_cases hut : u = t
        · subst hut
          simp [hp, hdone, hnodup.1]
        · rw [hother u hut, ← h.mem]
          simp [hut]
      · have hut : u ≠ t := by
          rintro rfl
          exact hnodup.1 (List.mem_of_getLast? hu)
        rw [hother u hut, hsession]
        refine h.last u ?_
        cases rest with
        | nil => cases hu
        | cons a rest => simpa using hu
    | none =>
      have hsame : (pending p).isSome = (pending (d.pc t)).isSome := by
        cases hpp : pending (d.pc t) with
        | some b => rw [htold.pending ha b hpp]
        | none =>
          cases hpp' : pending p with
          | none => rfl
          | some b =>
            rcases exec_changes hexec (by simp [hpp']) with hcontra | ⟨hcontra, -⟩
            · rw [hc] at hcontra
              cases hcontra
            · rw [hpp] at hcontra
              cases hcontra
      simp only [Bool.false_eq_true, if_false, Option.isSome_none]
      refine ⟨h.nodup, fun u => ?_, fun u hu => ?_⟩
      · by_cases hut : u = t
        · subst hut
          rw [hp, hsame, h.mem]
        · rw [hother u hut, h.mem]
      · have hlast := h.last u hu
        rw [hsession]
        by_cases hut : u = t
        · subst hut
          rw [hp]
          exact htold.pending ha _ hlast
        · rw [hother u hut, hlast]

/-! ### The cache -/

/-- The cache will be right, unless a broadcast or the handshake is still to come. -/
structure Cached (d : State Key) (g : List ℕ) (x : Seat) : Prop where
  left : x.link = .none → (settled x).unlocked = false
  served : ∀ c, x.link = .served c → g ≠ [] ∨ (settled x).ready = false ∨
    (settled x).unlocked = d.shared.session.isSome

variable {x y : Seat}

lemma Cached.congr (h : Cached d g x) (hlink : y.link = x.link)
    (hready : (settled y).ready = (settled x).ready)
    (hunlocked : (settled y).unlocked = (settled x).unlocked)
    (hsession : d'.shared.session.isSome = d.shared.session.isSome) : Cached d' g y where
  left hl := by
    rw [hunlocked]
    exact h.left (hlink ▸ hl)
  served c hc := by
    rw [hready, hunlocked, hsession]
    exact h.served c (hlink ▸ hc)

lemma answered (z : Client) {id : ℕ} {r : Except Err Reply}
    (hcalm : z.pending id = some .handshake → accepted r = true) :
    (z.onMessage (.response id r)).ready = z.ready ∧
        (z.onMessage (.response id r)).unlocked = z.unlocked ∨
      ∃ v k, r = .ok v ∧ z.pending id = some k ∧ caches k = true ∧
        (z.onMessage (.response id r)).unlocked = !(locked? v).getD false := by
  simp only [Client.onMessage]
  cases hk : z.pending id with
  | none => exact .inl ⟨rfl, rfl⟩
  | some k =>
    cases k with
    | handshake =>
      obtain ⟨v, rfl, hc⟩ := callback_handshake (c := z.forget id) (hcalm hk)
      refine .inr ⟨v, .handshake, rfl, rfl, rfl, ?_⟩
      simp only [hc, Client.onState]
    | status =>
      cases r with
      | ok v => exact .inr ⟨v, .status, rfl, rfl, rfl, rfl⟩
      | error e => exact .inl ⟨rfl, rfl⟩
    | promptStatus | promptCreate | promptUnlock => left; cases r <;> exact ⟨rfl, rfl⟩
    | other => exact .inl ⟨rfl, rfl⟩

lemma spoken_cases (sh : Shared Key) (p : Pc Key) (origin : ℕ × ℕ) (c : ℕ)
    (ha : announces p = none) :
    spoken sh p origin c = [] ∨ spoken sh p origin c = [.note .unlockNeeded] ∨
      ∃ r, p = .respond r ∧ c = origin.1 ∧ spoken sh p origin c = [.response origin.2 r] := by
  cases p with
  | announceUnlocked | announceLocked => cases ha
  | signal op =>
    simp only [spoken]
    split
    · exact .inr (.inl rfl)
    · exact .inl rfl
  | respond r =>
    simp only [spoken]
    split
    · rename_i hc
      exact .inr (.inr ⟨r, rfl, hc, rfl⟩)
    · exact .inl rfl
  | _ => exact .inl rfl

lemma spoken_announces (sh : Shared Key) {p : Pc Key} (origin : ℕ × ℕ) {c : ℕ} {locked : Bool}
    (hc : c ∈ sh.clients) (ha : announces p = some locked) :
    spoken sh p origin c = [.note (.state locked)] := by
  cases p with
  | announceUnlocked k =>
    cases ha
    exact if_pos hc
  | announceLocked timer =>
    cases ha
    exact if_pos hc
  | _ => cases ha

/-- The queue after a section. -/
def queued (g : List ℕ) (d : State Key) (t : ℕ) : List ℕ :=
  if changes d.shared (d.pc t) then g ++ [t]
  else if (announces (d.pc t)).isSome then g.erase t else g

lemma served_turn (hx : Seated d x) (hq : Queue d g) (h : Cached d g x) {c : ℕ}
    (hlink : x.link = .served c) (hd : Daemon.step L cfg d (.run t env expired) = some d')
    (horder : (announces (d.pc t)).isSome = true → g.head? = some t)
    (hG : Believable d t x) :
    queued g d t ≠ [] ∨
      ((settled x).settle (spoken d.shared (d.pc t) (d.origin t) c)).ready = false ∨
      ((settled x).settle (spoken d.shared (d.pc t) (d.origin t) c)).unlocked
        = d'.shared.session.isSome := by
  obtain ⟨p, hexec, -, -⟩ := step_run hd
  have hclient : x.link.client = some c := by rw [hlink]; rfl
  cases hc : changes d.shared (d.pc t) with
  | true =>
    left
    simp [queued, hc]
  | false =>
    -- The state has not changed, so only an announcement can make the cache right or wrong.
    have hsession : d'.shared.session.isNone = d.shared.session.isNone := by
      have hs := (exec_told hexec).session
      rwa [if_neg (by simp [hc])] at hs
    have hopen : d'.shared.session.isSome = d.shared.session.isSome := by
      cases hs : d.shared.session <;> cases hs' : d'.shared.session <;> simp_all
    cases ha : announces (d.pc t) with
    | some locked =>
      rw [spoken_announces _ _ (hx.registered c hlink) ha]
      by_cases hrest : g.erase t = []
      · -- the last broadcast of the queue is right
        have hlast : g.getLast? = some t := by
          cases g with
          | nil => cases horder (by simp [ha])
          | cons a rest =>
            obtain rfl : a = t := by simpa using horder (by simp [ha])
            rw [List.erase_cons_head] at hrest
            rw [hrest]
            rfl
        have hright := hq.last t hlast
        rw [pending_of_announces ha] at hright
        right; right
        rw [hopen]
        simp only [settle_cons, settle_nil, Client.onMessage, Client.onState, Option.getD_some]
        rw [Option.some.inj hright]
        cases d.shared.session <;> rfl
      · left
        simpa [queued, hc, ha] using hrest
    | none =>
      have hkept : queued g d t = g := by simp [queued, hc, ha]
      rw [hkept, hopen]
      rcases spoken_cases d.shared (d.pc t) (d.origin t) c ha with hs | hs | ⟨r, hr, horigin, hs⟩
      · rw [hs]
        exact h.served c hlink
      · rw [hs]
        simp only [settle_cons, settle_nil, Client.onMessage, Client.onUnlockNeeded]
        split <;> exact h.served c hlink
      · rw [hs]
        simp only [settle_cons, settle_nil]
        have hcalm := calm_turn hx hclient t
        rw [hs] at hcalm
        have haccepted : (settled x).pending (d.origin t).2 = some .handshake → accepted r = true :=
          fun hk => hcalm _ r (List.mem_append_right _ List.mem_cons_self) (pending_settle hk)
        -- An answer is believed if it fills the cache, and `hG` keeps it from being stale.
        rcases answered (settled x) haccepted with
          ⟨hready, hunlocked⟩ | ⟨v, k, rfl, hk, hcaches, hun⟩
        · rw [hready, hunlocked]
          exact h.served c hlink
        · have hkept' := pending_settle hk
          simp only [Believable, hr, hkept'] at hG
          rcases hG (by rw [hclient, horigin]) hcaches with hright | ⟨u, hu⟩
          · right; right
            rw [hun, hright]
            cases d.shared.session <;> rfl
          · left
            have hmem := (hq.mem u).mpr hu
            rintro rfl
            cases hmem

lemma Cached.turn (hx : Seated d x) (hq : Queue d g) (h : Cached d g x)
    (hd : Daemon.step L cfg d (.run t env expired) = some d')
    (horder : (announces (d.pc t)).isSome = true → g.head? = some t)
    (hG : Believable d t x) :
    Cached d' (queued g d t) (x.hear d.shared.channel d'.shared.channel) := by
  rw [hear_turn hd]
  refine ⟨fun hl => ?_, fun c hc => ?_⟩
  · have hnone : x.link.client = none := by
      rw [show x.link = .none from hl]
      rfl
    rw [settled_append, hnone]
    exact h.left hl
  · have hclient : x.link.client = some c := by
      rw [show x.link = .served c from hc]
      rfl
    rw [settled_append, hclient]
    exact served_turn hx hq h hc hd horder hG

/-! ### The system moves -/

structure Inv (e : ℕ) (g : List ℕ) (s : System Key) : Prop where
  wired : Wired s
  stopped : s.running = false → g = []
  queue : Queue s.agent g
  cached : Cached s.agent g (s.seat e)

lemma cached_of_link (hleft : x.link ≠ .none) (hserved : ∀ c, x.link ≠ .served c) :
    Cached d g x where
  left hl := absurd hl hleft
  served c hc := absurd hc (hserved c)

lemma Queue.agent {a : Action} (h : Queue d g) (hd : Daemon.step L cfg d a = some d')
    (ha : ∀ t env expired, a ≠ .run t env expired) :
    Queue d' g ∧ d'.shared.session.isSome = d.shared.session.isSome := by
  have hq := step_quiet hd ha
  exact ⟨h.quiet hq.world fun u => pending_moved (hq.moved u),
    by simp only [Shared.session, hq.world]⟩

lemma cached_deliver {l : Line} {wire : List Line} (hw : x.wire = l :: wire)
    (h : Cached d g x) : Cached d g { x with client := x.client.onMessage l, wire } := by
  have hsettle : settled { x with client := x.client.onMessage l, wire } = settled x := by
    simp only [settled, hw, settle_cons]
  exact h.congr rfl (by rw [hsettle]) (by rw [hsettle]) rfl

lemma cached_send (hx : Seated d x) {client : Client} {m : Sent}
    (hsend : x.client.send = some (client, m)) (h : Cached d g x) :
    Cached d g { x with client, outgoing := x.outgoing ++ [m] } := by
  obtain ⟨w, rest, hw, -, -, rfl, rfl⟩ := send_eq_some hsend
  have hcore : SameCore (· ≠ x.client.idSeq + 1) x.client
      (({ x.client with waiters := rest } : Client).register (x.client.idSeq + 1) w.callback) :=
    ⟨rfl, rfl, fun id hid => Function.update_of_ne hid _ _⟩
  have hsettled := hcore.settle (fun id r hr => hx.fresh hr) hx.calm
  exact h.congr rfl hsettled.ready hsettled.unlocked rfl

lemma cached_user (hx : Seated d x) {i : Input} {client : Client}
    (hinput : x.client.input i = some client) (h : Cached d g x) :
    Cached d g { x with client } := by
  obtain ⟨-, -, hready, hunlocked, hpending⟩ := input_core hinput
  have hcore : SameCore (fun _ => True) x.client client :=
    ⟨hready, hunlocked, fun id _ => by rw [hpending]⟩
  have hsettled := hcore.settle (fun _ _ _ => trivial) hx.calm
  exact h.congr rfl hsettled.ready hsettled.unlocked rfl

lemma Cached.withSeat {e b : ℕ} (h : Cached s.agent g (s.seat e))
    (hy : b = e → Cached s.agent g y) : Cached s.agent g ((s.withSeat b y).seat e) := by
  rw [seat_withSeat]
  split
  · rename_i heb
    exact hy heb.symm
  · exact h

lemma Cached.leave {e b : ℕ} {client : Client} {wire : List Line}
    (h : Cached s.agent g (s.seat e)) (hy : b = e → (client.settle wire).unlocked = false) :
    Cached s.agent g ((s.leave b client wire).seat e) := by
  by_cases heb : e = b
  · subst heb
    simp only [System.leave, Function.update_self]
    exact ⟨fun _ => hy rfl, fun c hc => by cases hc⟩
  · simp only [System.leave, Function.update_of_ne heb]
    exact h

lemma cached_orphan (h : Cached d g x) : Cached d' [] x.orphan where
  left hl := by
    have hx : x.link = .none := by
      by_contra hne
      simp only [Seat.orphan, if_neg hne] at hl
      cases hl
    exact h.left hx
  served c hc := by
    simp only [Seat.orphan] at hc
    split at hc <;> cases hc

lemma awaiting_quiet {a : Action} (ha : ∀ t env expired, a ≠ .run t env expired) :
    awaiting g s (.agent a) s' = g := by
  cases a with
  | run t env expired => exact absurd rfl (ha t env expired)
  | _ => rfl

lemma stopped_took {ev : Event} (h : s.running = false → g = []) (hs : Took L cfg s ev s')
    (hstop : s'.running = false) : awaiting g s ev s' = [] := by
  cases hs with
  | turn hrun | quiet hrun | connect hrun | accept hrun | read hrun | hangup hrun =>
    have hrun' : s.running = false := hstop
    rw [hrun] at hrun'
    cases hrun'
  | exit hrun => rfl
  | spawn hrun => cases hstop
  | deliver | refused | cut | eof | stop | send | user => exact h hstop

lemma queue_took {ev : Event} (hstopped : s.running = false → g = []) (h : Queue s.agent g)
    (horder : InOrder (g, s) ev) (hs : Took L cfg s ev s') :
    Queue s'.agent (awaiting g s ev s') := by
  cases hs with
  | turn hrun hd => exact h.turn hd horder
  | quiet hrun ha hf hd =>
    rw [awaiting_quiet ha]
    exact (h.agent hd ha).1
  | exit hrun => exact queue_start _ _
  | spawn hrun =>
    rw [show awaiting g s (.spawn _) _ = [] from hstopped hrun]
    exact queue_start _ _
  | accept hrun hlink hd => exact (h.agent hd (by simp)).1
  | read hrun hlink hout hd => exact (h.agent hd (by simp)).1
  | hangup hrun hlink hd => exact (h.agent hd (by simp)).1
  | connect | deliver | refused | cut | eof | stop | send | user => exact h

lemma cached_took {e : ℕ} {ev : Event} (h : Inv e g s) (horder : InOrder (g, s) ev)
    (hG : Fresh e s ev) (hs : Took L cfg s ev s') :
    Cached s'.agent (awaiting g s ev s') (s'.seat e) := by
  have hx := h.wired.seated e
  cases hs with
  | turn hrun hd => exact h.cached.turn hx h.queue hd horder hG
  | quiet hrun ha hf hd =>
    rw [awaiting_quiet ha]
    exact h.cached.congr rfl rfl rfl (h.queue.agent hd ha).2
  -- A process that exits leaves the cache of every editor to its `eof`.
  | exit hrun => exact cached_orphan h.cached
  | spawn hrun =>
    refine ⟨h.cached.left, fun c hc => ?_⟩
    rcases h.wired.stopped hrun e with hl | hl <;> rw [hl] at hc <;> cases hc
  | connect hrun hpipe =>
    exact h.cached.withSeat fun _ => cached_of_link (by simp) (by simp)
  | accept hrun hlink hd =>
    rename_i b d
    have hsession := (h.queue.agent hd (by simp)).2
    by_cases heb : e = b
    · subst heb
      simp only [System.withSeat, Function.update_self]
      -- Until the handshake has been answered the cache is not believed.
      exact ⟨fun hl => (by cases hl), fun c hc => .inr (.inl (hx.queued hlink).1)⟩
    · simp only [System.withSeat, Function.update_of_ne heb]
      exact h.cached.congr rfl rfl rfl hsession
  | read hrun hlink hout hd =>
    rename_i b t c m rest d
    have hsession := (h.queue.agent hd (by simp)).2
    by_cases heb : e = b
    · subst heb
      simp only [System.withSeat, Function.update_self]
      exact h.cached.congr rfl rfl rfl hsession
    · simp only [System.withSeat, Function.update_of_ne heb]
      exact h.cached.congr rfl rfl rfl hsession
  | hangup hrun hlink hd =>
    rename_i b c d
    have hsession := (h.queue.agent hd (by simp)).2
    by_cases heb : e = b
    · subst heb
      simp only [System.withSeat, Function.update_self]
      exact cached_of_link (by simp) (by simp)
    · simp only [System.withSeat, Function.update_of_ne heb]
      exact h.cached.congr rfl rfl rfl hsession
  | deliver hwire hopen =>
    refine h.cached.withSeat fun heb => ?_
    subst heb
    exact cached_deliver hwire h.cached
  | refused hwire hpipe hclosed =>
    have hkept := pipe_onMessage ((h.wired.seated _).calm_head hwire)
    rw [hclosed, hpipe] at hkept
    cases hkept
  | cut hlink =>
    exact h.cached.withSeat fun _ => cached_of_link (by simp [hlink]) (by simp [hlink])
  -- `teardown` empties the cache, and `hG` has the vault locked by then.
  | eof hwire hlink => exact h.cached.leave fun heb => by subst heb; exact hG rfl
  | stop => exact h.cached.leave fun heb => by subst heb; exact hG rfl
  | send hsend =>
    refine h.cached.withSeat fun heb => ?_
    subst heb
    exact cached_send (h.wired.seated _) hsend h.cached
  | user hinput =>
    refine h.cached.withSeat fun heb => ?_
    subst heb
    exact cached_user (h.wired.seated _) hinput h.cached

theorem inv_step {e : ℕ} {ev : Event} (h : Inv e g s) (horder : InOrder (g, s) ev)
    (hG : Fresh e s ev) (hstep : step L cfg s ev = some s') :
    Inv e (awaiting g s ev s') s' := by
  have hs := took_of_step hstep
  exact ⟨h.wired.took hs, stopped_took h.stopped hs, queue_took h.stopped h.queue horder hs,
    cached_took h horder hG hs⟩

lemma inv_start (e : ℕ) (fs : FileSystem) (clock : ℕ) : Inv e [] (start Key fs clock) where
  wired := wired_start fs clock
  stopped _ := rfl
  queue := queue_start fs clock
  cached := ⟨fun _ => rfl, fun c hc => by cases hc⟩

lemma converged_of_inv {e : ℕ} (h : Inv e g s) : Converged e s := by
  intro hidle hstill
  have hx := h.wired.seated e
  obtain ⟨hwire, hout, -, hlink⟩ := hstill
  have hsettled : settled (s.seat e) = (s.seat e).client := by
    simp only [settled, hwire, settle_nil]
  rcases hlink with hl | ⟨c, hc⟩
  · have hpipe := hx.closed.mp hl
    have hunlocked := h.cached.left hl
    rw [hsettled] at hunlocked
    simp [Client.isUnlocked, Client.isRunning, hunlocked, hpipe]
  · have hready : (s.seat e).client.ready = true := by
      rcases hx.shaking c hc with hr | ⟨m, hm, -⟩ | ⟨t, ht, -⟩
      · rwa [hwire, settle_nil] at hr
      · rw [hout] at hm
        cases hm
      · have hserves := ht.1
        rw [isIdle_eq (hidle t)] at hserves
        cases hserves
    have hpipe : (s.seat e).client.pipe = true := by
      cases hp : (s.seat e).client.pipe with
      | true => rfl
      | false =>
        have hl := hx.closed.mpr hp
        rw [hc] at hl
        cases hl
    have hempty : g = [] := by
      cases g with
      | nil => rfl
      | cons t rest =>
        have hp := (h.queue.mem t).mp List.mem_cons_self
        rw [isIdle_eq (hidle t)] at hp
        cases hp
    have hcached := h.cached.served c hc
    rw [hsettled] at hcached
    rcases hcached with hne | hr | hright
    · exact absurd hempty hne
    · rw [hready] at hr
      cases hr
    · simp [Client.isUnlocked, Client.isRunning, hready, hpipe, hright]

/-- In a run with broadcasts in order, where every answer the editor believes is right by the
time it is sent, and no connection ends with the cache unlocked, the cache converges. -/
theorem converged_of_fresh (L : Packages Key) (cfg : Config) (fs : FileSystem) (clock e : ℕ)
    (es : List Event) (s : System Key)
    (horder : Along (track (step L cfg) awaiting) InOrder ([], start Key fs clock) es)
    (hguard : Along (step L cfg) (Fresh e) (start Key fs clock) es)
    (hrun : run (step L cfg) (start Key fs clock) es = some s) : Converged e s := by
  have hboth := horder.and (along_track [] hguard)
  have hinv : Inv e (history (step L cfg) awaiting [] (start Key fs clock) es) s := by
    refine run_track_inv (fun g s ev s' h hG hs => ?_) (inv_start e fs clock) hboth hrun
    exact inv_step h hG.1 hG.2 hs
  exact converged_of_inv hinv

/-! ### A status that is out of date -/

/-- The user unlocks the vault. -/
def unlocked : List Event :=
  greeted 0 0 ++
    asked 0 1 (.call "vault.unlock" (.obj [("password", .str "pw")])) 8 ++ [.deliver 0, .deliver 0]

/-- A status request is served up to its answer, the vault is locked, and then the answer is
sent. -/
def staleStatus : List Event :=
  unlocked ++ asked 0 2 .status 6 ++ asked 0 3 (.call "vault.lock" (.obj [])) 4 ++ turns 2 1 ++
    [.deliver 0, .deliver 0, .deliver 0]

theorem not_cacheConverges : ¬ CacheConverges := by
  intro h
  have hend : (run sampleStep sampleStart staleStatus).map (fun s =>
      ((s.seat 0).client.isUnlocked, s.agent.shared.session.isSome, (s.seat 0).link,
        (s.seat 0).wire.length + (s.seat 0).outgoing.length + (s.seat 0).client.waiters.length,
        [0, 1, 2, 3].all fun u => (s.agent.pc u).isIdle)) =
      some (true, false, .served 1, 0, true) := by
    decide +kernel
  have horder : Along (track sampleStep awaiting) InOrder ([], sampleStart) staleStatus := by
    decide +kernel
  obtain ⟨s, hrun, hs⟩ := Option.map_eq_some_iff.mp hend
  simp only [Prod.mk.injEq, Nat.add_eq_zero_iff, List.length_eq_zero_iff] at hs
  obtain ⟨hunlocked, hlocked, hlink, ⟨⟨hwire, hout⟩, hwaiters⟩, hidle⟩ := hs
  have hquiet : ∀ u, (s.agent.pc u).isIdle = true := by
    intro u
    by_cases hu : 4 ≤ u
    · rw [idle_of_threadsBelow hrun (by decide +kernel) hu rfl]
      rfl
    · exact List.all_eq_true.mp hidle u (by simp; omega)
  have hright := h Sample.Key Sample.packages Sample.config _ 0 0 staleStatus s horder hrun hquiet
    ⟨hwire, hout, fun _ => hwaiters, .inr ⟨1, hlink⟩⟩
  have hopen := (hright.mp hunlocked).2
  rw [hlocked] at hopen
  cases hopen

/-- Every answer that is believed is right by itself. -/
def Timely (e : ℕ) (s : System Key) : Event → Prop
  | .agent (.run t _ _) =>
    match s.agent.pc t, (s.seat e).client.pending (s.agent.origin t).2 with
    | .respond (.ok r), some k =>
      caches k = true → (locked? r).getD false = s.agent.shared.session.isNone
    | _, _ => True
  | .eof b => b = e → (s.seat e).client.unlocked = false
  | .stop b n => b = e →
      ((s.seat e).client.teardown.settle ((s.seat e).wire.take n)).unlocked = false
  | _ => True

instance (e : ℕ) (s : System Key) (ev : Event) : Decidable (Timely e s ev) := by
  unfold Timely
  split
  · split <;> infer_instance
  all_goals infer_instance

lemma fresh_of_timely {e : ℕ} {ev : Event} (h : Timely e s ev) : Fresh e s ev := by
  cases ev with
  | agent a =>
    cases a with
    | run t env expired =>
      simp only [Fresh, Believable]
      split
      · rename_i r k hr hk
        simp only [Timely, hr, hk] at h
        exact fun _ hcaches => .inl (h hcaches)
      · trivial
    | _ => trivial
  | eof b => exact h
  | stop b n => exact h
  | _ => trivial

/-- The same requests one after the other, and the editor disconnects. -/
def statusThenLock : List Event :=
  unlocked ++ asked 0 2 .status 7 ++ asked 0 3 (.call "vault.lock" (.obj [])) 4 ++
    [.deliver 0, .deliver 0, .deliver 0, .stop 0 0]

theorem converged_statusThenLock : ∃ s, run sampleStep sampleStart statusThenLock = some s ∧
    Converged 0 s := by
  obtain ⟨s, hrun⟩ : ∃ s, run sampleStep sampleStart statusThenLock = some s :=
    Option.isSome_iff_exists.mp (by decide +kernel)
  have htimely : Along sampleStep (Timely 0) sampleStart statusThenLock := by decide +kernel
  exact ⟨s, hrun, converged_of_fresh Sample.packages Sample.config _ 0 0 statusThenLock s
    (by decide +kernel) (htimely.mono fun _ _ => fresh_of_timely) hrun⟩

end LvimKeyring.LockCache
