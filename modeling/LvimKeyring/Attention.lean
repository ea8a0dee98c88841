import LvimKeyring.Cancel
import LvimKeyring.Wiring

/-!
The unlock prompt of an editor, seen from the agent.

A prompt stays open until its unlock succeeds or it is given up, and giving it up leaves a
cancel to be sent. What is still on the wire counts as handled.
-/

namespace LvimKeyring.Editors

open Rpc Crypto Vault Server Daemon Editor Transition

/-! ### The client -/

/-- The callbacks that close the prompt on success. -/
def submits : Callback → Bool
  | .promptCreate | .promptUnlock => true
  | _ => false

/-- The request is to cancel the calls that are parked. -/
def Cancelling (w : Request) : Prop := w.method = "vault.unlock_cancel"

variable {c c' : Client} {l : Line} {wire : List Line} {q : ℕ → Prop} {lost : Request → Prop}

/-- The second client goes the way of the first, with all its requests but the lost ones. -/
structure Follows (q : ℕ → Prop) (lost : Request → Prop) (c c' : Client) : Prop
    extends SameCore q c c' where
  prompting : c'.prompting = c.prompting
  waiters : ∀ w ∈ c.waiters, w ∈ c'.waiters ∨ lost w

lemma waiters_snoc {ws ws' : List Request} {w₀ : Request}
    (h : ∀ w ∈ ws, w ∈ ws' ∨ lost w) : ∀ w ∈ ws ++ [w₀], w ∈ ws' ++ [w₀] ∨ lost w := by
  intro w hw
  rcases List.mem_append.mp hw with hold | hnew
  · rcases h w hold with hkept | hlost
    · exact .inl (List.mem_append_left _ hkept)
    · exact .inr hlost
  · exact .inl (List.mem_append_right _ hnew)

lemma Follows.onUnlockNeeded (h : Follows q lost c c') :
    Follows q lost c.onUnlockNeeded c'.onUnlockNeeded := by
  have hcore := h.toSameCore.onUnlockNeeded
  refine ⟨hcore, ?_, ?_⟩ <;> unfold Client.onUnlockNeeded <;> rw [h.prompting, h.unlocked]
  · split
    · exact h.prompting
    · rfl
  · split
    · exact h.waiters
    · exact waiters_snoc h.waiters

lemma Follows.callback (h : Follows q lost c c') {r : Except Err Reply} {k : Callback}
    (hk : k = .handshake → accepted r = true) :
    Follows q lost (c.callback r k) (c'.callback r k) := by
  have hcore := h.toSameCore.callback hk
  cases k with
  | handshake =>
    obtain ⟨v, hv, hc⟩ := callback_handshake (c := c) (hk rfl)
    obtain ⟨v', hv', hc'⟩ := callback_handshake (c := c') (hk rfl)
    refine ⟨hcore, ?_, ?_⟩
    · rw [hc, hc']
      exact h.prompting
    · rw [hc, hc']
      exact h.waiters
  | status => cases r <;> exact ⟨hcore, h.prompting, h.waiters⟩
  | promptStatus | promptCreate =>
    cases r with
    | ok v => exact ⟨hcore, rfl, h.waiters⟩
    | error e => exact ⟨hcore, rfl, waiters_snoc h.waiters⟩
  | promptUnlock => cases r <;> exact ⟨hcore, rfl, h.waiters⟩
  | other => exact h

lemma Follows.onMessage (h : Follows q lost c c')
    (hl : ∀ id r, l = .response id r → q id ∧
      (c.pending id = some .handshake → accepted r = true)) :
    Follows q lost (c.onMessage l) (c'.onMessage l) := by
  cases l with
  | note n =>
    cases n with
    | state locked => exact ⟨h.toSameCore.onMessage hl, h.prompting, h.waiters⟩
    | unlockNeeded => exact h.onUnlockNeeded
  | response id r =>
    obtain ⟨hq, haccepted⟩ := hl id r rfl
    simp only [Client.onMessage, h.pending id hq]
    cases hk : c.pending id with
    | none => exact h
    | some k =>
      have hforget : Follows q lost (c.forget id) (c'.forget id) :=
        ⟨h.toSameCore.forget id, h.prompting, h.waiters⟩
      refine hforget.callback fun hkey => haccepted ?_
      rw [hk, hkey]

lemma Follows.settle (h : Follows q lost c c')
    (hq : ∀ id r, .response id r ∈ wire → q id) (hcalm : Calm c wire) :
    Follows q lost (c.settle wire) (c'.settle wire) :=
  settle_related (fun hfollows hl => hfollows.onMessage hl) h hq hcalm

lemma waiters_onMessage
    (hl : ∀ id r, l = .response id r → c.pending id = some .handshake → accepted r = true)
    {w : Request} (hw : w ∈ c.waiters) : w ∈ (c.onMessage l).waiters := by
  cases l with
  | note n =>
    cases n with
    | state locked => exact hw
    | unlockNeeded =>
      simp only [Client.onMessage, Client.onUnlockNeeded]
      split
      · exact hw
      · exact List.mem_append_left _ hw
  | response id r =>
    simp only [Client.onMessage]
    split
    · exact hw
    · rename_i k hk
      cases k with
      | handshake =>
        obtain ⟨v, -, hc⟩ := callback_handshake (c := c.forget id) (hl id r rfl hk)
        rw [hc]
        exact hw
      | promptStatus | promptCreate =>
        cases r with
        | ok v => exact hw
        | error e => exact List.mem_append_left _ hw
      | status | promptUnlock => cases r <;> exact hw
      | other => exact hw

lemma waiters_settle (hcalm : Calm c wire) {w : Request} (hw : w ∈ c.waiters) :
    w ∈ (c.settle wire).waiters := by
  induction wire generalizing c with
  | nil => exact hw
  | cons l wire ih =>
    refine ih hcalm.tail (waiters_onMessage (fun id r hl => ?_) hw)
    subst hl
    exact hcalm id r List.mem_cons_self

/-- What a line does to an open prompt. -/
lemma prompting_onMessage
    (hl : ∀ id r, l = .response id r → c.pending id = some .handshake → accepted r = true)
    (h : c.prompting = true) :
    (c.onMessage l).prompting = true ∨ Client.cancel ∈ (c.onMessage l).waiters ∨
      ∃ id v k, l = .response id (.ok v) ∧ c.pending id = some k ∧ submits k = true := by
  cases l with
  | note n =>
    left
    cases n with
    | state locked => exact h
    | unlockNeeded =>
      simp only [Client.onMessage, Client.onUnlockNeeded, h]
      exact h
  | response id r =>
    simp only [Client.onMessage]
    cases hk : c.pending id with
    | none => exact .inl h
    | some k =>
      cases k with
      | handshake =>
        obtain ⟨v, -, hc⟩ := callback_handshake (c := c.forget id) (hl id r rfl hk)
        simp only [hc]
        exact .inl h
      | status => cases r <;> exact .inl h
      | promptStatus =>
        cases r with
        | ok v => exact .inl rfl
        | error e => exact .inr (.inl (List.mem_append_right _ List.mem_cons_self))
      | promptCreate =>
        cases r with
        | ok v => exact .inr (.inr ⟨id, v, .promptCreate, rfl, hk, rfl⟩)
        | error e => exact .inr (.inl (List.mem_append_right _ List.mem_cons_self))
      | promptUnlock =>
        cases r with
        | ok v => exact .inr (.inr ⟨id, v, .promptUnlock, rfl, hk, rfl⟩)
        | error e => exact .inl rfl
      | other => exact .inl h

lemma prompting_onUnlockNeeded (h : c.prompting = true ∨ c.unlocked = false) :
    c.onUnlockNeeded.prompting = true := by
  unfold Client.onUnlockNeeded
  split
  · rename_i hdropped
    rcases h with hopen | hlocked
    · exact hopen
    · simpa [hlocked] using hdropped
  · rfl

/-! ### The connection -/

variable {Key : Type} {L : Packages Key} {cfg : Config} {env : Env} {expired : Bool} {t : ℕ}
variable {d d' : State Key} {x : Seat}

/-- No thread is past its success with an answer that will close the prompt. -/
def Free (d : State Key) (x : Seat) (c : ℕ) : Prop :=
  ∀ t, Attending c d t → past (d.pc t) = true → ∀ k,
    (settled x).pending (d.origin t).2 = some k → submits k = false

/-- The prompt is open, and nothing on its way closes it. -/
def Prompts (d : State Key) (x : Seat) : Prop :=
  ∃ c, x.link = .served c ∧ (settled x).prompting = true ∧ Free d x c

/-- A cancel is to be sent, or is on its way to the agent. -/
def Cancels (x : Seat) : Prop :=
  ∃ c, x.link = .served c ∧ ((∃ w ∈ (settled x).waiters, Cancelling w) ∨
    ∃ m ∈ x.outgoing, m.method = "vault.unlock_cancel")

/-- The editor will answer for the calls that are parked. -/
def Heeds (d : State Key) (x : Seat) : Prop := Prompts d x ∨ Cancels x

/-- A signal sent now would find the prompt open, or open it. -/
def Listens (d : State Key) (x : Seat) : Prop :=
  ∃ c, x.link = .served c ∧ ((settled x).prompting = true ∨ (settled x).unlocked = false) ∧
    Free d x c

lemma past_rouse (p : Pc Key) : past (rouse p) = past p := by
  cases p <;> rfl

lemma submitting_of_submits {k : Callback} (hk : submits k = true) {p : Pc Key}
    (h : attends k p = true) : submitting p = true := by
  cases k <;> first | exact h | cases hk

lemma Free.of_same {c : ℕ} (h : Free d x c) (hsame : SameFor c d d') : Free d' x c := by
  intro u hu hpast k hk
  have hback := hsame.back u hu
  rw [hsame.origin u hback] at hk
  refine h u hback ?_ k hk
  rcases hsame.pc u hback with hpc | hpc <;> rw [hpc] at hpast
  · exact hpast
  · rwa [past_rouse] at hpast

lemma Heeds.of_same (h : Heeds d x) (hsame : ∀ c, x.link = .served c → SameFor c d d') :
    Heeds d' x := by
  rcases h with ⟨c, hc, hprompting, hfree⟩ | hcancels
  · exact .inl ⟨c, hc, hprompting, hfree.of_same (hsame c hc)⟩
  · exact .inr hcancels

lemma settled_hear {c : ℕ} (hc : x.link = .served c)
    (hd : Daemon.step L cfg d (.run t env expired) = some d') :
    (x.hear d.shared.channel d'.shared.channel).link = .served c ∧
      (x.hear d.shared.channel d'.shared.channel).outgoing = x.outgoing ∧
      settled (x.hear d.shared.channel d'.shared.channel)
        = (settled x).settle (spoken d.shared (d.pc t) (d.origin t) c) := by
  have hclient : x.link.client = some c := by
    rw [hc]
    rfl
  rw [hear_turn hd, settled_append, hclient]
  exact ⟨hc, rfl, rfl⟩

/-- A prompt that nothing would close is safe from a turn, unless that unlocks the vault. -/
lemma Free.turn {c : ℕ} (hx : Seated d x) (hc : x.link = .served c) (h : Free d x c)
    (hd : Daemon.step L cfg d (.run t env expired) = some d') :
    Free d' (x.hear d.shared.channel d'.shared.channel) c ∨ d'.shared.session.isSome = true := by
  obtain ⟨p, hexec, hp, hothers⟩ := step_run hd
  by_cases hinstall : ∃ s k, d.pc t = .install s k
  · obtain ⟨s, k, hpc⟩ := hinstall
    rw [hpc] at hexec
    simp only [Pc.exec, Option.some.injEq, Prod.mk.injEq] at hexec
    right
    rw [← hexec.1]
    rfl
  left
  intro u hu hpast k hk
  rw [(settled_hear hc hd).2.2, origin_run hd] at hk
  have hback := (turn_threads hd hu).1
  have hkept := pending_settle hk
  by_cases hut : u = t
  · subst hut
    cases hk' : submits k with
    | false => rfl
    | true =>
      have hclient : x.link.client = some c := by
        rw [hc]
        rfl
      have hsub := submitting_of_submits hk'
        (hx.attended c hclient u hback k (pending_settle hkept))
      rw [hp] at hpast
      rcases (exec_serving hexec).passes hsub hpast with hpassed | hcontra
      · rw [← hk', h u hback hpassed k hkept]
      · exact absurd hcontra hinstall
  · refine h u hback ?_ k hkept
    rw [hothers u hut] at hpast
    split at hpast
    · rwa [past_rouse] at hpast
    · exact hpast

lemma calm_spoken {c : ℕ} (hx : Seated d x) (hc : x.link = .served c) (t : ℕ) :
    Calm (settled x) (spoken d.shared (d.pc t) (d.origin t) c) := by
  intro id r hr hk
  have hclient : x.link.client = some c := by
    rw [hc]
    rfl
  exact calm_turn hx hclient t id r (List.mem_append_right _ hr) (pending_settle hk)

lemma spoken_single (sh : Shared Key) (p : Pc Key) (origin : ℕ × ℕ) (c : ℕ) :
    spoken sh p origin c = [] ∨ ∃ l, spoken sh p origin c = [l] := by
  cases p with
  | announceUnlocked | announceLocked | signal | respond =>
    simp only [spoken]
    split
    · exact .inr ⟨_, rfl⟩
    · exact .inl rfl
  | _ => exact .inl rfl

lemma Cancels.turn (hx : Seated d x) (h : Cancels x)
    (hd : Daemon.step L cfg d (.run t env expired) = some d') :
    Cancels (x.hear d.shared.channel d'.shared.channel) := by
  obtain ⟨c, hc, hcancels⟩ := h
  obtain ⟨hlink, hout, hsettled⟩ := settled_hear hc hd
  refine ⟨c, hlink, ?_⟩
  rw [hout, hsettled]
  rcases hcancels with ⟨w, hw, hcancel⟩ | hsent
  · exact .inl ⟨w, waiters_settle (calm_spoken hx hc t) hw, hcancel⟩
  · exact .inr hsent

lemma Prompts.turn (hx : Seated d x) (h : Prompts d x)
    (hd : Daemon.step L cfg d (.run t env expired) = some d') :
    Heeds d' (x.hear d.shared.channel d'.shared.channel) ∨ d'.shared.session.isSome = true := by
  obtain ⟨c, hc, hprompting, hfree⟩ := h
  obtain ⟨hlink, hout, hsettled⟩ := settled_hear hc hd
  rcases hfree.turn hx hc hd with hfree' | hopen
  swap
  · exact .inr hopen
  left
  have hcalm := calm_spoken hx hc t
  rcases spoken_single d.shared (d.pc t) (d.origin t) c with hs | ⟨l, hs⟩ <;>
    rw [hs] at hsettled hcalm
  · exact .inl ⟨c, hlink, by rw [hsettled]; exact hprompting, hfree'⟩
  rw [settle_cons, settle_nil] at hsettled
  have hl : ∀ id r, l = .response id r → (settled x).pending id = some .handshake →
      accepted r = true := by
    rintro id r rfl
    exact hcalm id r List.mem_cons_self
  rcases prompting_onMessage hl hprompting with hkept | hgiven | ⟨id, v, k, rfl, hk, hsub⟩
  · exact .inl ⟨c, hlink, by rw [hsettled]; exact hkept, hfree'⟩
  · exact .inr ⟨c, hlink, .inl ⟨Client.cancel, by rw [hsettled]; exact hgiven, rfl⟩⟩
  · -- an answer that closes the prompt would have been on its way
    obtain ⟨hp, horigin⟩ := response_spoken (hs ▸ List.mem_cons_self)
    have hat : Attending c d t := ⟨by rw [hp]; rfl, by rw [horigin]⟩
    have hnot := hfree t hat (by rw [hp]; rfl) k (by rw [horigin]; exact hk)
    rw [hsub] at hnot
    cases hnot

lemma Heeds.turn (hx : Seated d x) (h : Heeds d x)
    (hd : Daemon.step L cfg d (.run t env expired) = some d') :
    Heeds d' (x.hear d.shared.channel d'.shared.channel) ∨ d'.shared.session.isSome = true := by
  rcases h with hprompts | hcancels
  · exact hprompts.turn hx hd
  · exact .inl (.inr (hcancels.turn hx hd))

lemma Listens.signal (hx : Seated d x) (h : Listens d x) {op : Op} (hp : d.pc t = .signal op)
    (hd : Daemon.step L cfg d (.run t env expired) = some d') :
    Heeds d' (x.hear d.shared.channel d'.shared.channel) ∨ d'.shared.session.isSome = true := by
  obtain ⟨c, hc, hlistens, hfree⟩ := h
  obtain ⟨hlink, hout, hsettled⟩ := settled_hear hc hd
  rcases hfree.turn hx hc hd with hfree' | hopen
  swap
  · exact .inr hopen
  have hspoken : spoken d.shared (d.pc t) (d.origin t) c = [.note .unlockNeeded] := by
    rw [hp]
    exact if_pos (hx.registered c hc)
  rw [hspoken, settle_cons, settle_nil] at hsettled
  refine .inl (.inl ⟨c, hlink, ?_, hfree'⟩)
  rw [hsettled]
  exact prompting_onUnlockNeeded hlistens

/-! ### The editor's own steps -/

lemma Heeds.deliver {l : Line} {wire : List Line} (hw : x.wire = l :: wire) (h : Heeds d x) :
    Heeds d { x with client := x.client.onMessage l, wire } := by
  have hsettled : settled { x with client := x.client.onMessage l, wire } = settled x := by
    simp only [settled, hw, settle_cons]
  rcases h with ⟨c, hc, hprompting, hfree⟩ | ⟨c, hc, hcancels⟩
  · exact .inl ⟨c, hc, by rwa [hsettled], by rwa [Free, hsettled]⟩
  · exact .inr ⟨c, hc, by rwa [hsettled]⟩

lemma Prompts.follow {client : Client} (out : List Sent) (hx : Seated d x) (h : Prompts d x)
    (hfollows : Follows (· ≠ x.client.idSeq + 1) lost (settled x)
      (client.settle x.wire)) :
    Prompts d { x with client, outgoing := out } := by
  obtain ⟨c, hc, hprompting, hfree⟩ := h
  have hclient : x.link.client = some c := by
    rw [hc]
    rfl
  refine ⟨c, hc, hfollows.prompting.trans hprompting, fun u hu hpast k hk => ?_⟩
  have hid := hx.served c hclient u hu
  have hsame := hfollows.pending (d.origin u).2 (by omega)
  exact hfree u hu hpast k (hsame.symm.trans hk)

lemma Heeds.send (hx : Seated d x) {client : Client} {m : Sent}
    (hsend : x.client.send = some (client, m)) (h : Heeds d x) :
    Heeds d { x with client, outgoing := x.outgoing ++ [m] } := by
  obtain ⟨w, rest, hw, -, -, rfl, rfl⟩ := send_eq_some hsend
  have hfollows : Follows (· ≠ x.client.idSeq + 1) (· = w) x.client
      (({ x.client with waiters := rest } : Client).register (x.client.idSeq + 1) w.callback) := by
    refine ⟨⟨rfl, rfl, fun id hid => Function.update_of_ne hid _ _⟩, rfl, fun w' hw' => ?_⟩
    rw [hw] at hw'
    rcases List.mem_cons.mp hw' with heq | hin
    · exact .inr heq
    · exact .inl hin
  have hsettled := hfollows.settle (fun id r hr => hx.fresh hr) hx.calm
  rcases h with hprompts | ⟨c, hc, ⟨w', hw', hcancel⟩ | ⟨m, hm, hcancel⟩⟩
  · exact .inl (hprompts.follow _ hx hsettled)
  · rcases hsettled.waiters w' hw' with hkept | rfl
    · exact .inr ⟨c, hc, .inl ⟨w', hkept, hcancel⟩⟩
    · exact .inr ⟨c, hc, .inr ⟨_, List.mem_append_right _ List.mem_cons_self, hcancel⟩⟩
  · exact .inr ⟨c, hc, .inr ⟨m, List.mem_append_left _ hm, hcancel⟩⟩

lemma input_prompt {i : Input} (h : c.input i = some c') :
    (∀ w ∈ c.waiters, w ∈ c'.waiters) ∧
      (c'.prompting = c.prompting ∨ Client.cancel ∈ c'.waiters) := by
  cases i with
  | status | call method params =>
    cases h
    exact ⟨fun w hw => List.mem_append_left _ hw, .inl rfl⟩
  | enter password =>
    simp only [Client.input] at h
    split at h
    · cases h
    · split at h <;> cases h <;> rename_i hp
      · exact ⟨fun w hw => List.mem_append_left _ hw, .inl (by simp [Client.prompting,
          Client.request, hp])⟩
      · exact ⟨fun w hw => List.mem_append_left _ hw, .inl (by simp [Client.prompting,
          Client.request, hp])⟩
  | dismiss =>
    simp only [Client.input] at h
    split at h <;> cases h <;>
      exact ⟨fun w hw => List.mem_append_left _ hw,
        .inr (List.mem_append_right _ List.mem_cons_self)⟩

lemma Heeds.user (hx : Seated d x) {i : Input} {client : Client}
    (hinput : x.client.input i = some client) (h : Heeds d x) : Heeds d { x with client } := by
  obtain ⟨-, -, hready, hunlocked, hpending⟩ := input_core hinput
  obtain ⟨hwaiters, hprompt⟩ := input_prompt hinput
  have hcore : SameCore (· ≠ x.client.idSeq + 1) x.client client :=
    ⟨hready, hunlocked, fun id _ => by rw [hpending]⟩
  have hcalm : Calm client x.wire := by
    intro id r hr hk
    rw [hpending] at hk
    exact hx.calm id r hr hk
  obtain ⟨c, hc⟩ : ∃ c, x.link = .served c := by
    rcases h with ⟨c, hc, -⟩ | ⟨c, hc, -⟩ <;> exact ⟨c, hc⟩
  rcases hprompt with hsame | hgiven
  · have hfollows : Follows (· ≠ x.client.idSeq + 1) (fun _ => False) x.client client :=
      ⟨hcore, hsame, fun w hw => .inl (hwaiters w hw)⟩
    have hsettled := hfollows.settle (fun id r hr => hx.fresh hr) hx.calm
    rcases h with hprompts | ⟨b, hb, ⟨w, hw, hcancel⟩ | hsent⟩
    · exact .inl (hprompts.follow x.outgoing hx hsettled)
    · rcases hsettled.waiters w hw with hkept | hlost
      · exact .inr ⟨b, hb, .inl ⟨w, hkept, hcancel⟩⟩
      · exact hlost.elim
    · exact .inr ⟨b, hb, .inr hsent⟩
  · exact .inr ⟨c, hc, .inl ⟨Client.cancel, waiters_settle hcalm hgiven, rfl⟩⟩

lemma Heeds.read {c : ℕ} {m : Sent} {rest : List Sent} (hout : x.outgoing = m :: rest)
    (hd : Daemon.step L cfg d (.request t c m.id m.method m.params) = some d') (h : Heeds d x) :
    Heeds d' { x with outgoing := rest } ∨ m.method = "vault.unlock_cancel" := by
  obtain ⟨-, hidle, hpc, horigin, -, hothers⟩ := request_threads hd
  rcases h with ⟨b, hb, hprompting, hfree⟩ | ⟨b, hb, hwaits | ⟨m', hm', hcancel⟩⟩
  · refine .inl (.inl ⟨b, hb, hprompting, fun u hu hpast k hk => ?_⟩)
    have hut : u ≠ t := by
      rintro rfl
      rw [hpc] at hpast
      cases hpast
    rw [Attending, (hothers u hut).1, (hothers u hut).2] at hu
    rw [(hothers u hut).1] at hpast
    rw [(hothers u hut).2] at hk
    exact hfree u hu hpast k hk
  · exact .inl (.inr ⟨b, hb, .inl hwaits⟩)
  · rw [hout] at hm'
    rcases List.mem_cons.mp hm' with rfl | hin
    · exact .inr hcancel
    · exact .inl (.inr ⟨b, hb, .inr ⟨m', hin, hcancel⟩⟩)

end LvimKeyring.Editors
