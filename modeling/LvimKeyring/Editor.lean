import Mathlib.Logic.Function.Basic
import LvimKeyring.Daemon

/-!
The editor's end of a connection: the client of `daemon.lua` with the handlers of `setup()`.

A request waits among the `ensure_waiters` until the client is ready and is sent in a step of
its own. Its callback is kept by the id it is sent with. Of the callbacks only those are told
apart that change what the editor knows of the lock, or what its unlock prompt does.
-/

namespace LvimKeyring.Editor

open Rpc Server Daemon

/-- What is done with the answer to a request. -/
inductive Callback
  | handshake
  /-- `M.status` refreshes the cache. -/
  | status
  | promptStatus
  | promptCreate
  | promptUnlock
  | other
  deriving DecidableEq

structure Request where
  callback : Callback
  method : String
  params : Json

/-- Where the prompt is that `vault.unlock_needed` opens. -/
inductive Prompt
  | checking
  | asksNew
  | asks
  | creating
  | unlocking
  deriving DecidableEq

structure Client where
  pipe : Bool
  ready : Bool
  idSeq : ℕ
  pending : ℕ → Option Callback
  /-- The requests that wait for the handshake. -/
  waiters : List Request
  unlocked : Bool
  prompt : Option Prompt

/-- An editor that has just been started. -/
def Client.new : Client := ⟨false, false, 0, fun _ => none, [], false, none⟩

/-- A line sent to the agent. -/
structure Sent where
  id : ℕ
  method : String
  params : Json

def protoMin : ℕ := 1

/-- The fields `proto`, `locked` and `vault_exists` of a result, where it has them. -/
def proto? : Reply → Option ℕ
  | .hello _ _ _ => some Rpc.proto
  | _ => none

def locked? : Reply → Option Bool
  | .hello locked _ _ | .status locked _ _ _ => some locked
  | _ => none

def vaultExists? : Reply → Option Bool
  | .hello _ vaultExists _ | .status _ vaultExists _ _ => some vaultExists
  | _ => none

/-- The handshake goes through: the agent answers with a protocol that is not too old. -/
def accepted : Except Err Reply → Bool
  | .ok r => (proto? r).any (protoMin ≤ ·)
  | .error _ => false

namespace Client

variable (c : Client)

def prompting : Bool := c.prompt.isSome

def isRunning : Bool := c.ready && c.pipe

/-- `M.is_unlocked`. -/
def isUnlocked : Bool := c.unlocked

/-- `M.request`. -/
def request (callback : Callback) (method : String) (params : Json) : Client :=
  { c with waiters := c.waiters ++ [⟨callback, method, params⟩] }

def cancel : Request := ⟨.other, "vault.unlock_cancel", .obj []⟩

/-- The prompt is closed without success: the calls it was opened for are to be released. -/
def giveUp : Client := { c with prompt := none, waiters := c.waiters ++ [cancel] }

/-- The handler of `vault.state`, for the field `locked`. -/
def onState (locked : Option Bool) : Client := { c with unlocked := !locked.getD false }

/-- The handler of `vault.unlock_needed`. -/
def onUnlockNeeded : Client :=
  if c.prompting || c.unlocked then c
  else { c with prompt := some .checking }.request .promptStatus "vault.status" (.obj [])

/-- What a callback makes of an error. -/
def Callback.givesUp : Callback → Bool
  | .promptStatus | .promptCreate => true
  | _ => false

/-- The prompt once its request has failed with the connection. -/
def Prompt.dropped : Prompt → Option Prompt
  | .checking | .creating => none
  | .asksNew => some .asksNew
  | .asks | .unlocking => some .asks

/-- The pipe is closed and every request that is pending or waiting fails. The cancel of a
prompt given up by a pending request fails too. One given up by a waiting request then waits for
the next connection, if the waiters are what is failed last. -/
def drop (last : Bool) : Client :=
  { c with
    pipe := false
    ready := false
    pending := fun _ => none
    waiters := if last && c.waiters.any (Callback.givesUp ·.callback) then [cancel] else []
    prompt := c.prompt.bind Prompt.dropped }

/-- `teardown`. With a pipe, it is the handshake's callback that fails those waiting for it, and
what they leave behind is failed after it. -/
def teardown : Client := c.drop (!c.pipe)

/-- The handshake is refused: the connection is torn down before the waiters are failed. -/
def refuse : Client := c.drop true

/-- The callback of an id is taken. -/
def forget (id : ℕ) : Client := { c with pending := Function.update c.pending id none }

/-- A callback on a response. -/
def callback (r : Except Err Reply) : Callback → Client
  | .handshake =>
    match r with
    | .ok v => if accepted r then { c with ready := true }.onState (locked? v) else c.refuse
    | .error _ => c.refuse
  | .status =>
    match r with
    | .ok v => c.onState (locked? v)
    | .error _ => c
  | .promptStatus =>
    match r with
    | .ok v => { c with prompt := some (if vaultExists? v = some true then .asks else .asksNew) }
    | .error _ => c.giveUp
  | .promptCreate =>
    match r with
    | .ok _ => { c with prompt := none }
    | .error _ => c.giveUp
  | .promptUnlock =>
    match r with
    | .ok _ => { c with prompt := none }
    | .error _ => { c with prompt := some .asks }
  | .other => c

/-- `on_message`. -/
def onMessage : Line → Client
  | .note (.state locked) => c.onState (some locked)
  | .note .unlockNeeded => c.onUnlockNeeded
  | .response id r =>
    match c.pending id with
    | none => c
    | some k => (c.forget id).callback r k

/-- The id a callback is kept by. -/
def register (id : ℕ) (k : Callback) : Client :=
  { c with idSeq := id, pending := Function.update c.pending id (some k) }

/-- The pipe is open: the handshake is sent at once. -/
def connect : Client × Sent :=
  (({ c with pipe := true } : Client).register (c.idSeq + 1) .handshake,
    ⟨c.idSeq + 1, "rpc.hello", .obj []⟩)

/-- The first waiter of a client that is ready is sent. -/
def send : Option (Client × Sent) :=
  match c.waiters with
  | w :: rest =>
    if c.ready && c.pipe then
      some (({ c with waiters := rest } : Client).register (c.idSeq + 1) w.callback,
        ⟨c.idSeq + 1, w.method, w.params⟩)
    else none
  | [] => none

end Client

/-- What the user and the plugins do. -/
inductive Input
  | status
  | call (method : String) (params : Json)
  | enter (password : String)
  | dismiss

def Client.input (c : Client) : Input → Option Client
  | .status => some (c.request .status "vault.status" (.obj []))
  | .call method params => some (c.request .other method params)
  | .enter password =>
    -- an empty password counts as a dismissal
    if password = "" then none
    else
      let params := Json.obj [("password", .str password)]
      match c.prompt with
      | some .asks =>
        some ({ c with prompt := some .unlocking }.request .promptUnlock "vault.unlock" params)
      | some .asksNew =>
        some ({ c with prompt := some .creating }.request .promptCreate "vault.create" params)
      | _ => none
  | .dismiss =>
    match c.prompt with
    | some .asks | some .asksNew => some c.giveUp
    | _ => none

/-! ### What a client makes of the lines that are on their way -/

/-- The client once it has handled some lines. -/
def Client.settle (c : Client) (wire : List Line) : Client := wire.foldl Client.onMessage c

@[simp] lemma settle_nil (c : Client) : c.settle [] = c := rfl

@[simp] lemma settle_cons (c : Client) (l : Line) (wire : List Line) :
    c.settle (l :: wire) = (c.onMessage l).settle wire := rfl

lemma settle_append (c : Client) (w w' : List Line) :
    c.settle (w ++ w') = (c.settle w).settle w' := by
  simp [Client.settle, List.foldl_append]

variable {c c' : Client} {q : ℕ → Prop}

/-- A callback that is kept after a line was kept before it. -/
lemma pending_onMessage {l : Line} {id : ℕ} {k : Callback}
    (h : (c.onMessage l).pending id = some k) : c.pending id = some k := by
  have hcallback {c : Client} {r : Except Err Reply} {k' : Callback}
      (h : (c.callback r k').pending id = some k) : c.pending id = some k := by
    cases k' with
    | handshake =>
      cases r with
      | ok v =>
        simp only [Client.callback] at h
        split at h
        · exact h
        · cases h
      | error e => cases h
    | status | promptStatus | promptCreate | promptUnlock => cases r <;> exact h
    | other => exact h
  cases l with
  | note n =>
    cases n with
    | state locked => exact h
    | unlockNeeded =>
      simp only [Client.onMessage, Client.onUnlockNeeded] at h
      split at h <;> exact h
  | response j r =>
    simp only [Client.onMessage] at h
    split at h
    · exact h
    · have hkept := hcallback h
      simp only [Client.forget] at hkept
      by_cases hid : id = j
      · subst hid
        simp at hkept
      · rwa [Function.update_of_ne hid] at hkept

lemma pending_settle {wire : List Line} {id : ℕ} {k : Callback}
    (h : (c.settle wire).pending id = some k) : c.pending id = some k := by
  induction wire generalizing c with
  | nil => exact h
  | cons l wire ih => exact pending_onMessage (ih h)

/-- No handshake on its way will fail. -/
def Calm (c : Client) (wire : List Line) : Prop :=
  ∀ id r, .response id r ∈ wire → c.pending id = some .handshake → accepted r = true

lemma Calm.tail {l : Line} {wire : List Line} (h : Calm c (l :: wire)) :
    Calm (c.onMessage l) wire :=
  fun id r hr hk => h id r (List.mem_cons_of_mem _ hr) (pending_onMessage hk)

lemma callback_handshake {r : Except Err Reply} (hr : accepted r = true) :
    ∃ v, r = .ok v ∧ c.callback r .handshake = { c with ready := true }.onState (locked? v) := by
  cases r with
  | ok v => exact ⟨v, rfl, if_pos hr⟩
  | error e => cases hr

/-- The two clients know the same of the lock, and agree about the ids that lines are about. -/
structure SameCore (q : ℕ → Prop) (c c' : Client) : Prop where
  ready : c'.ready = c.ready
  unlocked : c'.unlocked = c.unlocked
  pending : ∀ id, q id → c'.pending id = c.pending id

lemma SameCore.onUnlockNeeded (h : SameCore q c c') :
    SameCore q c.onUnlockNeeded c'.onUnlockNeeded := by
  unfold Client.onUnlockNeeded
  split <;> split <;> exact ⟨h.ready, h.unlocked, h.pending⟩

lemma SameCore.forget (h : SameCore q c c') (id : ℕ) :
    SameCore q (c.forget id) (c'.forget id) := by
  refine ⟨h.ready, h.unlocked, fun j hj => ?_⟩
  simp only [Client.forget]
  by_cases hji : j = id
  · subst hji
    simp
  · rw [Function.update_of_ne hji, Function.update_of_ne hji]
    exact h.pending j hj

lemma SameCore.callback (h : SameCore q c c') {r : Except Err Reply} {k : Callback}
    (hk : k = .handshake → accepted r = true) :
    SameCore q (c.callback r k) (c'.callback r k) := by
  cases k with
  | handshake =>
    obtain ⟨v, hv, hc⟩ := callback_handshake (c := c) (hk rfl)
    obtain ⟨v', hv', hc'⟩ := callback_handshake (c := c') (hk rfl)
    obtain rfl : v = v' := by
      rw [hv] at hv'
      exact Except.ok.inj hv'
    rw [hc, hc']
    exact ⟨rfl, rfl, h.pending⟩
  | status =>
    cases r with
    | ok v => exact ⟨h.ready, rfl, h.pending⟩
    | error e => exact h
  | promptStatus | promptCreate | promptUnlock => cases r <;> exact ⟨h.ready, h.unlocked, h.pending⟩
  | other => exact h

lemma SameCore.onMessage (h : SameCore q c c') {l : Line}
    (hl : ∀ id r, l = .response id r → q id ∧
      (c.pending id = some .handshake → accepted r = true)) :
    SameCore q (c.onMessage l) (c'.onMessage l) := by
  cases l with
  | note n =>
    cases n with
    | state locked => exact ⟨h.ready, rfl, h.pending⟩
    | unlockNeeded => exact h.onUnlockNeeded
  | response id r =>
    obtain ⟨hq, haccepted⟩ := hl id r rfl
    simp only [Client.onMessage, h.pending id hq]
    cases hk : c.pending id with
    | none => exact h
    | some k =>
      refine (h.forget id).callback fun hkey => haccepted ?_
      rw [hk, hkey]

lemma settle_related {R : Client → Client → Prop}
    (hstep : ∀ {c c' : Client} {l : Line}, R c c' → (∀ id r, l = .response id r → q id ∧
      (c.pending id = some .handshake → accepted r = true)) → R (c.onMessage l) (c'.onMessage l))
    (h : R c c') {wire : List Line} (hq : ∀ id r, .response id r ∈ wire → q id)
    (hcalm : Calm c wire) : R (c.settle wire) (c'.settle wire) := by
  induction wire generalizing c c' with
  | nil => exact h
  | cons l wire ih =>
    refine ih (hstep h fun id r hl => ?_)
      (fun id r hr => hq id r (List.mem_cons_of_mem _ hr)) hcalm.tail
    subst hl
    exact ⟨hq id r List.mem_cons_self, hcalm id r List.mem_cons_self⟩

lemma SameCore.settle (h : SameCore q c c') {wire : List Line}
    (hq : ∀ id r, .response id r ∈ wire → q id) (hcalm : Calm c wire) :
    SameCore q (c.settle wire) (c'.settle wire) :=
  settle_related (fun hcore hl => hcore.onMessage hl) h hq hcalm

/-! ### The handshake -/

lemma callback_ready {r : Except Err Reply} {k : Callback}
    (hk : k = .handshake → accepted r = true) :
    (c.callback r k).ready = (c.ready || decide (k = .handshake)) := by
  cases k with
  | handshake =>
    obtain ⟨v, -, hc⟩ := callback_handshake (c := c) (hk rfl)
    rw [hc]
    simp [Client.onState]
  | status | promptStatus | promptCreate | promptUnlock =>
    cases r <;> simp [Client.callback, Client.onState, Client.giveUp]
  | other => simp [Client.callback]

lemma ready_onMessage {l : Line}
    (hl : ∀ id r, l = .response id r → c.pending id = some .handshake → accepted r = true)
    (h : c.ready = true) : (c.onMessage l).ready = true := by
  cases l with
  | note n =>
    cases n with
    | state locked => exact h
    | unlockNeeded =>
      simp only [Client.onMessage, Client.onUnlockNeeded]
      split <;> exact h
  | response id r =>
    simp only [Client.onMessage]
    split
    · exact h
    · rename_i k hk
      rw [callback_ready fun hkey => hl id r rfl (by rw [hk, hkey])]
      simp [Client.forget, h]

lemma ready_settle {wire : List Line} (hcalm : Calm c wire) (h : c.ready = true) :
    (c.settle wire).ready = true := by
  induction wire generalizing c with
  | nil => exact h
  | cons l wire ih =>
    refine ih hcalm.tail (ready_onMessage (fun id r hl => ?_) h)
    subst hl
    exact hcalm id r List.mem_cons_self

lemma not_ready_settle {wire : List Line}
    (hw : ∀ id r, .response id r ∈ wire → c.pending id ≠ some .handshake)
    (h : c.ready = false) : (c.settle wire).ready = false := by
  induction wire generalizing c with
  | nil => exact h
  | cons l wire ih =>
    refine ih (fun id r hr hk => hw id r (List.mem_cons_of_mem _ hr) (pending_onMessage hk)) ?_
    cases l with
    | note n =>
      cases n with
      | state locked => exact h
      | unlockNeeded =>
        simp only [Client.onMessage, Client.onUnlockNeeded]
        split <;> exact h
    | response id r =>
      have hne := hw id r List.mem_cons_self
      simp only [Client.onMessage]
      split
      · exact h
      · rename_i k hk
        have hkey : k ≠ .handshake := by
          rintro rfl
          exact hne hk
        rw [callback_ready fun heq => absurd heq hkey]
        simp [Client.forget, h, hkey]

lemma callback_pending {r : Except Err Reply} {k : Callback}
    (hk : k = .handshake → accepted r = true) : (c.callback r k).pending = c.pending := by
  cases k with
  | handshake =>
    obtain ⟨v, -, hc⟩ := callback_handshake (c := c) (hk rfl)
    rw [hc]
    rfl
  | status | promptStatus | promptCreate | promptUnlock => cases r <;> rfl
  | other => rfl

lemma handshake_onMessage {l : Line} {id : ℕ}
    (hl : ∀ j r, l = .response j r → c.pending j = some .handshake → accepted r = true)
    (h : c.pending id = some .handshake) :
    (c.onMessage l).pending id = some .handshake ∨ (c.onMessage l).ready = true := by
  cases l with
  | note n =>
    left
    cases n with
    | state locked => exact h
    | unlockNeeded =>
      simp only [Client.onMessage, Client.onUnlockNeeded]
      split <;> exact h
  | response j r =>
    simp only [Client.onMessage]
    split
    · exact .inl h
    · rename_i k hk
      have haccepted : k = .handshake → accepted r = true :=
        fun hkey => hl j r rfl (by rw [hk, hkey])
      by_cases hji : j = id
      · subst hji
        obtain rfl : k = .handshake := by
          rw [h] at hk
          exact (Option.some.inj hk).symm
        right
        rw [callback_ready haccepted]
        simp
      · left
        rw [callback_pending haccepted]
        simp only [Client.forget, Function.update_of_ne (Ne.symm hji)]
        exact h

lemma handshake_settle {wire : List Line} {id : ℕ} (hcalm : Calm c wire)
    (h : c.pending id = some .handshake) :
    (c.settle wire).pending id = some .handshake ∨ (c.settle wire).ready = true := by
  induction wire generalizing c with
  | nil => exact .inl h
  | cons l wire ih =>
    rw [settle_cons]
    have hl : ∀ j r, l = .response j r → c.pending j = some .handshake → accepted r = true := by
      rintro j r rfl
      exact hcalm j r List.mem_cons_self
    rcases handshake_onMessage hl h with hkept | hready
    · exact ih hcalm.tail hkept
    · exact .inr (ready_settle hcalm.tail hready)

lemma pipe_onMessage {l : Line}
    (hl : ∀ id r, l = .response id r → c.pending id = some .handshake → accepted r = true) :
    (c.onMessage l).pipe = c.pipe := by
  cases l with
  | note n =>
    cases n with
    | state locked => rfl
    | unlockNeeded =>
      simp only [Client.onMessage, Client.onUnlockNeeded]
      split <;> rfl
  | response id r =>
    simp only [Client.onMessage]
    split
    · rfl
    · rename_i k hk
      cases k with
      | handshake =>
        obtain ⟨v, -, hc⟩ := callback_handshake (c := c.forget id) (hl id r rfl hk)
        rw [hc]
        rfl
      | status | promptStatus | promptCreate | promptUnlock => cases r <;> rfl
      | other => rfl

lemma idSeq_onMessage (c : Client) (l : Line) : (c.onMessage l).idSeq = c.idSeq := by
  cases l with
  | note n =>
    cases n with
    | state locked => rfl
    | unlockNeeded =>
      simp only [Client.onMessage, Client.onUnlockNeeded]
      split <;> rfl
  | response id r =>
    simp only [Client.onMessage]
    split
    · rfl
    · rename_i k hk
      cases k with
      | handshake =>
        cases r with
        | ok v =>
          simp only [Client.callback]
          split <;> rfl
        | error e => rfl
      | status | promptStatus | promptCreate | promptUnlock => cases r <;> rfl
      | other => rfl

/-! ### The methods of the callbacks -/

/-- The methods a callback is used with. -/
def Callback.fits : Callback → String → Bool
  | .handshake, method => method == "rpc.hello"
  | .promptCreate, method => method == "vault.create"
  | .promptUnlock, method => method == "vault.unlock"
  | _, _ => true

/-- The requests that wait are each for the method of its callback. -/
def Client.Fitting (c : Client) : Prop := ∀ w ∈ c.waiters, w.callback.fits w.method = true

lemma Client.Fitting.request (h : c.Fitting) {k : Callback} {method : String}
    (hfits : k.fits method = true) (params : Json) : (c.request k method params).Fitting := by
  intro w hw
  rcases List.mem_append.mp hw with hold | hnew
  · exact h w hold
  · rw [List.mem_singleton.mp hnew]
    exact hfits

lemma Client.Fitting.giveUp (h : c.Fitting) : c.giveUp.Fitting := by
  intro w hw
  rcases List.mem_append.mp hw with hold | hnew
  · exact h w hold
  · rw [List.mem_singleton.mp hnew]
    rfl

lemma fitting_drop (c : Client) (last : Bool) : (c.drop last).Fitting := by
  intro w hw
  simp only [Client.drop] at hw
  split at hw
  · rw [List.mem_singleton.mp hw]
    rfl
  · cases hw

lemma Client.Fitting.onMessage (h : c.Fitting) (l : Line) : (c.onMessage l).Fitting := by
  cases l with
  | note n =>
    cases n with
    | state locked => exact h
    | unlockNeeded =>
      simp only [Client.onMessage, Client.onUnlockNeeded]
      split
      · exact h
      · exact Client.Fitting.request (c := { c with prompt := some .checking }) h rfl _
  | response id r =>
    simp only [Client.onMessage]
    split
    · exact h
    · rename_i k hk
      have hforget : (c.forget id).Fitting := h
      cases k with
      | handshake =>
        cases r with
        | ok v =>
          simp only [Client.callback]
          split
          · exact h
          · exact fitting_drop _ _
        | error e => exact fitting_drop _ _
      | promptStatus | promptCreate =>
        cases r with
        | ok v => exact h
        | error e => exact hforget.giveUp
      | status | promptUnlock => cases r <;> exact h
      | other => exact h

lemma input_core {i : Input} (h : c.input i = some c') :
    c'.pipe = c.pipe ∧ c'.idSeq = c.idSeq ∧ c'.ready = c.ready ∧ c'.unlocked = c.unlocked ∧
      c'.pending = c.pending := by
  cases i with
  | status | call method params =>
    cases h
    exact ⟨rfl, rfl, rfl, rfl, rfl⟩
  | enter password =>
    simp only [Client.input] at h
    split at h
    · cases h
    · split at h <;> cases h <;> exact ⟨rfl, rfl, rfl, rfl, rfl⟩
  | dismiss =>
    simp only [Client.input] at h
    split at h <;> cases h <;> exact ⟨rfl, rfl, rfl, rfl, rfl⟩

lemma Client.Fitting.input {i : Input} (h : c.Fitting) (hi : c.input i = some c') :
    c'.Fitting := by
  cases i with
  | status | call method params =>
    cases hi
    exact h.request rfl _
  | enter password =>
    simp only [Client.input] at hi
    split at hi
    · cases hi
    · split at hi <;> cases hi
      · exact Client.Fitting.request (c := { c with prompt := some .unlocking }) h rfl _
      · exact Client.Fitting.request (c := { c with prompt := some .creating }) h rfl _
  | dismiss =>
    simp only [Client.input] at hi
    split at hi <;> cases hi <;> exact h.giveUp

lemma send_eq_some {m : Sent} (h : c.send = some (c', m)) :
    ∃ w rest, c.waiters = w :: rest ∧ c.ready = true ∧ c.pipe = true ∧
      m = ⟨c.idSeq + 1, w.method, w.params⟩ ∧
      c' = ({ c with waiters := rest } : Client).register (c.idSeq + 1) w.callback := by
  simp only [Client.send] at h
  split at h
  · rename_i w rest hw
    split at h <;> cases h
    rename_i hready
    simp only [Bool.and_eq_true] at hready
    exact ⟨w, rest, hw, hready.1, hready.2, rfl, rfl⟩
  · cases h

end LvimKeyring.Editor
