import Mathlib.Data.List.Count
import LvimKeyring.Lib.ListUpdate
import LvimKeyring.Attempts

/-!
What becomes of the callbacks given to `M.request`.

Each is in one place at a time: among the waiters, in the pending table, in a loop that is
about to call it, or among the calls made. When nothing of the client runs and there is no
pipe, the pending table has to be empty, or nobody is left to call what is in it.
-/

namespace LvimKeyring.EventLoop

open Rpc Crypto Transition ListUpdate

/-! ### Where a callback is -/

def Waiter.callback : Waiter → Option ℕ
  | .ensure _ => none
  | .request k _ _ => some k

def Handler.callback : Handler → Option ℕ
  | .handshake => none
  | .request k => some k

def Call.callback : Call → Option ℕ
  | .ensured _ _ => none
  | .answered k _ => some k

/-- The callbacks a loop has still to come to. -/
def Frame.callbacks : Frame → List ℕ
  | .waiters ws _ => ws.filterMap Waiter.callback
  | .dead callbacks _ => callbacks.filterMap (·.2.callback)
  | _ => []

namespace Client

/-- How many places the `k`th callback is in. -/
def places (k : ℕ) (c : Client) : ℕ :=
  (c.calls.filterMap Call.callback).count k + (c.waiters.filterMap Waiter.callback).count k +
    (c.pending.filterMap (·.2.callback)).count k + (c.stack.flatMap Frame.callbacks).count k

variable {N : Neovim} {env : Surroundings} {c c' : Client} {rest : List Frame} {k : ℕ}

lemma places_push {f : Frame} (hf : f.callbacks = []) : (c.push f).places k = c.places k := by
  simp [places, push, hf]

lemma places_issue (h : Handler) (method : String) (params : Json) :
    (c.issue h method params).places k = c.places k + h.callback.toList.count k := by
  cases hcb : h.callback with
  | none => simp [places, issue, send, hcb]
  | some j =>
    simp [places, issue, send, hcb]
    omega

lemma places_tell (guarded : Bool) (w : Waiter) (r : Except Json Unit) :
    (c.tell guarded w r).places k = c.places k + w.callback.toList.count k := by
  cases w with
  | ensure j =>
    simp [tell, places, push, Call.callback, Waiter.callback, Frame.callbacks, List.filterMap_cons]
  | request j method params =>
    cases r with
    | error e =>
      simp [tell, places, push, Call.callback, Waiter.callback, Frame.callbacks]
      omega
    | ok u => exact places_issue _ _ _

lemma places_teardown (err : Json) : (c.teardown err).places k = c.places k := by
  simp [places, teardown, Frame.callbacks]
  omega

lemma places_greeted (r : Answer) : (c.greeted N r).places k = c.places k := by
  unfold greeted
  cases greeting N r with
  | error e =>
    simp only [places_teardown]
    simp [places, push, Frame.callbacks]
    omega
  | ok u =>
    simp only
    split
    · simp [places, push, Frame.callbacks]
      omega
    · simp [places, push, Frame.callbacks]
      omega

lemma places_settle (guarded : Bool) (h : Handler) (r : Answer) :
    (c.settle N guarded h r).places k = c.places k + h.callback.toList.count k := by
  cases h with
  | handshake => exact places_greeted r
  | request j =>
    simp [settle, places, push, Call.callback, Handler.callback, Frame.callbacks]
    omega

lemma count_eraseP {entries : List (ℕ × Handler)} {id : ℕ} {h : Handler}
    (hl : entries.lookup id = some h) (k : ℕ) :
    (entries.filterMap (·.2.callback)).count k =
      h.callback.toList.count k +
        ((entries.eraseP (·.1 == id)).filterMap (·.2.callback)).count k := by
  rw [((perm_eraseP hl).filterMap _).count_eq]
  cases hcb : h.callback with
  | none => simp [hcb]
  | some j =>
    simp [hcb, List.count_cons]
    omega

lemma places_onMessage (msg : Json) : (c.onMessage N msg).places k = c.places k := by
  unfold onMessage
  split
  · split
    · rfl
    · split
      · rfl
      · rename_i id _ h hl
        rw [places_settle]
        have hcount := count_eraseP hl k
        simp only [places, forget] at hcount ⊢
        omega
  · split
    · split
      · exact places_push rfl
      · rfl
    · rfl

lemma places_onRead (hs : c.stack = .reading :: rest) :
    (c.onRead N rest).places k = c.places k := by
  unfold onRead
  split
  · simp [places, hs, Frame.callbacks]
  · simp only
    split
    · rfl
    · exact places_onMessage _

lemma places_onConnected : c.onConnected.places k = c.places k := by
  unfold onConnected
  split
  · rfl
  · rw [places_issue]
    rfl

lemma places_tryConnect (u : Purpose) (made : Bool) :
    (c.tryConnect u made).places k = c.places k := by
  unfold tryConnect
  split <;> rfl

lemma places_ensure (w : Waiter) :
    (c.ensure w).places k = c.places k + w.callback.toList.count k := by
  unfold ensure
  split
  · exact places_tell _ _ _
  · simp only
    have hjoin : ({ c with waiters := c.waiters ++ [w] } : Client).places k
        = c.places k + w.callback.toList.count k := by
      cases hcb : w.callback with
      | none => simp [places, hcb]
      | some j =>
        simp [places, hcb]
        omega
    split
    · exact hjoin
    · exact (places_push rfl).trans hjoin

lemma places_perform (t : Task) : (c.perform env t).places k = c.places k := by
  cases t with
  | failed u surplus =>
    cases u with
    | first a =>
      simp only [perform]
      split
      · exact places_push rfl
      · exact places_teardown _
    | retry a =>
      simp only [perform]
      split
      · exact places_teardown _
      · rfl
  | connected p u =>
    cases u with
    | first a => exact places_onConnected
    | retry a => exact places_onConnected
  | chunk p bytes => exact places_push rfl
  | ended p | readError p err => exact places_teardown _
  | retry a =>
    simp only [perform]
    split
    · rfl
    · exact places_tryConnect _ _

lemma places_resume (hstep : c.resume N env = some c') : c'.places k = c.places k := by
  cases resumed hstep with
  | told r rest hs | vetted a rest hs | mkdir a rest hs | spawn a rest hs =>
    simp [places, hs, Frame.callbacks]
  | tell w ws r rest hs =>
    rw [places_tell]
    cases hcb : w.callback with
    | none => simp [places, hs, Frame.callbacks, hcb]
    | some j =>
      simp [places, hs, Frame.callbacks, hcb, List.count_cons]
      omega
  | dead err rest hs =>
    simp [places, hs, Frame.callbacks]
    omega
  | reading rest hs => exact places_onRead hs
  | refused a rest e hs | untimed a rest hs =>
    rw [places_teardown]
    simp [places, hs, Frame.callbacks]
  | dial a rest hs =>
    rw [places_tryConnect]
    simp [places, hs, Frame.callbacks]

lemma places_pick {id : ℕ} (hstep : c.pick N id = some c') : c'.places k = c.places k := by
  obtain ⟨callbacks, err, rest, h, hs, hl, rfl⟩ := pick_cases hstep
  rw [places_settle]
  have hcount := count_eraseP hl k
  simp only [places, hs, List.flatMap_cons, Frame.callbacks, List.count_append] at hcount ⊢
  omega

/-- Every callback is in one place. -/
def Placed (c : Client) : Prop := ∀ k, c.places k = if k < c.given.length then 1 else 0

end Client

open Client

variable {N : Neovim} {c c' : Client} {k : ℕ}

lemma placed_request (h : c.Placed) (method : String) (params : Option Json) :
    (c.request method params).Placed := by
  intro k
  have hk := h k
  have hsame : ({ c with given := c.given ++ [(method, params)] } : Client).places k = c.places k :=
    rfl
  simp only [request, places_ensure, given_ensure, hsame, hk, Waiter.callback, List.length_append,
    List.length_singleton, Option.toList_some, List.count_singleton, beq_iff_eq]
  split <;> split <;> split <;> omega

lemma placed_doAct {a : Act} (h : c.Placed) (hstep : doAct c a = some c') : c'.Placed := by
  cases a with
  | ensure =>
    cases hstep
    intro k
    rw [places_ensure, given_ensure]
    exact h k
  | request method params =>
    cases hstep
    exact placed_request h method params
  | on method =>
    cases hstep
    exact h
  | stop =>
    cases hstep
    exact fun k => (places_teardown _).trans (h k)
  | ret =>
    obtain ⟨guarded, rest, hs, rfl⟩ := ret_cases hstep
    intro k
    have hk := h k
    simpa [places, hs, Frame.callbacks] using hk
  | raise =>
    obtain ⟨fs, hfs, rfl⟩ := Option.map_eq_some_iff.mp hstep
    intro k
    have hk := h k
    obtain hs | ⟨guarded, hs⟩ := raise_cases hfs
    · simpa [places, hs, Frame.callbacks] using hk
    · simpa [places, hs, Frame.callbacks] using hk

lemma places_loop {e : Event} (hstep : loop c e = some c') : c'.places k = c.places k := by
  cases looped hstep with
  | scheduled env t => exact places_perform t
  | failed | connected | arrive | finish | fail | tick => rfl

lemma placed_step {e : Event} (h : c.Placed) (hstep : step N c e = some c') : c'.Placed := by
  rcases step_cases hstep with ⟨a, -, -, hact⟩ | ⟨env, -, hres⟩ | ⟨id, -, hpick⟩ | ⟨-, hloop⟩
  · exact placed_doAct h hact
  · intro k
    rw [places_resume hres, given_resume hres]
    exact h k
  · intro k
    rw [places_pick hpick, given_pick hpick]
    exact h k
  · intro k
    rw [places_loop hloop, given_loop hloop]
    exact h k

/-- In every run, every callback is in one place. -/
theorem placed_run {es : List Event} (hrun : run (step N) .new es = some c) : c.Placed := by
  have hkeep : ∀ s e t, Client.Placed s → True → step N s e = some t → t.Placed :=
    fun _ _ _ h _ hstep => placed_step h hstep
  exact run_inv hkeep (fun k => rfl) (along_of_forall fun _ _ _ => trivial) hrun

/-! ### The pending table without a pipe -/

/-- Without a pipe nothing is pending. -/
def Client.Unsent (c : Client) : Prop := c.pipe = none → c.pending = []

/-- When the waiters are told that there is a connection, and it is the turn of a request, no
callback before has torn the connection down. -/
def standing (c : Client) : Event → Bool
  | .resume _ =>
    match c.stack with
    | .waiters (.request _ _ _ :: _) (.ok ()) :: _ => c.pipe.isSome
    | _ => true
  | _ => true

namespace Client

lemma unsent_issue {h : Handler} {method : String} {params : Json} (hp : c.pipe.isSome = true) :
    (c.issue h method params).Unsent := by
  intro hn
  have hnone : c.pipe = none := hn
  rw [hnone] at hp
  cases hp

lemma unsent_tell {guarded : Bool} {w : Waiter} {r : Except Json Unit} (h : c.Unsent)
    (hw : ∀ j method params, w = .request j method params → r = .ok () → c.pipe.isSome = true) :
    (c.tell guarded w r).Unsent := by
  cases w with
  | ensure j => exact h
  | request j method params =>
    cases r with
    | error e => exact h
    | ok u => exact unsent_issue (hw j method params rfl rfl)

lemma unsent_teardown (err : Json) : (c.teardown err).Unsent := fun _ => rfl

lemma unsent_greeted (h : c.Unsent) (r : Answer) : (c.greeted N r).Unsent := by
  unfold greeted
  cases greeting N r with
  | error e => exact unsent_teardown e
  | ok u =>
    simp only
    split <;> exact h

lemma unsent_settle {guarded : Bool} {hd : Handler} {r : Answer} (h : c.Unsent) :
    (c.settle N guarded hd r).Unsent := by
  cases hd with
  | handshake => exact unsent_greeted h r
  | request j => exact h

lemma unsent_onRead {rest : List Frame} (h : c.Unsent) : (c.onRead N rest).Unsent := by
  unfold onRead
  split
  · exact h
  · simp only
    split
    · exact h
    · unfold onMessage
      split
      · split
        · exact h
        · rename_i id _
          split
          · exact h
          · have hforget : (c.forget id).Unsent := by
              intro hn
              have hnil : c.pending = [] := h hn
              simp [forget, hnil]
            exact unsent_settle hforget
      · split
        · split <;> exact h
        · exact h

lemma unsent_ensure {w : Waiter} (h : c.Unsent) : (c.ensure w).Unsent := by
  unfold ensure
  split
  · rename_i hready
    exact unsent_tell h fun _ _ _ _ _ => hready.2
  · simp only
    split <;> exact h

lemma unsent_tryConnect {u : Purpose} {made : Bool} (h : c.Unsent) :
    (c.tryConnect u made).Unsent := by
  unfold tryConnect
  split <;> exact h

lemma unsent_onConnected (h : c.Unsent) : c.onConnected.Unsent := by
  unfold onConnected
  split
  · exact h
  · rename_i p hp
    exact unsent_issue (Option.isSome_of_eq_some hp)

lemma unsent_perform {t : Task} (h : c.Unsent) : (c.perform env t).Unsent := by
  cases t with
  | failed u surplus =>
    cases u with
    | first a =>
      simp only [perform]
      split
      · exact h
      · exact unsent_teardown _
    | retry a =>
      simp only [perform]
      split
      · exact unsent_teardown _
      · exact h
  | connected p u =>
    cases u with
    | first a | retry a => exact unsent_onConnected h
  | chunk p bytes => exact h
  | ended p | readError p err => exact unsent_teardown _
  | retry a =>
    simp only [perform]
    split
    · exact h
    · exact unsent_tryConnect h

lemma unsent_resume {env : Surroundings} (h : c.Unsent) (hS : standing c (.resume env) = true)
    (hstep : c.resume N env = some c') : c'.Unsent := by
  cases resumed hstep with
  | told | dead | vetted | mkdir | spawn => exact h
  | tell w ws r rest hs =>
    refine unsent_tell h fun j method params hw hr => ?_
    subst hw hr
    simpa [standing, hs] using hS
  | reading rest => exact unsent_onRead h
  | refused | untimed => exact unsent_teardown _
  | dial a rest => exact unsent_tryConnect h

end Client

lemma unsent_doAct {a : Act} (h : c.Unsent) (hstep : doAct c a = some c') : c'.Unsent := by
  cases a with
  | ensure | request =>
    cases hstep
    exact unsent_ensure h
  | on method =>
    cases hstep
    exact h
  | stop =>
    cases hstep
    exact unsent_teardown _
  | ret =>
    obtain ⟨guarded, rest, -, rfl⟩ := ret_cases hstep
    exact h
  | raise =>
    obtain ⟨fs, -, rfl⟩ := Option.map_eq_some_iff.mp hstep
    exact h

lemma unsent_loop {e : Event} (h : c.Unsent) (hstep : loop c e = some c') : c'.Unsent := by
  cases looped hstep with
  | connected p => exact fun hn => (Option.some_ne_none p hn).elim
  | scheduled env t => exact unsent_perform h
  | failed | arrive | finish | fail | tick => exact h

lemma unsent_step {e : Event} (h : c.Unsent) (hS : standing c e = true)
    (hstep : step N c e = some c') :
    c'.Unsent := by
  rcases step_cases hstep with ⟨a, -, -, hact⟩ | ⟨env, rfl, hres⟩ | ⟨id, -, hpick⟩ | ⟨-, hloop⟩
  · exact unsent_doAct h hact
  · exact unsent_resume h hS hres
  · obtain ⟨callbacks, err, rest, hd, -, -, rfl⟩ := pick_cases hpick
    exact unsent_settle h
  · exact unsent_loop h hloop

/-! ### No callback is orphaned -/

/-- Nothing is pending, and every callback of a request has been called, or waits for an
attempt to connect that goes on. -/
structure Settled (c : Client) : Prop where
  pending : c.pending = []
  callbacks : ∀ k < c.given.length, (∃ r, .answered k r ∈ c.calls) ∨
    (∃ method params, .request k method params ∈ c.waiters) ∧ c.connecting = true ∧
      ∃ a, a + 1 = c.attempts ∧ c.Underway a

/-- Whenever no function of the client is executing and there is no pipe. -/
def OrphansNone (N : Neovim) : Prop :=
  ∀ es c, run (step N) .new es = some c → c.stack = [] → c.pipe = none → Settled c

lemma mem_of_callback {ws : List Waiter} (h : k ∈ ws.filterMap Waiter.callback) :
    ∃ method params, .request k method params ∈ ws := by
  obtain ⟨w, hw, hk⟩ := List.mem_filterMap.mp h
  cases w with
  | ensure j => cases hk
  | request j method params =>
    cases hk
    exact ⟨method, params, hw⟩

lemma called_of_callback {calls : List Call} (h : k ∈ calls.filterMap Call.callback) :
    ∃ r, .answered k r ∈ calls := by
  obtain ⟨w, hw, hk⟩ := List.mem_filterMap.mp h
  cases w with
  | ensured j r => cases hk
  | answered j r =>
    cases hk
    exact ⟨r, hw⟩

lemma settled_of (hplaced : c.Placed) (htried : c.Tried) (hunsent : c.Unsent) (hs : c.stack = [])
    (hp : c.pipe = none) : Settled c where
  pending := hunsent hp
  callbacks k hk := by
    have hone := hplaced k
    rw [if_pos hk] at hone
    simp only [places, hunsent hp, hs, List.filterMap_nil, List.flatMap_nil, List.count_nil,
      Nat.add_zero] at hone
    by_cases hcalled : k ∈ c.calls.filterMap Call.callback
    · exact .inl (called_of_callback hcalled)
    · rw [List.count_eq_zero_of_not_mem hcalled, Nat.zero_add] at hone
      have hmem : k ∈ c.waiters.filterMap Waiter.callback := by
        refine List.count_pos_iff.mp ?_
        omega
      obtain ⟨method, params, hw⟩ := mem_of_callback hmem
      have hconn : c.connecting = true := by
        rcases htried.waiting (List.ne_nil_of_mem hw) with hconn | ⟨f, hf, -⟩
        · exact hconn
        · rw [hs] at hf
          cases hf
      exact .inr ⟨⟨method, params, hw⟩, hconn, htried.last hconn hp⟩

/-- In a run in which the waiters of a handshake find the connection standing, no callback is
orphaned. -/
theorem settled_of_standing {es : List Event} (hrun : run (step N) .new es = some c)
    (hS : Along (step N) (fun c e => standing c e = true) .new es) (hs : c.stack = [])
    (hp : c.pipe = none) :
    Settled c := by
  have hkeep : ∀ s e t, Client.Unsent s → standing s e = true → step N s e = some t → t.Unsent :=
    fun _ _ _ h hS hstep => unsent_step h hS hstep
  have hunsent : c.Unsent := run_inv hkeep (fun _ => rfl) hS hrun
  exact settled_of (placed_run hrun) (tried_run hrun) hunsent hs hp

open Sample

/-- A callback of `M.ensure` and one of `M.request` wait for the first attempt. -/
def twoWait : List Event :=
  [.act .ensure, .resume fine, .resume fine, .act (.request "vault.status" none)] ++ greet

/-- Both are told, the request is sent, and the client is stopped. -/
def stoppedLater : List Event :=
  twoWait ++ [.resume fine, .act .ret, .resume fine, .resume fine, .resume fine, .act .stop,
    .pick 2, .act .ret, .resume fine, .resume fine]

theorem settled_of_standing_stoppedLater :
    ∃ c, run (step neovim) .new stoppedLater = some c ∧ c.given.length = 1 ∧ Settled c := by
  have hend : (run (step neovim) .new stoppedLater).map
      (fun c => (c.given.length, c.stack.isEmpty, c.pipe)) = some (1, true, none) := by
    decide +kernel
  obtain ⟨c, hc, heq⟩ := Option.map_eq_some_iff.mp hend
  rw [Prod.mk.injEq, Prod.mk.injEq, List.isEmpty_iff] at heq
  exact ⟨c, hc, heq.1, settled_of_standing hc (by decide +kernel) heq.2.1 heq.2.2⟩

/-- The callback that is told first stops the client, and the request is sent after that. -/
def stoppedBetween : List Event :=
  twoWait ++ [.resume fine, .act .stop, .resume fine, .resume fine, .act .ret, .resume fine,
    .resume fine, .resume fine]

theorem not_orphansNone : ¬ OrphansNone neovim := by
  intro h
  have hend : (run (step neovim) .new stoppedBetween).map
      (fun c => (c.pending.length, c.stack.isEmpty, c.pipe)) = some (1, true, none) := by
    decide +kernel
  obtain ⟨c, hc, heq⟩ := Option.map_eq_some_iff.mp hend
  rw [Prod.mk.injEq, Prod.mk.injEq, List.isEmpty_iff] at heq
  have hnil := (h _ c hc heq.2.1 heq.2.2).pending
  rw [hnil] at heq
  exact absurd heq.1 (by decide)

end LvimKeyring.EventLoop
