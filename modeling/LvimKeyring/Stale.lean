import LvimKeyring.Attempts

/-!
Events of an attempt that is over.

What libuv and `vim.schedule` have in store for an attempt is not called off when the client is
torn down, nor when another pipe wins. An event of it comes all the same, and the variables it
finds are those of the module, whichever attempt they belong to by then.
-/

namespace LvimKeyring.EventLoop

open Rpc Crypto Transition

/-- The variables of the module an attempt sets. -/
structure SameVars (c c' : Client) : Prop where
  pipe : c'.pipe = c.pipe
  ready : c'.ready = c.ready
  connecting : c'.connecting = c.connecting
  readTail : c'.readTail = c.readTail
  pending : c'.pending = c.pending
  waiters : c'.waiters = c.waiters

namespace Client

/-- The attempt has been torn down, or the pipe there is belongs to another. -/
def gone (c : Client) (a : ℕ) : Bool :=
  a < c.torn || c.pipe.any fun p => (c.dials[p]?).any (·.attempt ≠ a)

/-- The pipe belongs to such an attempt. -/
def gonePipe (c : Client) (p : ℕ) : Bool := (c.dials[p]?).any fun u => c.gone u.attempt

def goneTask (c : Client) : Task → Bool
  | .failed u surplus => surplus || c.gone u.attempt
  | .connected _ u => c.gone u.attempt
  | .chunk p _ | .ended p | .readError p _ => c.gonePipe p
  | .retry a => c.gone a

/-- The event is one of an attempt or a pipe that has been torn down or has lost the race, or it
is the teardown itself that goes on. -/
def stale (c : Client) : Event → Bool
  | .act _ => false
  | .resume _ =>
    match c.stack with
    | .vet a :: _ | .dial a :: _ | .mkdir a :: _ | .spawn a :: _ => c.gone a
    | .dead _ _ :: _ => true
    | _ => false
  | .pick _ => true
  | .connected p _ | .arrive p _ | .finish p | .fail p _ => c.gonePipe p
  | .tick a => c.gone a
  | .scheduled _ => c.queue.head?.any c.goneTask

/-- A later attempt has been begun, or a pipe is established. -/
def held (c : Client) : Bool := c.torn < c.attempts || c.pipe.isSome

/-- The branch that an event of an attempt that is over can take without harm. -/
def harmless (c : Client) : Event → Bool
  | .connected _ failed => failed || c.pipe.isSome
  | .resume env =>
    match c.stack with
    | .vet _ :: _ => env.vetted.isOk
    | .spawn _ :: _ => env.timer
    | .dead [] _ :: _ => c.waiters.isEmpty
    | _ => true
  | .pick id =>
    match c.stack with
    | .dead callbacks _ :: _ => callbacks.lookup id ≠ some .handshake
    | _ => true
  | .scheduled env =>
    match c.queue with
    | .failed (.first _) _ :: _ => env.binary
    | .failed (.retry a) _ :: _ => (c.timers a).tries < 25 || !(c.timers a).active
    | .connected _ _ :: _ => c.pipe.isNone
    | .chunk _ _ :: _ | .ended _ :: _ | .readError _ _ :: _ => false
    | _ => true
  | _ => true

/-- While a later attempt or a pipe is there, an event of an attempt that is over takes a branch
without harm, and no connect of one ever wins. -/
def undisturbed (c : Client) (e : Event) : Bool :=
  match e with
  | .connected _ _ => !c.stale e || c.harmless e
  | _ => !(c.stale e && c.held) || c.harmless e

end Client

open Client

variable {N : Neovim} {env : Surroundings} {c c' : Client} {e : Event}

/-- An event of an attempt that is over changes nothing that a later attempt, or a pipe, has. -/
def Inert (N : Neovim) (c : Client) (e : Event) : Prop :=
  c.stale e = true → c.held = true → ∀ c', step N c e = some c' → SameVars c c'

/-- The event calls `M.ensure`, as `M.request` does. -/
def Event.asks : Event → Bool
  | .act .ensure | .act (.request _ _) => true
  | _ => false

/-- The attempts of a run that are over stay over: none touches a later one, and after a stop the
client does not become ready unless it is asked to. -/
structure StaysOver (N : Neovim) (es : List Event) : Prop where
  inert : Along (step N) (Inert N) .new es
  stopped : ∀ before after c, es = before ++ .act .stop :: after →
    (∀ e ∈ after, e.asks = false) → run (step N) .new es = some c → c.ready = false

lemma SameVars.trans {c'' : Client} (h : SameVars c c') (h' : SameVars c' c'') : SameVars c c'' :=
  ⟨h'.pipe.trans h.pipe, h'.ready.trans h.ready, h'.connecting.trans h.connecting,
    h'.readTail.trans h.readTail, h'.pending.trans h.pending, h'.waiters.trans h.waiters⟩

lemma sameVars_tryConnect (u : Purpose) (made : Bool) : SameVars c (c.tryConnect u made) := by
  unfold tryConnect
  split <;> exact ⟨rfl, rfl, rfl, rfl, rfl, rfl⟩

lemma sameVars_resume (hstale : c.stale (.resume env) = true)
    (hharm : c.harmless (.resume env) = true) (h : c.resume N env = some c') : SameVars c c' := by
  cases resumed h with
  | told r rest hs | tell w ws r rest hs | reading rest hs => simp [stale, hs] at hstale
  | dead err rest hs =>
    have hnil : c.waiters = [] := by simpa [harmless, hs] using hharm
    exact ⟨rfl, rfl, rfl, rfl, rfl, hnil.symm⟩
  | refused a rest e hs hvet =>
    simp [harmless, hs, hvet, Except.isOk, Except.toBool] at hharm
  | dial a rest =>
    have hpop : SameVars c { c with stack := rest } := ⟨rfl, rfl, rfl, rfl, rfl, rfl⟩
    exact hpop.trans (sameVars_tryConnect _ _)
  | vetted | mkdir | spawn => exact ⟨rfl, rfl, rfl, rfl, rfl, rfl⟩
  | untimed a rest hs htimer => simp [harmless, hs, htimer] at hharm

lemma sameVars_pick {id : ℕ} (hharm : c.harmless (.pick id) = true) (h : c.pick N id = some c') :
    SameVars c c' := by
  obtain ⟨callbacks, err, rest, hd, hs, hl, rfl⟩ := pick_cases h
  cases hd with
  | handshake => simp [harmless, hs, hl] at hharm
  | request k => exact ⟨rfl, rfl, rfl, rfl, rfl, rfl⟩

lemma sameVars_scheduled {t : Task} {queue : List Task} (hq : c.queue = t :: queue)
    (hharm : c.harmless (.scheduled env) = true) :
    SameVars c (({ c with queue } : Client).perform env t) := by
  cases t with
  | failed u surplus =>
    cases u with
    | first a =>
      have hbin : env.binary = true := by simpa [harmless, hq] using hharm
      simp only [perform, hbin, if_true]
      exact ⟨rfl, rfl, rfl, rfl, rfl, rfl⟩
    | retry a =>
      simp only [harmless, hq] at hharm
      simp only [perform]
      split
      · rename_i htries
        simp [htries.2] at hharm
        omega
      · exact ⟨rfl, rfl, rfl, rfl, rfl, rfl⟩
  | connected p u =>
    have hnone : c.pipe = none := by simpa [harmless, hq] using hharm
    cases u with
    | first a | retry a =>
      simp only [perform, onConnected, hnone]
      exact ⟨hnone.symm ▸ rfl, rfl, rfl, rfl, rfl, rfl⟩
  | chunk p bytes | ended p | readError p err => simp [harmless, hq] at hharm
  | retry a =>
    simp only [perform]
    split
    · exact ⟨rfl, rfl, rfl, rfl, rfl, rfl⟩
    · have htail : SameVars c { c with queue } := ⟨rfl, rfl, rfl, rfl, rfl, rfl⟩
      exact htail.trans (sameVars_tryConnect _ _)

lemma sameVars_step (hstale : c.stale e = true) (hharm : c.harmless e = true)
    (h : step N c e = some c') : SameVars c c' := by
  rcases step_cases h with ⟨a, rfl, -, -⟩ | ⟨env, rfl, hres⟩ | ⟨id, rfl, hpick⟩ | ⟨-, hloop⟩
  · cases hstale
  · exact sameVars_resume hstale hharm hres
  · exact sameVars_pick hharm hpick
  · cases looped hloop with
    | connected p u hu hp hpipe => simp [harmless, hpipe] at hharm
    | failed | arrive | finish | fail | tick => exact ⟨rfl, rfl, rfl, rfl, rfl, rfl⟩
    | scheduled env t queue hq => exact sameVars_scheduled hq hharm

/-! ### After a stop -/

/-- The client has been stopped: every attempt has been torn down, and no handshake is on. -/
structure Stopped (c : Client) : Prop where
  pipe : c.pipe = none
  ready : c.ready = false
  torn : c.torn = c.attempts
  pending : ∀ id, (id, .handshake) ∉ c.pending

lemma stopped_teardown (err : Json) : Stopped (c.teardown err) :=
  ⟨rfl, rfl, rfl, fun _ hmem => by cases hmem⟩

lemma stopped_tell {guarded : Bool} {w : Waiter} {r : Except Json Unit} (h : Stopped c) :
    Stopped (c.tell guarded w r) := by
  cases w with
  | ensure k => exact ⟨h.pipe, h.ready, h.torn, h.pending⟩
  | request k method params =>
    cases r with
    | error e => exact ⟨h.pipe, h.ready, h.torn, h.pending⟩
    | ok u =>
      refine ⟨h.pipe, h.ready, h.torn, fun id hmem => ?_⟩
      rcases List.mem_append.mp hmem with hmem | hmem
      · exact h.pending id hmem
      · cases List.mem_singleton.mp hmem

lemma stopped_onRead {rest : List Frame} (h : Stopped c) : Stopped (c.onRead N rest) := by
  unfold onRead
  split
  · exact ⟨h.pipe, h.ready, h.torn, h.pending⟩
  · have htail : ∀ tail, Stopped { c with readTail := tail } := fun _ =>
      ⟨h.pipe, h.ready, h.torn, h.pending⟩
    simp only
    split
    · exact htail _
    · unfold onMessage
      split
      · split
        · exact htail _
        · rename_i id _
          split
          · exact htail _
          · rename_i hd hl
            have hsub : ∀ i, (i, .handshake) ∉ (c.forget id).pending := fun i hmem =>
              h.pending i (List.mem_of_mem_eraseP hmem)
            cases hd with
            | handshake => exact absurd (mem_of_lookup hl) (h.pending id)
            | request k => exact ⟨h.pipe, h.ready, h.torn, hsub⟩
      · split
        · split
          · exact ⟨h.pipe, h.ready, h.torn, h.pending⟩
          · exact htail _
        · exact htail _

lemma stopped_tryConnect {u : Purpose} {made : Bool} (h : Stopped c) :
    Stopped (c.tryConnect u made) := by
  unfold tryConnect
  split <;> exact ⟨h.pipe, h.ready, h.torn, h.pending⟩

lemma stopped_perform {t : Task} (h : Stopped c) : Stopped (c.perform env t) := by
  have hidle : c.onConnected = c := by
    unfold onConnected
    rw [h.pipe]
  cases t with
  | failed u surplus =>
    cases u with
    | first a =>
      simp only [perform]
      split
      · exact ⟨h.pipe, h.ready, h.torn, h.pending⟩
      · exact stopped_teardown _
    | retry a =>
      simp only [perform]
      split
      · exact stopped_teardown _
      · exact h
  | connected p u =>
    cases u with
    | first a =>
      simp only [perform, hidle]
      exact h
    | retry a =>
      simp only [perform, hidle]
      exact ⟨h.pipe, h.ready, h.torn, h.pending⟩
  | chunk p bytes => exact ⟨h.pipe, h.ready, h.torn, h.pending⟩
  | ended p | readError p err => exact stopped_teardown _
  | retry a =>
    simp only [perform]
    split
    · exact h
    · exact stopped_tryConnect h

lemma stopped_resume (h : Stopped c) (hres : c.resume N env = some c') : Stopped c' := by
  have hstack : ∀ fs, Stopped { c with stack := fs } := fun _ =>
    ⟨h.pipe, h.ready, h.torn, h.pending⟩
  cases resumed hres with
  | told | vetted | mkdir => exact hstack _
  | tell w ws r rest => exact stopped_tell (hstack _)
  | dead | spawn => exact ⟨h.pipe, h.ready, h.torn, h.pending⟩
  | reading rest => exact stopped_onRead h
  | refused | untimed => exact stopped_teardown _
  | dial a rest => exact stopped_tryConnect (hstack _)

lemma stopped_pick {id : ℕ} (h : Stopped c) (hpick : c.pick N id = some c') : Stopped c' := by
  obtain ⟨callbacks, err, rest, hd, -, -, rfl⟩ := pick_cases hpick
  cases hd with
  | handshake =>
    -- The callback of a handshake that is told of an error tears the client down again.
    exact stopped_teardown _
  | request k => exact ⟨h.pipe, h.ready, h.torn, h.pending⟩

lemma gonePipe_of_stopped (h : Stopped c) (hb : c.Bounded) {p : ℕ} {u : Purpose}
    (hp : c.dials[p]? = some u) : c.gonePipe p = true := by
  have hlt := hb.dials u (List.mem_of_getElem? hp)
  simp [gonePipe, hp, gone, h.torn, hlt]

lemma stopped_loop (h : Stopped c) (hb : c.Bounded) (hu : c.undisturbed e = true)
    (hloop : loop c e = some c') : Stopped c' := by
  cases looped hloop with
  | connected p u hp hconnecting hpipe =>
    have hharm : c.harmless (.connected p false) = true := by
      simpa [undisturbed, stale, gonePipe_of_stopped h hb hp] using hu
    simp [harmless, hpipe] at hharm
  | failed | arrive | finish | fail | tick => exact ⟨h.pipe, h.ready, h.torn, h.pending⟩
  | scheduled env t queue =>
    have htail : Stopped { c with queue } := ⟨h.pipe, h.ready, h.torn, h.pending⟩
    exact stopped_perform htail

lemma stopped_doAct {a : Act} (h : Stopped c) (ha : Event.asks (.act a) = false)
    (hact : doAct c a = some c') : Stopped c' := by
  cases a with
  | ensure | request => cases ha
  | on method =>
    cases hact
    exact ⟨h.pipe, h.ready, h.torn, h.pending⟩
  | stop =>
    cases hact
    exact stopped_teardown _
  | ret =>
    obtain ⟨guarded, rest, -, rfl⟩ := ret_cases hact
    exact ⟨h.pipe, h.ready, h.torn, h.pending⟩
  | raise =>
    obtain ⟨fs, -, rfl⟩ := Option.map_eq_some_iff.mp hact
    exact ⟨h.pipe, h.ready, h.torn, h.pending⟩

lemma stopped_step (h : Stopped c) (hb : c.Bounded) (ha : e.asks = false)
    (hu : c.undisturbed e = true) (hstep : step N c e = some c') : Stopped c' := by
  rcases step_cases hstep with ⟨a, rfl, -, hact⟩ | ⟨env, rfl, hres⟩ | ⟨id, rfl, hpick⟩ | ⟨-, hloop⟩
  · exact stopped_doAct h ha hact
  · exact stopped_resume h hres
  · exact stopped_pick h hpick
  · exact stopped_loop h hb hu hloop

lemma stopped_run {es : List Event} (h : Stopped c) (ht : c.Tried)
    (ha : ∀ e ∈ es, e.asks = false)
    (hu : Along (step N) (fun c e => c.undisturbed e = true) c es)
    (hrun : run (step N) c es = some c') : Stopped c' := by
  have hkeep : ∀ s e t, Stopped s ∧ s.Tried → (s.undisturbed e = true ∧ e.asks = false) →
      step N s e = some t → Stopped t ∧ t.Tried := fun s e t hs he hstep =>
    ⟨stopped_step hs.1 hs.2.toBounded he.2 he.1 hstep, tried_step hs.2 hstep⟩
  exact (run_inv hkeep ⟨h, ht⟩ (hu.and (along_of_forall fun e he _ => ha e he)) hrun).1

/-- In a run in which the events of the attempts that are over take the branches without harm, these
attempts stay over. -/
theorem staysOver_of_undisturbed {es : List Event}
    (hu : Along (step N) (fun c e => c.undisturbed e = true) .new es) : StaysOver N es where
  inert := by
    refine hu.mono fun c e he hstale hheld c' hstep => sameVars_step hstale ?_ hstep
    cases e <;> simpa [undisturbed, hstale, hheld] using he
  stopped before after c hes hasks hrun := by
    subst hes
    obtain ⟨d, hbefore, hrest⟩ := run_append_eq_some.mp hrun
    obtain ⟨d', hstop, hafter⟩ := run_cons_eq_some.mp hrest
    have hd' : Stopped d' := by
      rcases step_cases hstop with ⟨a, ha, -, hact⟩ | ⟨_, ha, -⟩ | ⟨_, ha, -⟩ | ⟨-, hloop⟩
      · cases ha
        cases hact
        exact stopped_teardown _
      · cases ha
      · cases ha
      · cases hloop
    have htail : Along (step N) (fun c e => c.undisturbed e = true) d' after := by
      have hrest' := hu.append_right hbefore
      exact ((along_cons hstop).mp hrest').2
    exact (stopped_run hd' (tried_step (tried_run hbefore) hstop) hasks htail hafter).ready

open Sample

/-- An attempt is called off while it connects, its waiter is told, and another one is begun. -/
def twoAttempts : List Event :=
  [.act .ensure, .resume fine, .resume fine, .act .stop, .resume fine, .resume fine, .act .ret,
    .resume fine, .act .ensure, .resume fine, .resume fine]

/-- The connect of the first attempt fails, and the timer it leaves ticks under the second one. -/
def overlapping : List Event :=
  twoAttempts ++
    [.connected 0 true, .scheduled fine, .resume fine, .resume fine, .connected 1 false,
    .scheduled fine, .tick 0, .scheduled fine, .act .stop]

theorem staysOver_overlapping : StaysOver neovim overlapping :=
  staysOver_of_undisturbed (by decide +kernel)

/-- The client is stopped while it connects. The connect goes through all the same, and so does the
handshake. -/
def stoppedConnecting : List Event :=
  [.act .ensure, .resume fine, .resume fine, .act .stop, .resume fine, .resume fine, .act .ret,
    .resume fine] ++ greet

theorem not_staysOver : ¬ ∀ es, StaysOver neovim es := by
  intro h
  have hend : (run (step neovim) .new stoppedConnecting).map (·.ready) = some true := by
    decide +kernel
  obtain ⟨c, hc, hready⟩ := Option.map_eq_some_iff.mp hend
  have hno := (h stoppedConnecting).stopped (stoppedConnecting.take 3) (stoppedConnecting.drop 4) c
    rfl (by decide) hc
  rw [hready] at hno
  cases hno

end LvimKeyring.EventLoop
