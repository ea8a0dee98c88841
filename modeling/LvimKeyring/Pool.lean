import Mathlib.Data.Finset.Card
import LvimKeyring.Daemon
import LvimKeyring.Sample

/-!
The pool of threads that requests are dispatched on.

A request that has been read is queued until a worker of the pool is free, and the worker is its
until the handler returns. A call that waits for an unlock is no different, so that enough of them
keep the unlock itself in the queue.
-/

namespace LvimKeyring.Pool

open Rpc Crypto Vault Server Daemon Transition

variable {Key : Type}

/-- A line of a client that has been read. -/
structure Request where
  client : ℕ
  id : ℕ
  method : String
  params : Json

structure State (Key : Type) where
  daemon : Daemon.State Key
  queue : List Request
  worker : ℕ → Option ℕ
  next : ℕ

inductive Action
  | connect
  | disconnect (c : ℕ)
  | submit (r : Request)
  | take (i : ℕ)
  /-- The idle timer, which is not on the pool. -/
  | tick
  | run (t : ℕ) (env : Env) (expired : Bool)
  | rouse (t : ℕ)

/-- The handler has returned; its answer may still have to be sent. -/
def returned : Pc Key → Bool
  | .idle | .respond _ => true
  | _ => false

def State.free (x : State Key) (i : ℕ) : Bool :=
  (x.worker i).all fun t => returned (x.daemon.pc t)

/-- A thread that has just been started. -/
def State.spawn (x : State Key) (origin : ℕ × ℕ) (p : Pc Key) : Daemon.State Key :=
  { x.daemon with origin := Function.update x.daemon.origin x.next origin }.withPc x.next p

section Step

variable (n : ℕ) (L : Packages Key) (cfg : Config)

/-- The steps of a pool of `n` workers. -/
def step (x : State Key) : Action → Option (State Key)
  | .connect => (Daemon.step L cfg x.daemon .connect).map fun d => { x with daemon := d }
  | .disconnect c => (Daemon.step L cfg x.daemon (.disconnect c)).map fun d =>
    { x with daemon := d }
  | .submit r =>
    if r.client ∈ x.daemon.shared.clients then some { x with queue := x.queue ++ [r] } else none
  | .take i =>
    match x.queue with
    | [] => none
    | r :: rest =>
      if i < n ∧ x.free i = true then
        some {
          daemon := x.spawn (r.client, r.id) (.dispatch r.method r.params)
          queue := rest
          worker := Function.update x.worker i (some x.next)
          next := x.next + 1 }
      else none
  | .tick => some { x with daemon := x.spawn (0, 0) .tickLocked, next := x.next + 1 }
  | .run t env expired =>
    (Daemon.step L cfg x.daemon (.run t env expired)).map fun d => { x with daemon := d }
  | .rouse t => (Daemon.step L cfg x.daemon (.rouse t)).map fun d => { x with daemon := d }

end Step

def start (Key : Type) (fs : FileSystem) (clock : ℕ) : State Key :=
  ⟨Daemon.start Key fs clock, [], fun _ => none, 0⟩

/-! ### Waiting for an unlock -/

/-- A thread is in `wait_for_unlock`. -/
def parked : Pc Key → Bool
  | .park _ | .signal _ | .capture _ | .recheck _ _ | .decide _ _ | .asleep _ _ | .woken _ _ => true
  | _ => false

/-- The requests that let go of those who wait, or may be followed by one that does. -/
def releasing : List String := ["vault.unlock", "vault.create", "vault.unlock_cancel", "vault.lock"]

/-- No worker is left for a request that would let the others go. -/
def Stuck (n : ℕ) (x : State Key) : Prop :=
  (∀ i < n, ∃ t, x.worker i = some t ∧ parked (x.daemon.pc t) = true) ∧
    ∃ r ∈ x.queue, r.method ∈ releasing

/-- What is asked of a pool of `n` workers. -/
def NeverStuck (n : ℕ) (L : Packages Key) (cfg : Config) : Prop :=
  ∀ fs clock as x, Transition.run (step n L cfg) (start Key fs clock) as = some x → ¬ Stuck n x

def waits : Call → Bool
  | .session wait _ => wait
  | _ => false

/-- The request waits when it finds the vault locked. -/
def mayWait (method : String) (params : Json) : Bool :=
  match prepare (fun _ => 0) method params with
  | .ok c => waits c
  | .error _ => false

/-- The thread is in `wait_for_unlock`, or on its way there. -/
def waiting : Pc Key → Bool
  | .dispatch method params => mayWait method params
  | .call c => waits c
  | p => parked p

def State.waits (x : State Key) (i : ℕ) : Bool :=
  (x.worker i).any fun t => waiting (x.daemon.pc t)

/-- The requests that may wait and have not got past it: those in the queue, and those that have a
worker. -/
def outstanding (n : ℕ) (x : State Key) : ℕ :=
  x.queue.countP (fun r => mayWait r.method r.params) + {i ∈ Finset.range n | x.waits i = true}.card

/-- A request that may wait is sent only if that leaves a worker for others. -/
def spares (n : ℕ) (x : State Key) : Action → Prop
  | .submit r => mayWait r.method r.params = true → outstanding n x + 1 < n
  | _ => True

variable {n : ℕ} {L : Packages Key} {cfg : Config} {env : Env} {x x' : State Key}

lemma waits_of_prepare {random : ℕ → UInt8} {method : String} {params : Json} {c : Call}
    (h : prepare random method params = .ok c) : waits c = mayWait method params := by
  have hmap : (prepare random method params).map waits
      = (prepare (fun _ => 0) method params).map waits := by
    unfold prepare
    split
    case h_13 =>
      simp only [prepareGenerate]
      split <;> rfl
    all_goals rfl
  rw [h] at hmap
  unfold mayWait
  cases hzero : prepare (fun _ => 0) method params with
  | ok c' =>
    rw [hzero] at hmap
    exact Except.ok.inj hmap
  | error e =>
    rw [hzero] at hmap
    cases hmap

section Sections

variable {sh sh' : Shared Key} {p p' : Pc Key} {expired : Bool} {t : ℕ} {origin : ℕ × ℕ}

lemma begin_waiting {c : Call} (h : begin L cfg env sh c = some (sh', p')) (hc : waits c = false) :
    waiting p' = false := by
  cases c with
  | session wait op =>
    have hwait : wait = false := hc
    simp only [begin, hwait] at h
    split at h <;> cases h <;> rfl
  | create password | unlock password | rotate old new =>
    simp only [begin] at h
    split at h <;> cases h <;> rfl
  | unlockCancel =>
    simp only [begin] at h
    split at h <;> cases h
    rfl
  | lock =>
    cases h
    split <;> rfl
  | hello | status | bare =>
    cases h
    rfl

lemma exec_waiting (h : p.exec L cfg env expired t origin sh = some (sh', p'))
    (hp : waiting p = false) : waiting p' = false := by
  cases p with
  | dispatch method params =>
    simp only [Pc.exec] at h
    split at h <;> cases h
    · rename_i hprepare
      exact (waits_of_prepare hprepare).trans hp
    · rfl
  | call c => exact begin_waiting h hp
  | park | signal | capture | recheck | decide | asleep | woken => cases hp
  | idle => cases h
  | createWrite password | rotateWrite current old new =>
    rcases afterWrite_cases (Option.some.inj h) with ⟨s, rfl⟩ | ⟨e, rfl⟩ <;> rfl
  | wake k => cases k <;> cases h <;> rfl
  | announceLocked timer | queryLocked locked ex entries | tickLocked | tickIdle | tickTake =>
    cases h
    split <;> rfl
  | querySummaries full locked ex =>
    cases h
    split
    · rfl
    · split <;> rfl
  | install | resetFails | announceUnlocked | unlockedSummaries | countFailure | wakeCancelled
  | access | queryExists | queryIdle | respond =>
    cases h
    rfl

lemma waiting_rouse (p : Pc Key) : waiting (rouse p) = waiting p := by
  cases p <;> rfl

lemma waiting_of_parked (h : parked p = true) : waiting p = true := by
  cases p <;> first | rfl | cases h

end Sections

lemma step_waiting {d d' : Daemon.State Key} {a : Daemon.Action}
    (ha : ∀ t c id method params, a ≠ .request t c id method params)
    (h : Daemon.step L cfg d a = some d') (u : ℕ) (hu : waiting (d.pc u) = false) :
    waiting (d'.pc u) = false := by
  cases stepped h with
  | request t c id method params => exact absurd rfl (ha t c id method params)
  | run t env expired =>
    obtain ⟨p, hexec, hself, hothers⟩ := step_run h
    by_cases hut : u = t
    · subst hut
      rw [hself]
      exact exec_waiting hexec hu
    · rw [hothers u hut]
      split
      · rw [waiting_rouse, hu]
      · exact hu
  | connect | disconnect => exact hu
  | tick t =>
    by_cases hut : u = t
    · simp [State.withPc, hut, waiting, parked]
    · simpa [State.withPc, hut] using hu
  | rouse t op start hpc =>
    have hut : u ≠ t := by
      rintro rfl
      rw [hpc] at hu
      cases hu
    simpa [State.withPc, hut] using hu

/-! ### The last worker -/

/-- A worker stays free of those who wait, and there are fewer of them than workers. -/
structure Spared (n : ℕ) (x : State Key) : Prop where
  fresh : ∀ i t, x.worker i = some t → t < x.next
  room : outstanding n x < n

lemma outstanding_le (hqueue : x'.queue = x.queue)
    (hwaits : ∀ i < n, x'.waits i = true → x.waits i = true) :
    outstanding n x' ≤ outstanding n x := by
  unfold outstanding
  rw [hqueue]
  refine Nat.add_le_add_left (Finset.card_le_card fun i hi => ?_) _
  rw [Finset.mem_filter] at hi ⊢
  exact ⟨hi.1, hwaits i (Finset.mem_range.mp hi.1) hi.2⟩

lemma spawn_pc (hfresh : ∀ i t, x.worker i = some t → t < x.next) (origin : ℕ × ℕ) (p : Pc Key)
    {i t : ℕ} (h : x.worker i = some t) : (x.spawn origin p).pc t = x.daemon.pc t := by
  have hne : t ≠ x.next := (hfresh i t h).ne
  simp [State.spawn, State.withPc, hne]

lemma spared_daemon {d : Daemon.State Key} {a : Daemon.Action} (h : Spared n x)
    (ha : ∀ t c id method params, a ≠ .request t c id method params)
    (hstep : Daemon.step L cfg x.daemon a = some d) : Spared n { x with daemon := d } := by
  have hle : outstanding n { x with daemon := d } ≤ outstanding n x := by
    refine outstanding_le rfl fun i _ hi => ?_
    obtain ⟨t, ht, hwaiting⟩ := (Option.any_eq_true _ _).mp hi
    refine (Option.any_eq_true _ _).mpr ⟨t, ht, ?_⟩
    by_contra hnot
    have hstill := step_waiting ha hstep t (Bool.eq_false_iff.mpr hnot)
    exact Bool.false_ne_true (hstill.symm.trans hwaiting)
  exact ⟨h.fresh, hle.trans_lt h.room⟩

lemma spared_tick (h : Spared n x) :
    Spared n { x with daemon := x.spawn (0, 0) .tickLocked, next := x.next + 1 } := by
  have hle : outstanding n { x with daemon := x.spawn (0, 0) .tickLocked, next := x.next + 1 }
      ≤ outstanding n x := by
    refine outstanding_le rfl fun i _ hi => ?_
    obtain ⟨t, ht, hwaiting⟩ := (Option.any_eq_true _ _).mp hi
    refine (Option.any_eq_true _ _).mpr ⟨t, ht, ?_⟩
    rw [← hwaiting]
    exact congrArg waiting (spawn_pc h.fresh _ _ ht).symm
  exact ⟨fun i t hi => Nat.lt_succ_of_lt (h.fresh i t hi), hle.trans_lt h.room⟩

/-- A request that is taken leaves the queue and is with its worker. -/
lemma spared_take {i : ℕ} {r : Request} {rest : List Request} (h : Spared n x)
    (hqueue : x.queue = r :: rest) :
    Spared n {
      daemon := x.spawn (r.client, r.id) (.dispatch r.method r.params)
      queue := rest
      worker := Function.update x.worker i (some x.next)
      next := x.next + 1 } := by
  set x' : State Key := {
    daemon := x.spawn (r.client, r.id) (.dispatch r.method r.params)
    queue := rest
    worker := Function.update x.worker i (some x.next)
    next := x.next + 1 } with hx'
  have hself : x'.waits i = mayWait r.method r.params := by
    simp [hx', State.waits, State.spawn, State.withPc, waiting]
  -- The thread that is started is a new one, so no other worker can have it.
  have hothers : ∀ j, j ≠ i → x'.waits j = true → x.waits j = true := by
    intro j hji hj
    simp only [hx', State.waits, Function.update_of_ne hji] at hj
    obtain ⟨t, ht, hwaiting⟩ := (Option.any_eq_true _ _).mp hj
    refine (Option.any_eq_true _ _).mpr ⟨t, ht, ?_⟩
    rw [← spawn_pc h.fresh _ _ ht]
    exact hwaiting
  refine ⟨fun j t hj => ?_, ?_⟩
  · show t < x.next + 1
    by_cases hji : j = i
    · have hnext : x.next = t := by simpa [hx', hji] using hj
      omega
    · have hold : x.worker j = some t := by simpa [hx', hji] using hj
      exact Nat.lt_succ_of_lt (h.fresh j t hold)
  · refine lt_of_le_of_lt ?_ h.room
    have hcount : x.queue.countP (fun r => mayWait r.method r.params) =
        rest.countP
          (fun r => mayWait r.method r.params) + if mayWait r.method r.params then 1 else 0 := by
      rw [hqueue, List.countP_cons]
    unfold outstanding
    rw [hcount]
    by_cases hwait : mayWait r.method r.params = true
    · -- The request is counted with its worker now.
      have hsubset : ({j ∈ Finset.range n | x'.waits j = true} : Finset ℕ) ⊆
          insert i {j ∈ Finset.range n | x.waits j = true} := by
        intro j hj
        rw [Finset.mem_filter] at hj
        rw [Finset.mem_insert, Finset.mem_filter]
        by_cases hji : j = i
        · exact .inl hji
        · exact .inr ⟨hj.1, hothers j hji hj.2⟩
      have hcard := (Finset.card_le_card hsubset).trans (Finset.card_insert_le _ _)
      rw [if_pos hwait]
      show rest.countP _ + _ ≤ _
      omega
    · have hsubset : ({j ∈ Finset.range n | x'.waits j = true} : Finset ℕ) ⊆
          {j ∈ Finset.range n | x.waits j = true} := by
        intro j hj
        rw [Finset.mem_filter] at hj ⊢
        refine ⟨hj.1, hothers j (fun hji => hwait ?_) hj.2⟩
        rw [← hself, ← hji]
        exact hj.2
      have hcard := Finset.card_le_card hsubset
      rw [if_neg hwait]
      show rest.countP _ + _ ≤ _
      omega

lemma spared_step {a : Action} (h : Spared n x) (ha : spares n x a)
    (hstep : step n L cfg x a = some x') : Spared n x' := by
  cases a with
  | connect =>
    cases hstep
    exact spared_daemon h (fun _ _ _ _ _ heq => by cases heq)
      (rfl : Daemon.step L cfg x.daemon .connect = some _)
  | disconnect c =>
    obtain ⟨d, hd, rfl⟩ := Option.map_eq_some_iff.mp hstep
    exact spared_daemon h (fun _ _ _ _ _ heq => by cases heq) hd
  | run t env expired =>
    obtain ⟨d, hd, rfl⟩ := Option.map_eq_some_iff.mp hstep
    exact spared_daemon h (fun _ _ _ _ _ heq => by cases heq) hd
  | rouse t =>
    obtain ⟨d, hd, rfl⟩ := Option.map_eq_some_iff.mp hstep
    exact spared_daemon h (fun _ _ _ _ _ heq => by cases heq) hd
  | tick =>
    cases hstep
    exact spared_tick h
  | take i =>
    simp only [step] at hstep
    split at hstep
    · cases hstep
    · rename_i r rest hqueue
      split at hstep <;> cases hstep
      exact spared_take h hqueue
  | submit r =>
    simp only [step] at hstep
    split at hstep <;> cases hstep
    -- A request that may wait needs room in the queue, which `spares` asks for.
    refine ⟨h.fresh, ?_⟩
    have hcount : outstanding n { x with queue := x.queue ++ [r] } =
        outstanding n x + if mayWait r.method r.params then 1 else 0 := by
      unfold outstanding
      rw [List.countP_append, List.countP_singleton]
      exact Nat.add_right_comm _ _ _
    rw [hcount]
    split
    · rename_i hwait
      exact ha hwait
    · exact h.room

/-- When every request that may wait leaves a worker for others, an unlock finds a worker that does
not wait for it. -/
theorem neverStuck_of_spared {fs : FileSystem} {clock : ℕ} {as : List Action} (hn : 0 < n)
    (hG : Along (step n L cfg) (spares n) (start Key fs clock) as)
    (hrun : Transition.run (step n L cfg) (start Key fs clock) as = some x) : ¬ Stuck n x := by
  have hstart : Spared n (start Key fs clock) := by
    refine ⟨fun i t h => (by cases h), ?_⟩
    have hnone : outstanding n (start Key fs clock) = 0 := by
      simp [outstanding, start, State.waits]
    rw [hnone]
    exact hn
  have hspared : Spared n x := run_inv (fun _ _ _ h ha ht => spared_step h ha ht) hstart hG hrun
  rintro ⟨hheld, -⟩
  have hall : ({i ∈ Finset.range n | x.waits i = true} : Finset ℕ) = Finset.range n := by
    refine Finset.filter_true_of_mem fun i hi => ?_
    obtain ⟨t, ht, hparked⟩ := hheld i (Finset.mem_range.mp hi)
    exact (Option.any_eq_true _ _).mpr ⟨t, ht, waiting_of_parked hparked⟩
  have hroom := hspared.room
  rw [outstanding, hall, Finset.card_range] at hroom
  omega

instance (a : Action) : Decidable (spares n x a) := by
  cases a <;> unfold spares <;> infer_instance

/-- Two workers: one waits, and the other takes the unlock. -/
def shared : List Action :=
  [.connect, .submit ⟨1, 1, "secret.list", .null⟩, .take 0] ++
    List.replicate 7 (.run 0 Sample.env false) ++
    [.submit ⟨1, 2, "vault.unlock", .obj [("password", .str "p")]⟩]

theorem neverStuck_of_spared_shared : ∃ x,
    Transition.run (step 2 Sample.packages Sample.config)
      (start Sample.Key (fun _ => none) 0) shared
      = some x ∧ ¬ Stuck 2 x := by
  have hsome : (Transition.run (step 2 Sample.packages Sample.config)
      (start Sample.Key (fun _ => none) 0) shared).isSome = true := by
    decide +kernel
  obtain ⟨x, hx⟩ := Option.isSome_iff_exists.mp hsome
  exact ⟨x, hx, neverStuck_of_spared (by decide) (by decide +kernel) hx⟩

/-! ### As many waits as workers -/

section Filling

variable {d : Daemon.State Key} {t : ℕ} {p p' : Pc Key} {sh sh' : Shared Key}

lemma run_section (hpc : d.pc t = p)
    (hexec : p.exec L cfg env false t (d.origin t) d.shared = some (sh, p'))
    (hnotifies : p.notifies = false) :
    Daemon.step L cfg d (.run t env false) =
      some { d with shared := sh, pc := Function.update d.pc t p' } := by
  simp only [Daemon.step, hpc, hexec, hnotifies, Bool.false_eq_true, if_false]

lemma run_turn (hexec : p.exec L cfg env false t (d.origin t) sh = some (sh', p'))
    (hnotifies : p.notifies = false) :
    Daemon.step L cfg { d with shared := sh, pc := Function.update d.pc t p } (.run t env false) =
      some { d with shared := sh', pc := Function.update d.pc t p' } := by
  have hturn := run_section (d := { d with shared := sh, pc := Function.update d.pc t p })
    (Function.update_self t p d.pc) hexec hnotifies
  rw [hturn, Function.update_idem]

/-- A request comes to sleep in a vault that stays locked. -/
lemma run_asleep {method : String} {params : Json} {op : Op}
    (hpc : d.pc t = .dispatch method params)
    (hprepare : prepare env.random method params = .ok (.session true op))
    (hlocked : d.shared.session = none) (hfree : d.shared.holder = none) :
    ∃ d' start,
      Transition.run (Daemon.step L cfg) d (List.replicate 7 (.run t env false)) = some d' ∧
      d'.pc = Function.update d.pc t (.asleep op start) ∧ d'.shared.session = none ∧
      d'.shared.holder = none ∧ d'.shared.clients = d.shared.clients := by
  -- The seven sections of a call that finds the vault locked, up to its sleep.
  have hdispatch : ∃ sh, Pc.exec L cfg env false t (d.origin t) d.shared (.dispatch method params)
      = some (sh, .call (.session true op)) ∧ sh.world.inner.session = none ∧ sh.holder = none ∧
        sh.clients = d.shared.clients := by
    simp only [Pc.exec, hprepare]
    refine ⟨_, rfl, ?_, ?_, ?_⟩
    · split <;> exact hlocked
    · split <;> exact hfree
    · split <;> rfl
  obtain ⟨sh, hexec, hsession, hholder, hclients⟩ := hdispatch
  refine ⟨{ d with
    shared := ((sh.broadcast .unlockNeeded).hold (some t)).hold none
    pc := Function.update d.pc t (.asleep op sh.gen) }, sh.gen, ?_, rfl, hsession, rfl, hclients⟩
  have hcall : Pc.exec L cfg env false t (d.origin t) sh (.call (.session true op))
      = some (sh, .park op) := by
    simp [Pc.exec, begin, Shared.session, hsession]
  have hpark : Pc.exec L cfg env false t (d.origin t) sh (.park op) = some (sh, .signal op) := by
    simp [Pc.exec, Shared.session, hsession]
  have hcapture : Pc.exec L cfg env false t (d.origin t) (sh.broadcast .unlockNeeded) (.capture op)
      = some ((sh.broadcast .unlockNeeded).hold (some t), .recheck op sh.gen) := by
    simp [Pc.exec, Shared.broadcast, Shared.gen, hholder]
  have hrecheck :
      Pc.exec L cfg env false t (d.origin t) ((sh.broadcast .unlockNeeded).hold (some t))
      (.recheck op sh.gen)
      = some ((sh.broadcast .unlockNeeded).hold (some t), .decide op sh.gen) := by
    simp [Pc.exec, Shared.session, Shared.broadcast, Shared.hold, hsession]
  have hdecide : Pc.exec L cfg env false t (d.origin t) ((sh.broadcast .unlockNeeded).hold (some t))
      (.decide op sh.gen)
      = some (((sh.broadcast .unlockNeeded).hold (some t)).hold none, .asleep op sh.gen) := by
    simp [Pc.exec, Shared.gen, Shared.broadcast, Shared.hold]
  refine run_cons_eq_some.mpr ⟨_, run_section hpc hexec rfl, ?_⟩
  refine run_cons_eq_some.mpr ⟨_, run_turn hcall rfl, ?_⟩
  refine run_cons_eq_some.mpr ⟨_, run_turn hpark rfl, ?_⟩
  refine run_cons_eq_some.mpr ⟨_, run_turn rfl rfl, ?_⟩
  refine run_cons_eq_some.mpr ⟨_, run_turn hcapture rfl, ?_⟩
  refine run_cons_eq_some.mpr ⟨_, run_turn hrecheck rfl, ?_⟩
  exact run_cons_eq_some.mpr ⟨_, run_turn hdecide rfl, rfl⟩

lemma run_replicate {env : Env} {k : ℕ} {d' : Daemon.State Key}
    (h : Transition.run (Daemon.step L cfg) d (List.replicate k (.run t env false)) = some d') :
    Transition.run (step n L cfg) { x with daemon := d } (List.replicate k (.run t env false))
      = some { x with daemon := d' } := by
  induction k generalizing d with
  | zero =>
    cases h
    rfl
  | succ k ih =>
    obtain ⟨d₁, hstep, hrest⟩ := run_cons_eq_some.mp h
    refine run_cons_eq_some.mpr ⟨{ x with daemon := d₁ }, ?_, ih hrest⟩
    simp only [step, hstep, Option.map_some]

end Filling

/-- The first workers sleep, and the others have taken nothing yet. -/
structure Filled (k : ℕ) (x : State Key) : Prop where
  queue : x.queue = []
  next : x.next = k
  worker : ∀ i, x.worker i = if i < k then some i else none
  parked : ∀ i < k, parked (x.daemon.pc i) = true
  locked : x.daemon.shared.session = none
  holder : x.daemon.shared.holder = none
  client : 1 ∈ x.daemon.shared.clients

def listing : Request := ⟨1, 1, "secret.list", .null⟩

variable (L cfg) in
/-- The next worker takes a request that waits. -/
lemma filled_succ {k : ℕ} (h : Filled k x) (hk : k < n) (env : Env) :
    ∃ as x', Transition.run (step n L cfg) x as = some x' ∧ Filled (k + 1) x' := by
  have hfree : x.worker k = none := by rw [h.worker, if_neg (lt_irrefl k)]
  let taken : State Key := {
    daemon := x.spawn (1, 1) (.dispatch "secret.list" .null)
    queue := []
    worker := Function.update x.worker k (some x.next)
    next := x.next + 1 }
  have hpc : taken.daemon.pc k = .dispatch "secret.list" .null := by
    rw [← h.next]
    exact Function.update_self _ _ _
  obtain ⟨d, start, hrun, hd, hlocked, hholder, hclients⟩ :=
    run_asleep (L := L) (d := taken.daemon) hpc (rfl : prepare env.random _ _ = _) h.locked h.holder
  refine ⟨[.submit listing, .take k] ++ List.replicate 7 (.run k env false),
    { taken with daemon := d },
    run_append_eq_some.mpr ⟨taken, ?_, run_replicate (x := taken) hrun⟩, ?_⟩
  · simp [Transition.run, step, listing, h.client, h.queue, hk, State.free, hfree, taken,
      State.spawn]
  · refine ⟨rfl, congrArg (· + 1) h.next, fun i => ?_, fun i hi => ?_, hlocked, hholder, ?_⟩
    · show Function.update x.worker k (some x.next) i = _
      by_cases hik : i = k
      · subst hik
        rw [Function.update_self, if_pos (Nat.lt_succ_self i), h.next]
      · rw [Function.update_of_ne hik, h.worker]
        have hiff : i < k + 1 ↔ i < k := by omega
        simp only [hiff]
    · show parked (d.pc i) = true
      rw [hd]
      by_cases hik : i = k
      · rw [hik, Function.update_self]
        rfl
      · rw [Function.update_of_ne hik]
        have hi' : i < k := by omega
        have hne : i ≠ x.next := by rw [h.next]; exact hik
        have hold : taken.daemon.pc i = x.daemon.pc i := Function.update_of_ne hne _ _
        rw [hold]
        exact h.parked i hi'
    · rw [hclients]
      exact h.client

lemma exists_stuck (n : ℕ) (L : Packages Key) (cfg : Config) (env : Env) (fs : FileSystem) :
    ∃ as x, Transition.run (step n L cfg) (start Key fs 0) as = some x ∧ Stuck n x := by
  have hfill : ∀ k ≤ n, ∃ as x, Transition.run (step n L cfg) (start Key fs 0) as = some x ∧
      Filled k x := by
    intro k hk
    induction k with
    | zero =>
      refine ⟨[.connect], _, rfl, rfl, rfl, fun i => ?_, fun i hi => absurd hi i.not_lt_zero,
        rfl, rfl,
        List.mem_cons_self⟩
      rw [if_neg i.not_lt_zero]
      rfl
    | succ k ih =>
      obtain ⟨as, x, hrun, hfilled⟩ := ih (Nat.le_of_succ_le hk)
      obtain ⟨bs, x', hrest, hfilled'⟩ := filled_succ L cfg hfilled hk env
      exact ⟨as ++ bs, x', run_append_eq_some.mpr ⟨x, hrun, hrest⟩, hfilled'⟩
  obtain ⟨as, x, hrun, h⟩ := hfill n le_rfl
  let r : Request := ⟨1, 2, "vault.unlock", .obj [("password", .str "p")]⟩
  refine ⟨as ++ [.submit r], { x with queue := x.queue ++ [r] },
    run_append_eq_some.mpr ⟨x, hrun, ?_⟩, fun i hi => ?_, r, ?_, ?_⟩
  · simp [Transition.run, step, r, h.client]
  · exact ⟨i, (h.worker i).trans (if_pos hi), h.parked i hi⟩
  · simp
  · decide

/-- The pool has 512 workers unless it is told otherwise. -/
theorem not_neverStuck : ¬ NeverStuck 512 Sample.packages Sample.config := by
  intro h
  obtain ⟨as, x, hrun, hstuck⟩ :=
    exists_stuck 512 Sample.packages Sample.config Sample.env fun _ => none
  exact h _ _ as x hrun hstuck

end LvimKeyring.Pool
