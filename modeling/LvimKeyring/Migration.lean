import LvimKeyring.Lib.ListUpdate
import LvimKeyring.Cancel

/-!
Moving plaintext secrets into the wallet: `M.migrate` and the import wizard.

Both list the names that are there and send one `secret.set` for each candidate whose name is
not. The agent reads the requests in any order and serves each in a thread of its own, among
those of other clients; an answer comes back some time after, or is lost with the connection.
-/

namespace LvimKeyring.Migration

open Rpc Params Crypto Vault Server Daemon Parking Transition Result ListUpdate

variable {Key : Type}

/-! ### The client -/

/-- A plaintext secret, with the `meta` table it may come with. -/
structure Candidate where
  name : String
  value : String
  info : Option Json

/-- The parameters of `M.set`. -/
def Candidate.params (c : Candidate) : Json :=
  .obj ([("name", .str c.name), ("value", .str c.value)] ++ optField "meta" id c.info)

/-- What is reported of the candidates, by their names. -/
structure Outcome where
  stored : List String
  skipped : List String
  failed : List String
  deriving DecidableEq

def Outcome.none : Outcome := ⟨[], [], []⟩

inductive Verdict
  | stored
  | skipped
  | failed
  deriving DecidableEq

def Outcome.insert (o : Outcome) (name : String) : Verdict → Outcome
  | .stored => { o with stored := o.stored ++ [name] }
  | .skipped => { o with skipped := o.skipped ++ [name] }
  | .failed => { o with failed := o.failed ++ [name] }

def Outcome.names (o : Outcome) : List String := o.stored ++ o.skipped ++ o.failed

/-- The two loops. -/
inductive Flow
  | migrate
  | importRun
  deriving DecidableEq

inductive Phase
  | fresh
  /-- `ensure_unlocked`: the state is asked for, and the prompt is up when it is locked. -/
  | unlocking
  | confirming
  | listing
  | storing
  | over
  deriving DecidableEq

/-- One `secret.set` that has been sent. -/
structure Job where
  candidate : Candidate
  /-- The thread that serves the request, once the agent has read it. -/
  thread : Option ℕ
  answer : Option (Except Err Reply)
  /-- What its callback has been told: that it went well, or not. -/
  told : Option Bool

def Candidate.job (c : Candidate) : Job := ⟨c, none, none, none⟩

structure Client where
  phase : Phase
  lister : Option ℕ
  listed : Option (Except Err Reply)
  jobs : List Job
  outcome : Outcome
  pending : ℕ
  /-- The calls of the final callback; of the import, its reports. -/
  calls : List (Except String Outcome)

def Client.new : Client := ⟨.fresh, none, none, [], .none, 0, []⟩

/-- A candidate is done with. `M.migrate` counts down, the import compares its counters with
the number of entries. -/
def Client.settle (flow : Flow) (total : ℕ) (c : Client) (name : String) (v : Verdict) : Client :=
  let outcome := c.outcome.insert name v
  match flow with
  | .migrate =>
    let pending := c.pending - 1
    { c with outcome, pending, calls := if pending = 0 then c.calls ++ [.ok outcome] else c.calls }
  | .importRun =>
    { c with
      outcome
      calls := if outcome.names.length = total then c.calls ++ [.ok outcome] else c.calls }

/-- The loop over the candidates, the names present being known. A request may fail on the
spot, which `fails` says of the candidate with so many after it. -/
def Client.store (flow : Flow) (total : ℕ) (present : List String) (fails : ℕ → Bool)
    (c : Client) : List Candidate → Client
  | [] => c
  | e :: es =>
    let c :=
      if e.name ∈ present then c.settle flow total e.name .skipped
      else if fails es.length then c.settle flow total e.name .failed
      else { c with jobs := c.jobs ++ [e.job] }
    c.store flow total present fails es

/-- The names of `existing or {}`: none when the list request is answered with an error. -/
def existing : Except Err Reply → List String
  | .ok (.listing l) => l.map (·.name)
  | _ => []

/-- The list of the names that are there has come, or its request has failed. -/
def Client.gotList (flow : Flow) (candidates : List Candidate) (present : List String)
    (fails : ℕ → Bool) (c : Client) : Client :=
  ({ c with phase := .storing, pending := candidates.length } : Client).store flow candidates.length
    present fails candidates

def Client.begin (flow : Flow) (candidates : List Candidate) (c : Client) : Client :=
  match flow, candidates with
  | .migrate, [] => { c with phase := .over, calls := c.calls ++ [.ok .none] }
  | .migrate, _ :: _ => { c with phase := .unlocking }
  | .importRun, [] => { c with phase := .over }
  | .importRun, _ :: _ => { c with phase := .confirming }

/-- `ensure_unlocked` calls back. -/
def Client.ensured (flow : Flow) (ok : Bool) (err : Option String) (c : Client) : Client :=
  match flow, ok with
  | .migrate, true => { c with phase := .confirming }
  | .migrate, false => { c with phase := .over, calls := c.calls ++ [.error (err.getD "locked")] }
  | .importRun, true => { c with phase := .listing }
  | .importRun, false =>
    { c with
      phase := .over
      calls := match err.filter (· ≠ "") with
        | some e => c.calls ++ [.error e]
        | none => c.calls }

def Client.confirmed (flow : Flow) (yes : Bool) (c : Client) : Client :=
  match flow, yes with
  | .migrate, true => { c with phase := .listing }
  | .migrate, false => { c with phase := .over, calls := c.calls ++ [.error "cancelled"] }
  | .importRun, true => { c with phase := .unlocking }
  | .importRun, false => { c with phase := .over }

/-- The thread serves the request and has not answered it. -/
def Job.servedBy (j : Job) (t : ℕ) : Bool := j.thread = some t && j.answer.isNone

def Job.hear (t : ℕ) (r : Except Err Reply) (j : Job) : Job :=
  if j.servedBy t then { j with answer := some r } else j

/-- Thread `t` answers. -/
def Client.hear (t : ℕ) (r : Except Err Reply) (c : Client) : Client :=
  { c with
    listed := if c.lister = some t ∧ c.listed.isNone then some r else c.listed
    jobs := c.jobs.map (Job.hear t r) }

/-- The agent reads a request. -/
def Client.startSet (i t : ℕ) (c : Client) : Client :=
  { c with jobs := c.jobs.modify i fun j => { j with thread := some t } }

/-- The callback of a `secret.set`. -/
def Client.tell (flow : Flow) (total : ℕ) (i : ℕ) (name : String) (ok : Bool) (c : Client) :
    Client :=
  ({ c with jobs := c.jobs.modify i fun j => { j with told := some ok } } : Client).settle flow
    total name (if ok then .stored else .failed)

/-! ### The client and the agent -/

structure State (Key : Type) where
  agent : Daemon.State Key
  client : Client

inductive Event
  | begin
  | ensured (ok : Bool) (err : Option String)
  | confirmed (yes : Bool)
  /-- The agent reads the list request from a connection; its answer comes; or it fails. -/
  | startList (t c id : ℕ)
  | listed (fails : ℕ → Bool)
  | listLost (fails : ℕ → Bool)
  /-- The agent reads the `i`th `secret.set`; its answer comes; or it fails. -/
  | startSet (i t c id : ℕ)
  | told (i : ℕ)
  | lost (i : ℕ)
  /-- Anything the agent does, the requests of other clients and those of `ensure_unlocked`
  among it. -/
  | act (a : Action)

/-- What the client is going to hear of an action of the agent. -/
def Client.after (d : Daemon.State Key) (a : Action) (c : Client) : Client :=
  match a with
  | .run t _ _ =>
    match d.pc t with
    | .respond r => c.hear t r
    | _ => c
  | _ => c

variable (L : Packages Key) (cfg : Config) (flow : Flow) (candidates : List Candidate)

def step (x : State Key) : Event → Option (State Key)
  | .begin =>
    if x.client.phase = .fresh then some { x with client := x.client.begin flow candidates }
    else none
  | .ensured ok err =>
    if x.client.phase = .unlocking then some { x with client := x.client.ensured flow ok err }
    else none
  | .confirmed yes =>
    if x.client.phase = .confirming then some { x with client := x.client.confirmed flow yes }
    else none
  | .startList t c id =>
    if x.client.phase = .listing ∧ x.client.lister = none then
      (Daemon.step L cfg x.agent (.request t c id "secret.list" (.obj []))).map fun agent =>
        ⟨agent, { x.client with lister := some t }⟩
    else none
  | .listed fails =>
    if x.client.phase = .listing then
      x.client.listed.map fun r =>
        { x with client := x.client.gotList flow candidates (existing r) fails }
    else none
  | .listLost fails =>
    if x.client.phase = .listing then
      some { x with client := x.client.gotList flow candidates [] fails }
    else none
  | .startSet i t c id =>
    match x.client.jobs[i]? with
    | some ⟨candidate, none, _, _⟩ =>
      (Daemon.step L cfg x.agent (.request t c id "secret.set" candidate.params)).map fun agent =>
        ⟨agent, x.client.startSet i t⟩
    | _ => none
  | .told i =>
    match x.client.jobs[i]? with
    | some ⟨candidate, _, some r, none⟩ =>
      some { x with
        client := x.client.tell flow candidates.length i candidate.name r.isOk }
    | _ => none
  | .lost i =>
    match x.client.jobs[i]? with
    | some ⟨candidate, _, _, none⟩ =>
      some { x with client := x.client.tell flow candidates.length i candidate.name false }
    | _ => none
  | .act a => (Daemon.step L cfg x.agent a).map fun agent => ⟨agent, x.client.after x.agent a⟩

/-- An agent with any vault, with no request in flight. -/
def start (Key : Type) (w : World Key) : State Key where
  agent := ⟨⟨w, none, [], 1, fun _ => []⟩, fun _ => .idle, fun _ => (0, 0)⟩
  client := .new

/-- The operation a section runs. -/
def operation : Pc Key → Option Op
  | .access op => some op
  | _ => none

/-- What the agent is going to answer, once that is settled. -/
def decided (d : Daemon.State Key) (j : Job) : Option (Except Err Reply) :=
  match j.answer with
  | some r => some r
  | none => j.thread.bind fun t => answering (d.pc t)

/-! ### The thread of a request -/

/-- A set that gives the candidate its own value. -/
def Sets (c : Candidate) (op : Op) : Prop :=
  ∃ p, op = .set p ∧ p.name = c.name ∧ p.value = some c.value

/-- A request for an operation on the session, until it is answered. -/
def running (P : Op → Prop) : Pc Key → Prop
  | .call (.session _ op) | .park op | .signal op | .capture op | .recheck op _ | .decide op _
  | .asleep op _ | .woken op _ | .access op => P op
  | .respond _ => True
  | _ => False

/-- The thread serves a request that comes to an operation with `P`. -/
def Serves (method : String) (params : Json) (P : Op → Prop) (p : Pc Key) : Prop :=
  p = .dispatch method params ∨ running P p

variable {L cfg flow candidates} {env : Env} {expired : Bool} {t : ℕ} {origin : ℕ × ℕ}
variable {sh sh' : Shared Key} {p p' : Pc Key} {d d' : Daemon.State Key} {P : Op → Prop}
variable {method : String} {params : Json}

lemma prepare_set {c : Candidate} {random : ℕ → UInt8} {call : Call}
    (h : prepare random "secret.set" c.params = .ok call) :
    ∃ wait op, call = .session wait op ∧ Sets c op := by
  have hset : prepareSet c.params = .ok call := h
  simp only [prepareSet, bind_eq_ok, decoded, mapError_eq_ok] at hset
  obtain ⟨q, hq, hcall⟩ := hset
  split at hcall
  · cases hcall
  · cases hcall
    refine ⟨q.wait, _, rfl, q, rfl, ?_⟩
    simp only [SetParam.fromValue, Candidate.params, visitStruct, visitMap, bind_eq_ok,
      pure_eq_ok] at hq
    obtain ⟨present, ⟨_, -, rfl⟩, name, hname, value, hvalue, info, -, wait, -, rfl⟩ := hq
    have hn : Except.ok c.name = (.ok name : Except DecodeError String) := hname
    have hv : Except.ok (some c.value) = (.ok value : Except DecodeError (Option String)) := hvalue
    exact ⟨(Except.ok.inj hn).symm, (Except.ok.inj hv).symm⟩

lemma prepare_list {random : ℕ → UInt8} {call : Call}
    (h : prepare random "secret.list" params = .ok call) :
    ∃ wait op, call = .session wait op ∧ op = .list := by
  cases h
  exact ⟨_, _, rfl, rfl⟩

/-- A section keeps to the operation, and only the one that has it done is followed by a good
answer. -/
lemma running_exec (hp : running P p) (hr : ∀ r, p ≠ .respond r)
    (h : p.exec L cfg env expired t origin sh = some (sh', p')) :
    running P p' ∧ ∀ r, p' = .respond (.ok r) → ∃ op, p = .access op := by
  cases p with
  | call c =>
    cases c with
    | session wait op =>
      simp only [Pc.exec, Daemon.begin] at h
      split at h
      · cases h
        exact ⟨hp, fun r hr => by cases hr⟩
      · cases h
        cases wait with
        | true => exact ⟨hp, fun r hr => by cases hr⟩
        | false => exact ⟨trivial, fun r hr => by cases hr⟩
    | _ => exact hp.elim
  | park op =>
    cases h
    split
    · exact ⟨hp, fun r hr => by cases hr⟩
    · exact ⟨hp, fun r hr => by cases hr⟩
  | signal op =>
    cases h
    exact ⟨hp, fun r hr => by cases hr⟩
  | capture op | woken op start =>
    simp only [Pc.exec] at h
    split at h
    · cases h
    · cases h
      exact ⟨hp, fun r hr => by cases hr⟩
  | recheck op start =>
    simp only [Pc.exec] at h
    split at h
    · cases h
      exact ⟨hp, fun r hr => by cases hr⟩
    · cases h
      exact ⟨hp, fun r hr => by cases hr⟩
  | decide op start =>
    simp only [Pc.exec] at h
    split at h
    · cases h
      exact ⟨trivial, fun r hr => by cases hr⟩
    · cases h
      exact ⟨hp, fun r hr => by cases hr⟩
  | access op =>
    cases h
    exact ⟨trivial, fun r _ => ⟨op, rfl⟩⟩
  | asleep op start => cases h
  | respond r => exact absurd rfl (hr r)
  | _ => exact hp.elim

lemma serves_exec (hprep : ∀ random call, prepare random method params = .ok call →
      ∃ wait op, call = .session wait op ∧ P op)
    (hp : Serves method params P p) (hr : ∀ r, p ≠ .respond r)
    (h : p.exec L cfg env expired t origin sh = some (sh', p')) :
    running P p' ∧ ∀ r, p' = .respond (.ok r) → ∃ op, p = .access op := by
  rcases hp with rfl | hp
  · simp only [Pc.exec] at h
    split at h
    · rename_i call hcall
      cases h
      obtain ⟨wait, op, rfl, hop⟩ := hprep _ _ hcall
      exact ⟨hop, fun r hr => by cases hr⟩
    · cases h
      exact ⟨trivial, fun r hr => by cases hr⟩
  · exact running_exec hp hr h

lemma serves_moved (h : Moved p p') (hp : Serves method params P p) :
    Serves method params P p' := by
  cases h with
  | same => exact hp
  | rouse op start => exact .inr (hp.resolve_left fun heq => by cases heq)
  | request | tick => rcases hp with hp | hp <;> cases hp

lemma answering_moved (h : Moved p p') (hp : Serves method params P p) :
    answering p' = answering p := by
  cases h with
  | same => rfl
  | rouse op start => rfl
  | request | tick => rcases hp with hp | hp <;> cases hp

/-- What one step means to the thread of a request that has not been answered: it goes on, and
when it has a good answer to give, it had it before or has run the operation. -/
structure Onward (method : String) (params : Json) (P : Op → Prop) (d d' : Daemon.State Key)
    (t : ℕ) (a : Action) : Prop where
  serves : Serves method params P (d'.pc t)
  answers : ∀ r, answering (d'.pc t) = some (.ok r) → answering (d.pc t) = some (.ok r) ∨
    ∃ env expired op, a = .run t env expired ∧ d.pc t = .access op
  keeps : ∀ r, answering (d.pc t) = some r → answering (d'.pc t) = some r

/-- The thread answers. -/
def Answers (d : Daemon.State Key) (t : ℕ) (a : Action) : Prop :=
  ∃ env expired r, a = .run t env expired ∧ d.pc t = .respond r

lemma onward (hprep : ∀ random call, prepare random method params = .ok call →
      ∃ wait op, call = .session wait op ∧ P op) {a : Action}
    (hp : Serves method params P (d.pc t)) (ha : ¬ Answers d t a)
    (h : Daemon.step L cfg d a = some d') : Onward method params P d d' t a := by
  by_cases hturn : ∃ env expired, a = .run t env expired
  · obtain ⟨env, expired, rfl⟩ := hturn
    have hr : ∀ r, d.pc t ≠ .respond r := fun r hr => ha ⟨env, expired, r, rfl, hr⟩
    obtain ⟨p, hexec, hpc, -⟩ := step_run h
    obtain ⟨hrunning, hgood⟩ := serves_exec hprep hp hr hexec
    rw [← hpc] at hrunning hgood
    refine ⟨.inr hrunning, fun r hans => ?_, fun r hans => ?_⟩
    · have hrespond : d'.pc t = .respond (.ok r) := by
        revert hans
        cases d'.pc t <;> simp [answering]
      obtain ⟨op, hop⟩ := hgood r hrespond
      exact .inr ⟨env, expired, op, rfl, hop⟩
    · revert hans hr
      cases d.pc t <;> simp [answering]
  · have hmoved : Moved (d.pc t) (d'.pc t) := by
      by_cases hrun : ∃ u env expired, a = .run u env expired
      · obtain ⟨u, env, expired, rfl⟩ := hrun
        obtain ⟨p, -, -, hothers⟩ := step_run h
        have hne : t ≠ u := fun heq => hturn ⟨env, expired, by rw [heq]⟩
        rw [hothers t hne]
        split
        · exact moved_rouse _
        · exact .same _
      · exact (step_quiet h fun u env expired heq => hrun ⟨u, env, expired, heq⟩).moved t
    have hans := answering_moved hmoved hp
    exact ⟨serves_moved hmoved hp, fun r hr => .inl (hans ▸ hr), fun r hr => hans.trans hr⟩

/-! ### What a step does -/

variable {c : Client} {total : ℕ} {present : List String} {fails : ℕ → Bool} {x y : State Key}

@[simp] lemma settle_jobs (name : String) (v : Verdict) :
    (c.settle flow total name v).jobs = c.jobs := by
  cases flow <;> rfl

@[simp] lemma settle_phase (name : String) (v : Verdict) :
    (c.settle flow total name v).phase = c.phase := by
  cases flow <;> rfl

@[simp] lemma settle_lister (name : String) (v : Verdict) :
    (c.settle flow total name v).lister = c.lister := by
  cases flow <;> rfl

@[simp] lemma settle_listed (name : String) (v : Verdict) :
    (c.settle flow total name v).listed = c.listed := by
  cases flow <;> rfl

lemma tell_frame {i : ℕ} {name : String} {ok : Bool} :
    (c.tell flow total i name ok).phase = c.phase ∧
      (c.tell flow total i name ok).lister = c.lister ∧
        (c.tell flow total i name ok).listed = c.listed :=
  ⟨settle_phase .., settle_lister .., settle_listed ..⟩

lemma store_jobs {es : List Candidate} {j : Job}
    (h : j ∈ (c.store flow total present fails es).jobs) :
    j ∈ c.jobs ∨ ∃ e ∈ es, e.name ∉ present ∧ j = e.job := by
  induction es generalizing c with
  | nil => exact .inl h
  | cons e es ih =>
    simp only [Client.store] at h
    rcases ih h with hold | ⟨e', he', hnew⟩
    · split at hold
      · exact .inl (by simpa using hold)
      · rename_i habsent
        split at hold
        · exact .inl (by simpa using hold)
        · rcases List.mem_append.mp hold with hold | hnew
          · exact .inl hold
          · exact .inr ⟨e, List.mem_cons_self, habsent, List.mem_singleton.mp hnew⟩
    · exact .inr ⟨e', List.mem_cons_of_mem e he', hnew⟩

lemma store_frame {es : List Candidate} :
    (c.store flow total present fails es).phase = c.phase ∧
      (c.store flow total present fails es).lister = c.lister ∧
        (c.store flow total present fails es).listed = c.listed := by
  induction es generalizing c with
  | nil => exact ⟨rfl, rfl, rfl⟩
  | cons e es ih =>
    simp only [Client.store]
    obtain ⟨hphase, hlister, hlisted⟩ := ih
      (c := if e.name ∈ present then c.settle flow total e.name .skipped
        else if fails es.length then c.settle flow total e.name .failed
        else { c with jobs := c.jobs ++ [e.job] })
    rw [hphase, hlister, hlisted]
    split
    · simp
    · split <;> simp

lemma gotList_frame : (c.gotList flow candidates present fails).phase = .storing ∧
    (c.gotList flow candidates present fails).lister = c.lister ∧
      (c.gotList flow candidates present fails).listed = c.listed :=
  store_frame

/-- The calls before the list is asked for. -/
def Event.talks : Event → Bool
  | .begin | .ensured _ _ | .confirmed _ => true
  | _ => false

def Phase.early : Phase → Bool
  | .fresh | .unlocking | .confirming => true
  | _ => false

/-- What a step does, by what it changes. -/
inductive Took (L : Packages Key) (cfg : Config) (flow : Flow) (candidates : List Candidate)
    (x : State Key) : Event → State Key → Prop
  | talk {e : Event} {c : Client} (he : e.talks = true) (hphase : x.client.phase.early = true)
    (hjobs : c.jobs = x.client.jobs) (hlister : c.lister = x.client.lister)
    (hlisted : c.listed = x.client.listed) (hnext : c.phase ≠ .storing) :
    Took L cfg flow candidates x e ⟨x.agent, c⟩
  | startList {t c id : ℕ} {d : Daemon.State Key} (hphase : x.client.phase = .listing)
    (hlister : x.client.lister = none)
    (hd : Daemon.step L cfg x.agent (.request t c id "secret.list" (.obj [])) = some d) :
    Took L cfg flow candidates x (.startList t c id) ⟨d, { x.client with lister := some t }⟩
  | listed {fails : ℕ → Bool} {r : Except Err Reply} (hphase : x.client.phase = .listing)
    (hr : x.client.listed = some r) : Took L cfg flow candidates x (.listed fails)
      ⟨x.agent, x.client.gotList flow candidates (existing r) fails⟩
  | listLost {fails : ℕ → Bool} (hphase : x.client.phase = .listing) :
    Took L cfg flow candidates x (.listLost fails)
      ⟨x.agent, x.client.gotList flow candidates [] fails⟩
  | startSet {i t c id : ℕ} {j : Job} {d : Daemon.State Key} (hj : x.client.jobs[i]? = some j)
    (hthread : j.thread = none)
    (hd : Daemon.step L cfg x.agent (.request t c id "secret.set" j.candidate.params) = some d) :
    Took L cfg flow candidates x (.startSet i t c id) ⟨d, x.client.startSet i t⟩
  | tell {e : Event} {i : ℕ} {j : Job} {ok : Bool} (he : e = .told i ∨ e = .lost i)
    (hj : x.client.jobs[i]? = some j) (htold : j.told = none)
    (hok : ok = true → ∃ r, j.answer = some (.ok r)) : Took L cfg flow candidates x e
      ⟨x.agent, x.client.tell flow candidates.length i j.candidate.name ok⟩
  | act {a : Action} {d : Daemon.State Key} (hd : Daemon.step L cfg x.agent a = some d) :
    Took L cfg flow candidates x (.act a) ⟨d, x.client.after x.agent a⟩

lemma took_of_step {e : Event} (h : step L cfg flow candidates x e = some y) :
    Took L cfg flow candidates x e y := by
  cases e with
  | begin =>
    simp only [step] at h
    split at h <;> cases h
    rename_i hphase
    refine .talk rfl (by rw [hphase]; rfl) ?_ ?_ ?_ ?_ <;>
      cases flow <;> cases candidates <;> simp [Client.begin]
  | ensured ok err =>
    simp only [step] at h
    split at h <;> cases h
    rename_i hphase
    refine .talk rfl (by rw [hphase]; rfl) ?_ ?_ ?_ ?_ <;>
      cases flow <;> cases ok <;> simp [Client.ensured]
  | confirmed yes =>
    simp only [step] at h
    split at h <;> cases h
    rename_i hphase
    refine .talk rfl (by rw [hphase]; rfl) ?_ ?_ ?_ ?_ <;>
      cases flow <;> cases yes <;> simp [Client.confirmed]
  | startList t c id =>
    simp only [step] at h
    split at h
    · rename_i hguard
      obtain ⟨d, hd, rfl⟩ := Option.map_eq_some_iff.mp h
      exact .startList hguard.1 hguard.2 hd
    · cases h
  | listed fails =>
    simp only [step] at h
    split at h
    · rename_i hphase
      obtain ⟨r, hr, rfl⟩ := Option.map_eq_some_iff.mp h
      exact .listed hphase hr
    · cases h
  | listLost fails =>
    simp only [step] at h
    split at h <;> cases h
    rename_i hphase
    exact .listLost hphase
  | startSet i t c id =>
    simp only [step] at h
    split at h
    · rename_i candidate answer told hj
      obtain ⟨d, hd, rfl⟩ := Option.map_eq_some_iff.mp h
      exact .startSet hj rfl hd
    · cases h
  | told i =>
    simp only [step] at h
    split at h
    · rename_i candidate thread r hj
      cases h
      refine .tell (.inl rfl) hj rfl fun hok => ?_
      cases r with
      | ok r => exact ⟨r, rfl⟩
      | error e => cases hok
    · cases h
  | lost i =>
    simp only [step] at h
    split at h
    · rename_i candidate thread answer hj
      cases h
      exact .tell (.inr rfl) hj rfl fun hok => by cases hok
    · cases h
  | act a =>
    obtain ⟨d, hd, rfl⟩ := Option.map_eq_some_iff.mp h
    exact .act hd

/-! ### The requests and their threads -/

/-- Every request that has been read and not answered has its thread. -/
structure Attended (x : State Key) : Prop where
  sets : ∀ j ∈ x.client.jobs, ∀ t, j.servedBy t = true →
    Serves "secret.set" j.candidate.params (Sets j.candidate) (x.agent.pc t)
  lists : ∀ t, x.client.lister = some t → x.client.listed = none →
    Serves "secret.list" (.obj []) (· = .list) (x.agent.pc t)

lemma onward_set {j : Job} {a : Action} (hp : Serves "secret.set" j.candidate.params
    (Sets j.candidate) (d.pc t)) (ha : ¬ Answers d t a) (h : Daemon.step L cfg d a = some d') :
    Onward "secret.set" j.candidate.params (Sets j.candidate) d d' t a :=
  onward (fun _ _ => prepare_set) hp ha h

lemma onward_list {a : Action} (hp : Serves "secret.list" (.obj []) (· = .list) (d.pc t))
    (ha : ¬ Answers d t a) (h : Daemon.step L cfg d a = some d') :
    Onward "secret.list" (.obj []) (· = .list) d d' t a :=
  onward (fun _ _ => prepare_list) hp ha h

lemma request_starts {t c id : ℕ}
    (h : Daemon.step L cfg d (.request t c id method params) = some d') :
    d.pc t = .idle ∧ d'.pc t = .dispatch method params ∧ (∀ u, u ≠ t → d'.pc u = d.pc u) ∧
      d'.shared = d.shared := by
  simp only [Daemon.step] at h
  split at h
  · rename_i hidle
    cases h
    exact ⟨isIdle_eq hidle.1, Function.update_self _ _ _, fun u hu => Function.update_of_ne hu _ _,
      rfl⟩
  · cases h

lemma after_of_not_run {a : Action} (ha : ∀ t env expired, a ≠ .run t env expired) :
    c.after d a = c := by
  cases a with
  | run t env expired => exact absurd rfl (ha t env expired)
  | _ => rfl

lemma after_run (c : Client) (d : Daemon.State Key) (t : ℕ) (env : Env) (expired : Bool) :
    (c.after d (.run t env expired) = c ∧ ∀ u, ¬ Answers d u (.run t env expired)) ∨
    ∃ r, d.pc t = .respond r ∧ c.after d (.run t env expired) = c.hear t r := by
  cases hp : d.pc t with
  | respond r => exact .inr ⟨r, rfl, by simp only [Client.after, hp]⟩
  | _ =>
    refine .inl ⟨by simp only [Client.after, hp], ?_⟩
    rintro u ⟨env', expired', r, ha, hr⟩
    cases ha
    rw [hp] at hr
    cases hr

/-- The requests that are unanswered after an action of the agent are those that were, and the
action answers none of them. -/
lemma unanswered_after (a : Action) :
    (∀ j ∈ (c.after d a).jobs, ∀ t, j.servedBy t = true → j ∈ c.jobs ∧ ¬ Answers d t a) ∧
      (∀ t, (c.after d a).lister = some t → (c.after d a).listed = none →
        c.lister = some t ∧ c.listed = none ∧ ¬ Answers d t a) := by
  by_cases hrun : ∃ t env expired, a = .run t env expired
  · obtain ⟨t, env, expired, rfl⟩ := hrun
    rcases after_run c d t env expired with
      ⟨hc, hno⟩ | ⟨r, hr, hc⟩
    · rw [hc]
      exact ⟨fun j hj u _ => ⟨hj, hno u⟩, fun u hu hl => ⟨hu, hl, hno u⟩⟩
    · rw [hc]
      have hother : ∀ u, u ≠ t → ¬ Answers d u (.run t env expired) := by
        rintro u hu ⟨_, _, _, ha, -⟩
        cases ha
        exact hu rfl
      refine ⟨fun j hj u hserved => ?_, fun u hu hl => ?_⟩
      · obtain ⟨j₀, hj₀, rfl⟩ := List.mem_map.mp hj
        unfold Job.hear at hserved ⊢
        split at hserved
        · simp [Job.servedBy] at hserved
        · rename_i hnot
          rw [if_neg hnot]
          exact ⟨hj₀, hother u fun heq => hnot (heq ▸ hserved)⟩
      · simp only [Client.hear] at hu hl
        split at hl
        · cases hl
        · rename_i hnot
          refine ⟨hu, hl, hother u fun heq => hnot ⟨heq ▸ hu, ?_⟩⟩
          rw [hl]
          rfl
  · rw [after_of_not_run fun t env expired heq => hrun ⟨t, env, expired, heq⟩]
    have hno : ∀ u, ¬ Answers d u a := by
      rintro u ⟨env, expired, r, ha, -⟩
      exact hrun ⟨u, env, expired, ha⟩
    exact ⟨fun j hj u _ => ⟨hj, hno u⟩, fun u hu hl => ⟨hu, hl, hno u⟩⟩

lemma hear_same (t : ℕ) (r : Except Err Reply) (j : Job) :
    (j.hear t r).candidate = j.candidate ∧ (j.hear t r).told = j.told := by
  unfold Job.hear
  split <;> exact ⟨rfl, rfl⟩

lemma after_jobs {a : Action} {j' : Job} (hj' : j' ∈ (c.after d a).jobs) :
    ∃ j ∈ c.jobs, j'.candidate = j.candidate ∧ j'.told = j.told ∧
      (j' = j ∨ ∃ r, j'.answer = some r ∧ decided d j = some r) := by
  by_cases hrun : ∃ t env expired, a = .run t env expired
  · obtain ⟨t, env, expired, rfl⟩ := hrun
    rcases after_run c d t env expired with
      ⟨hc, -⟩ | ⟨r, hr, hc⟩
    · rw [hc] at hj'
      exact ⟨j', hj', rfl, rfl, .inl rfl⟩
    · rw [hc] at hj'
      obtain ⟨j, hj, rfl⟩ := List.mem_map.mp hj'
      obtain ⟨hcandidate, htold⟩ := hear_same t r j
      refine ⟨j, hj, hcandidate, htold, ?_⟩
      unfold Job.hear
      split
      · rename_i hserved
        simp only [Job.servedBy, Bool.and_eq_true, decide_eq_true_eq, Option.isNone_iff_eq_none]
          at hserved
        refine .inr ⟨r, rfl, ?_⟩
        simp [decided, hserved.1, hserved.2, hr, answering]
      · exact .inl rfl
  · rw [after_of_not_run fun t env expired heq => hrun ⟨t, env, expired, heq⟩] at hj'
    exact ⟨j', hj', rfl, rfl, .inl rfl⟩

lemma after_lister (a : Action) : (c.after d a).lister = c.lister := by
  unfold Client.after
  split
  · split <;> rfl
  · rfl

lemma after_phase (a : Action) : (c.after d a).phase = c.phase := by
  unfold Client.after
  split
  · split <;> rfl
  · rfl

lemma after_listed {a : Action} {r : Except Err Reply} (h : (c.after d a).listed = some r) :
    c.listed = some r ∨ ∃ t, c.listed = none ∧ c.lister = some t ∧ answering (d.pc t) = some r := by
  by_cases hrun : ∃ t env expired, a = .run t env expired
  · obtain ⟨t, env, expired, rfl⟩ := hrun
    rcases after_run c d t env expired with
      ⟨hc, -⟩ | ⟨r', hr', hc⟩
    · rw [hc] at h
      exact .inl h
    · rw [hc] at h
      simp only [Client.hear] at h
      split at h
      · rename_i hheard
        refine .inr ⟨t, Option.isNone_iff_eq_none.mp hheard.2, hheard.1, ?_⟩
        rw [hr', answering, h]
      · exact .inl h
  · rw [after_of_not_run fun t env expired heq => hrun ⟨t, env, expired, heq⟩] at h
    exact .inl h

lemma Attended.agent {a : Action} (h : Attended x)
    (hd : Daemon.step L cfg x.agent a = some d') : Attended ⟨d', x.client.after x.agent a⟩ := by
  obtain ⟨hsets, hlists⟩ := unanswered_after (c := x.client) (d := x.agent) a
  refine ⟨fun j hj t hserved => ?_, fun t ht hl => ?_⟩
  · obtain ⟨hold, hno⟩ := hsets j hj t hserved
    exact (onward_set (h.sets j hold t hserved) hno hd).serves
  · obtain ⟨ht', hl', hno⟩ := hlists t ht hl
    exact (onward_list (h.lists t ht' hl') hno hd).serves

lemma Attended.client (h : Attended x)
    (hjobs : ∀ j ∈ c.jobs, ∀ t, j.servedBy t = true →
      ∃ j' ∈ x.client.jobs, j'.candidate = j.candidate ∧ j'.servedBy t = true)
    (hlister : c.lister = x.client.lister) (hlisted : c.listed = x.client.listed) :
    Attended (⟨x.agent, c⟩ : State Key) := by
  refine ⟨fun j hj t hserved => ?_, fun t ht hl => h.lists t (hlister ▸ ht) (hlisted ▸ hl)⟩
  obtain ⟨j', hj', hcandidate, hserved'⟩ := hjobs j hj t hserved
  rw [← hcandidate]
  exact h.sets j' hj' t hserved'

lemma attended_gotList (h : Attended x) :
    Attended (⟨x.agent, x.client.gotList flow candidates present fails⟩ : State Key) := by
  refine h.client (fun j hj t hserved => ?_) gotList_frame.2.1 gotList_frame.2.2
  rcases store_jobs hj with hold | ⟨e, -, -, rfl⟩
  · exact ⟨j, hold, rfl, hserved⟩
  · simp [Job.servedBy, Candidate.job] at hserved

lemma attended_startSet {i c id : ℕ} {j : Job} (h : Attended x) (hj : x.client.jobs[i]? = some j)
    (hd : Daemon.step L cfg x.agent (.request t c id "secret.set" j.candidate.params) = some d') :
    Attended ⟨d', x.client.startSet i t⟩ := by
  have hagent := h.agent hd
  obtain ⟨-, hpc, -⟩ := request_starts hd
  refine ⟨fun k hk u hserved => ?_, hagent.lists⟩
  rcases mem_modify hj hk with hold | rfl
  · exact hagent.sets k hold u hserved
  · have hu : t = u := by
      simp only [Job.servedBy, Bool.and_eq_true, decide_eq_true_eq] at hserved
      exact Option.some.inj hserved.1
    subst hu
    exact .inl hpc

lemma attended_startList {c id : ℕ} (h : Attended x)
    (hd : Daemon.step L cfg x.agent (.request t c id "secret.list" (.obj [])) = some d') :
    Attended ⟨d', { x.client with lister := some t }⟩ := by
  have hagent := h.agent hd
  obtain ⟨-, hpc, -⟩ := request_starts hd
  refine ⟨hagent.sets, fun u hu hl => ?_⟩
  obtain rfl : t = u := Option.some.inj hu
  exact .inl hpc

lemma attended_step {e : Event} (h : Attended x) (hs : step L cfg flow candidates x e = some y) :
    Attended y := by
  cases took_of_step hs with
  | talk he hphase hjobs hlister hlisted hnext =>
    refine h.client (fun j hj t hserved => ?_) hlister hlisted
    exact ⟨j, hjobs ▸ hj, rfl, hserved⟩
  | startList hphase hlister hd => exact attended_startList h hd
  | listed hphase hr => exact attended_gotList h
  | listLost hphase => exact attended_gotList h
  | startSet hj hthread hd => exact attended_startSet h hj hd
  | tell he hj htold hok =>
    refine h.client (fun k hk t hserved => ?_) tell_frame.2.1 tell_frame.2.2
    rw [Client.tell, settle_jobs] at hk
    rcases mem_modify hj hk with hold | rfl
    · exact ⟨k, hold, rfl, hserved⟩
    · exact ⟨_, List.mem_of_getElem? hj, rfl, hserved⟩
  | act hd => exact h.agent hd

lemma attended_start (w : World Key) : Attended (start Key w) where
  sets j hj := by cases hj
  lists t ht := by cases ht

end LvimKeyring.Migration
