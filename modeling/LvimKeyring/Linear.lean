import LvimKeyring.Answering
import LvimKeyring.SaveRaces
import LvimKeyring.WalletRefines

/-!
Requests in flight, in one order.

A request on the secrets looks at the session once, in a single section, or finds the vault
locked. The sections that take, install and use the session, in the order in which they are run,
are a run of the store, which answers as the daemon does. That the order is also the one in which
the clients see their requests answered is written down as places in it: where the order had got
to when a request was read, and when its response was sent.
-/

namespace LvimKeyring.Linear

open Rpc Crypto Vault Server Daemon Wallet WalletRefines OrderedMap Transition
open SaveRaces (Undisturbed)
open Editors (serves spoken exec_spoken)
open Answering (response)

variable {Key : Type}

/-! ### The order -/

/-- What befalls the session. -/
inductive Event
  | lock
  | unlock
  | visit (serial : ℕ) (op : Op) (now : ℕ) (reply : Except Err Reply)
  deriving DecidableEq

def Event.serial : Event → Option ℕ
  | .visit serial _ _ _ => some serial
  | .lock | .unlock => none

/-- The store goes through an event, if it answers what has been answered. -/
def explain (T : Totp.Packages) (a : Store) : Event → Option Store
  | .lock => some { a with locked := true }
  | .unlock => some { a with locked := false }
  | .visit _ op now reply =>
    if (a.session T now op).2 = reply then some (a.session T now op).1 else none

/-- The event a section brings about. -/
def event (serial : ℕ) (env : Env) : Pc Key → Pc Key → Option Event
  | .access op, .respond r => some (.visit serial op env.now r)
  | .install _ _, _ => some .unlock
  | .tickTake, _ | .call .lock, _ => some .lock
  | _, _ => none

/-! ### The store behind the daemon -/

/-- The vault file and the session hold the secrets of the store. -/
structure Behind (L : Packages Key) (cfg : Config) (a : Store) (sh : Shared Key) : Prop where
  locked : a.locked = sh.session.isNone
  file : ∃ f, Holds L.toLibrary sh.world.fs cfg.vaultPath f ∧ Agrees a.secrets f.body.entries ∧
    ∀ s, sh.session = some s → s.body = f.body

variable {L : Packages Key} {cfg : Config} {env : Env} {a : Store} {sh sh' : Shared Key}
variable {p p' : Pc Key} {expired : Bool} {t : ℕ} {origin : ℕ × ℕ}

lemma Behind.congr (h : Behind L cfg a sh) (hfs : sh'.world.fs = sh.world.fs)
    (hsession : sh'.session = sh.session) : Behind L cfg a sh' := by
  obtain ⟨f, hf, hagree, hbody⟩ := h.file
  refine ⟨h.locked.trans (by rw [hsession]), f, hf.congr (by rw [hfs]), hagree, fun s hs => ?_⟩
  exact hbody s (hsession ▸ hs)

lemma Behind.fileExists (h : Behind L cfg a sh) : fileExists sh.world.fs cfg.vaultPath = true := by
  obtain ⟨f, hf, -⟩ := h.file
  exact hf.fileExists

lemma Behind.taken (h : Behind L cfg a sh) :
    Behind L cfg { a with locked := true } (sh.withSession none) := by
  obtain ⟨f, hf, hagree, -⟩ := h.file
  exact ⟨rfl, f, hf, hagree, fun s hs => by cases hs⟩

lemma Behind.installed (hL : L.toLibrary.Ideal) (h : Behind L cfg a sh) {s : Session Key}
    (hs : Holds L.toLibrary sh.world.fs cfg.vaultPath s) :
    Behind L cfg { a with locked := false } (sh.withSession (some s)) := by
  obtain ⟨f, hf, hagree, -⟩ := h.file
  obtain rfl := hf.unique hL hs
  refine ⟨rfl, s, hf, hagree, fun u hu => ?_⟩
  rw [withSession_session, Option.some.injEq] at hu
  rw [hu]

lemma Behind.rotated (hL : L.toLibrary.Ideal) (hio : env.io = .none) (h : Behind L cfg a sh)
    {current : Session Key} (new : String)
    (hs : Holds L.toLibrary sh.world.fs cfg.vaultPath current) :
    Behind L cfg a (sh.withFs (rotateRead L.toLibrary env.io sh.world.fs cfg.vaultPath current
      (asBytes new) cfg.kdf env.salt env.nonce).1) := by
  obtain ⟨f, hf, hagree, hbody⟩ := h.file
  obtain rfl := hf.unique hL hs
  unfold rotateRead
  cases hkey : deriveKey L.toPrimitives (asBytes new) env.salt cfg.kdf with
  | error e => exact h.congr rfl rfl
  | ok key =>
    obtain ⟨fs', hw⟩ := write_none hL sh.world.fs cfg.vaultPath
      ⟨⟨current.body.entries⟩, key, env.salt, cfg.kdf⟩ env.nonce
    simp only [hio, writeNew, hw]
    exact ⟨h.locked, _, holds_of_write hL hw, hagree, hbody⟩

/-- The section under the lock of the session is a call of the store. -/
lemma Behind.accessed (hL : L.toLibrary.Ideal) (hio : env.io = .none) (h : Behind L cfg a sh)
    (op : Op) :
    (Server.withSession L cfg env false op sh.world).reply = (a.session L.totp env.now op).2 ∧
      Behind L cfg (a.session L.totp env.now op).1
        { sh with world := (Server.withSession L cfg env false op sh.world).world } := by
  have hlocked := h.locked
  obtain ⟨f, hf, hagree, hbody⟩ := h.file
  unfold Server.withSession Store.session
  cases hs : sh.world.inner.session with
  | none =>
    have hon : a.locked = true := by rw [hlocked, Shared.session, hs]; rfl
    simp only [if_pos hon]
    exact ⟨trivial, h⟩
  | some s =>
    have hoff : ¬ a.locked = true := by rw [hlocked, Shared.session, hs]; simp
    have hs_body : s.body = f.body := hbody s hs
    rw [← hs_body] at hagree
    have hsim := run_simulates L.totp env.now hagree op
    simp only [if_neg hoff]
    generalize Secrets.apply L.totp env.now a.secrets op = res at hsim ⊢
    cases hrun : op.run L.totp env.now s.body with
    | error e =>
      rw [hrun] at hsim
      cases hsim
      exact ⟨rfl, h⟩
    | ok br =>
      obtain ⟨b, r⟩ := br
      rw [hrun] at hsim
      cases hsim with
      | ok r hagree' =>
        cases hop : op.reads with
        | true =>
          obtain rfl := run_reads hop hrun
          rw [hs_body] at hagree'
          exact ⟨rfl, hlocked, f, hf, hagree', hbody⟩
        | false =>
          obtain ⟨fs', hw⟩ := write_none hL sh.world.fs cfg.vaultPath { s with body := b } env.nonce
          simp only [Bool.false_eq_true, if_false, save, hio, hw]
          refine ⟨rfl, ?_, _, holds_of_write hL hw, hagree', fun u hu => ?_⟩
          · exact Bool.eq_false_iff.mpr hoff
          · rw [← Option.some.inj hu]

/-- What a section does to the store. -/
lemma behind_exec (hL : L.toLibrary.Ideal) (hio : env.io = .none) (h : Behind L cfg a sh)
    (hcreate : ∀ pw, p ≠ .createWrite pw)
    (hguard : ∀ s ∈ SaveRaces.relied p, Holds L.toLibrary sh.world.fs cfg.vaultPath s)
    (hexec : p.exec L cfg env expired t origin sh = some (sh', p')) (serial : ℕ) :
    ∃ a', run (explain L.totp) a (event serial env p p').toList = some a' ∧
      Behind L cfg a' sh' := by
  -- A section that neither writes nor installs shows the store nothing.
  cases hw : SaveRaces.writes p with
  | false =>
    have hspared := SaveRaces.exec_spared hw h.fileExists hexec
    refine ⟨a, ?_, h.congr hspared.fs hspared.session⟩
    have hnone : event serial env p p' = none := by
      unfold event
      split <;> first | rfl | cases hw
    rw [hnone]
    rfl
  | true =>
    cases p with
    | createWrite pw => exact absurd rfl (hcreate pw)
    | install s k =>
      cases hexec
      exact ⟨_, rfl, h.installed hL (hguard s (List.mem_singleton_self s))⟩
    | rotateWrite current old new =>
      have hrotated := h.rotated hL hio new (hguard current (List.mem_singleton_self _))
      simp only [Pc.exec, Option.some.injEq] at hexec
      -- A rotation writes the entries the file has: the store does not see it either.
      rcases hres : rotateRead L.toLibrary env.io sh.world.fs cfg.vaultPath current (asBytes new)
        cfg.kdf env.salt env.nonce with ⟨fs', e | s⟩ <;>
      · rw [hres] at hexec hrotated
        cases hexec
        exact ⟨a, rfl, hrotated⟩
    | access op =>
      obtain ⟨hreply, hbehind⟩ := h.accessed hL hio op
      cases hexec
      refine ⟨_, ?_, hbehind⟩
      simp only [event, Option.toList_some, run, explain, hreply, if_true, Option.bind_some]
    | tickTake =>
      cases hexec
      exact ⟨_, rfl, h.taken⟩
    | call c =>
      cases c with
      | lock =>
        cases hexec
        exact ⟨_, rfl, h.taken⟩
      | _ => cases hw
    | _ => cases hw

/-! ### The requests and their places in the order -/

/-- A request that has been read, and how many events there had been by then. -/
structure Job where
  serial : ℕ
  client : ℕ
  id : ℕ
  method : String
  params : Json
  called : ℕ

/-- A request that has been answered, and how many events there had been by then. -/
structure Done where
  job : Job
  reply : Except Err Reply
  answered : ℕ

/-- What is written down of a run. -/
structure Log where
  events : List Event
  serving : ℕ → Job
  count : ℕ
  done : List Done

def Log.empty : Log := ⟨[], fun _ => ⟨0, 0, 0, "", .null, 0⟩, 0, []⟩

def Log.update (g : Log) (d : State Key) : Action → State Key → Log
  | .request t c id method params, _ =>
    { g with
      serving := Function.update g.serving t ⟨g.count, c, id, method, params, g.events.length⟩
      count := g.count + 1 }
  | .run t env _, d' =>
    { g with
      events := g.events ++ (event (g.serving t).serial env (d.pc t) (d'.pc t)).toList
      done := match d.pc t with
        | .respond r => g.done ++ [⟨g.serving t, r, g.events.length⟩]
        | _ => g.done }
  | _, _ => g

/-- The call the request is prepared to. -/
def Job.Asks (j : Job) (c : Call) : Prop := ∃ random, prepare random j.method j.params = .ok c

/-- The store at a moment between a request and its response. -/
def Job.Saw (T : Totp.Packages) (a₀ : Store) (events : List Event) (j : Job) (answered : ℕ)
    (P : Store → Prop) : Prop :=
  ∃ i a, j.called ≤ i ∧ i ≤ answered ∧ run (explain T) a₀ (events.take i) = some a ∧ P a

/-- What has befallen the session between a request and its response. -/
def Job.Met (events : List Event) (j : Job) (answered : ℕ) (e : Event) : Prop :=
  ∃ i, j.called ≤ i ∧ i < answered ∧ events[i]? = some e

/-- The request has not been carried out. -/
def Job.Fresh (j : Job) (events : List Event) : Prop := j.serial ∉ events.filterMap Event.serial

/-- What answers a call that is not one on the secrets. What a query tells has been so at a moment
in between, though not all of it at the same one. -/
inductive Told (T : Totp.Packages) (a₀ : Store) (events : List Event) (j : Job) (answered : ℕ) :
    Call → Except Err Reply → Prop
  | hello {locked : Bool} {entries : Option (List Summary)}
      (hlocked : j.Saw T a₀ events answered fun a => a.locked = locked)
      (hentries : j.Saw T a₀ events answered fun a => a.entries = entries) :
      Told T a₀ events j answered .hello (.ok (.hello locked true entries))
  | status {locked : Bool} {entries : Option (List Summary)} {left : Option ℕ}
      (hlocked : j.Saw T a₀ events answered fun a => a.locked = locked)
      (hentries : j.Saw T a₀ events answered fun a => a.entries = entries) :
      Told T a₀ events j answered .status (.ok (.status locked true entries left))
  | create {password path : String} :
      Told T a₀ events j answered (.create password) (.error (.vaultExists path))
  | unlock {password : String} {entries : List Summary} (h : j.Met events answered .unlock)
      (hentries : j.Saw T a₀ events answered fun a => a.entries.getD [] = entries) :
      Told T a₀ events j answered (.unlock password) (.ok (.listing entries))
  | notUnlocked {password : String} {e : Err} :
      Told T a₀ events j answered (.unlock password) (.error e)
  | lock (h : j.Met events answered .lock) : Told T a₀ events j answered .lock (.ok .unit)
  | cancel : Told T a₀ events j answered .unlockCancel (.ok .unit)
  | rotate {old new : String} (h : j.Met events answered .unlock) :
      Told T a₀ events j answered (.rotate old new) (.ok .unit)
  | notRotated {old new : String} {e : Err} :
      Told T a₀ events j answered (.rotate old new) (.error e)
  | bare {value : String} : Told T a₀ events j answered (.bare value) (.ok (.generated value))

/-- What answers a request: it was carried out between the moment it was read and the moment it
was answered, with this reply; or it never is, and its parameters were refused, the vault was
locked at a moment in between, or it is no request on the secrets and told what it asked for. -/
inductive Accounted (T : Totp.Packages) (a₀ : Store) (events : List Event) (j : Job)
    (answered : ℕ) : Except Err Reply → Prop
  | visited {wait : Bool} {op : Op} {i now : ℕ} {r : Except Err Reply}
      (h : j.Asks (.session wait op)) (hcalled : j.called ≤ i) (hanswered : i < answered)
      (hi : events[i]? = some (.visit j.serial op now r)) : Accounted T a₀ events j answered r
  | refused {random : ℕ → UInt8} {e : Err} (hfresh : j.Fresh events)
      (h : prepare random j.method j.params = .error e) :
      Accounted T a₀ events j answered (.error e)
  | locked {wait : Bool} {op : Op} (hfresh : j.Fresh events) (h : j.Asks (.session wait op))
      (hlocked : j.Saw T a₀ events answered fun a => a.locked = true) :
      Accounted T a₀ events j answered (.error .locked)
  | told {c : Call} {r : Except Err Reply} (hfresh : j.Fresh events) (h : j.Asks c)
      (htold : Told T a₀ events j answered c r) : Accounted T a₀ events j answered r

/-- The daemon is one store, used by one request after another: the events are a run of the
store, which the file and the session hold at its end, a request is carried out once at most and
in its own time, and the responses are those that the order accounts for. -/
structure Linearizable (L : Packages Key) (cfg : Config) (a₀ : Store) (d : State Key) (g : Log) :
    Prop where
  store : ∃ a, run (explain L.totp) a₀ g.events = some a ∧ Behind L cfg a d.shared
  once : (g.events.filterMap Event.serial).Nodup
  accounted : ∀ x ∈ g.done, Accounted L.totp a₀ g.events x.job x.answered x.reply
  said : ∀ c, (d.shared.channel c).filterMap response =
    g.done.filterMap fun x => if x.job.client = c then some (x.job.id, x.reply) else none

/-! ### Where a thread is in its request -/

variable {T : Totp.Packages} {a₀ : Store} {events new : List Event} {j : Job}

/-- The request is one on the secrets, to be carried out yet. -/
def Job.Awaits (j : Job) (events : List Event) (op : Op) : Prop :=
  j.Fresh events ∧ ∃ wait, j.Asks (.session wait op)

/-- The request is another call. -/
def Job.Calls (j : Job) (events : List Event) (c : Call) : Prop := j.Fresh events ∧ j.Asks c

/-- The call that installs a session. -/
def callOf : Installer → Call
  | .create password => .create password
  | .unlock password => .unlock password
  | .rotate old new => .rotate old new

/-- The request is one of the queries. -/
def Job.Queries (j : Job) (events : List Event) (full : Bool) : Prop :=
  j.Calls events (if full then .status else .hello)

/-- The request puts back a session of a vault that was there. -/
def Job.Installs (j : Job) (events : List Event) (k : Installer) : Prop :=
  j.Calls events (callOf k) ∧ ∀ password, k ≠ .create password

/-- What a section says of the request its thread serves. -/
def Fits (T : Totp.Packages) (a₀ : Store) (events : List Event) (j : Job) : Pc Key → Prop
  | .dispatch method params => j.Fresh events ∧ method = j.method ∧ params = j.params
  | .call c => j.Calls events c
  | .park op | .signal op | .capture op | .recheck op _ | .asleep op _ | .woken op _
  | .access op => j.Awaits events op
  | .decide op _ => j.Awaits events op ∧ j.Saw T a₀ events events.length fun a => a.locked = true
  | .createWrite _ => False
  | .rotateWrite _ old new => j.Calls events (.rotate old new)
  | .install _ k => j.Installs events k
  | .resetFails k | .announceUnlocked k | .wake k =>
    j.Installs events k ∧ j.Met events events.length .unlock
  | .unlockedSummaries =>
    (∃ password, j.Calls events (.unlock password)) ∧ j.Met events events.length .unlock
  | .countFailure _ => ∃ password, j.Calls events (.unlock password)
  | .announceLocked _ => j.Calls events .lock ∧ j.Met events events.length .lock
  | .wakeCancelled => j.Calls events .unlockCancel
  | .queryExists full locked =>
    j.Queries events full ∧ j.Saw T a₀ events events.length fun a => a.locked = locked
  | .querySummaries full locked ex =>
    j.Queries events full ∧ ex = true ∧ j.Saw T a₀ events events.length fun a => a.locked = locked
  | .queryLocked locked ex entries | .queryIdle locked ex entries =>
    j.Calls events .status ∧ Told T a₀ events j events.length .status
      (.ok (.status locked ex entries none))
  | .idle | .tickLocked | .tickIdle | .tickTake => True
  | .respond r => Accounted T a₀ events j events.length r

variable {n m : ℕ} {P : Store → Prop}

lemma Job.Saw.mono (h : j.Saw T a₀ events n P) (hn : n ≤ events.length) (hm : n ≤ m) :
    j.Saw T a₀ (events ++ new) m P := by
  obtain ⟨i, a, hcalled, hi, hrun, ha⟩ := h
  refine ⟨i, a, hcalled, hi.trans hm, ?_, ha⟩
  rw [List.take_append_of_le_length (hi.trans hn), hrun]

lemma Job.Met.mono {e : Event} (h : j.Met events n e) (hm : n ≤ m) :
    j.Met (events ++ new) m e := by
  obtain ⟨i, hcalled, hi, he⟩ := h
  have hlt := (List.getElem?_eq_some_iff.mp he).1
  exact ⟨i, hcalled, lt_of_lt_of_le hi hm, (List.getElem?_append_left hlt).trans he⟩

lemma Told.mono {c : Call} {r : Except Err Reply} (h : Told T a₀ events j n c r)
    (hn : n ≤ events.length) (hm : n ≤ m) : Told T a₀ (events ++ new) j m c r := by
  cases h with
  | hello hlocked hentries => exact .hello (hlocked.mono hn hm) (hentries.mono hn hm)
  | status hlocked hentries => exact .status (hlocked.mono hn hm) (hentries.mono hn hm)
  | create => exact .create
  | unlock h hentries => exact .unlock (h.mono hm) (hentries.mono hn hm)
  | notUnlocked => exact .notUnlocked
  | lock h => exact .lock (h.mono hm)
  | cancel => exact .cancel
  | rotate h => exact .rotate (h.mono hm)
  | notRotated => exact .notRotated
  | bare => exact .bare

lemma Job.Fresh.mono (h : j.Fresh events) (hnew : ∀ e ∈ new, e.serial ≠ some j.serial) :
    j.Fresh (events ++ new) := by
  unfold Job.Fresh
  rw [List.filterMap_append, List.mem_append]
  rintro (hold | hin)
  · exact h hold
  · obtain ⟨e, he, heq⟩ := List.mem_filterMap.mp hin
    exact hnew e he heq

lemma Accounted.mono {r : Except Err Reply} (h : Accounted T a₀ events j n r)
    (hn : n ≤ events.length) (hm : n ≤ m) (hnew : ∀ e ∈ new, e.serial ≠ some j.serial) :
    Accounted T a₀ (events ++ new) j m r := by
  cases h with
  | visited h hcalled hanswered hi =>
    exact .visited h hcalled (lt_of_lt_of_le hanswered hm)
      ((List.getElem?_append_left (by omega)).trans hi)
  | refused hfresh h => exact .refused (hfresh.mono hnew) h
  | locked hfresh h hlocked => exact .locked (hfresh.mono hnew) h (hlocked.mono hn hm)
  | told hfresh h htold => exact .told (hfresh.mono hnew) h (htold.mono hn hm)

lemma Fits.mono (h : Fits T a₀ events j p) (hnew : ∀ e ∈ new, e.serial ≠ some j.serial) :
    Fits T a₀ (events ++ new) j p := by
  have hle : events.length ≤ (events ++ new).length := by
    rw [List.length_append]
    omega
  cases p with
  | dispatch method params => exact ⟨h.1.mono hnew, h.2⟩
  | call | park | signal | capture | recheck | asleep | woken | access | rotateWrite
  | wakeCancelled => exact ⟨h.1.mono hnew, h.2⟩
  | decide op start => exact ⟨⟨h.1.1.mono hnew, h.1.2⟩, h.2.mono le_rfl hle⟩
  | createWrite password => exact h
  | install s k => exact ⟨⟨h.1.1.mono hnew, h.1.2⟩, h.2⟩
  | resetFails k | announceUnlocked k | wake k =>
    exact ⟨⟨⟨h.1.1.1.mono hnew, h.1.1.2⟩, h.1.2⟩, h.2.mono hle⟩
  | unlockedSummaries =>
    obtain ⟨⟨password, hfresh, hasks⟩, hmet⟩ := h
    exact ⟨⟨password, hfresh.mono hnew, hasks⟩, hmet.mono hle⟩
  | countFailure e =>
    obtain ⟨password, hfresh, hasks⟩ := h
    exact ⟨password, hfresh.mono hnew, hasks⟩
  | announceLocked timer => exact ⟨⟨h.1.1.mono hnew, h.1.2⟩, h.2.mono hle⟩
  | queryExists full locked => exact ⟨⟨h.1.1.mono hnew, h.1.2⟩, h.2.mono le_rfl hle⟩
  | querySummaries full locked ex =>
    exact ⟨⟨h.1.1.mono hnew, h.1.2⟩, h.2.1, h.2.2.mono le_rfl hle⟩
  | queryLocked locked ex entries | queryIdle locked ex entries =>
    exact ⟨⟨h.1.1.mono hnew, h.1.2⟩, h.2.mono le_rfl hle⟩
  | idle | tickLocked | tickIdle | tickTake => trivial
  | respond r => exact Accounted.mono h le_rfl hle hnew

lemma Fits.rouse (h : Fits T a₀ events j p) : Fits T a₀ events j (rouse p) := by
  cases p with
  | asleep op start => exact h
  | _ => exact h

/-! ### A section of a request -/

lemma saw_now (hstore : run (explain T) a₀ events = some a) (hcalled : j.called ≤ events.length)
    (ha : P a) : j.Saw T a₀ events events.length P :=
  ⟨events.length, a, hcalled, le_rfl, by rw [List.take_length]; exact hstore, ha⟩

lemma met_last {e : Event} (hcalled : j.called ≤ events.length) :
    j.Met (events ++ [e]) (events ++ [e]).length e :=
  ⟨events.length, hcalled, by simp, List.getElem?_concat_length ..⟩

lemma Behind.entries (h : Behind L cfg a sh) :
    (sh.session.map fun s => summaries s.body) = a.entries := by
  obtain ⟨f, -, hagree, hbody⟩ := h.file
  unfold Store.entries
  rw [h.locked]
  cases hs : sh.session with
  | none => rfl
  | some s =>
    have hsame := hbody s hs
    simp only [Option.map_some, Option.isNone_some, Bool.false_eq_true, if_false, hsame,
      summaries_eq hagree]

/-- The first section of a handler. -/
lemma fits_begin {c : Call} (h : Fits T a₀ events j (.call c : Pc Key))
    (hstore : run (explain T) a₀ events = some a) (hbehind : Behind L cfg a sh)
    (hcalled : j.called ≤ events.length) (hexec : begin L cfg env sh c = some (sh', p')) :
    Fits T a₀ (events ++ (event j.serial env (.call c) p').toList) j p' := by
  have hnow : j.Saw T a₀ events events.length fun a => a.locked = sh.session.isNone :=
    saw_now hstore hcalled hbehind.locked
  have hsame : c ≠ .lock → (event j.serial env (.call c) p').toList = [] := by
    intro hc
    cases c <;> first | rfl | exact absurd rfl hc
  cases c with
  | lock =>
    have hmet : j.Met (events ++ [Event.lock]) (events ++ [Event.lock]).length .lock :=
      met_last hcalled
    have hnew : ∀ e ∈ [Event.lock], e.serial ≠ some j.serial := by simp [Event.serial]
    have hcalls : j.Calls (events ++ [Event.lock]) .lock := ⟨h.1.mono hnew, h.2⟩
    cases hexec
    simp only [event, Option.toList_some]
    split
    · exact ⟨hcalls, hmet⟩
    · exact .told hcalls.1 hcalls.2 (.lock hmet)
  -- A locked vault answers a request that does not wait, and that is the moment it is told of.
  | session wait op =>
    rw [hsame (by simp), List.append_nil]
    simp only [begin] at hexec
    split at hexec <;> cases hexec
    · exact ⟨h.1, wait, h.2⟩
    · rename_i hsession
      cases wait with
      | true => exact ⟨h.1, true, h.2⟩
      | false =>
        have hlocked : sh.session.isNone = true := by simpa using hsession
        rw [hlocked] at hnow
        exact .locked h.1 h.2 hnow
  | create password =>
    rw [hsame (by simp), List.append_nil]
    simp only [begin, if_pos hbehind.fileExists, Option.some.injEq, Prod.mk.injEq] at hexec
    obtain ⟨-, rfl⟩ := hexec
    exact .told h.1 h.2 .create
  | unlock password =>
    rw [hsame (by simp), List.append_nil]
    simp only [begin] at hexec
    split at hexec <;> cases hexec
    · exact ⟨h, fun pw heq => by cases heq⟩
    · exact ⟨password, h⟩
  | rotate old new =>
    rw [hsame (by simp), List.append_nil]
    simp only [begin] at hexec
    split at hexec <;> cases hexec
    · exact h
    · exact .told h.1 h.2 .notRotated
  | unlockCancel =>
    rw [hsame (by simp), List.append_nil]
    simp only [begin] at hexec
    split at hexec <;> cases hexec
    exact h
  | hello | status =>
    rw [hsame (by simp), List.append_nil]
    cases hexec
    exact ⟨h, hnow⟩
  | bare value =>
    rw [hsame (by simp), List.append_nil]
    cases hexec
    exact .told h.1 h.2 .bare

/-- A request goes on from one section to the next. -/
lemma fits_exec (h : Fits T a₀ events j p) (hserves : serves p' = true)
    (hstore : run (explain T) a₀ events = some a) (hbehind : Behind L cfg a sh)
    (hcalled : j.called ≤ events.length)
    (hexec : p.exec L cfg env expired t origin sh = some (sh', p')) :
    Fits T a₀ (events ++ (event j.serial env p p').toList) j p' := by
  -- All sections but `access` and `install` bring about no event.
  have hquiet : event j.serial env p p' = none → Fits T a₀ events j p' →
      Fits T a₀ (events ++ (event j.serial env p p').toList) j p' := by
    intro hnone hfits
    rw [hnone, Option.toList_none, List.append_nil]
    exact hfits
  cases p with
  | idle | asleep => cases hexec
  | call c => exact fits_begin h hstore hbehind hcalled hexec
  | dispatch method params =>
    refine hquiet rfl ?_
    obtain ⟨hfresh, rfl, rfl⟩ := h
    simp only [Pc.exec] at hexec
    split at hexec
    · rename_i c hc
      cases hexec
      exact ⟨hfresh, _, hc⟩
    · rename_i e he
      cases hexec
      exact .refused hfresh he
  -- The point at which the operation takes effect.
  | access op =>
    obtain ⟨-, wait, hasks⟩ := h
    cases hexec
    simp only [event, Option.toList_some]
    refine .visited hasks hcalled (i := events.length) ?_ (List.getElem?_concat_length ..)
    simp
  | park op =>
    refine hquiet rfl ?_
    cases hexec
    split <;> exact h
  | signal op =>
    refine hquiet rfl ?_
    cases hexec
    exact h
  | capture op | woken op start =>
    refine hquiet rfl ?_
    simp only [Pc.exec] at hexec
    split at hexec <;> cases hexec
    exact h
  | recheck op start =>
    refine hquiet rfl ?_
    simp only [Pc.exec] at hexec
    split at hexec <;> cases hexec
    · exact h
    · -- The session is found locked here, and `decide` may answer with that a section later.
      rename_i hsession
      have hlocked : a.locked = true := by
        rw [hbehind.locked]
        simpa using hsession
      exact ⟨h, saw_now hstore hcalled hlocked⟩
  | decide op start =>
    refine hquiet rfl ?_
    obtain ⟨⟨hfresh, wait, hasks⟩, hlocked⟩ := h
    simp only [Pc.exec] at hexec
    split at hexec <;> cases hexec
    · exact .locked hfresh hasks hlocked
    · exact ⟨hfresh, wait, hasks⟩
  | createWrite password => exact absurd h not_false
  | rotateWrite current old new =>
    refine hquiet rfl ?_
    simp only [Pc.exec, Option.some.injEq] at hexec
    rcases afterWrite_cases hexec with ⟨s, rfl⟩ | ⟨e, rfl⟩
    · exact ⟨h, fun pw heq => by cases heq⟩
    · exact .told h.1 h.2 .notRotated
  -- An unlock of the store; it is not the visit of any request.
  | install s k =>
    have hnew : ∀ e ∈ [Event.unlock], e.serial ≠ some j.serial := by simp [Event.serial]
    cases hexec
    exact ⟨⟨⟨h.1.1.mono hnew, h.1.2⟩, h.2⟩, met_last hcalled⟩
  | resetFails k | announceUnlocked k =>
    refine hquiet rfl ?_
    cases hexec
    exact h
  | wake k =>
    refine hquiet rfl ?_
    obtain ⟨⟨⟨hfresh, hasks⟩, hk⟩, hmet⟩ := h
    cases k with
    | create password => exact absurd rfl (hk password)
    | unlock password =>
      cases hexec
      exact ⟨⟨password, hfresh, hasks⟩, hmet⟩
    | rotate old new =>
      cases hexec
      exact .told hfresh hasks (.rotate hmet)
  -- The summaries are read after the install, so a lock in between shows as an empty answer.
  | unlockedSummaries =>
    refine hquiet rfl ?_
    obtain ⟨⟨password, hfresh, hasks⟩, hmet⟩ := h
    cases hexec
    refine .told hfresh hasks (.unlock hmet (saw_now hstore hcalled ?_))
    rw [hbehind.entries]
  | countFailure e =>
    refine hquiet rfl ?_
    obtain ⟨password, hfresh, hasks⟩ := h
    cases hexec
    exact .told hfresh hasks .notUnlocked
  | announceLocked timer =>
    refine hquiet rfl ?_
    obtain ⟨⟨hfresh, hasks⟩, hmet⟩ := h
    cases hexec
    cases timer with
    | true => cases hserves
    | false => exact .told hfresh hasks (.lock hmet)
  | wakeCancelled =>
    refine hquiet rfl ?_
    cases hexec
    exact .told h.1 h.2 .cancel
  -- `status` looks at the file, the session and the clock in sections of their own, and each is
  -- accounted for by a moment of its own.
  | queryExists full locked =>
    refine hquiet rfl ?_
    cases hexec
    exact ⟨h.1, hbehind.fileExists, h.2⟩
  | querySummaries full locked ex =>
    refine hquiet rfl ?_
    obtain ⟨⟨hfresh, hasks⟩, rfl, hlocked⟩ := h
    have hentries : j.Saw T a₀ events events.length fun a =>
        a.entries = sh.session.map fun s => summaries s.body :=
      saw_now hstore hcalled hbehind.entries.symm
    cases hexec
    cases full with
    | false => exact .told hfresh hasks (.hello hlocked hentries)
    | true =>
      simp only [Bool.not_true, Bool.false_eq_true, if_false]
      split
      · exact .told hfresh hasks (.status hlocked hentries)
      · exact ⟨⟨hfresh, hasks⟩, .status hlocked hentries⟩
  | queryLocked locked ex entries =>
    refine hquiet rfl ?_
    cases hexec
    split
    · exact h
    · exact .told h.1.1 h.1.2 h.2
  | queryIdle locked ex entries =>
    refine hquiet rfl ?_
    obtain ⟨⟨hfresh, hasks⟩, htold⟩ := h
    cases hexec
    cases htold with
    | status hlocked hentries => exact .told hfresh hasks (.status hlocked hentries)
  | tickLocked | tickIdle | tickTake =>
    cases hexec
    split at hserves <;> cases hserves
  | respond r =>
    cases hexec
    cases hserves

/-! ### The run -/

/-- What is known of the request a thread serves. -/
structure Serves (T : Totp.Packages) (a₀ : Store) (d : State Key) (g : Log) (t : ℕ) : Prop where
  fits : Fits T a₀ g.events (g.serving t) (d.pc t)
  called : (g.serving t).called ≤ g.events.length
  serial : (g.serving t).serial < g.count
  origin : d.origin t = ((g.serving t).client, (g.serving t).id)

structure Inv (L : Packages Key) (cfg : Config) (a₀ : Store) (d : State Key) (g : Log) : Prop where
  store : ∃ a, run (explain L.totp) a₀ g.events = some a ∧ Behind L cfg a d.shared
  jobs : ∀ t, serves (d.pc t) = true → Serves L.totp a₀ d g t
  apart : ∀ t u, serves (d.pc t) = true → serves (d.pc u) = true →
    (g.serving t).serial = (g.serving u).serial → t = u
  old : ∀ n ∈ g.events.filterMap Event.serial, n < g.count
  once : (g.events.filterMap Event.serial).Nodup
  accounted : ∀ x ∈ g.done, x.answered ≤ g.events.length ∧
    Accounted L.totp a₀ g.events x.job x.answered x.reply
  retired : ∀ x ∈ g.done, x.job.serial < g.count ∧
    ∀ t, serves (d.pc t) = true → (g.serving t).serial ≠ x.job.serial
  said : ∀ c, (d.shared.channel c).filterMap response =
    g.done.filterMap fun x => if x.job.client = c then some (x.job.id, x.reply) else none

lemma Inv.noCreate {d : State Key} {g : Log} (h : Inv L cfg a₀ d g) (t : ℕ) (pw : String) :
    d.pc t ≠ .createWrite pw := by
  intro hpc
  have hfits := (h.jobs t (by rw [hpc]; rfl)).fits
  rw [hpc] at hfits
  exact hfits

lemma Inv.linearized {d : State Key} {g : Log} (h : Inv L cfg a₀ d g) :
    Linearizable L cfg a₀ d g :=
  ⟨h.store, h.once, fun x hx => (h.accounted x hx).2, h.said⟩

lemma serials_event (n : ℕ) (env : Env) (p p' : Pc Key) :
    (event n env p p').toList.filterMap Event.serial = [] ∨
      (event n env p p').toList.filterMap Event.serial = [n] ∧ ∃ op, p = .access op := by
  unfold event
  split
  · exact .inr ⟨rfl, _, rfl⟩
  · exact .inl rfl
  · exact .inl rfl
  · exact .inl rfl
  · exact .inl rfl

variable {d d' : State Key} {g : Log}

lemma serves_before (hstep : step L cfg d (.run t env expired) = some d') (u : ℕ)
    (hu : serves (d'.pc u) = true) : serves (d.pc u) = true := by
  obtain ⟨p, hexec, hp, hothers⟩ := step_run hstep
  by_cases hut : u = t
  · subst hut
    rw [hp] at hu
    exact (Editors.exec_serving hexec).born hu
  · rw [hothers u hut] at hu
    split at hu
    · rwa [Editors.serves_rouse] at hu
    · exact hu

lemma once_run (h : Inv L cfg a₀ d g) (t : ℕ) (env : Env) (p' : Pc Key) :
    let events := g.events ++ (event (g.serving t).serial env (d.pc t) p').toList
    (events.filterMap Event.serial).Nodup ∧ ∀ n ∈ events.filterMap Event.serial, n < g.count := by
  simp only [List.filterMap_append]
  rcases serials_event (g.serving t).serial env (d.pc t) p' with hnone | ⟨hone, op, hop⟩
  · rw [hnone, List.append_nil]
    exact ⟨h.once, h.old⟩
  · have hjob := h.jobs t (by rw [hop]; rfl)
    have hfresh : (g.serving t).Fresh g.events := by
      have hfits := hjob.fits
      rw [hop] at hfits
      exact hfits.1
    rw [hone]
    refine ⟨List.Nodup.append h.once (List.nodup_singleton _) ?_, ?_⟩
    · exact List.disjoint_singleton.mpr hfresh
    · exact List.forall_mem_append.mpr ⟨h.old, List.forall_mem_singleton.mpr hjob.serial⟩

lemma event_foreign {n : ℕ} {p : Pc Key}
    (hn : ∀ op, p = .access op → n ≠ (g.serving t).serial) (p' : Pc Key) :
    ∀ e ∈ (event (g.serving t).serial env p p').toList, e.serial ≠ some n := by
  intro e he heq
  have hmem : n ∈ (event (g.serving t).serial env p p').toList.filterMap Event.serial :=
    List.mem_filterMap.mpr ⟨e, he, heq⟩
  rcases serials_event (g.serving t).serial env p p' with hnone | ⟨hone, op, hop⟩
  · rw [hnone] at hmem
    cases hmem
  · rw [hone, List.mem_singleton] at hmem
    exact hn op hop hmem

lemma serves_other (h : Inv L cfg a₀ d g) {u : ℕ} (hu : u ≠ t) (hs : serves (d.pc u) = true)
    {p' : Pc Key} (hpc : d'.pc u = d.pc u ∨ d'.pc u = rouse (d.pc u))
    (horigin : d'.origin = d.origin) {done : List Done} :
    Serves L.totp a₀ d' { g with
      events := g.events ++ (event (g.serving t).serial env (d.pc t) p').toList
      done := done } u := by
  have hjob := h.jobs u hs
  have hnew : ∀ e ∈ (event (g.serving t).serial env (d.pc t) p').toList,
      e.serial ≠ some (g.serving u).serial :=
    event_foreign (fun op hop heq => hu (h.apart u t hs (by rw [hop]; rfl) heq)) p'
  refine ⟨?_, ?_, hjob.serial, by rw [horigin]; exact hjob.origin⟩
  · rcases hpc with hpc | hpc
    · rw [hpc]
      exact hjob.fits.mono hnew
    · rw [hpc]
      exact hjob.fits.rouse.mono hnew
  · have hcalled := hjob.called
    simp only [List.length_append]
    omega

lemma said_run (h : Inv L cfg a₀ d g)
    (hstep : step L cfg d (.run t env expired) = some d') (c : ℕ) :
    (d'.shared.channel c).filterMap response =
      (g.update d (.run t env expired) d').done.filterMap
        fun x => if x.job.client = c then some (x.job.id, x.reply) else none := by
  obtain ⟨p, hexec, -, -⟩ := step_run hstep
  rw [exec_spoken hexec c, List.filterMap_append, h.said c]
  cases hp : d.pc t with
  | respond r =>
    have horigin := (h.jobs t (by rw [hp]; rfl)).origin
    simp only [Log.update, hp, List.filterMap_append, spoken, horigin]
    congr 1
    by_cases hc : c = (g.serving t).client
    · subst hc
      simp [response]
    · simp [if_neg hc, if_neg (Ne.symm hc)]
  | _ =>
    rw [Answering.spoken_silent (by simp), List.append_nil]
    simp only [Log.update, hp]

lemma accounted_run (h : Inv L cfg a₀ d g) (d' : State Key) {x : Done}
    (hx : x ∈ (g.update d (.run t env expired) d').done) :
    x.answered ≤ (g.update d (.run t env expired) d').events.length ∧
      Accounted L.totp a₀ (g.update d (.run t env expired) d').events x.job x.answered x.reply := by
  have hold : x ∈ g.done →
      x.answered ≤ (g.update d (.run t env expired) d').events.length ∧
      Accounted L.totp a₀ (g.update d (.run t env expired) d').events x.job x.answered x.reply := by
    intro hx
    obtain ⟨hle, hacc⟩ := h.accounted x hx
    have hnew : ∀ e ∈ (event (g.serving t).serial env (d.pc t) (d'.pc t)).toList,
        e.serial ≠ some x.job.serial :=
      event_foreign (fun op hop heq => (h.retired x hx).2 t (by rw [hop]; rfl) heq.symm) (d'.pc t)
    refine ⟨?_, hacc.mono hle le_rfl hnew⟩
    simp only [Log.update, List.length_append]
    omega
  cases hp : d.pc t with
  | respond r =>
    simp only [Log.update, hp, List.mem_append, List.mem_singleton] at hx
    rcases hx with hx | rfl
    · exact hold hx
    · have hfits := (h.jobs t (by rw [hp]; rfl)).fits
      rw [hp] at hfits
      simp only [Log.update, hp, event, Option.toList_none, List.append_nil]
      exact ⟨le_rfl, hfits⟩
  | _ =>
    simp only [Log.update, hp] at hx
    exact hold hx

lemma retired_run (h : Inv L cfg a₀ d g) (hstep : step L cfg d (.run t env expired) = some d')
    {x : Done} (hx : x ∈ (g.update d (.run t env expired) d').done) :
    x.job.serial < g.count ∧
      ∀ u, serves (d'.pc u) = true → (g.serving u).serial ≠ x.job.serial := by
  have hold : x ∈ g.done → x.job.serial < g.count ∧
      ∀ u, serves (d'.pc u) = true → (g.serving u).serial ≠ x.job.serial := fun hx =>
    ⟨(h.retired x hx).1, fun u hu => (h.retired x hx).2 u (serves_before hstep u hu)⟩
  cases hp : d.pc t with
  | respond r =>
    simp only [Log.update, hp, List.mem_append, List.mem_singleton] at hx
    rcases hx with hx | rfl
    · exact hold hx
    · have hserves : serves (d.pc t) = true := by rw [hp]; rfl
      refine ⟨(h.jobs t hserves).serial, fun u hu heq => ?_⟩
      obtain rfl := h.apart u t (serves_before hstep u hu) hserves heq
      obtain ⟨p, hexec, hpc, -⟩ := step_run hstep
      simp only [hp, Pc.exec, Option.some.injEq, Prod.mk.injEq] at hexec
      rw [hpc, ← hexec.2] at hu
      cases hu
  | _ =>
    simp only [Log.update, hp] at hx
    exact hold hx

theorem inv_run (hL : L.toLibrary.Ideal) (h : Inv L cfg a₀ d g)
    (hio : (Action.run t env expired).faultless)
    (hguard : Undisturbed L cfg d (.run t env expired))
    (hstep : step L cfg d (.run t env expired) = some d') :
    Inv L cfg a₀ d' (g.update d (.run t env expired) d') := by
  obtain ⟨a, hrun, hbehind⟩ := h.store
  obtain ⟨p, hexec, hp, hothers⟩ := step_run hstep
  have horigin := origin_run hstep
  obtain ⟨a', hrun', hbehind'⟩ := behind_exec hL hio hbehind (h.noCreate t)
    (SaveRaces.undisturbed_iff.mp hguard) hexec (g.serving t).serial
  obtain ⟨honce, hold⟩ := once_run h t env p
  have hpc : ∀ u, u ≠ t → d'.pc u = d.pc u ∨ d'.pc u = rouse (d.pc u) := by
    intro u hu
    rw [hothers u hu]
    split
    · exact .inr rfl
    · exact .inl rfl
  refine ⟨⟨a', ?_, hbehind'⟩, fun u hu => ?_, fun u v hu hv heq => ?_, ?_, ?_,
    fun x hx => accounted_run h d' hx, fun x hx => retired_run h hstep hx, said_run h hstep⟩
  · simp only [Log.update, hp]
    exact run_append_eq_some.mpr ⟨a, hrun, hrun'⟩
  · by_cases hut : u = t
    · subst hut
      have hjob := h.jobs u (serves_before hstep u hu)
      have hfits := fits_exec hjob.fits (hp ▸ hu) hrun hbehind hjob.called hexec
      refine ⟨?_, ?_, hjob.serial, by rw [horigin]; exact hjob.origin⟩
      · simp only [Log.update, hp]
        exact hfits
      · have hcalled := hjob.called
        simp only [Log.update, List.length_append]
        omega
    · simp only [Log.update]
      exact serves_other h hut (serves_before hstep u hu) (hpc u hut) horigin
  · exact h.apart u v (serves_before hstep u hu) (serves_before hstep v hv) heq
  · simp only [Log.update, hp]
    exact hold
  · simp only [Log.update, hp]
    exact honce

lemma inv_request {c id : ℕ} {method : String} {params : Json} (h : Inv L cfg a₀ d g)
    (hstep : step L cfg d (.request t c id method params) = some d') :
    Inv L cfg a₀ d' (g.update d (.request t c id method params) d') := by
  obtain ⟨hshared, hidle, hpc, horigin, -, hothers⟩ := request_threads hstep
  have hserving : ∀ u, u ≠ t →
      (g.update d (.request t c id method params) d').serving u = g.serving u := fun u hu =>
    Function.update_of_ne hu _ _
  have hnew : (g.update d (.request t c id method params) d').serving t =
      ⟨g.count, c, id, method, params, g.events.length⟩ := Function.update_self _ _ _
  have hless : ∀ u, u ≠ t → serves (d'.pc u) = true → (g.serving u).serial < g.count :=
    fun u hu hs => (h.jobs u ((hothers u hu).1 ▸ hs)).serial
  refine ⟨by rw [hshared]; exact h.store, fun u hu => ?_, fun u v hu hv heq => ?_,
    fun n hn => Nat.lt_succ_of_lt (h.old n hn), h.once, h.accounted, fun x hx => ?_,
    by rw [hshared]; exact h.said⟩
  · by_cases hut : u = t
    · subst hut
      refine ⟨?_, ?_, ?_, ?_⟩ <;> rw [hnew]
      · rw [hpc]
        exact ⟨fun hn => lt_irrefl _ (h.old _ hn), rfl, rfl⟩
      · exact le_rfl
      · exact Nat.lt_succ_self _
      · exact horigin
    · have hjob := h.jobs u ((hothers u hut).1 ▸ hu)
      refine ⟨?_, ?_, ?_, ?_⟩ <;> rw [hserving u hut]
      · rw [(hothers u hut).1]
        exact hjob.fits
      · exact hjob.called
      · exact Nat.lt_succ_of_lt hjob.serial
      · rw [(hothers u hut).2]
        exact hjob.origin
  · by_cases hut : u = t <;> by_cases hvt : v = t
    · rw [hut, hvt]
    · rw [hut, hnew, hserving v hvt] at heq
      exact absurd heq (hless v hvt hv).ne'
    · rw [hvt, hnew, hserving u hut] at heq
      exact absurd heq (hless u hut hu).ne
    · rw [hserving u hut, hserving v hvt] at heq
      exact h.apart u v ((hothers u hut).1 ▸ hu) ((hothers v hvt).1 ▸ hv) heq
  · obtain ⟨hless, hgone⟩ := h.retired x hx
    refine ⟨Nat.lt_succ_of_lt hless, fun u hu => ?_⟩
    by_cases hut : u = t
    · rw [hut, hnew]
      exact hless.ne'
    · rw [hserving u hut]
      exact hgone u ((hothers u hut).1 ▸ hu)

lemma inv_same (h : Inv L cfg a₀ d g) (hworld : d'.shared.world = d.shared.world)
    (hchannel : d'.shared.channel = d.shared.channel) (horigin : d'.origin = d.origin)
    (hpc : ∀ u, d'.pc u = d.pc u ∨ d'.pc u = rouse (d.pc u) ∨ d'.pc u = .tickLocked) :
    Inv L cfg a₀ d' g := by
  have hback : ∀ u, serves (d'.pc u) = true → serves (d.pc u) = true ∧
      (d'.pc u = d.pc u ∨ d'.pc u = rouse (d.pc u)) := by
    intro u hu
    rcases hpc u with heq | heq | heq
    · exact ⟨heq ▸ hu, .inl heq⟩
    · rw [heq, Editors.serves_rouse] at hu
      exact ⟨hu, .inr heq⟩
    · rw [heq] at hu
      cases hu
  obtain ⟨a, hrun, hbehind⟩ := h.store
  refine ⟨⟨a, hrun, hbehind.congr (by rw [hworld]) (by simp only [Shared.session, hworld])⟩,
    fun u hu => ?_, fun u v hu hv heq => ?_, h.old, h.once, h.accounted, fun x hx => ?_,
    by rw [hchannel]; exact h.said⟩
  · obtain ⟨hs, hpcu⟩ := hback u hu
    have hjob := h.jobs u hs
    refine ⟨?_, hjob.called, hjob.serial, by rw [horigin]; exact hjob.origin⟩
    rcases hpcu with heq | heq
    · rw [heq]
      exact hjob.fits
    · rw [heq]
      exact hjob.fits.rouse
  · exact h.apart u v (hback u hu).1 (hback v hv).1 heq
  · exact ⟨(h.retired x hx).1, fun u hu => (h.retired x hx).2 u (hback u hu).1⟩

theorem inv_step (hL : L.toLibrary.Ideal) {b : Action} (h : Inv L cfg a₀ d g)
    (hb : b.faultless ∧ Undisturbed L cfg d b) (hstep : step L cfg d b = some d') :
    Inv L cfg a₀ d' (g.update d b d') := by
  cases b with
  | run t env expired => exact inv_run hL h hb.1 hb.2 hstep
  | request t c id method params => exact inv_request h hstep
  | connect | disconnect =>
    cases stepped hstep
    exact inv_same h rfl rfl rfl fun u => .inl rfl
  | tick t =>
    cases stepped hstep
    refine inv_same h rfl rfl rfl fun u => ?_
    by_cases hut : u = t
    · subst hut
      exact .inr (.inr (Function.update_self _ _ _))
    · exact .inl (Function.update_of_ne hut _ _)
  | rouse t =>
    cases stepped hstep with
    | rouse _ op start hpc =>
      refine inv_same h rfl rfl rfl fun u => ?_
      by_cases hut : u = t
      · subst hut
        refine .inr (.inl ?_)
        rw [hpc]
        exact Function.update_self _ _ _
      · exact .inl (Function.update_of_ne hut _ _)

/-- A store that has just been started on some secrets. -/
def started (m : Secrets) (clock : ℕ) : Store := { Store.new clock with secrets := m }

lemma inv_start {fs : FileSystem} {clock : ℕ} {f : Session Key} {m : Secrets}
    (hf : Holds L.toLibrary fs cfg.vaultPath f) (hm : Agrees m f.body.entries) :
    Inv L cfg (started m clock) (start Key fs clock) .empty where
  store := ⟨_, rfl, rfl, f, hf, hm, fun s hs => by cases hs⟩
  jobs t ht := by cases ht
  apart t u ht := by cases ht
  old n hn := by cases hn
  once := .nil
  accounted x hx := by cases hx
  retired x hx := by cases hx
  said c := rfl

/-- A set and a read of the same name, each read by the daemon before the other is carried out,
with a lock in between. -/
def crossing : List Action :=
  .connect :: (Sample.served 0 "vault.unlock" [("password", .str "pw")] 8 ++
    ([.request 1 1 5 "secret.get" (.obj [("name", .str "a")]),
      .request 2 1 6 "secret.set" (.obj [("name", .str "a"), ("value", .str "x")])] ++
      Sample.turns 1 2 ++ Sample.turns 2 4 ++ Sample.turns 1 2 ++
        Sample.served 0 "vault.lock" [] 4))

end LvimKeyring.Linear
