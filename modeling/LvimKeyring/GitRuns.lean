import LvimKeyring.GitCredential
import LvimKeyring.Lib.Transition
import LvimKeyring.Sample

/-!
Calls of the credential helper beside each other, and beside the other clients of the agent.

A call reads its attributes when it starts, and each of its requests is a step of its own. Any
other request may come to the agent between two steps, and the wallet may lock.
-/

namespace LvimKeyring.GitCredential

open Rpc Crypto Vault Server Transition

variable {Key : Type}

structure Job where
  op : String
  attrs : Attrs
  script : Script

structure State (Key : Type) where
  world : World Key
  jobs : List Job
  /-- The attributes of the `store` calls that have come to the agent. -/
  stored : List Attrs

inductive Action
  | call (op stdin : String)
  /-- The next request of a call, which may not reach the agent. -/
  | rpc (k : ℕ) (env : Env) (reached : Bool)
  | request (env : Env) (method : String) (params : Json)
  | tick (clock : ℕ)

section Step

variable (L : Packages Key) (cfg : Config) (serde : DecodeError → String)

/-- A request of a call, with what comes back. -/
def State.ask (x : State Key) (k : ℕ) (j : Job) (env : Env) (reached : Bool) : Option (State Key) :=
  match j.script with
  | .done _ => none
  | .ask method params next =>
    if reached then
      let o := dispatch L cfg env x.world method params
      some {
        world := o.world
        jobs := x.jobs.set k { j with script := next (some (answer serde o)) }
        stored := if j.op = "store" then x.stored ++ [j.attrs] else x.stored }
    else some { x with jobs := x.jobs.set k { j with script := next none } }

def step (x : State Key) : Action → Option (State Key)
  | .call op stdin =>
    some { x with jobs := x.jobs ++ [⟨op, readAttrs stdin, run op (readAttrs stdin)⟩] }
  | .rpc k env reached => (x.jobs[k]?).bind fun j => x.ask L cfg serde k j env reached
  | .request env method params =>
    some { x with world := (dispatch L cfg env x.world method params).world }
  | .tick clock => some { x with world := (autolockTick cfg clock x.world).1 }

end Step

def start (w : World Key) : State Key := ⟨w, [], []⟩

variable {L : Packages Key} {cfg : Config} {serde : DecodeError → String} {env : Env}
variable {w : World Key} {x x' : State Key}

/-! ### What the wallet makes of the requests of a call -/

lemma entry_saved {s : Session Key} {op : Op} {body : Body} {r : Reply}
    (hs : w.inner.session = some s) (hreads : op.reads = false)
    (hop : op.run L.totp env.now s.body = .ok (body, r)) (n : String) :
    entry (Server.withSession L cfg env false op w).world n = body.entries[n]? := by
  unfold Server.withSession
  simp only [hs, hop, hreads, Bool.false_eq_true, if_false]
  split <;> rfl

lemma fs_erase_locked (hs : w.inner.session = none) (name : String) :
    (dispatch L cfg env w "secret.delete" (nameParams name)).world.fs = w.fs := by
  have hdispatch : dispatch L cfg env w "secret.delete" (nameParams name)
      = Server.withSession L cfg env false (.delete name) (touch env w) := rfl
  have hnone : (touch env w).inner.session = none := hs
  rw [hdispatch]
  unfold Server.withSession
  simp only [hnone]
  rfl

lemma entry_erase (name n : String) :
    entry (dispatch L cfg env w "secret.delete" (nameParams name)).world n =
      if n = name then none else entry w n := by
  have hdispatch : dispatch L cfg env w "secret.delete" (nameParams name)
      = Server.withSession L cfg env false (.delete name) (touch env w) := rfl
  have hentry : entry w n = entry (touch env w) n := rfl
  rw [hdispatch, hentry]
  cases hs : (touch env w).inner.session with
  | none =>
    have hnone : ∀ m, entry (touch env w) m = none := fun m => by rw [entry, hs]; rfl
    have hworld : (Server.withSession L cfg env false (.delete name) (touch env w)).world
        = touch env w := by
      unfold Server.withSession
      simp only [hs]
    rw [hworld, hnone]
    split <;> rfl
  | some s =>
    have hsome : ∀ m, entry (touch env w) m = s.body.entries[m]? := fun m => by rw [entry, hs]; rfl
    cases he : s.body.entries[name]? with
    | none =>
      have hworld : (Server.withSession L cfg env false (.delete name) (touch env w)).world
          = touch env w := by
        unfold Server.withSession
        simp [hs, Op.run, secretDelete, he, Outcome.of]
      rw [hworld, hsome]
      split
      · rename_i heq
        rw [heq, he]
      · rfl
    | some e =>
      have hop : (Op.delete name).run L.totp env.now s.body =
          .ok (⟨s.body.entries.erase name⟩, .unit) := by
        simp [Op.run, secretDelete, he]
      rw [entry_saved hs rfl hop, hsome, Std.ExtTreeMap.getElem?_erase]
      by_cases hn : n = name
      · simp [hn]
      · have hne : compare name n ≠ .eq := fun h => hn (Std.LawfulEqCmp.eq_of_compare h).symm
        simp [hn, hne]

def unlocked (w : World Key) : Bool := w.inner.session.isSome

/-- The value of a name. -/
def valueOf (w : World Key) (name : String) : Option String := (entry w name).map (·.value)

/-- A `set` gives a name its value, if it has one, and leaves the other names alone. -/
lemma valueOf_set {wait : Bool} (p : Params.SetParam) (h : unlocked w = true) :
    unlocked (Server.withSession L cfg env wait (.set p) w).world = true ∧
      ∀ n, valueOf (Server.withSession L cfg env wait (.set p) w).world n =
        if n = p.name then p.value.or (valueOf w n) else valueOf w n := by
  obtain ⟨s, hs⟩ := Option.isSome_iff_exists.mp h
  have hsome : ∀ n, entry w n = s.body.entries[n]? := fun n => by rw [entry, hs]; rfl
  -- What the session has when the request succeeds.
  have hdone : ∀ e,
      (Op.set p).run L.totp env.now s.body = .ok (⟨s.body.entries.insert p.name e⟩, .unit) →
      some e.value = p.value.or (valueOf w p.name) →
      unlocked (Server.withSession L cfg env wait (.set p) w).world = true ∧
        ∀ n, valueOf (Server.withSession L cfg env wait (.set p) w).world n =
          if n = p.name then p.value.or (valueOf w n) else valueOf w n := by
    intro e hop hvalue
    refine ⟨?_, fun n => ?_⟩
    · unfold Server.withSession
      simp only [hs, hop, Op.reads, Bool.false_eq_true, if_false]
      split <;> rfl
    · have hentry : entry (Server.withSession L cfg env false (.set p) w).world n =
          (s.body.entries.insert p.name e)[n]? := entry_saved hs rfl hop n
      have hwait : entry (Server.withSession L cfg env wait (.set p) w).world n
          = entry (Server.withSession L cfg env false (.set p) w).world n := by
        unfold Server.withSession
        simp only [hs]
      rw [valueOf, hwait, hentry, Std.ExtTreeMap.getElem?_insert]
      by_cases hn : n = p.name
      · subst hn
        simpa using hvalue
      · have hne : compare p.name n ≠ .eq := fun heq => hn (Std.LawfulEqCmp.eq_of_compare heq).symm
        rw [if_neg hne, if_neg hn, valueOf, hsome]
  -- An entry keeps its value when none is sent; without an entry that is refused.
  cases he : s.body.entries[p.name]? with
  | some e =>
    refine hdone { applyMeta? { e with value := p.value.getD e.value } p.info with
      updated := env.now } (by simp only [Op.run, secretSet, he]) ?_
    have hold : valueOf w p.name = some e.value := by rw [valueOf, hsome, he]; rfl
    rw [hold, value_applyMeta?]
    cases p.value <;> rfl
  | none =>
    have hold : valueOf w p.name = none := by rw [valueOf, hsome, he]; rfl
    cases hv : p.value with
    | some value =>
      rw [← hv]
      refine hdone (applyMeta? (newEntry value env.now) p.info) ?_ ?_
      · simp only [Op.run, secretSet, he, hv]
      · rw [value_applyMeta?, hv]
        rfl
    | none =>
      have hworld : (Server.withSession L cfg env wait (.set p) w).world = w := by
        unfold Server.withSession
        simp only [hs, Op.run, secretSet, he, hv, Outcome.of]
      rw [hworld]
      refine ⟨h, fun n => ?_⟩
      split <;> rfl

lemma dispatch_store (host password : String) (username : Option String) :
    dispatch L cfg env w "secret.set" (storeParams host password username) =
      Server.withSession L cfg env false (.set ⟨gitName host, some password,
        username.map fun u => ⟨some u, none, none, none, none⟩, false⟩) (touch env w) := by
  have hprepare : prepare env.random "secret.set" (storeParams host password username) =
      .ok (.session false (.set ⟨gitName host, some password,
        username.map fun u => ⟨some u, none, none, none, none⟩, false⟩)) := by
    have hblank : isBlank (gitName host) = false := by
      simp [isBlank, gitName, Totp.isWhitespace]
    have hparams : Params.SetParam.fromValue (storeParams host password username) =
        .ok ⟨gitName host, some password,
          username.map fun u => ⟨some u, none, none, none, none⟩, false⟩ := by
      cases username <;> rfl
    simp only [prepare, prepareSet, decoded, hparams]
    simp [Except.mapError, bind, Except.bind, hblank]
  unfold dispatch
  rw [hprepare]
  rfl

/-! ### Where a call can be -/

/-- A call is before a request it may put at all, or at its end. -/
inductive Stage (j : Job) : Prop
  | done (found : Found) (h : j.script = .done found)
  | get (host : String) (names : List String) (hop : j.op = "get")
    (hhost : j.attrs "host" = some host)
    (hnames : names <:+ [gitName host, forgeName host]) (h : j.script = lookupIn names)
  | store (host password : String) (hop : j.op = "store") (hhost : j.attrs "host" = some host)
    (hpass : j.attrs "password" = some password)
    (h : j.script = .ask "secret.set" (storeParams host password (j.attrs "username"))
      fun _ => .done none)
  | erase (host : String) (hop : j.op = "erase") (hhost : j.attrs "host" = some host)
    (h : j.script = .ask "secret.delete" (nameParams (gitName host)) fun _ => .done none)

lemma stage_run (op : String) (attrs : Attrs) : Stage ⟨op, attrs, run op attrs⟩ := by
  unfold run
  cases hhost : attrs "host" with
  | none => exact .done none rfl
  | some host =>
    simp only
    split
    · exact .get host _ rfl hhost List.suffix_rfl rfl
    · cases hpass : attrs "password" with
      | none => exact .done none rfl
      | some password => exact .store host password rfl hhost hpass rfl
    · exact .erase host rfl hhost rfl
    · exact .done none rfl

lemma stage_next {j : Job} {method : String} {params : Json} {next : Option Json → Script}
    (h : Stage j) (hj : j.script = .ask method params next) (msg : Option Json) :
    Stage { j with script := next msg } := by
  cases h with
  | done found h =>
    rw [h] at hj
    cases hj
  | get host names hop hhost hnames h =>
    rw [h] at hj
    cases names with
    | nil => cases hj
    | cons name names =>
      cases hj
      cases hmsg : msg.filter isOk with
      | some m => exact .done (credential m) (by simp only [hmsg])
      | none =>
        refine .get host names hop hhost ?_ (by simp only [hmsg])
        exact (List.suffix_cons name names).trans hnames
  | store host password hop hhost hpass h =>
    rw [h] at hj
    cases hj
    exact .done none rfl
  | erase host hop hhost h =>
    rw [h] at hj
    cases hj
    exact .done none rfl

def Staged (x : State Key) : Prop := ∀ j ∈ x.jobs, Stage j

lemma ask_cases {k : ℕ} {j : Job} {reached : Bool}
    (h : x.ask L cfg serde k j env reached = some x') :
    ∃ method params next, j.script = .ask method params next ∧
      ((reached = true ∧ x' = ⟨(dispatch L cfg env x.world method params).world,
          x.jobs.set k { j with
            script := next (some (answer serde (dispatch L cfg env x.world method params))) },
          if j.op = "store" then x.stored ++ [j.attrs] else x.stored⟩) ∨
        (reached = false ∧
          x' = { x with jobs := x.jobs.set k { j with script := next none } })) := by
  unfold State.ask at h
  split at h
  · cases h
  · rename_i method params next hj
    refine ⟨method, params, next, hj, ?_⟩
    cases reached with
    | true =>
      cases h
      exact .inl ⟨rfl, rfl⟩
    | false =>
      cases h
      exact .inr ⟨rfl, rfl⟩

lemma staged_step {a : Action} (h : Staged x) (hstep : step L cfg serde x a = some x') :
    Staged x' := by
  cases a with
  | call op stdin =>
    cases hstep
    intro j hj
    rcases List.mem_append.mp hj with hj | hj
    · exact h j hj
    · rw [List.mem_singleton.mp hj]
      exact stage_run _ _
  | rpc k env reached =>
    obtain ⟨j, hj, hask⟩ := Option.bind_eq_some_iff.mp hstep
    have hstage := h j (List.mem_of_getElem? hj)
    obtain ⟨method, params, next, hscript, ⟨-, rfl⟩ | ⟨-, rfl⟩⟩ := ask_cases hask
    · intro j' hj'
      rcases List.mem_or_eq_of_mem_set hj' with hold | rfl
      · exact h j' hold
      · exact stage_next hstage hscript _
    · intro j' hj'
      rcases List.mem_or_eq_of_mem_set hj' with hold | rfl
      · exact h j' hold
      · exact stage_next hstage hscript _
  | request env method params =>
    cases hstep
    exact h
  | tick clock =>
    cases hstep
    exact h

lemma staged_run {as : List Action}
    (hrun : Transition.run (step L cfg serde) (start w) as = some x) :
    Staged x := by
  have hkeep : ∀ s a t, Staged s → True → step L cfg serde s a = some t → Staged t :=
    fun _ _ _ h _ hstep => staged_step h hstep
  exact run_inv hkeep (fun j hj => by cases hj) (along_of_forall fun _ _ _ => trivial) hrun

/-! ### What `erase` removes -/

/-- What is asked of `erase`: it removes an entry only if it is the one git was given. -/
def SparesGood (L : Packages Key) (cfg : Config) (serde : DecodeError → String) : Prop :=
  ∀ w as x k j env reached x', Transition.run (step L cfg serde) (start w) as = some x →
    x.jobs[k]? = some j → j.op = "erase" → step L cfg serde x (.rpc k env reached) = some x' →
    ∀ name e, entry x.world name = some e → entry x'.world name = none →
      (∃ host, j.attrs "host" = some host ∧ name = gitName host) ∧
      (∀ u, j.attrs "username" = some u → e.user = some u) ∧
      ∀ p, j.attrs "password" = some p → e.value = p

/-- An `erase` that reaches the agent removes the entry of its host, whatever user name and
password it reports, and no other; one that does not, or that finds the wallet locked, leaves the
vault file as it is. -/
theorem erased_of_host {as : List Action} {k : ℕ} {j : Job} {reached : Bool}
    (hrun : Transition.run (step L cfg serde) (start w) as = some x) (hj : x.jobs[k]? = some j)
    (hop : j.op = "erase") (hstep : step L cfg serde x (.rpc k env reached) = some x') :
    ∃ host, j.attrs "host" = some host ∧
      (∀ n, entry x'.world n =
        if n = gitName host ∧ reached = true then none else entry x.world n) ∧
      (x.world.inner.session = none ∨ reached = false → x'.world.fs = x.world.fs) := by
  obtain ⟨j', hj', hask⟩ := Option.bind_eq_some_iff.mp hstep
  rw [hj] at hj'
  cases hj'
  obtain ⟨method, params, next, hscript, hcases⟩ := ask_cases hask
  cases staged_run hrun j (List.mem_of_getElem? hj) with
  | done found h =>
    rw [h] at hscript
    cases hscript
  | get host names hget hhost hnames h =>
    rw [hop] at hget
    exact absurd hget (by decide)
  | store host password hstore hhost hpass h =>
    rw [hop] at hstore
    exact absurd hstore (by decide)
  | erase host herase hhost h =>
    rw [h] at hscript
    cases hscript
    rcases hcases with ⟨hreached, rfl⟩ | ⟨hreached, rfl⟩
    · refine ⟨host, hhost, fun n => ?_, ?_⟩
      · rw [entry_erase]
        simp [hreached]
      · rintro (hlocked | hlost)
        · exact fs_erase_locked hlocked (gitName host)
        · rw [hreached] at hlost
          cases hlost
    · exact ⟨host, hhost, fun n => by simp [hreached], fun _ => rfl⟩

/-! ### A password git has rejected -/

abbrev sampleStep : State Sample.Key → Action → Option (State Sample.Key) :=
  step Sample.packages Sample.config fun _ => ""

/-- The entry of a host is set, and git reports another password as rejected. -/
def mistaken : List Action :=
  [.request Sample.env "secret.set" (.obj [("name", .str (gitName "h")), ("value", .str "good")]),
    .call "erase" "host=h\nusername=u\npassword=bad\n"]

lemma run_mistaken : ∃ x j x',
    Transition.run sampleStep (start Sample.created) mistaken = some x ∧ x.jobs[0]? = some j ∧
    j.op = "erase" ∧ j.attrs "password" = some "bad" ∧
    sampleStep x (.rpc 0 Sample.env true) = some x' ∧
    (entry x.world (gitName "h")).map (·.value) = some "good" ∧
    entry x'.world (gitName "h") = none := by
  have hend : (Transition.run sampleStep (start Sample.created) mistaken).bind (fun x =>
      (x.jobs[0]?).bind fun j => (sampleStep x (.rpc 0 Sample.env true)).map fun x' =>
        (j.op, j.attrs "password", (entry x.world (gitName "h")).map (·.value),
          (entry x'.world (gitName "h")).isNone)) =
      some ("erase", some "bad", some "good", true) := by
    decide +kernel
  obtain ⟨x, hx, hrest⟩ := Option.bind_eq_some_iff.mp hend
  obtain ⟨j, hj, hrest⟩ := Option.bind_eq_some_iff.mp hrest
  obtain ⟨x', hx', heq⟩ := Option.map_eq_some_iff.mp hrest
  simp only [Prod.mk.injEq, Option.isNone_iff_eq_none] at heq
  exact ⟨x, j, x', hx, hj, heq.1, heq.2.1, hx', heq.2.2.1, heq.2.2.2⟩

theorem erased_of_host_mistaken : ∃ x x',
    Transition.run sampleStep (start Sample.created) mistaken = some x ∧
    sampleStep x (.rpc 0 Sample.env true) = some x' ∧
    ∃ host, ∀ n, entry x'.world n =
      if n = gitName host ∧ true = true then none else entry x.world n := by
  obtain ⟨x, j, x', hx, hj, hop, -, hx', -, -⟩ := run_mistaken
  obtain ⟨host, -, herased, -⟩ := erased_of_host hx hj hop hx'
  exact ⟨x, x', hx, hx', host, herased⟩

theorem not_sparesGood : ¬ SparesGood Sample.packages Sample.config (fun _ => "") := by
  intro h
  obtain ⟨x, j, x', hx, hj, hop, hpass, hx', hold, hgone⟩ := run_mistaken
  obtain ⟨e, he, hvalue⟩ := Option.map_eq_some_iff.mp hold
  have hgood := (h _ _ x 0 j _ _ x' hx hj hop hx' _ e he hgone).2.2 "bad" hpass
  rw [hvalue] at hgood
  exact absurd hgood (by decide)

end LvimKeyring.GitCredential
