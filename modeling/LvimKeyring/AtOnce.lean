import LvimKeyring.Generating
import LvimKeyring.Pool

/-!
Requests that ask not to wait.

A thread that serves one goes from the decoding of the request to the session and to its answer, and
never into `wait_for_unlock`. Only a `secret.generate` that stores has no say in it.
-/

namespace LvimKeyring.AtOnce

open Rpc Params Crypto Vault Server Daemon Transition Result
open Pool (parked)

variable {Key : Type}

/-! ### The statement -/

/-- The parameters of a `secret.*` request decode. -/
def decodes (method : String) (params : Json) : Bool :=
  match method with
  | "secret.get" | "secret.delete" | "secret.totp" => (NameParam.fromValue params).isOk
  | "secret.set" => (SetParam.fromValue params).isOk
  | "secret.rename" => (RenameParam.fromValue params).isOk
  | "secret.list" => (WaitParam.fromValue params).isOk
  | "secret.generate" => (GenerateParam.fromValue params).isOk
  | _ => false

/-- A `secret.generate` with a name to store under. -/
def stores (method : String) (kvs : List (String × Json)) : Bool :=
  method = "secret.generate" &&
    match kvs.lookup "store_as" with
    | some (.str name) => !isBlank name
    | _ => false

/-- A section that looks whether there is a session to work on. -/
def reaches : Pc Key → Bool
  | .call (.session _ _) | .access _ => true
  | _ => false

/-- The step gives a thread another request. -/
def starts (t : ℕ) : Action → Bool
  | .request u _ _ _ _ | .tick u => u = t
  | _ => false

/-- A thread that serves a request of a client goes on without waiting. -/
structure Unwaited (L : Packages Key) (cfg : Config) (t c id : ℕ) (d : State Key) : Prop where
  unparked : parked (d.pc t) = false
  goes : ∀ env expired, d.pc t ≠ .idle → ∃ d', step L cfg d (.run t env expired) = some d'
  silent : ∀ env expired d' k, step L cfg d (.run t env expired) = some d' →
    d'.shared.channel k = d.shared.channel k ∨
      ∃ r, d'.shared.channel k = d.shared.channel k ++ [.response id r]
  keeps : ∀ env expired d', step L cfg d (.run t env expired) = some d' → d.shared.session = none →
    d'.shared.session = none ∧ d'.shared.world.fs = d.shared.world.fs
  locked : ∀ env expired d', step L cfg d (.run t env expired) = some d' → d.shared.session = none →
    reaches (d.pc t) = true → d'.pc t = .respond (.error .locked)
  bare : ∀ env expired d' value, step L cfg d (.run t env expired) = some d' →
    d.pc t = .call (.bare value) → d'.pc t = .respond (.ok (.generated value))
  answers : ∀ env expired d' r, step L cfg d (.run t env expired) = some d' → d.pc t = .respond r →
    d'.pc t = .idle ∧ d'.shared.channel c = d.shared.channel c ++ [.response id r]

/-- What is asked of one request. -/
def NeverWaits (L : Packages Key) (cfg : Config) (method : String) (params : Json) : Prop :=
  ∀ fs clock as t c id bs d, (∀ a ∈ bs, starts t a = false) →
    run (step L cfg) (start Key fs clock) (as ++ .request t c id method params :: bs) = some d →
    Unwaited L cfg t c id d

/-! ### Decoding -/

variable {L : Packages Key} {cfg : Config} {env : Env} {method : String}
    {kvs : List (String × Json)}

lemma storeAs_filter {p : GenerateParam} (h : GenerateParam.fromValue (.obj kvs) = .ok p)
    (hstores : stores "secret.generate" kvs = false) :
    (p.storeAs.filter fun n => !isBlank n) = none := by
  obtain ⟨-, -, hstore⟩ := Generating.fields_of_fromValue h
  rw [Rpc.optional] at hstore
  cases hlookup : kvs.lookup "store_as" with
  | none =>
    rw [hlookup] at hstore
    rw [← Except.ok.inj hstore]
    rfl
  | some j =>
    rw [hlookup] at hstore
    cases j with
    | str name =>
      have hblank : isBlank name = true := by simpa [stores, hlookup] using hstores
      rw [← Except.ok.inj hstore]
      simp [hblank]
    | null =>
      rw [← Except.ok.inj hstore]
      rfl
    | bool | num | float | arr | obj => cases hstore

section Decoding

variable (hwait : kvs.lookup "wait" = some (.bool false))

include hwait

lemma optional_wait {fs : List Field} {p : Present} {dflt wait : Bool}
    (hp : visitMap fs kvs = .ok p) (h : Rpc.optional p "wait" decodeBool dflt = .ok wait) :
    wait = false := by
  rw [Generating.visitMap_eq hp, Rpc.optional, hwait] at h
  exact (Except.ok.inj h).symm

lemma nameParam_wait {p : NameParam} (h : decoded (NameParam.fromValue (.obj kvs)) = .ok p) :
    p.wait = false := by
  simp only [decoded, NameParam.fromValue, visitStruct, mapError_eq_ok, bind_eq_ok, pure_eq_ok] at h
  obtain ⟨present, hp, _, -, wait, hw, rfl⟩ := h
  exact optional_wait hwait hp hw

lemma renameParam_wait {p : RenameParam} (h : decoded (RenameParam.fromValue (.obj kvs)) = .ok p) :
    p.wait = false := by
  simp only [decoded, RenameParam.fromValue, visitStruct, mapError_eq_ok, bind_eq_ok,
    pure_eq_ok] at h
  obtain ⟨present, hp, _, -, _, -, wait, hw, rfl⟩ := h
  exact optional_wait hwait hp hw

lemma setParam_wait {p : SetParam} (h : decoded (SetParam.fromValue (.obj kvs)) = .ok p) :
    p.wait = false := by
  simp only [decoded, SetParam.fromValue, visitStruct, mapError_eq_ok, bind_eq_ok, pure_eq_ok] at h
  obtain ⟨present, hp, _, -, _, -, _, -, wait, hw, rfl⟩ := h
  exact optional_wait hwait hp hw

lemma waitParam_wait {p : WaitParam} (h : WaitParam.fromValue (.obj kvs) = .ok p) :
    p.wait = false := by
  simp only [WaitParam.fromValue, visitStruct, bind_eq_ok, pure_eq_ok] at h
  obtain ⟨present, hp, wait, hw, rfl⟩ := h
  exact optional_wait hwait hp hw

/-- What a request that asks not to wait is prepared to. -/
lemma prepare_atOnce {random : ℕ → UInt8} {c : Call} (hdec : decodes method (.obj kvs) = true)
    (hstores : stores method kvs = false) (h : prepare random method (.obj kvs) = .ok c) :
    (∃ op, c = .session false op) ∨ ∃ value, c = .bare value := by
  unfold prepare at h
  split at h
  case h_8 | h_10 | h_14 =>
    simp only [bind_eq_ok, pure_eq_ok] at h
    obtain ⟨p, hp, rfl⟩ := h
    rw [nameParam_wait hwait hp]
    exact .inl ⟨_, rfl⟩
  case h_9 =>
    simp only [prepareSet, bind_eq_ok] at h
    obtain ⟨p, hp, h⟩ := h
    split at h <;> cases h
    rw [setParam_wait hwait hp]
    exact .inl ⟨_, rfl⟩
  case h_11 =>
    simp only [prepareRename, bind_eq_ok] at h
    obtain ⟨p, hp, h⟩ := h
    split at h <;> cases h
    rw [renameParam_wait hwait hp]
    exact .inl ⟨_, rfl⟩
  -- `unwrap_or_default` reads parameters that do not decode as those of a call that waits.
  case h_12 =>
    cases h
    cases hp : WaitParam.fromValue (.obj kvs) with
    | error e =>
      simp [decodes, hp, Except.isOk, Except.toBool] at hdec
    | ok p =>
      left
      refine ⟨.list, ?_⟩
      rw [orDefault, waitParam_wait hwait hp]
  -- A password that is not stored is handed out without the session.
  case h_13 =>
    cases h
    cases hp : GenerateParam.fromValue (.obj kvs) with
    | error e => exact .inr ⟨_, Generating.prepare_of_unreadable hp⟩
    | ok p =>
      rw [Generating.prepare_of_readable hp, storeAs_filter hp hstores]
      exact .inr ⟨_, rfl⟩
  case h_15 => cases h
  all_goals simp [decodes] at hdec

end Decoding

/-! ### Serving a request that does not wait -/

/-- The sections such a request goes through. -/
inductive Direct (method : String) (params : Json) : Pc Key → Prop
  | dispatch : Direct method params (.dispatch method params)
  | session (op : Op) : Direct method params (.call (.session false op))
  | bare (value : String) : Direct method params (.call (.bare value))
  | access (op : Op) : Direct method params (.access op)
  | respond (r : Except Err Reply) : Direct method params (.respond r)
  | idle : Direct method params .idle

/-- A request that is prepared to something that does not wait. -/
def Ready (method : String) (params : Json) : Prop :=
  ∀ random c, prepare random method params = .ok c →
    (∃ op, c = .session false op) ∨ ∃ value, c = .bare value

variable {params : Json} {sh sh' : Shared Key} {p p' : Pc Key} {expired : Bool} {t c id : ℕ}
variable {d d' : State Key}

lemma exec_direct (hready : Ready method params) (hp : Direct method params p)
    (h : p.exec L cfg env expired t (c, id) sh = some (sh', p')) : Direct method params p' := by
  cases hp with
  | dispatch =>
    simp only [Pc.exec] at h
    cases hprepare : prepare env.random method params with
    | error e =>
      rw [hprepare] at h
      cases h
      exact .respond _
    | ok call =>
      rw [hprepare] at h
      cases h
      rcases hready _ _ hprepare with ⟨op, rfl⟩ | ⟨value, rfl⟩
      · exact .session op
      · exact .bare value
  | session op =>
    simp only [Pc.exec, begin] at h
    split at h <;> cases h
    · exact .access op
    · exact .respond _
  | bare value =>
    cases h
    exact .respond _
  | access op =>
    cases h
    exact .respond _
  | respond r =>
    cases h
    exact .idle
  | idle => cases h

lemma rouse_direct (hp : Direct method params p) : rouse p = p := by
  cases hp <;> rfl

/-- The thread serves the request of the client, or has served it. -/
structure Serves (method : String) (params : Json) (t c id : ℕ) (d : State Key) : Prop where
  direct : Direct method params (d.pc t)
  origin : d.origin t = (c, id)

lemma serves_step {a : Action} (hready : Ready method params) (h : Serves method params t c id d)
    (ha : starts t a = false) (hstep : step L cfg d a = some d') :
    Serves method params t c id d' := by
  cases stepped hstep with
  | connect | disconnect => exact ⟨h.direct, h.origin⟩
  | request u k i m ps =>
    have hne : t ≠ u := fun heq => by simp [starts, heq] at ha
    refine ⟨?_, (Function.update_of_ne hne _ _).trans h.origin⟩
    simpa [State.withPc, hne] using h.direct
  | tick u =>
    have hne : t ≠ u := fun heq => by simp [starts, heq] at ha
    refine ⟨?_, h.origin⟩
    simpa [State.withPc, hne] using h.direct
  | run u env expired =>
    obtain ⟨p, hexec, hself, hothers⟩ := step_run hstep
    refine ⟨?_, by rw [origin_run hstep, h.origin]⟩
    by_cases htu : t = u
    · subst htu
      rw [h.origin] at hexec
      rw [hself]
      exact exec_direct hready h.direct hexec
    · rw [hothers t htu]
      split
      · rw [rouse_direct h.direct]
        exact h.direct
      · exact h.direct
  | rouse u op start hpc =>
    have hne : t ≠ u := by
      rintro rfl
      have hdirect := h.direct
      rw [hpc] at hdirect
      cases hdirect
    refine ⟨?_, h.origin⟩
    simpa [State.withPc, hne] using h.direct

lemma direct_goes (hp : Direct method params p) (hne : p ≠ .idle) (expired : Bool) :
    ∃ r, p.exec L cfg env expired t (c, id) sh = some r := by
  cases hp with
  | dispatch =>
    simp only [Pc.exec]
    split <;> exact ⟨_, rfl⟩
  | session op =>
    simp only [Pc.exec, begin]
    split <;> exact ⟨_, rfl⟩
  | bare | access | respond => exact ⟨_, rfl⟩
  | idle => exact absurd rfl hne

lemma direct_silent (hp : Direct method params p)
    (h : p.exec L cfg env expired t (c, id) sh = some (sh', p')) (k : ℕ) :
    sh'.channel k = sh.channel k ∨ ∃ r, sh'.channel k = sh.channel k ++ [.response id r] := by
  cases hp with
  | dispatch =>
    left
    simp only [Pc.exec] at h
    split at h <;> cases h <;> split <;> rfl
  | session op =>
    left
    simp only [Pc.exec, begin] at h
    split at h <;> cases h <;> rfl
  | bare | access =>
    cases h
    exact .inl rfl
  | respond r =>
    cases h
    by_cases hk : k = c
    · subst hk
      exact .inr ⟨r, Function.update_self _ _ _⟩
    · exact .inl (Function.update_of_ne hk _ _)
  | idle => cases h

/-- What a locked vault makes of a section. -/
lemma direct_locked (hp : Direct method params p) (hlocked : sh.session = none)
    (h : p.exec L cfg env expired t (c, id) sh = some (sh', p')) :
    (sh'.session = none ∧ sh'.world.fs = sh.world.fs) ∧
      (reaches p = true → p' = .respond (.error .locked)) := by
  cases hp with
  | dispatch =>
    refine ⟨?_, fun hr => by cases hr⟩
    simp only [Pc.exec] at h
    split at h <;> cases h
    · split
      · exact ⟨hlocked, rfl⟩
      · exact ⟨hlocked, rfl⟩
    · split
      · exact ⟨hlocked, rfl⟩
      · exact ⟨hlocked, rfl⟩
  | session op =>
    simp only [Pc.exec, begin, hlocked] at h
    cases h
    exact ⟨⟨hlocked, rfl⟩, fun _ => rfl⟩
  | access op =>
    have hrefused : Server.withSession L cfg env false op sh.world =
        ⟨sh.world, .error .locked, [], 0⟩ := by
      have hnone : sh.world.inner.session = none := hlocked
      rw [Server.withSession, hnone]
      rfl
    simp only [Pc.exec, hrefused] at h
    cases h
    exact ⟨⟨hlocked, rfl⟩, fun _ => rfl⟩
  | bare value =>
    cases h
    exact ⟨⟨hlocked, rfl⟩, fun hr => by cases hr⟩
  | respond r =>
    cases h
    exact ⟨⟨hlocked, rfl⟩, fun hr => by cases hr⟩
  | idle => cases h

/-- One step of the thread. -/
lemma unwaited_of_serves (h : Serves method params t c id d) : Unwaited L cfg t c id d := by
  have hrun : ∀ env expired d', step L cfg d (.run t env expired) = some d' →
      (d.pc t).exec L cfg env expired t (c, id) d.shared = some (d'.shared, d'.pc t) := by
    intro env expired d' hstep
    obtain ⟨p, hexec, hself, -⟩ := step_run hstep
    rw [h.origin] at hexec
    rw [hself]
    exact hexec
  refine ⟨?_, fun env expired hne => ?_, fun env expired d' k hstep => ?_,
    fun env expired d' hstep hlocked => ?_, fun env expired d' hstep hlocked hr => ?_,
    fun env expired d' value hstep hpc => ?_, fun env expired d' r hstep hpc => ?_⟩
  · have hdirect := h.direct
    generalize d.pc t = p at hdirect
    cases hdirect <;> rfl
  · obtain ⟨⟨sh', p'⟩, hexec⟩ : ∃ r, (d.pc t).exec L cfg env expired t (c, id) d.shared = some r :=
      direct_goes h.direct hne expired
    rw [← h.origin] at hexec
    simp only [step, hexec]
    exact ⟨_, rfl⟩
  · exact direct_silent h.direct (hrun env expired d' hstep) k
  · exact (direct_locked h.direct hlocked (hrun env expired d' hstep)).1
  · exact (direct_locked h.direct hlocked (hrun env expired d' hstep)).2 hr
  · have hexec := hrun env expired d' hstep
    simp only [hpc, Pc.exec, begin, Option.some.injEq, Prod.mk.injEq] at hexec
    exact hexec.2.symm
  · have hexec := hrun env expired d' hstep
    simp only [hpc, Pc.exec, Option.some.injEq, Prod.mk.injEq] at hexec
    obtain ⟨hsh, hpc'⟩ := hexec
    refine ⟨hpc'.symm, ?_⟩
    rw [← hsh]
    exact Function.update_self _ _ _

lemma neverWaits_of_ready (hready : Ready method params) : NeverWaits L cfg method params := by
  intro fs clock as t c id bs d hbs hrun
  obtain ⟨d₀, -, hrest⟩ := run_append_eq_some.mp hrun
  obtain ⟨d₁, hstart, hrest⟩ := run_cons_eq_some.mp hrest
  have hserves : Serves method params t c id d₁ := by
    obtain ⟨-, -, hpc, horigin, -⟩ := request_threads hstart
    refine ⟨?_, horigin⟩
    rw [hpc]
    exact .dispatch
  exact unwaited_of_serves (run_inv (fun _ _ _ h ha ht => serves_step hready h ha ht) hserves
    (along_of_forall fun a ha _ => hbs a ha) hrest)

lemma prepare_stores (hdec : decodes method (.obj kvs) = true) (hstores : stores method kvs = true)
    (random : ℕ → UInt8) :
    method = "secret.generate" ∧ ∃ op,
      prepare random method (.obj kvs) = .ok (.session true op) := by
  simp only [stores, Bool.and_eq_true, decide_eq_true_eq] at hstores
  obtain ⟨rfl, hname⟩ := hstores
  refine ⟨rfl, ?_⟩
  cases hp : GenerateParam.fromValue (.obj kvs) with
  | error e => simp [decodes, hp, Except.isOk, Except.toBool] at hdec
  | ok p =>
    split at hname
    · rename_i name hlookup
      have hstore : (p.storeAs.filter fun n => !isBlank n) = some name := by
        rw [Generating.storeAs_of_fromValue hp hlookup]
        simpa using hname
      refine ⟨.generate name (generatePassword random (p.length.getD 24) (p.symbols.getD true)), ?_⟩
      show Except.ok (prepareGenerate random (.obj kvs)) = _
      rw [Generating.prepare_of_readable hp, hstore]
    · cases hname

lemma not_neverWaits_of_parks {random : ℕ → UInt8} {op : Op}
    (hprepare : prepare random method params = .ok (.session true op)) :
    ¬ NeverWaits L cfg method params := by
  intro hnever
  let d₁ : State Key := { Daemon.start Key (fun _ => none) 0 with
    shared := { (Daemon.start Key (fun _ => none) 0).shared with clients := [1], nextClient := 2 }
    pc := Function.update (fun _ => .idle) 0 (.dispatch method params)
    origin := Function.update (fun _ => (0, 0)) 0 (1, 1) }
  let env : Env := Generating.faultless random
  have hprepare' : prepare env.random method params = .ok (.session true op) := hprepare
  obtain ⟨d, start, hrun, hpc, -⟩ :=
    Pool.run_asleep (L := L) (d := d₁) (t := 0) rfl hprepare' rfl rfl
  have hall : run (step L cfg) (Daemon.start Key (fun _ => none) 0)
      ([.connect] ++ .request 0 1 1 method params :: List.replicate 7 (.run 0 env false)) =
      some d :=
    run_append_eq_some.mpr ⟨_, rfl, run_cons_eq_some.mpr ⟨d₁, rfl, hrun⟩⟩
  have hparked := (hnever _ 0 [.connect] 0 1 1 _ d (fun a ha => by
    rw [List.eq_of_mem_replicate ha]
    rfl) hall).unparked
  rw [hpc, Function.update_self] at hparked
  cases hparked

/-- **No prompt for who does not wait**: a request that asks not to wait is answered at once, unless
it generates a password to store. -/
theorem neverWaits_iff (hdec : decodes method (.obj kvs) = true)
    (hwait : kvs.lookup "wait" = some (.bool false)) :
    NeverWaits L cfg method (.obj kvs) ↔ stores method kvs = false := by
  constructor
  · intro hnever
    by_contra hstores
    rw [Bool.not_eq_false] at hstores
    obtain ⟨rfl, op, hprepare⟩ := prepare_stores hdec hstores fun _ => 0
    exact not_neverWaits_of_parks hprepare hnever
  · intro hstores
    exact neverWaits_of_ready fun random c h => prepare_atOnce hwait hdec hstores h

theorem neverWaits_git : NeverWaits Sample.packages Sample.config "secret.get"
    (.obj [("name", .str "git/h"), ("wait", .bool false)]) :=
  (neverWaits_iff (by decide +kernel) rfl).mpr (by decide +kernel)

theorem not_neverWaits : ¬ ∀ method kvs, decodes method (.obj kvs) = true →
    kvs.lookup "wait" = some (.bool false) →
    NeverWaits Sample.packages Sample.config method (.obj kvs) := by
  intro hall
  have hnever := hall "secret.generate" [("store_as", .str "a"), ("wait", .bool false)]
    (by decide +kernel) rfl
  obtain ⟨-, op, hprepare⟩ := prepare_stores
    (by decide +kernel : decodes "secret.generate"
      (.obj [("store_as", .str "a"), ("wait", .bool false)])
      = true) (by decide +kernel) Sample.env.random
  exact not_neverWaits_of_parks hprepare hnever

end LvimKeyring.AtOnce
