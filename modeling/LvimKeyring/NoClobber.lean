import LvimKeyring.Handover

/-!
What storing a candidate does to an entry that is there already.

`secret.set` overwrites, so both loops go by the list of the names that are there. An entry that
comes in after the list was made is overwritten, and so is every entry when the list request
fails, since an error counts as an empty wallet.
-/

namespace LvimKeyring.NoClobber

open Rpc Params Crypto Vault Server Daemon Parking Transition Result ListUpdate Migration

variable {Key : Type} (L : Packages Key) (cfg : Config) (flow : Flow) (candidates : List Candidate)

/-! ### The statement -/

/-- A section that stores a candidate leaves the entry that is there under its name. -/
def SparesEntry (x : Migration.State Key) : Event → Prop
  | .act (.run t env expired) => ∀ op ∈ operation (x.agent.pc t), ∀ j ∈ x.client.jobs,
    j.servedBy t = true → ∀ s entry, x.agent.shared.session = some s →
      s.body.entries[j.candidate.name]? = some entry →
        ∀ y, step L cfg flow candidates x (.act (.run t env expired)) = some y →
          ∃ s', y.agent.shared.session = some s' ∧ s'.body.entries[j.candidate.name]? = some entry
  | _ => True

/-- Migration and import never clobber. -/
def NeverClobbers : Prop :=
  ∀ (Key : Type) (L : Packages Key) (cfg : Config) (flow : Flow) (candidates : List Candidate)
    (w : World Key) (es : List Event), Along (step L cfg flow candidates)
      (SparesEntry L cfg flow candidates) (start Key w) es

/-! ### The condition -/

/-- The entries of the answer to a list request, if it is no error. -/
def entriesOf : Except Err Reply → Option (List Summary)
  | .ok (.listing l) => some l
  | _ => none

lemma existing_eq (r : Except Err Reply) :
    existing r = ((entriesOf r).getD []).map (·.name) := by
  rcases r with e | r
  · rfl
  · cases r <;> rfl

/-- The entries the list request is answered with, once that is settled. -/
def listing (x : Migration.State Key) : Option (List Summary) :=
  match x.client.listed with
  | some r => entriesOf r
  | none => x.client.lister.bind fun t => (answering (x.agent.pc t)).bind entriesOf

/-- The names that are not on the list, until the loop has sent their requests. -/
def toSend (x : Migration.State Key) : List String :=
  if x.client.phase = .listing then
    match listing x with
    | some l => (candidates.map (·.name)).filter fun n => n ∉ l.map (·.name)
    | none => []
  else []

/-- The names whose requests are still to be run. -/
def awaited (x : Migration.State Key) : List String :=
  toSend candidates x ++
    (x.client.jobs.filter fun j => (decided x.agent j).isNone).map (·.candidate.name)

/-- Those of the requests that a thread does not serve. -/
def awaitedBut (x : Migration.State Key) (t : ℕ) : List String :=
  toSend candidates x ++
    (x.client.jobs.filter fun j => (decided x.agent j).isNone && !j.servedBy t).map
      (·.candidate.name)

def lacks (b : Body) (name : String) : Bool := b.entries[name]?.isNone

/-- The wallet, if it is unlocked, has no entry of a candidate's name. -/
def lacksAll (x : Migration.State Key) : Bool :=
  x.agent.shared.session.all fun s => candidates.all fun c => lacks s.body c.name

/-- The operation leaves the session without an entry of that name. -/
def leavesOut (env : Env) (s : Session Key) (op : Op) (name : String) : Bool :=
  match op.run L.totp env.now s.body with
  | .ok (b, _) => lacks b name
  | .error _ => true

/-- A section that brings no entry of such a name into the wallet. -/
def bringsNone (env : Env) (sh : Shared Key) (names : List String) : Pc Key → Bool
  | .access op => sh.session.all fun s => names.all (leavesOut L env s op)
  | .install s _ => names.all (lacks s.body)
  | _ => true

/-- From the answer to the list request on, nobody else brings an entry of a name that is
awaited into the wallet; and when the request fails, the wallet has none of the names. -/
def quiet (x : Migration.State Key) : Event → Bool
  | .act (.run t env _) =>
    bringsNone L env x.agent.shared (awaitedBut candidates x t) (x.agent.pc t)
  | .listed _ => x.client.listed.all fun r => (entriesOf r).isSome || lacksAll candidates x
  | .listLost _ => lacksAll candidates x
  | _ => true

variable {L cfg flow candidates}

/-! ### The wallet -/

section Wallet

variable {env : Env} {expired : Bool} {t : ℕ} {origin : ℕ × ℕ} {sh sh' : Shared Key}
variable {p p' : Pc Key} {name : String}

/-- The session, if there is one, has no entry of that name. -/
def Lacks (sh : Shared Key) (name : String) : Prop :=
  ∀ s, sh.session = some s → lacks s.body name = true

lemma lacks_of_session (h : Lacks sh name) (hs : ∀ s, sh'.session = some s → sh.session = some s) :
    Lacks sh' name := fun s hsession => h s (hs s hsession)

lemma lacks_withSession {op : Op} (h : Lacks sh name)
    (hop : ∀ s, sh.session = some s → leavesOut L env s op name = true) (s' : Session Key)
    (hs' : (Server.withSession L cfg env false op sh.world).world.inner.session = some s') :
    lacks s'.body name = true := by
  unfold Server.withSession at hs'
  split at hs'
  · rename_i hnone
    rw [hnone] at hs'
    cases hs'
  · rename_i s hs
    have hleaves := hop s hs
    unfold leavesOut at hleaves
    split at hs'
    · exact h s' hs'
    · rename_i b r hrun
      rw [hrun] at hleaves
      split at hs'
      · exact h s' hs'
      · simp only at hs'
        split at hs' <;> cases hs' <;> exact hleaves

/-- A section that brings no entry of the name leaves the wallet without one. -/
lemma lacks_exec (h : Lacks sh name) (hquiet : bringsNone L env sh [name] p = true)
    (hexec : p.exec L cfg env expired t origin sh = some (sh', p')) : Lacks sh' name := by
  cases p with
  | access op =>
    cases hexec
    intro s' hs'
    refine lacks_withSession h (fun s hs => ?_) s' hs'
    have hall : ([name].all (leavesOut L env s op)) = true := by
      simpa only [bringsNone, hs, Option.all_some] using hquiet
    simpa using hall
  | install s k =>
    cases hexec
    intro s' hs'
    obtain rfl : s = s' := Option.some.inj hs'
    simpa [bringsNone] using hquiet
  | tickTake =>
    cases hexec
    exact lacks_of_session h fun s hs => by cases hs
  | createWrite password | rotateWrite current old new =>
    simp only [Pc.exec, Option.some.injEq] at hexec
    obtain ⟨-, hsession⟩ := Handover.afterWrite_shared hexec
    exact lacks_of_session h fun s hs => hsession.symm.trans hs
  | call c =>
    by_cases hlock : c = .lock
    · subst hlock
      cases hexec
      exact lacks_of_session h fun s hs => by cases hs
    · obtain ⟨-, hsession, -⟩ := begin_opened hlock hexec
      exact lacks_of_session h fun s hs => hsession.symm.trans hs
  | _ =>
    obtain ⟨-, hsession, -⟩ := exec_rests rfl hexec
    exact lacks_of_session h fun s hs => hsession.symm.trans hs

lemma lacks_of_notMem {b : Body} (h : name ∉ (summaries b).map (·.name)) : lacks b name = true := by
  unfold lacks
  rw [Option.isNone_iff_eq_none]
  by_contra hsome
  obtain ⟨e, he⟩ := Option.ne_none_iff_exists'.mp hsome
  refine h (List.mem_map.mpr ⟨⟨name, entryMeta e, e.created, e.updated⟩, ?_, rfl⟩)
  refine List.mem_map.mpr ⟨(name, e), ?_, rfl⟩
  exact Std.ExtTreeMap.mem_toList_iff_getElem?_eq_some.mpr he

end Wallet

/-! ### The steps -/

section Steps

variable {x y : Migration.State Key} {d' : Daemon.State Key} {name : String}

lemma bringsNone_of_mem {env : Env} {sh : Shared Key} {names : List String} {p : Pc Key}
    (h : bringsNone L env sh names p = true) (hname : name ∈ names) :
    bringsNone L env sh [name] p = true := by
  cases p with
  | access op =>
    simp only [bringsNone, Option.all_eq_true, List.all_eq_true, List.mem_singleton] at h ⊢
    rintro s hs _ rfl
    exact h s hs _ hname
  | install s k =>
    simp only [bringsNone, List.all_eq_true, List.mem_singleton] at h ⊢
    rintro _ rfl
    exact h _ hname
  | _ => rfl

/-- The wallet has no entry of a name that is awaited. -/
def Absent (candidates : List Candidate) (x : Migration.State Key) : Prop :=
  ∀ name ∈ awaited candidates x, Lacks x.agent.shared name

lemma lacks_of_lacksAll (h : lacksAll candidates x = true) {c : Candidate} (hc : c ∈ candidates) :
    Lacks x.agent.shared c.name := by
  intro s hs
  simp only [lacksAll, hs, Option.all_some, List.all_eq_true] at h
  exact h c hc

lemma mem_toSend {l : List Summary} (hphase : x.client.phase = .listing) (hl : listing x = some l) :
    name ∈ toSend candidates x ↔ name ∈ candidates.map (·.name) ∧ name ∉ l.map (·.name) := by
  simp only [toSend, hphase, if_true, hl, List.mem_filter, decide_eq_true_eq]

lemma toSend_cases (h : name ∈ toSend candidates x) : x.client.phase = .listing ∧
    ∃ l, listing x = some l ∧ name ∈ candidates.map (·.name) ∧ name ∉ l.map (·.name) := by
  by_cases hphase : x.client.phase = .listing
  · cases hl : listing x with
    | some l => exact ⟨hphase, l, rfl, (mem_toSend hphase hl).mp h⟩
    | none =>
      simp only [toSend, hphase, if_true, hl] at h
      cases h
  · simp only [toSend, hphase, if_false] at h
    cases h

/-- A request whose answer is not settled after an action had none settled before it, and the
action is not the one that runs its operation. -/
lemma undecided_after (h : Attended x) {a : Action} (hd : Daemon.step L cfg x.agent a = some d')
    {j' : Job} (hj' : j' ∈ (x.client.after x.agent a).jobs) (hnone : decided d' j' = none) :
    ∃ j ∈ x.client.jobs, j'.candidate = j.candidate ∧ decided x.agent j = none ∧
      ∀ t env expired op, a = .run t env expired → x.agent.pc t = .access op →
        j.servedBy t = false := by
  obtain ⟨j, hj, hcandidate, -, hheard⟩ := after_jobs hj'
  have hanswer : j'.answer = none := by
    cases hanswer : j'.answer with
    | none => rfl
    | some r =>
      simp only [decided, hanswer] at hnone
      cases hnone
  have hsame : j' = j := by
    rcases hheard with heq | ⟨r, hr, -⟩
    · exact heq
    · rw [hanswer] at hr
      cases hr
  subst hsame
  refine ⟨j', hj, rfl, ?_, ?_⟩
  · cases hthread : j'.thread with
    | none => simp only [decided, hanswer, hthread, Option.bind_none]
    | some t =>
      have hserved : j'.servedBy t = true := by simp [Job.servedBy, hthread, hanswer]
      obtain ⟨hold, hno⟩ := (unanswered_after a).1 j' hj' t hserved
      simp only [decided, hanswer, hthread, Option.bind_some] at hnone ⊢
      cases hans : answering (x.agent.pc t) with
      | none => rfl
      | some r =>
        rw [(onward_set (h.sets j' hold t hserved) hno hd).keeps r hans] at hnone
        cases hnone
  · rintro t env expired op rfl hop
    by_contra hserved
    rw [Bool.not_eq_false] at hserved
    obtain ⟨p, hexec, hp, -⟩ := step_run hd
    rw [hop] at hexec
    simp only [Pc.exec, Option.some.injEq, Prod.mk.injEq] at hexec
    have hthread : j'.thread = some t := by
      simp only [Job.servedBy, Bool.and_eq_true, decide_eq_true_eq] at hserved
      exact hserved.1
    simp only [decided, hanswer, hthread, Option.bind_some, hp, ← hexec.2, answering] at hnone
    cases hnone

/-- The entries the list request is answered with are those it was, or those the session has. -/
lemma listing_after (h : Attended x) {a : Action} (hd : Daemon.step L cfg x.agent a = some d')
    {l : List Summary} (hl : listing ⟨d', x.client.after x.agent a⟩ = some l) :
    listing x = some l ∨ ∃ t env expired s, a = .run t env expired ∧
      d'.shared.session = some s ∧ l = summaries s.body := by
  have hlister : (x.client.after x.agent a).lister = x.client.lister := after_lister a
  -- The answer may have come, may be ready in its thread, or may be what the turn makes ready.
  cases hlisted : (x.client.after x.agent a).listed with
  | some r =>
    left
    have hr : entriesOf r = some l := by simpa only [listing, hlisted] using hl
    rcases after_listed hlisted with hbefore | ⟨t, hnone, ht, hans⟩
    · simp only [listing, hbefore, hr]
    · simp only [listing, hnone, ht, Option.bind_some, hans, hr]
  | none =>
    simp only [listing, hlisted, hlister] at hl
    obtain ⟨t, ht, hentries⟩ := Option.bind_eq_some_iff.mp hl
    obtain ⟨r, hans, hr⟩ := Option.bind_eq_some_iff.mp hentries
    obtain ⟨-, hnone, hno⟩ := (unanswered_after a).2 t (hlister.trans ht) hlisted
    obtain ⟨reply, rfl⟩ : ∃ reply, r = .ok reply := by
      cases r with
      | ok reply => exact ⟨reply, rfl⟩
      | error e => cases hr
    have hserves := h.lists t ht hnone
    rcases (onward_list hserves hno hd).answers reply hans with
      hbefore | ⟨env, expired, op, rfl, hop⟩
    · left
      simp only [listing, hnone, ht, Option.bind_some, hbefore, hr]
    · right
      obtain rfl : op = .list := by
        rw [hop] at hserves
        rcases hserves with heq | hlist
        · cases heq
        · exact hlist
      obtain ⟨p, hexec, hp, -⟩ := step_run hd
      rw [hop] at hexec
      simp only [Pc.exec, Option.some.injEq, Prod.mk.injEq] at hexec
      obtain ⟨hsh, rfl⟩ := hexec
      rw [hp] at hans
      have hreply := Option.some.inj hans
      cases hs : x.agent.shared.session with
      | none =>
        have hs' : x.agent.shared.world.inner.session = none := hs
        simp only [Server.withSession, hs'] at hreply
        cases hreply
      | some s =>
        have hs' : x.agent.shared.world.inner.session = some s := hs
        simp only [Server.withSession, hs', Op.run, Op.reads, if_true, Outcome.of] at hreply hsh
        cases hreply
        refine ⟨t, env, expired, s, rfl, ?_, (Option.some.inj hr).symm⟩
        rw [← hsh]
        exact hs'

lemma lacks_act {a : Action} (h : Lacks x.agent.shared name)
    (hquiet : ∀ t env expired, a = .run t env expired →
      bringsNone L env x.agent.shared [name] (x.agent.pc t) = true)
    (hd : Daemon.step L cfg x.agent a = some d') : Lacks d'.shared name := by
  by_cases hrun : ∃ t env expired, a = .run t env expired
  · obtain ⟨t, env, expired, rfl⟩ := hrun
    obtain ⟨p, hexec, -, -⟩ := step_run hd
    exact lacks_exec h (hquiet t env expired rfl) hexec
  · have hq := step_quiet hd fun t env expired heq => hrun ⟨t, env, expired, heq⟩
    refine lacks_of_session h fun s hs => ?_
    rw [Shared.session, hq.world] at hs
    exact hs

lemma absent_act (hx : Attended x) (h : Absent candidates x) {a : Action}
    (hquiet : quiet L candidates x (.act a) = true)
    (hd : Daemon.step L cfg x.agent a = some d') :
    Absent candidates ⟨d', x.client.after x.agent a⟩ := by
  intro name hname
  rcases List.mem_append.mp hname with hsend | hjob
  · obtain ⟨hphase, l, hl, hmem, hnot⟩ := toSend_cases hsend
    rcases listing_after hx hd hl with hbefore | ⟨_, _, _, s, -, hs', rfl⟩
    · have hsent : name ∈ toSend candidates x :=
        (mem_toSend ((after_phase a).symm.trans hphase) hbefore).mpr ⟨hmem, hnot⟩
      refine lacks_act (h name (List.mem_append_left _ hsent)) ?_ hd
      rintro t env expired rfl
      exact bringsNone_of_mem hquiet (List.mem_append_left _ hsent)
    · intro s' heq
      obtain rfl : s = s' := Option.some.inj (hs'.symm.trans heq)
      exact lacks_of_notMem hnot
  · obtain ⟨j', hj', rfl⟩ := List.mem_map.mp hjob
    obtain ⟨hmem, hundecided⟩ := List.mem_filter.mp hj'
    rw [Option.isNone_iff_eq_none] at hundecided
    obtain ⟨j, hj, hcandidate, hbefore, hapart⟩ := undecided_after hx hd hmem hundecided
    rw [hcandidate]
    have hawaited : j.candidate.name ∈ awaited candidates x := by
      refine List.mem_append_right _ (List.mem_map.mpr ⟨j, ?_, rfl⟩)
      exact List.mem_filter.mpr ⟨hj, by rw [hbefore]; rfl⟩
    have hbut {t : ℕ} (hserved : j.servedBy t = false) :
        j.candidate.name ∈ awaitedBut candidates x t := by
      refine List.mem_append_right _ (List.mem_map.mpr ⟨j, List.mem_filter.mpr ⟨hj, ?_⟩, rfl⟩)
      rw [hbefore, hserved]
      rfl
    refine lacks_act (h _ hawaited) ?_ hd
    rintro t env expired rfl
    cases hp : x.agent.pc t with
    | access op =>
      rw [← hp]
      exact bringsNone_of_mem hquiet (hbut (hapart t env expired op rfl hp))
    | install s k =>
      -- The thread of a request never installs a session.
      have hserved : j.servedBy t = false := by
        by_contra hserved
        rw [Bool.not_eq_false] at hserved
        have hserves := hx.sets j hj t hserved
        rw [hp] at hserves
        rcases hserves with heq | hrunning
        · cases heq
        · exact hrunning
      rw [← hp]
      exact bringsNone_of_mem hquiet (hbut hserved)
    | _ => rfl

lemma Absent.mono (h : Absent candidates x)
    (hsession : y.agent.shared.session = x.agent.shared.session)
    (hnames : ∀ name ∈ awaited candidates y, name ∈ awaited candidates x ∨
      Lacks x.agent.shared name) : Absent candidates y := by
  intro name hname s hs
  rw [hsession] at hs
  rcases hnames name hname with hold | hlacks
  · exact h name hold s hs
  · exact hlacks s hs

lemma awaited_of_job {j : Job} (hj : j ∈ x.client.jobs) (hnone : decided x.agent j = none) :
    j.candidate.name ∈ awaited candidates x := by
  refine List.mem_append_right _ (List.mem_map.mpr ⟨j, List.mem_filter.mpr ⟨hj, ?_⟩, rfl⟩)
  rw [hnone]
  rfl

lemma awaited_cases (h : name ∈ awaited candidates x) : name ∈ toSend candidates x ∨
    ∃ j ∈ x.client.jobs, j.candidate.name = name ∧ decided x.agent j = none := by
  rcases List.mem_append.mp h with hsend | hjob
  · exact .inl hsend
  · obtain ⟨j, hj, rfl⟩ := List.mem_map.mp hjob
    obtain ⟨hmem, hnone⟩ := List.mem_filter.mp hj
    exact .inr ⟨j, hmem, rfl, Option.isNone_iff_eq_none.mp hnone⟩

lemma absent_gotList {present : List String} {fails : ℕ → Bool} (h : Absent candidates x)
    (hpresent : ∀ c ∈ candidates, c.name ∉ present →
      c.name ∈ toSend candidates x ∨ Lacks x.agent.shared c.name) :
    Absent candidates
      (⟨x.agent, x.client.gotList flow candidates present fails⟩ : Migration.State Key) := by
  refine h.mono rfl fun name hname => ?_
  rcases awaited_cases hname with hsend | ⟨j, hj, rfl, hnone⟩
  · have hphase := (toSend_cases hsend).1
    rw [gotList_frame.1] at hphase
    cases hphase
  · rcases store_jobs hj with hold | ⟨e, he, habsent, rfl⟩
    · exact .inl (awaited_of_job (x := x) hold hnone)
    · rcases hpresent e he habsent with hsent | hlacks
      · exact .inl (List.mem_append_left _ hsent)
      · exact .inr hlacks

lemma awaited_request {t b id : ℕ} {method : String} {params : Json} (hx : Attended x)
    (hd : Daemon.step L cfg x.agent (.request t b id method params) = some d') {j : Job}
    (hj : j ∈ x.client.jobs) (hnone : decided d' j = none) :
    j.candidate.name ∈ awaited candidates x := by
  obtain ⟨k, hk, hcandidate, hbefore, -⟩ := undecided_after hx hd hj hnone
  rw [hcandidate]
  exact awaited_of_job hk hbefore

lemma listing_request {t b id : ℕ} {method : String} {params : Json} (hx : Attended x)
    (hd : Daemon.step L cfg x.agent (.request t b id method params) = some d') {l : List Summary}
    (hl : listing ⟨d', x.client⟩ = some l) : listing x = some l := by
  rcases listing_after (a := .request t b id method params) hx hd hl with
    hbefore | ⟨_, _, _, _, ha, -⟩
  · exact hbefore
  · cases ha

/-- The invariant of a run. -/
structure Inv (candidates : List Candidate) (x : Migration.State Key) : Prop where
  attended : Attended x
  early : x.client.phase.early = true → x.client.lister = none
  unlisted : x.client.lister = none → x.client.listed = none
  absent : Absent candidates x

lemma early_step {e : Event} (h : x.client.phase.early = true → x.client.lister = none)
    (hs : step L cfg flow candidates x e = some y) :
    y.client.phase.early = true → y.client.lister = none := by
  intro hearly
  cases took_of_step hs with
  | talk he hphase hjobs hlister => exact hlister.trans (h hphase)
  | startList hphase =>
    have hbefore : x.client.phase.early = true := hearly
    rw [hphase] at hbefore
    cases hbefore
  | listed | listLost =>
    rw [gotList_frame.1] at hearly
    cases hearly
  | startSet => exact h hearly
  | tell => exact tell_frame.2.1.trans (h (tell_frame.1 ▸ hearly))
  | act => exact (after_lister _).trans (h ((after_phase _) ▸ hearly))

lemma unlisted_step {e : Event} (h : x.client.lister = none → x.client.listed = none)
    (hs : step L cfg flow candidates x e = some y) :
    y.client.lister = none → y.client.listed = none := by
  intro hnone
  cases took_of_step hs with
  | talk he hphase hjobs hlister hlisted => exact hlisted.trans (h (hlister ▸ hnone))
  | startList => cases hnone
  | listed | listLost =>
    exact gotList_frame.2.2.trans (h (gotList_frame.2.1.symm.trans hnone))
  | startSet => exact h hnone
  | tell => exact tell_frame.2.2.trans (h (tell_frame.2.1.symm.trans hnone))
  | @act a d hd =>
    rw [after_lister] at hnone
    by_contra hsome
    obtain ⟨r, hr⟩ := Option.ne_none_iff_exists'.mp hsome
    rcases after_listed hr with hbefore | ⟨t, -, ht, -⟩
    · rw [h hnone] at hbefore
      cases hbefore
    · rw [hnone] at ht
      cases ht

lemma absent_step (h : Inv candidates x) {e : Event} (hquiet : quiet L candidates x e = true)
    (hs : step L cfg flow candidates x e = some y) : Absent candidates y := by
  cases took_of_step hs with
  | talk he hphase hjobs hlister hlisted =>
    refine h.absent.mono rfl fun name hname => ?_
    -- A request is awaited when it is still to be sent, or is sent and not settled.
    rcases awaited_cases hname with hsend | ⟨j, hj, rfl, hnone⟩
    · obtain ⟨-, l, hl, -⟩ := toSend_cases hsend
      have hnone := h.early hphase
      simp only [listing, hlisted, h.unlisted hnone, hlister, hnone, Option.bind_none] at hl
      cases hl
    · have hold : j ∈ x.client.jobs := hjobs ▸ hj
      exact .inl (awaited_of_job hold hnone)
  | startList hphase hlister hd =>
    obtain ⟨-, hpc, -, hshared⟩ := request_starts hd
    refine h.absent.mono (congrArg Shared.session hshared) fun name hname => ?_
    rcases awaited_cases hname with hsend | ⟨j, hj, rfl, hnone⟩
    · obtain ⟨-, l, hl, -⟩ := toSend_cases hsend
      simp only [listing, h.unlisted hlister, Option.bind_some, hpc, answering, Option.bind_none]
        at hl
      cases hl
    · exact .inl (awaited_request h.attended hd hj hnone)
  | listed hphase hr =>
    rename_i fails r
    -- Here the list arrives, and `quiet` is what keeps an error from passing for an empty one.
    refine absent_gotList h.absent fun c hc habsent => ?_
    simp only [quiet, hr, Option.all_some, Bool.or_eq_true] at hquiet
    cases hentries : entriesOf r with
    | some l =>
      have hl : listing x = some l := by simp only [listing, hr, hentries]
      refine .inl ((mem_toSend hphase hl).mpr ⟨List.mem_map_of_mem hc, ?_⟩)
      rwa [existing_eq, hentries] at habsent
    | none =>
      rw [hentries] at hquiet
      exact .inr (lacks_of_lacksAll (hquiet.resolve_left (by decide)) hc)
  | listLost hphase =>
    exact absent_gotList h.absent fun c hc _ => .inr (lacks_of_lacksAll hquiet hc)
  | startSet hj hthread hd =>
    rename_i i t b id j d
    obtain ⟨-, hpc, -, hshared⟩ := request_starts hd
    refine h.absent.mono (congrArg Shared.session hshared) fun name hname => ?_
    rcases awaited_cases hname with hsend | ⟨k, hk, rfl, hnone⟩
    · obtain ⟨hphase, l, hl, hmem⟩ := toSend_cases hsend
      have hbefore : listing x = some l := listing_request h.attended hd hl
      have hsent : name ∈ toSend candidates x := (mem_toSend (x := x) hphase hbefore).mpr hmem
      exact .inl (List.mem_append_left _ hsent)
    · have hold := List.mem_of_getElem? hj
      rcases mem_modify hj hk with hsame | rfl
      · exact .inl (awaited_request h.attended hd hsame hnone)
      · have hbefore : decided x.agent j = none := by
          cases hanswer : j.answer with
          | some r =>
            simp only [decided, hanswer] at hnone
            cases hnone
          | none => simp only [decided, hanswer, hthread, Option.bind_none]
        have hsame : j.candidate.name ∈ awaited candidates x := awaited_of_job hold hbefore
        exact .inl hsame
  | tell he hj htold hok =>
    rename_i i j ok
    refine h.absent.mono rfl fun name hname => ?_
    rcases awaited_cases hname with hsend | ⟨k, hk, rfl, hnone⟩
    · obtain ⟨hlisting, l, hl, hmem⟩ := toSend_cases hsend
      have hbefore : listing x = some l := by
        simpa only [listing, tell_frame.2.1, tell_frame.2.2] using hl
      have hphase : x.client.phase = .listing := tell_frame.1.symm.trans hlisting
      exact .inl (List.mem_append_left _ ((mem_toSend hphase hbefore).mpr hmem))
    · have hold := List.mem_of_getElem? hj
      rw [Client.tell, settle_jobs] at hk
      rcases mem_modify hj hk with hsame | rfl
      · exact .inl (awaited_of_job hsame hnone)
      · have hbefore : decided x.agent j = none := hnone
        have hsame : j.candidate.name ∈ awaited candidates x := awaited_of_job hold hbefore
        exact .inl hsame
  | act hd => exact absent_act h.attended h.absent hquiet hd

lemma inv_step (h : Inv candidates x) {e : Event} (hquiet : quiet L candidates x e = true)
    (hs : step L cfg flow candidates x e = some y) : Inv candidates y where
  attended := attended_step h.attended hs
  early := early_step h.early hs
  unlisted := unlisted_step h.unlisted hs
  absent := absent_step h hquiet hs

lemma inv_start (candidates : List Candidate) (w : World Key) : Inv candidates (start Key w) where
  attended := attended_start w
  early _ := rfl
  unlisted _ := rfl
  absent name hname := by
    rcases awaited_cases hname with hsend | ⟨j, hj, -⟩
    · have hphase := (toSend_cases hsend).1
      cases hphase
    · cases hj

lemma sparesEntry_of_inv (h : Inv candidates x) (e : Event) :
    SparesEntry L cfg flow candidates x e := by
  cases e with
  | act a =>
    cases a with
    | run t env expired =>
      intro op hop j hj hserved s entry hs hentry
      have hthread : j.thread = some t ∧ j.answer = none := by
        simpa only [Job.servedBy, Bool.and_eq_true, decide_eq_true_eq,
          Option.isNone_iff_eq_none] using hserved
      have hundecided : decided x.agent j = none := by
        simp only [decided, hthread, Option.bind_some]
        revert hop
        cases x.agent.pc t <;> simp [operation, answering]
      have hlacks := h.absent _ (awaited_of_job hj hundecided) s hs
      simp only [lacks, hentry, Option.isNone_some] at hlacks
      cases hlacks
    | _ => trivial
  | _ => trivial

end Steps

/-- In every run in which nothing of an awaited name comes into the wallet, no entry is
clobbered. -/
theorem sparesEntry_of_quiet (L : Packages Key) (cfg : Config) (flow : Flow)
    (candidates : List Candidate) (w : World Key) (es : List Event)
    (hquiet : Along (step L cfg flow candidates) (fun x e => quiet L candidates x e = true)
      (start Key w) es) :
    Along (step L cfg flow candidates) (SparesEntry L cfg flow candidates) (start Key w) es :=
  hquiet.of_inv (Inv candidates) (fun _ _ _ h hq hs => inv_step h hq hs)
    (fun _ e h _ => sparesEntry_of_inv h e) (inv_start candidates w)

/-! ### A list request on a locked vault -/

/-- A wallet with one entry. -/
def stocked : World Sample.Key :=
  (dispatch Sample.packages Sample.config Sample.env Sample.created "secret.set"
    (.obj [("name", .str "a"), ("value", .str "old")])).world

def asked : List Event := [.act .connect, .begin, .ensured true none, .confirmed true]

/-- The vault is locked before the list is asked for, and the call for it times out. -/
def timedOut : List Event :=
  (Sample.served 5 "vault.lock" [] 4).map .act ++ .startList 0 1 1 ::
    (Sample.turns 0 6 ++ [Action.run 0 Sample.env true, .run 0 Sample.env false]).map .act ++
      [.listed fun _ => false]

/-- It is unlocked again before the candidate is stored. -/
def storedLate : List Event :=
  asked ++ timedOut ++ (Sample.served 6 "vault.unlock" [("password", .str "pw")] 8).map .act ++
    .startSet 0 1 1 2 :: (Sample.turns 1 2).map .act

def secondA : List Candidate := [⟨"a", "x", none⟩]

theorem not_neverClobbers : ¬ NeverClobbers := by
  intro h
  have hspares := h Sample.Key Sample.packages Sample.config .migrate secondA stocked
    (storedLate ++ [.act (.run 1 Sample.env false)])
  have hbefore : ((run (step Sample.packages Sample.config .migrate secondA)
      (start Sample.Key stocked) storedLate).map fun x =>
        (operation (x.agent.pc 1), x.client.jobs.map fun j => (j.candidate.name, j.servedBy 1),
          x.agent.shared.session.map fun s => s.body.entries["a"]?))
      = some (some (.set ⟨"a", some "x", none, true⟩), [("a", true)],
          some (some (newEntry "old" 7))) := by
    decide +kernel
  have hafter : ((run (step Sample.packages Sample.config .migrate secondA)
      (start Sample.Key stocked) (storedLate ++ [.act (.run 1 Sample.env false)])).map fun y =>
        y.agent.shared.session.map fun s => s.body.entries["a"]?)
      = some (some (some (newEntry "x" 7))) := by
    decide +kernel
  obtain ⟨x, hx, hread⟩ := Option.map_eq_some_iff.mp hbefore
  obtain ⟨y, hy, hwritten⟩ := Option.map_eq_some_iff.mp hafter
  simp only [Prod.mk.injEq] at hread
  obtain ⟨hop, hjobs, hsession⟩ := hread
  obtain ⟨s, hs, hentry⟩ := Option.map_eq_some_iff.mp hsession
  obtain ⟨j, hj, hname⟩ : ∃ j ∈ x.client.jobs, (j.candidate.name, j.servedBy 1) = ("a", true) :=
    List.mem_map.mp (by rw [hjobs]; exact List.mem_singleton_self _)
  simp only [Prod.mk.injEq] at hname
  have hlast : step Sample.packages Sample.config .migrate secondA x
      (.act (.run 1 Sample.env false)) = some y := by
    rw [run_append, hx, Option.bind_some, run_cons_eq_some] at hy
    obtain ⟨z, hz, hend⟩ := hy
    cases hend
    exact hz
  obtain ⟨s', hs', hkept⟩ := hspares.at_end hx _ hop j hj hname.2 s (newEntry "old" 7) hs
    (by rw [hname.1, hentry]) y hlast
  rw [hs', Option.map_some, ← hname.1, hkept] at hwritten
  exact absurd hwritten (by decide)

/-- An import: the list comes before the vault is locked and unlocked again. -/
def storedAfter : List Event :=
  [.act .connect, .begin, .confirmed true, .ensured true none] ++
    .startList 0 1 1 :: (Sample.turns 0 4).map .act ++ [.listed fun _ => false] ++
    (Sample.served 5 "vault.lock" [] 4).map .act ++
    (Sample.served 6 "vault.unlock" [("password", .str "pw")] 8).map .act ++
    .startSet 0 1 1 2 :: (Sample.turns 1 4).map .act ++ [.told 0]

def bothNames : List Candidate := [⟨"a", "x", none⟩, ⟨"b", "y", none⟩]

theorem sparesEntry_of_quiet_storedAfter :
    (run (step Sample.packages Sample.config .importRun bothNames) (start Sample.Key stocked)
      storedAfter).isSome = true ∧
      Along (step Sample.packages Sample.config .importRun bothNames)
        (SparesEntry Sample.packages Sample.config .importRun bothNames) (start Sample.Key stocked)
        storedAfter :=
  ⟨by decide +kernel, sparesEntry_of_quiet Sample.packages Sample.config .importRun bothNames
    stocked storedAfter (by decide +kernel)⟩

end LvimKeyring.NoClobber
