import LvimKeyring.Migration
import LvimKeyring.SaveRaces

/-!
What `M.migrate` reports of the candidates, and what the wallet then has.

A caller deletes its plaintext copy of what is reported as stored. The report accounts for every
candidate, but what it says of one candidate need not survive the others: the names present are
asked for once, so two candidates of one name are both stored, and the second overwrites the first.
-/

namespace LvimKeyring.Handover

open Rpc Params Crypto Vault Server Daemon Parking Transition Result ListUpdate Atomicity SaveRaces
open Migration
open scoped List

variable {Key : Type}

/-! ### The statement -/

def valueIn (b : Body) (name : String) : Option String := b.entries[name]?.map (·.value)

/-- The wallet has the value under the name: in the vault file, and in the session if there is
one. -/
structure Held (L : Packages Key) (cfg : Config) (w : World Key) (name value : String) : Prop where
  file : ∃ f, Holds L.toLibrary w.fs cfg.vaultPath f ∧ valueIn f.body name = some value
  session : ∀ s, w.inner.session = some s → valueIn s.body name = some value

/-- Every request has been answered or has failed. -/
def finished (c : Client) : Prop :=
  c.phase = .over ∨ c.phase = .storing ∧ ∀ j ∈ c.jobs, j.told ≠ none

/-- The candidates whose callback has been told `v`. -/
def toldOf (v : Option Bool) (jobs : List Job) : List Candidate :=
  (jobs.filter fun j => j.told = v).map (·.candidate)

def namesOf (cs : List Candidate) : List String := cs.map (·.name)

/-- The final callback is called once, with every candidate accounted for, and when it is, the
candidates that it reports as stored are those whose requests have gone well, and the wallet has the
value of each. -/
structure Reported (L : Packages Key) (cfg : Config) (candidates : List Candidate)
    (x y : Migration.State Key) : Prop where
  once : y.client.calls.length ≤ 1
  finishes : finished y.client → y.client.calls ≠ []
  accounted : ∀ o, .ok o ∈ y.client.calls → o.names.Perm (candidates.map (·.name))
  kept : x.client.calls = [] → ∀ o, .ok o ∈ y.client.calls →
    (toldOf (some true) y.client.jobs).Sublist candidates ∧
      o.stored.Perm (namesOf (toldOf (some true) y.client.jobs)) ∧
      ∀ c ∈ toldOf (some true) y.client.jobs, Held L cfg y.agent.shared.world c.name c.value

/-- The migration, step by step. -/
abbrev migrating (L : Packages Key) (cfg : Config) (candidates : List Candidate) :
    Migration.State Key → Event → Option (Migration.State Key) :=
  Migration.step L cfg .migrate candidates

def Reports (L : Packages Key) (cfg : Config) (candidates : List Candidate)
    (x : Migration.State Key) (e : Event) : Prop :=
  ∀ y, migrating L cfg candidates x e = some y → Reported L cfg candidates x y

/-- No other client writes: a section that changes the entries serves a candidate. -/
def NoOtherWriter (x : Migration.State Key) : Event → Prop
  | .act (.run t _ _) => ∀ op ∈ operation (x.agent.pc t),
    op.reads = true ∨ ∃ j ∈ x.client.jobs, j.servedBy t = true
  | _ => True

instance (x : Migration.State Key) : DecidablePred (NoOtherWriter x)
  | .act (.run t _ _) => inferInstanceAs (Decidable (∀ op ∈ operation (x.agent.pc t),
      op.reads = true ∨ ∃ j ∈ x.client.jobs, j.servedBy t = true))
  | .act .connect | .act (.disconnect _) | .act (.request ..) | .act (.tick _) | .act (.rouse _)
  | .begin | .ensured .. | .confirmed _ | .startList .. | .listed _ | .listLost _ | .startSet ..
  | .told _ | .lost _ => isTrue trivial

/-- Migration loses no plaintext. -/
def LosesNoPlaintext : Prop :=
  ∀ (Key : Type) (L : Packages Key) (cfg : Config) (candidates : List Candidate) (w : World Key)
    (es : List Event), L.toLibrary.Ideal →
    Along (migrating L cfg candidates) NoOtherWriter (Migration.start Key w) es →
    Along (migrating L cfg candidates) (Reports L cfg candidates) (Migration.start Key w) es

/-- The candidate has been stored, and may be reported as such. -/
def stored (d : Daemon.State Key) (j : Job) : Bool :=
  (decided d j).any Except.isOk && decide (j.told ≠ some false)

/-- A section that leaves a value in the wallet: it sets no other under the name, it installs or
rewrites no session that was read before the value was there, and it creates no vault. -/
def Spares (L : Packages Key) (cfg : Config) (w : World Key) (name value : String) : Pc Key → Prop
  | .access (.set p) => p.name = name → w.inner.session.isSome = true → p.value = some value
  | .install s _ | .rotateWrite s _ _ => ∀ f, Holds L.toLibrary w.fs cfg.vaultPath f →
    valueIn s.body name = valueIn f.body name
  | .createWrite _ => False
  | _ => True

/-- Until the callback is called, every section spares what has been stored. -/
def Undisturbed (L : Packages Key) (cfg : Config) (x : Migration.State Key) : Event → Prop
  | .act (.run t _ _) => x.client.calls = [] → ∀ j ∈ x.client.jobs, stored x.agent j = true →
    Spares L cfg x.agent.shared.world j.candidate.name j.candidate.value (x.agent.pc t)
  | _ => True

variable {L : Packages Key} {cfg : Config} {candidates : List Candidate}

/-! ### The wallet -/

section Wallet

variable {env : Env} {expired : Bool} {t : ℕ} {origin : ℕ × ℕ} {sh sh' : Shared Key}
variable {p p' : Pc Key} {w w' : World Key} {name value : String} {d d' : Daemon.State Key}

lemma Held.congr (h : Held L cfg w name value) (hfs : w'.fs cfg.vaultPath = w.fs cfg.vaultPath)
    (hsession : ∀ s, w'.inner.session = some s → w.inner.session = some s) :
    Held L cfg w' name value := by
  obtain ⟨⟨f, hf, hv⟩, hs⟩ := h
  exact ⟨⟨f, hf.congr hfs, hv⟩, fun s hs' => hs s (hsession s hs')⟩

lemma set_value {T : Totp.Packages} {q : SetParam} {now : ℕ} {b b' : Body} {r : Reply}
    (h : (Op.set q).run T now b = .ok (b', r)) (hv : q.value = some value) :
    valueIn b' q.name = some value := by
  simp only [Op.run, secretSet] at h
  split at h
  · cases h
    simp [valueIn, value_applyMeta?, hv]
  · rw [hv] at h
    cases h
    simp [valueIn, value_applyMeta?, newEntry]

lemma set_spares {T : Totp.Packages} {q : SetParam} {now : ℕ} {b b' : Body} {r : Reply}
    (h : (Op.set q).run T now b = .ok (b', r)) (hb : valueIn b name = some value)
    (hq : q.name = name → q.value = some value) : valueIn b' name = some value := by
  by_cases hname : q.name = name
  · rw [← hname]
    exact set_value h (hq hname)
  · have hnot : name ∉ touched (.set q) := fun hmem => hname (List.mem_singleton.mp hmem).symm
    rw [valueIn, run_frame h hnot]
    exact hb

lemma rotateRead_leaves (hL : L.toLibrary.Ideal) {io : Faults} {fs fs' : FileSystem} {path : String}
    {current : Session Key} {pw : Bytes} {params : KdfParams} {salt : Salt} {nonce : Nonce}
    {r : Except Err (Session Key)}
    (h : rotateRead L.toLibrary io fs path current pw params salt nonce = (fs', r)) :
    fs' path = fs path ∨
      ∃ s, Holds L.toLibrary fs' path s ∧ s.body.entries = current.body.entries := by
  unfold rotateRead at h
  split at h
  · cases h
    exact .inl rfl
  · rename_i key hkey
    rcases hw : write L.toLibrary io fs path ⟨⟨current.body.entries⟩, key, salt, params⟩ nonce
      with ⟨fs'', e | _⟩
    · simp only [writeNew, hw] at h
      cases h
      exact .inl (write_error hw)
    · simp only [writeNew, hw] at h
      cases h
      exact .inr ⟨_, holds_of_write hL hw, rfl⟩

lemma afterWrite_shared {k : Installer} {r : FileSystem × Except Err (Session Key)}
    (h : afterWrite sh k r = (sh', p')) : sh'.world.fs = r.1 ∧ sh'.session = sh.session := by
  obtain ⟨fs, e | s⟩ := r <;> cases h <;> exact ⟨rfl, rfl⟩

lemma held_set (hL : L.toLibrary.Ideal) {q : SetParam} (h : Held L cfg w name value)
    (hq : q.name = name → w.inner.session.isSome = true → q.value = some value) :
    Held L cfg (Server.withSession L cfg env false (.set q) w).world name value := by
  rcases withSession_saves cfg env hL (.set q) w with
    ⟨hw, -⟩ | ⟨s, b, r, hs, hrun, -, hs', hsaved⟩
  · rw [hw]
    exact h
  · have hopen : w.inner.session.isSome = true := by rw [hs]; rfl
    have hb : valueIn b name = some value :=
      set_spares hrun (h.session s hs) fun hname => hq hname hopen
    refine ⟨?_, fun u hu => ?_⟩
    · rcases hsaved with ⟨-, hheld⟩ | ⟨-, -, hfs⟩
      · exact ⟨_, hheld, hb⟩
      · obtain ⟨f, hf, hv⟩ := h.file
        exact ⟨f, hf.congr hfs, hv⟩
    · rw [hs'] at hu
      rw [← Option.some.inj hu]
      exact hb

lemma held_of_set (hL : L.toLibrary.Ideal) {q : SetParam} (hv : q.value = some value) {r : Reply}
    (hr : (Server.withSession L cfg env false (.set q) w).reply = .ok r) :
    Held L cfg (Server.withSession L cfg env false (.set q) w).world q.name value := by
  rcases withSession_saves cfg env hL (.set q) w with
    ⟨-, ⟨e, he⟩ | hreads⟩ | ⟨s, b, r', hs, hrun, -, hs', ⟨-, hheld⟩ | ⟨-, ⟨e, he⟩, -⟩⟩
  · rw [hr] at he
    cases he
  · cases hreads
  · have hb : valueIn b q.name = some value := set_value hrun hv
    refine ⟨⟨_, hheld, hb⟩, fun u hu => ?_⟩
    rw [hs'] at hu
    rw [← Option.some.inj hu]
    exact hb
  · rw [hr] at he
    cases he

/-- A section that spares the value, and writes nothing but a set, leaves it in the wallet. -/
lemma held_exec (hL : L.toLibrary.Ideal) (h : Held L cfg sh.world name value)
    (hspares : Spares L cfg sh.world name value p)
    (hset : ∀ op, p = .access op → op.reads = true ∨ ∃ q, op = .set q)
    (hexec : p.exec L cfg env expired t origin sh = some (sh', p')) :
    Held L cfg sh'.world name value := by
  cases p with
  | access op =>
    cases hexec
    rcases hset op rfl with hreads | ⟨q, rfl⟩
    · rcases withSession_saves cfg env hL op sh.world with
        ⟨hw, -⟩ | ⟨s, b, r, -, -, hwrites, -⟩
      · show Held L cfg (Server.withSession L cfg env false op sh.world).world name value
        rw [hw]
        exact h
      · rw [hreads] at hwrites
        cases hwrites
    · exact held_set hL h hspares
  | install s k =>
    cases hexec
    obtain ⟨f, hf, hv⟩ := h.file
    refine ⟨⟨f, hf, hv⟩, fun u hu => ?_⟩
    rw [← Option.some.inj hu]
    exact (hspares f hf).trans hv
  | rotateWrite current old new =>
    simp only [Pc.exec, Option.some.injEq] at hexec
    obtain ⟨hfs, hsession⟩ := afterWrite_shared hexec
    rcases rotateRead_leaves hL (Prod.mk.eta.symm) with hsame | ⟨s, hs, hentries⟩
    · exact h.congr (by rw [hfs]; exact hsame) fun u hu => by rw [← hu]; exact hsession.symm
    · obtain ⟨f, hf, hv⟩ := h.file
      refine ⟨⟨s, by rw [hfs]; exact hs, ?_⟩, fun u hu => h.session u (hsession.symm.trans hu)⟩
      rw [valueIn, hentries]
      exact (hspares f hf).trans hv
  | createWrite password => exact hspares.elim
  | tickTake =>
    cases hexec
    exact h.congr rfl fun s hs => by cases hs
  | call c =>
    by_cases hlock : c = .lock
    · subst hlock
      cases hexec
      exact h.congr rfl fun s hs => by cases hs
    · obtain ⟨hfs, hsession, -⟩ := begin_opened hlock hexec
      exact h.congr (by rw [hfs]) fun s hs => hsession.symm.trans hs
  | _ =>
    obtain ⟨hfs, hsession, -⟩ := exec_rests rfl hexec
    exact h.congr (by rw [hfs]) fun s hs => hsession.symm.trans hs

end Wallet

/-! ### The accounts -/

/-- The accounts in the loop, `es` being still to come: every candidate is accounted for or
waits, the counter says how many wait, and the callback is called when none does. -/
structure Tallied (candidates es : List Candidate) (c : Client) : Prop where
  stored : c.outcome.stored.Perm (namesOf (toldOf (some true) c.jobs))
  names : (c.outcome.names ++ (namesOf (toldOf none c.jobs) ++ namesOf es)).Perm
    (namesOf candidates)
  within : (c.jobs.map (·.candidate) ++ es).Sublist candidates
  pending : c.pending = (toldOf none c.jobs).length + es.length
  calls : c.calls = if c.pending = 0 then [.ok c.outcome] else []

/-- Nothing has been sent or reported. -/
structure Untouched (c : Client) : Prop where
  jobs : c.jobs = []
  outcome : c.outcome = .none
  calls : c.calls = []

/-- The accounts at any time. -/
structure Accounted (candidates : List Candidate) (c : Client) : Prop where
  storing : c.phase = .storing → Tallied candidates [] c
  ended : c.phase = .over →
    c.jobs = [] ∧ ∃ r, c.calls = [r] ∧ ∀ o, r = .ok o → o = .none ∧ candidates = []
  before : c.phase ≠ .storing → c.phase ≠ .over → Untouched c
  nonempty : c.phase ≠ .fresh → c.phase ≠ .over → candidates ≠ []

section Accounts

variable {c : Client} {total : ℕ} {present : List String} {fails : ℕ → Bool}
variable {e : Candidate} {es : List Candidate}

lemma names_insert (o : Migration.Outcome) (name : String) (v : Verdict) :
    (o.insert name v).names.Perm (name :: o.names) := by
  unfold Migration.Outcome.names
  cases v with
  | stored =>
    simp only [Migration.Outcome.insert, List.append_assoc, List.singleton_append]
    exact List.perm_middle
  | skipped =>
    simp only [Migration.Outcome.insert]
    calc o.stored ++ (o.skipped ++ [name]) ++ o.failed
        = (o.stored ++ o.skipped) ++ name :: o.failed := by simp
      _ ~ name :: (o.stored ++ o.skipped ++ o.failed) := List.perm_middle
  | failed =>
    simp only [Migration.Outcome.insert, ← List.append_assoc]
    exact List.perm_append_singleton name _

lemma Tallied.settle (h : Tallied candidates (e :: es) c) {v : Verdict} (hv : v ≠ .stored) :
    Tallied candidates es (c.settle .migrate total e.name v) := by
  have hlen : c.pending = (toldOf none c.jobs).length + es.length + 1 := by
    rw [h.pending, List.length_cons, Nat.add_assoc]
  have hnone : c.calls = [] := by
    rw [h.calls, if_neg (by omega)]
  refine ⟨?_, ?_, ?_, ?_, ?_⟩
  · cases v with
    | stored => exact absurd rfl hv
    | skipped | failed => exact h.stored
  · calc (c.outcome.insert e.name v).names ++ (namesOf (toldOf none c.jobs) ++ namesOf es)
        ~ e.name :: c.outcome.names ++ (namesOf (toldOf none c.jobs) ++ namesOf es) :=
          (names_insert _ _ _).append_right _
      _ ~ c.outcome.names ++ (namesOf (toldOf none c.jobs) ++ namesOf (e :: es)) := by
          simp only [namesOf, List.map_cons, List.cons_append, ← List.append_assoc]
          exact List.perm_middle.symm
      _ ~ namesOf candidates := h.names
  · refine .trans ?_ h.within
    exact (List.sublist_cons_self e es).append_left _
  · simp only [Client.settle]
    omega
  · simp only [Client.settle, hnone, List.nil_append]

lemma Tallied.send (h : Tallied candidates (e :: es) c) :
    Tallied candidates es { c with jobs := c.jobs ++ [e.job] } := by
  have hwaits : toldOf none (c.jobs ++ [e.job]) = toldOf none c.jobs ++ [e] := by
    simp [toldOf, Candidate.job]
  have htold : toldOf (some true) (c.jobs ++ [e.job]) = toldOf (some true) c.jobs := by
    simp [toldOf, Candidate.job]
  refine ⟨?_, ?_, ?_, ?_, h.calls⟩
  · rw [htold]
    exact h.stored
  · rw [hwaits]
    simpa [namesOf] using h.names
  · simpa [Candidate.job] using h.within
  · rw [hwaits, h.pending]
    simp only [List.length_append, List.length_cons, List.length_nil]
    omega

lemma Tallied.store (h : Tallied candidates es c) :
    Tallied candidates [] (c.store .migrate total present fails es) := by
  induction es generalizing c with
  | nil => exact h
  | cons e es ih =>
    simp only [Client.store]
    split
    · exact ih (h.settle (by decide))
    · split
      · exact ih (h.settle (by decide))
      · exact ih h.send

lemma tallied_gotList (hc : Untouched c) (hsome : candidates ≠ []) :
    Tallied candidates [] (c.gotList .migrate candidates present fails) := by
  refine Tallied.store ⟨?_, ?_, ?_, ?_, ?_⟩
  · simp [hc.outcome, hc.jobs, toldOf, namesOf, Migration.Outcome.none]
  · simp [hc.outcome, hc.jobs, toldOf, namesOf, Migration.Outcome.none, Migration.Outcome.names]
  · simp [hc.jobs]
  · simp [hc.jobs, toldOf]
  · simp [hc.calls, hsome]

lemma modify_told {i : ℕ} {j : Job} (hj : c.jobs[i]? = some j) (htold : j.told = none) (ok : Bool) :
    (c.jobs.modify i fun j => { j with told := some ok }).map (·.candidate)
        = c.jobs.map (·.candidate) ∧
      (toldOf none c.jobs).Perm (j.candidate ::
        toldOf none (c.jobs.modify i fun j => { j with told := some ok })) ∧
      (toldOf (some true) (c.jobs.modify i fun j => { j with told := some ok })).Perm
        (if ok = true then j.candidate :: toldOf (some true) c.jobs
          else toldOf (some true) c.jobs) := by
  obtain ⟨l₁, l₂, hl, hm⟩ := modify_split hj fun j => { j with told := some ok }
  rw [hm, hl]
  refine ⟨by simp, ?_, ?_⟩
  · simp only [toldOf, List.filter_append, List.filter_cons, htold, List.map_append]
    simp
  · cases ok with
    | true =>
      simp only [toldOf, List.filter_append, List.filter_cons, htold, List.map_append]
      simp
    | false =>
      simp only [toldOf, List.filter_append, List.filter_cons, htold, List.map_append]
      simp

lemma Tallied.tell (h : Tallied candidates [] c) {i : ℕ} {j : Job} (hj : c.jobs[i]? = some j)
    (htold : j.told = none) (ok : Bool) :
    Tallied candidates [] (c.tell .migrate total i j.candidate.name ok) := by
  obtain ⟨hcandidates, hwaits, hdone⟩ := modify_told hj htold ok
  have hlen := hwaits.length_eq
  have hpending := h.pending
  simp only [List.length_cons, List.length_nil, Nat.add_zero] at hlen hpending
  have hnone : c.calls = [] := by
    rw [h.calls, if_neg (by omega)]
  refine ⟨?_, ?_, ?_, ?_, ?_⟩
  · refine .trans ?_ (hdone.map (·.name)).symm
    cases ok with
    | true =>
      calc c.outcome.stored ++ [j.candidate.name]
          ~ j.candidate.name :: c.outcome.stored := List.perm_append_singleton _ _
        _ ~ j.candidate.name :: namesOf (toldOf (some true) c.jobs) := h.stored.cons _
    | false => exact h.stored
  · refine .trans ?_ h.names
    simp only [namesOf, List.map_nil, List.append_nil]
    refine ((names_insert _ _ _).append_right _).trans ?_
    refine .trans ?_ ((hwaits.map (·.name)).append_left _).symm
    exact List.perm_middle.symm
  · rw [Client.tell, settle_jobs]
    simp only [hcandidates]
    exact h.within
  · simp only [Client.tell, Client.settle, List.length_nil, Nat.add_zero]
    omega
  · simp only [Client.tell, Client.settle, hnone, List.nil_append]

end Accounts

/-! ### The steps -/

section Steps

variable {x y : Migration.State Key} {c c' : Client} {d d' : Daemon.State Key}

/-- What the accounts depend on. -/
structure SameAccounts (c c' : Client) : Prop where
  phase : c'.phase = c.phase
  jobs : c'.jobs.map (fun j => (j.candidate, j.told)) = c.jobs.map fun j => (j.candidate, j.told)
  outcome : c'.outcome = c.outcome
  pending : c'.pending = c.pending
  calls : c'.calls = c.calls

lemma toldOf_eq (v : Option Bool) (jobs : List Job) : toldOf v jobs
    = ((jobs.map fun j => (j.candidate, j.told)).filter fun q => q.2 = v).map Prod.fst := by
  simp only [toldOf, List.filter_map, List.map_map]
  rfl

lemma candidates_eq (jobs : List Job) : jobs.map (·.candidate)
    = (jobs.map fun j => (j.candidate, j.told)).map Prod.fst := by
  simp only [List.map_map]
  rfl

lemma Accounted.congr (h : Accounted candidates c) (hsame : SameAccounts c c') :
    Accounted candidates c' := by
  obtain ⟨hphase, hjobs, houtcome, hpending, hcalls⟩ := hsame
  have htold : ∀ v, toldOf v c'.jobs = toldOf v c.jobs := fun v => by
    rw [toldOf_eq, hjobs, ← toldOf_eq]
  have hmap : c'.jobs.map (·.candidate) = c.jobs.map (·.candidate) := by
    rw [candidates_eq, hjobs, ← candidates_eq]
  have hempty : c.jobs = [] → c'.jobs = [] := fun hnil => by
    rw [hnil, List.map_nil] at hmap
    exact List.map_eq_nil_iff.mp hmap
  refine ⟨fun hs => ?_, fun ho => ?_, fun hs ho => ?_, fun hs ho => ?_⟩
  · obtain ⟨hstored, hnames, hwithin, hcount, hcall⟩ := h.storing (hphase ▸ hs)
    refine ⟨?_, ?_, ?_, ?_, ?_⟩
    · rw [houtcome, htold]
      exact hstored
    · rw [houtcome, htold]
      exact hnames
    · rw [hmap]
      exact hwithin
    · rw [hpending, htold]
      exact hcount
    · rw [hcalls, hpending, houtcome]
      exact hcall
  · obtain ⟨hnil, r, hr, hover⟩ := h.ended (hphase ▸ ho)
    exact ⟨hempty hnil, r, hcalls.trans hr, hover⟩
  · obtain ⟨hnil, hnone, hcall⟩ := h.before (hphase ▸ hs) (hphase ▸ ho)
    exact ⟨hempty hnil, houtcome.trans hnone, hcalls.trans hcall⟩
  · exact h.nonempty (hphase ▸ hs) (hphase ▸ ho)

lemma sameAccounts_after (a : Action) : SameAccounts c (c.after d a) := by
  have hrefl : SameAccounts c c := ⟨rfl, rfl, rfl, rfl, rfl⟩
  by_cases hrun : ∃ t env expired, a = .run t env expired
  · obtain ⟨t, env, expired, rfl⟩ := hrun
    rcases after_run c d t env expired with
      ⟨hc, -⟩ | ⟨r, -, hc⟩
    · rw [hc]
      exact hrefl
    · rw [hc]
      refine ⟨rfl, ?_, rfl, rfl, rfl⟩
      simp only [Client.hear, List.map_map]
      refine List.map_congr_left fun j _ => ?_
      obtain ⟨hcandidate, htold⟩ := hear_same t r j
      simp only [Function.comp_apply, hcandidate, htold]
  · rw [after_of_not_run fun t env expired heq => hrun ⟨t, env, expired, heq⟩]
    exact hrefl

lemma sameAccounts_startSet {i t : ℕ} {j : Job} (hj : c.jobs[i]? = some j) :
    SameAccounts c (c.startSet i t) := by
  obtain ⟨l₁, l₂, hl, hm⟩ := modify_split hj fun j => { j with thread := some t }
  refine ⟨rfl, ?_, rfl, rfl, rfl⟩
  rw [Client.startSet, hm, hl]
  simp

lemma accounted_gotList {present : List String} {fails : ℕ → Bool} (h : Accounted candidates c)
    (hphase : c.phase = .listing) :
    Accounted candidates (c.gotList .migrate candidates present fails) := by
  have hc : Untouched c := h.before (by rw [hphase]; decide) (by rw [hphase]; decide)
  have hsome : candidates ≠ [] := h.nonempty (by rw [hphase]; decide) (by rw [hphase]; decide)
  have hstoring : (c.gotList .migrate candidates present fails).phase = .storing := gotList_frame.1
  refine ⟨fun _ => tallied_gotList hc hsome, fun ho => ?_, fun hs => ?_, fun _ _ => hsome⟩
  · rw [hstoring] at ho
    cases ho
  · exact absurd hstoring hs

lemma Accounted.storing_of_job (h : Accounted candidates c) {i : ℕ} {j : Job}
    (hj : c.jobs[i]? = some j) : c.phase = .storing := by
  by_contra hs
  have hnil : c.jobs = [] := by
    by_cases ho : c.phase = .over
    · exact (h.ended ho).1
    · exact (h.before hs ho).jobs
  rw [hnil] at hj
  cases hj

lemma accounted_tell (total : ℕ) (h : Accounted candidates c) {i : ℕ} {j : Job}
    (hj : c.jobs[i]? = some j) (htold : j.told = none) (ok : Bool) :
    Accounted candidates (c.tell .migrate total i j.candidate.name ok) := by
  have hs := h.storing_of_job hj
  have hphase : (c.tell .migrate total i j.candidate.name ok).phase = .storing := hs
  refine ⟨fun _ => (h.storing hs).tell hj htold ok, fun ho => ?_, fun hs' => absurd hphase hs',
    fun _ _ => h.nonempty (by rw [hs]; decide) (by rw [hs]; decide)⟩
  rw [hphase] at ho
  cases ho

/-- The calls before the list is asked for. -/
lemma accounted_talk {e : Event} (he : e.talks = true) (h : Accounted candidates x.client)
    (hs : migrating L cfg candidates x e = some y) : Accounted candidates y.client := by
  have hearly {p : Phase} (hphase : x.client.phase = p) (hp : p ≠ .storing) (hp' : p ≠ .over) :
      Untouched x.client := h.before (hphase ▸ hp) (hphase ▸ hp')
  cases e with
  | begin =>
    simp only [migrating, Migration.step] at hs
    split at hs <;> cases hs
    rename_i hphase
    obtain ⟨hjobs, houtcome, hcalls⟩ := hearly hphase (by decide) (by decide)
    cases candidates with
    | nil =>
      refine ⟨fun ho => (by cases ho), fun _ => ⟨hjobs, .ok .none, ?_, fun o ho => ?_⟩,
        fun _ ho => absurd rfl ho, fun _ ho => absurd rfl ho⟩
      · simp only [Client.begin, hcalls, List.nil_append]
      · exact ⟨(Except.ok.inj ho).symm, rfl⟩
    | cons c cs => exact ⟨fun ho => (by cases ho), fun ho => (by cases ho),
        fun _ _ => ⟨hjobs, houtcome, hcalls⟩, fun _ _ => List.cons_ne_nil c cs⟩
  | ensured ok err =>
    simp only [migrating, Migration.step] at hs
    split at hs <;> cases hs
    rename_i hphase
    obtain ⟨hjobs, houtcome, hcalls⟩ := hearly hphase (by decide) (by decide)
    have hsome : candidates ≠ [] := h.nonempty (by rw [hphase]; decide) (by rw [hphase]; decide)
    cases ok with
    | true => exact ⟨fun ho => (by cases ho), fun ho => (by cases ho),
        fun _ _ => ⟨hjobs, houtcome, hcalls⟩, fun _ _ => hsome⟩
    | false =>
      refine ⟨fun ho => (by cases ho),
        fun _ => ⟨hjobs, .error (err.getD "locked"), ?_, fun o ho => ?_⟩,
        fun _ ho => absurd rfl ho, fun _ ho => absurd rfl ho⟩
      · simp only [Client.ensured, hcalls, List.nil_append]
      · cases ho
  | confirmed yes =>
    simp only [migrating, Migration.step] at hs
    split at hs <;> cases hs
    rename_i hphase
    obtain ⟨hjobs, houtcome, hcalls⟩ := hearly hphase (by decide) (by decide)
    have hsome : candidates ≠ [] := h.nonempty (by rw [hphase]; decide) (by rw [hphase]; decide)
    cases yes with
    | true => exact ⟨fun ho => (by cases ho), fun ho => (by cases ho),
        fun _ _ => ⟨hjobs, houtcome, hcalls⟩, fun _ _ => hsome⟩
    | false =>
      refine ⟨fun ho => (by cases ho), fun _ => ⟨hjobs, .error "cancelled", ?_, fun o ho => ?_⟩,
        fun _ ho => absurd rfl ho, fun _ ho => absurd rfl ho⟩
      · simp only [Client.confirmed, hcalls, List.nil_append]
      · cases ho
  | _ => cases he

lemma accounted_step {e : Event} (h : Accounted candidates x.client)
    (hs : migrating L cfg candidates x e = some y) : Accounted candidates y.client := by
  cases took_of_step hs with
  | talk he => exact accounted_talk he h hs
  | startList => exact h.congr ⟨rfl, rfl, rfl, rfl, rfl⟩
  | listed hphase | listLost hphase => exact accounted_gotList h hphase
  | startSet hj => exact h.congr (sameAccounts_startSet hj)
  | tell he hj htold hok => exact accounted_tell candidates.length h hj htold _
  | act => exact h.congr (sameAccounts_after _)

lemma accounted_start (candidates : List Candidate) : Accounted candidates Client.new where
  storing hs := by cases hs
  ended ho := by cases ho
  before _ _ := ⟨rfl, rfl, rfl⟩
  nonempty hf := absurd rfl hf

/-! ### What has been stored -/

lemma stored_iff {j : Job} : stored d j = true ↔
    (∃ r, decided d j = some (.ok r)) ∧ j.told ≠ some false := by
  unfold stored
  rw [Bool.and_eq_true, decide_eq_true_eq, Option.any_eq_true]
  constructor
  · rintro ⟨⟨r, hr, hok⟩, htold⟩
    cases r with
    | error e => cases hok
    | ok r => exact ⟨⟨r, hr⟩, htold⟩
  · rintro ⟨⟨r, hr⟩, htold⟩
    exact ⟨⟨.ok r, hr, rfl⟩, htold⟩

/-- A good answer was there before the action, or is that of the operation it has run. -/
lemma decided_after (h : Attended x) {a : Action}
    (hd : Daemon.step L cfg x.agent a = some d') {j' : Job}
    (hj' : j' ∈ (x.client.after x.agent a).jobs) :
    ∃ j ∈ x.client.jobs, j'.candidate = j.candidate ∧ j'.told = j.told ∧
      ∀ r, decided d' j' = some (.ok r) → decided x.agent j = some (.ok r) ∨
        ∃ t env expired op, a = .run t env expired ∧ Sets j.candidate op ∧
          x.agent.pc t = .access op ∧ d'.pc t = .respond (.ok r) := by
  obtain ⟨j, hj, hcandidate, htold, hheard⟩ := after_jobs hj'
  refine ⟨j, hj, hcandidate, htold, fun r hr => ?_⟩
  cases hanswer : j'.answer with
  | some r' =>
    have hr' : r' = .ok r := by
      simp only [decided, hanswer] at hr
      exact Option.some.inj hr
    subst hr'
    left
    rcases hheard with rfl | ⟨r', hr', hdecided⟩
    · simp only [decided, hanswer]
    · rw [hanswer] at hr'
      rw [hdecided, hr']
  | none =>
    have hsame : j' = j := by
      rcases hheard with heq | ⟨r', hr', -⟩
      · exact heq
      · rw [hanswer] at hr'
        cases hr'
    subst hsame
    simp only [decided, hanswer] at hr ⊢
    obtain ⟨t, ht, hans⟩ := Option.bind_eq_some_iff.mp hr
    have hserved : j'.servedBy t = true := by simp [Job.servedBy, ht, hanswer]
    obtain ⟨hold, hno⟩ := (unanswered_after a).1 j' hj' t hserved
    have hserves := h.sets j' hold t hserved
    rcases (onward_set hserves hno hd).answers r hans with hbefore | ⟨env, expired, op, rfl, hop⟩
    · exact .inl (by rw [ht]; exact hbefore)
    · refine .inr ⟨t, env, expired, op, rfl, ?_, hop, ?_⟩
      · rw [hop] at hserves
        rcases hserves with heq | hsets
        · cases heq
        · exact hsets
      · revert hans
        cases d'.pc t <;> simp [answering]

lemma decided_request {t b id : ℕ} {method : String} {params : Json} (h : Attended x)
    (hd : Daemon.step L cfg x.agent (.request t b id method params) = some d') {j : Job}
    (hj : j ∈ x.client.jobs) {r : Reply} (hr : decided d' j = some (.ok r)) :
    decided x.agent j = some (.ok r) := by
  have hjob : j ∈ (x.client.after x.agent (.request t b id method params)).jobs := hj
  simp only [decided] at hr ⊢
  cases hanswer : j.answer with
  | some r' =>
    rw [hanswer] at hr
    exact hr
  | none =>
    rw [hanswer] at hr
    obtain ⟨u, hu, hans⟩ := Option.bind_eq_some_iff.mp hr
    have hserved : j.servedBy u = true := by simp [Job.servedBy, hu, hanswer]
    obtain ⟨hold, hno⟩ := (unanswered_after (.request t b id method params)).1 j hjob u hserved
    rcases (onward_set (h.sets j hold u hserved) hno hd).answers r hans with
      hbefore | ⟨_, _, _, heq, -⟩
    · rw [hu]
      exact hbefore
    · cases heq

/-- What has been stored is in the wallet. -/
def Kept (L : Packages Key) (cfg : Config) (x : Migration.State Key) : Prop :=
  ∀ j ∈ x.client.jobs, stored x.agent j = true →
    Held L cfg x.agent.shared.world j.candidate.name j.candidate.value

lemma kept_of_jobs (h : Kept L cfg x) (hw : y.agent.shared.world = x.agent.shared.world)
    (hjobs : ∀ j' ∈ y.client.jobs, stored y.agent j' = true → ∃ j ∈ x.client.jobs,
      j'.candidate = j.candidate ∧ stored x.agent j = true) : Kept L cfg y := by
  intro j' hj' hstored
  obtain ⟨j, hj, hcandidate, hbefore⟩ := hjobs j' hj' hstored
  rw [hw, hcandidate]
  exact h j hj hbefore

/-- A section of the agent leaves what has been stored, and what it stores is there. -/
lemma kept_act (hL : L.toLibrary.Ideal) (hx : Attended x) (h : Kept L cfg x) {a : Action}
    (hwriter : NoOtherWriter x (.act a))
    (hspares : ∀ t env expired, a = .run t env expired → ∀ j ∈ x.client.jobs,
      stored x.agent j = true → Spares L cfg x.agent.shared.world j.candidate.name
        j.candidate.value (x.agent.pc t))
    (hd : Daemon.step L cfg x.agent a = some d') :
    Kept L cfg ⟨d', x.client.after x.agent a⟩ := by
  intro j' hj' hstored
  obtain ⟨⟨r, hr⟩, hnot⟩ := stored_iff.mp hstored
  obtain ⟨j, hj, hcandidate, htold, hbefore⟩ := decided_after hx hd hj'
  rw [hcandidate]
  rcases hbefore r hr with hold | ⟨t, env, expired, op, rfl, ⟨q, rfl, hname, hvalue⟩, hop, hpc⟩
  · have hwas : stored x.agent j = true := stored_iff.mpr ⟨⟨r, hold⟩, htold ▸ hnot⟩
    have hheld := h j hj hwas
    by_cases hrun : ∃ t env expired, a = .run t env expired
    · obtain ⟨t, env, expired, rfl⟩ := hrun
      obtain ⟨p, hexec, -, -⟩ := step_run hd
      refine held_exec hL hheld (hspares t env expired rfl j hj hwas) (fun op hop => ?_) hexec
      have hwrites : op ∈ operation (x.agent.pc t) := by rw [hop]; rfl
      rcases hwriter op hwrites with hreads | ⟨k, hk, hserved⟩
      · exact .inl hreads
      · have hserves := hx.sets k hk t hserved
        rw [hop] at hserves
        rcases hserves with heq | ⟨q, rfl, -⟩
        · cases heq
        · exact .inr ⟨q, rfl⟩
    · have hq := step_quiet hd fun t env expired heq => hrun ⟨t, env, expired, heq⟩
      simp only [hq.world]
      exact hheld
  · obtain ⟨p, hexec, hp, -⟩ := step_run hd
    rw [hop] at hexec
    simp only [Pc.exec, Option.some.injEq, Prod.mk.injEq] at hexec
    obtain ⟨hsh, rfl⟩ := hexec
    rw [hp] at hpc
    have hreply := Pc.respond.inj hpc
    have hheld := held_of_set hL hvalue hreply
    rw [hname] at hheld
    rw [← hsh]
    exact hheld

/-- Before the callback is called a step leaves what has been stored, also when it is the one
that calls it. -/
lemma kept_step (hL : L.toLibrary.Ideal) (hx : Attended x) (hacc : Accounted candidates x.client)
    (h : Kept L cfg x) (hcalls : x.client.calls = []) {e : Event} (hwriter : NoOtherWriter x e)
    (hspares : Undisturbed L cfg x e) (hs : migrating L cfg candidates x e = some y) :
    Kept L cfg y := by
  cases took_of_step hs with
  | talk he hphase hjobs hlister hlisted hnext =>
    refine kept_of_jobs h rfl fun j hj hstored => ⟨j, ?_, rfl, hstored⟩
    rw [← hjobs]
    exact hj
  | startList hphase hlister hd =>
    refine kept_of_jobs h (congrArg Shared.world (request_starts hd).2.2.2) fun j hj hstored => ?_
    obtain ⟨⟨r, hr⟩, hnot⟩ := stored_iff.mp hstored
    exact ⟨j, hj, rfl, stored_iff.mpr ⟨⟨r, decided_request hx hd hj hr⟩, hnot⟩⟩
  | listed hphase | listLost hphase =>
    have hnil : x.client.jobs = [] :=
      (hacc.before (by rw [hphase]; decide) (by rw [hphase]; decide)).jobs
    intro j hj hstored
    rcases store_jobs hj with hold | ⟨e, -, -, rfl⟩
    · have hold' : j ∈ x.client.jobs := hold
      rw [hnil] at hold'
      cases hold'
    · obtain ⟨⟨r, hr⟩, -⟩ := stored_iff.mp hstored
      cases hr
  | startSet hj hthread hd =>
    refine kept_of_jobs h (congrArg Shared.world (request_starts hd).2.2.2) fun k hk hstored => ?_
    obtain ⟨⟨r, hr⟩, hnot⟩ := stored_iff.mp hstored
    rcases mem_modify hj hk with hold | rfl
    · exact ⟨k, hold, rfl, stored_iff.mpr ⟨⟨r, decided_request hx hd hold hr⟩, hnot⟩⟩
    · refine ⟨_, List.mem_of_getElem? hj, rfl, stored_iff.mpr ⟨⟨r, ?_⟩, hnot⟩⟩
      rename_i j _
      cases hanswer : j.answer with
      | some r' =>
        simp only [decided, hanswer] at hr ⊢
        exact hr
      | none =>
        simp only [decided, hanswer, Option.bind_some, (request_starts hd).2.1, answering] at hr
        cases hr
  | tell he hj htold hok =>
    refine kept_of_jobs h rfl fun k hk hstored => ?_
    rw [Client.tell, settle_jobs] at hk
    rcases mem_modify hj hk with hold | rfl
    · exact ⟨k, hold, rfl, hstored⟩
    · -- It is told as good or as bad, and was stored before either way.
      obtain ⟨⟨r, hr⟩, -⟩ := stored_iff.mp hstored
      refine ⟨_, List.mem_of_getElem? hj, rfl, stored_iff.mpr ⟨⟨r, hr⟩, ?_⟩⟩
      rw [htold]
      decide
  | act hd =>
    refine kept_act hL hx h hwriter (fun t env expired ha j hj hstored => ?_) hd
    subst ha
    exact hspares hcalls j hj hstored

end Steps

/-! ### The run -/

/-- The invariant of a run. -/
structure Inv (L : Packages Key) (cfg : Config) (candidates : List Candidate)
    (x : Migration.State Key) : Prop where
  attended : Attended x
  accounted : Accounted candidates x.client
  told : ∀ j ∈ x.client.jobs, j.told = some true → ∃ r, j.answer = some (.ok r)
  kept : x.client.calls = [] → Kept L cfg x

section Run

variable {x y : Migration.State Key}

lemma calls_before (hacc : Accounted candidates x.client) {e : Event}
    (hs : migrating L cfg candidates x e = some y) (hy : y.client.calls = []) :
    x.client.calls = [] := by
  cases took_of_step hs with
  | talk he hphase =>
    refine (hacc.before ?_ ?_).calls
    · intro heq
      rw [heq] at hphase
      cases hphase
    · intro heq
      rw [heq] at hphase
      cases hphase
  | listed hphase | listLost hphase =>
    exact (hacc.before (by rw [hphase]; decide) (by rw [hphase]; decide)).calls
  | startList | startSet => exact hy
  | tell =>
    simp only [Client.tell, Client.settle] at hy
    split at hy
    · simp at hy
    · exact hy
  | act => exact (sameAccounts_after _).calls.symm.trans hy

lemma told_step {e : Event}
    (h : ∀ j ∈ x.client.jobs, j.told = some true → ∃ r, j.answer = some (.ok r))
    (hs : migrating L cfg candidates x e = some y) :
    ∀ j ∈ y.client.jobs, j.told = some true → ∃ r, j.answer = some (.ok r) := by
  intro j' hj' htold
  cases took_of_step hs with
  | talk he hphase hjobs => exact h j' (hjobs ▸ hj') htold
  | startList => exact h j' hj' htold
  | listed | listLost =>
    rcases store_jobs hj' with hold | ⟨e, -, -, rfl⟩
    · exact h j' hold htold
    · cases htold
  | startSet hj =>
    rcases mem_modify hj hj' with hold | rfl
    · exact h j' hold htold
    · obtain ⟨r, hr⟩ := h _ (List.mem_of_getElem? hj) htold
      exact ⟨r, hr⟩
  | tell he hj hnone hok =>
    rw [Client.tell, settle_jobs] at hj'
    rcases mem_modify hj hj' with hold | rfl
    · exact h j' hold htold
    · exact hok (Option.some.inj htold)
  | act hd =>
    obtain ⟨j, hj, -, hsame, hheard⟩ := after_jobs hj'
    obtain ⟨r, hr⟩ := h j hj (hsame ▸ htold)
    rcases hheard with rfl | ⟨r', hr', hdecided⟩
    · exact ⟨r, hr⟩
    · simp only [decided, hr] at hdecided
      exact ⟨r, by rw [hr', hdecided]⟩

lemma inv_step (hL : L.toLibrary.Ideal) {e : Event} (h : Inv L cfg candidates x)
    (hwriter : NoOtherWriter x e) (hspares : Undisturbed L cfg x e)
    (hs : migrating L cfg candidates x e = some y) : Inv L cfg candidates y where
  attended := attended_step h.attended hs
  accounted := accounted_step h.accounted hs
  told := told_step h.told hs
  kept hy := by
    have hx := calls_before h.accounted hs hy
    exact kept_step hL h.attended h.accounted (h.kept hx) hx hwriter hspares hs

lemma inv_start (L : Packages Key) (cfg : Config) (candidates : List Candidate) (w : World Key) :
    Inv L cfg candidates (Migration.start Key w) where
  attended := attended_start w
  accounted := accounted_start candidates
  told j hj := by cases hj
  kept _ j hj := by cases hj

lemma Tallied.called {c : Client} (h : Tallied candidates [] c) {o : Migration.Outcome}
    (ho : .ok o ∈ c.calls) : c.calls = [.ok o] ∧ o = c.outcome ∧ toldOf none c.jobs = [] := by
  rw [h.calls] at ho
  split at ho
  · rename_i hzero
    obtain rfl : o = c.outcome := Except.ok.inj (List.mem_singleton.mp ho)
    have hlen := h.pending
    rw [hzero, List.length_nil, Nat.add_zero] at hlen
    exact ⟨by rw [h.calls, if_pos hzero], rfl, List.length_eq_zero_iff.mp hlen.symm⟩
  · cases ho

/-- The candidates reported as stored. -/
lemma Inv.reported (h : Inv L cfg candidates y) (hkept : x.client.calls = [] → Kept L cfg y) :
    Reported L cfg candidates x y := by
  obtain ⟨-, ⟨hstoring, hover, hbefore, -⟩, htold, -⟩ := h
  -- The loop runs, or is over, or the callback has not been called.
  have hcases : y.client.phase = .storing ∨ y.client.phase = .over ∨ y.client.calls = [] := by
    by_cases hs : y.client.phase = .storing
    · exact .inl hs
    · by_cases ho : y.client.phase = .over
      · exact .inr (.inl ho)
      · exact .inr (.inr (hbefore hs ho).calls)
  refine ⟨?_, ?_, ?_, ?_⟩
  · rcases hcases with hs | ho | hnone
    · rw [(hstoring hs).calls]
      split <;> simp
    · obtain ⟨-, r, hr, -⟩ := hover ho
      simp [hr]
    · simp [hnone]
  · rintro (ho | ⟨hs, hall⟩)
    · obtain ⟨-, r, hr, -⟩ := hover ho
      simp [hr]
    · have hnobody : toldOf none y.client.jobs = [] := by
        simp only [toldOf, List.map_eq_nil_iff, List.filter_eq_nil_iff, decide_eq_true_eq]
        exact hall
      have hzero : y.client.pending = 0 := by
        rw [(hstoring hs).pending, hnobody]
        rfl
      rw [(hstoring hs).calls, if_pos hzero]
      simp
  · intro o ho
    rcases hcases with hs | hphase | hnone
    · obtain ⟨-, rfl, hnobody⟩ := (hstoring hs).called ho
      have hnames := (hstoring hs).names
      rw [hnobody] at hnames
      simpa [namesOf] using hnames
    · obtain ⟨-, r, hr, hnil⟩ := hover hphase
      rw [hr] at ho
      obtain ⟨rfl, rfl⟩ := hnil o (List.mem_singleton.mp ho).symm
      exact .refl _
    · rw [hnone] at ho
      cases ho
  · intro hx o ho
    rcases hcases with hs | hphase | hnone
    · obtain ⟨-, rfl, -⟩ := (hstoring hs).called ho
      refine ⟨?_, (hstoring hs).stored, fun c hc => ?_⟩
      · have hwithin := (hstoring hs).within
        rw [List.append_nil] at hwithin
        exact (List.filter_sublist.map _).trans hwithin
      · -- What was told as good has been answered so, and such a set is in the wallet.
        obtain ⟨j, hj, rfl⟩ := List.mem_map.mp hc
        obtain ⟨hmem, hj⟩ := List.mem_filter.mp hj
        have hgood := of_decide_eq_true hj
        obtain ⟨r, hr⟩ := htold j hmem hgood
        refine hkept hx j hmem (stored_iff.mpr ⟨⟨r, ?_⟩, ?_⟩)
        · simp only [decided, hr]
        · rw [hgood]
          decide
    · obtain ⟨hjobs, r, hr, hnil⟩ := hover hphase
      rw [hr] at ho
      obtain ⟨rfl, -⟩ := hnil o (List.mem_singleton.mp ho).symm
      rw [hjobs]
      exact ⟨List.nil_sublist _, .refl _, fun c hc => by cases hc⟩
    · rw [hnone] at ho
      cases ho

end Run

/-- In every run in which no section disturbs what has been stored, the migration loses no
plaintext. -/
theorem reports_of_undisturbed (L : Packages Key) (hL : L.toLibrary.Ideal) (cfg : Config)
    (candidates : List Candidate) (w : World Key) (es : List Event)
    (hwriter : Along (migrating L cfg candidates) NoOtherWriter (Migration.start Key w) es)
    (hspares : Along (migrating L cfg candidates) (Undisturbed L cfg) (Migration.start Key w) es) :
    Along (migrating L cfg candidates) (Reports L cfg candidates) (Migration.start Key w) es := by
  refine (hwriter.and hspares).of_inv (Inv L cfg candidates) ?_ ?_ (inv_start L cfg candidates w)
  · intro x e y h hG hs
    exact inv_step hL h hG.1 hG.2 hs
  · intro x e h hG y hs
    refine (inv_step hL h hG.1 hG.2 hs).reported fun hcalls => ?_
    exact kept_step hL h.attended h.accounted (h.kept hcalls) hcalls hG.1 hG.2 hs

/-! ### Two candidates of one name -/

/-- A sufficient condition that can be checked: no session is read or installed, no vault is
created, and no name is set to another value than one that has been stored under it. -/
def Calm (x : Migration.State Key) : Event → Bool
  | .act (.run t _ _) =>
    match x.agent.pc t with
    | .access (.set p) => x.client.jobs.all fun j =>
      !stored x.agent j || p.name != j.candidate.name || decide (p.value = some j.candidate.value)
    | .install _ _ | .rotateWrite _ _ _ | .createWrite _ => false
    | _ => true
  | _ => true

lemma undisturbed_of_calm {x : Migration.State Key} {e : Event} (h : Calm x e = true) :
    Undisturbed L cfg x e := by
  cases e with
  | act a =>
    cases a with
    | run t env expired =>
      intro _ j hj hstored
      simp only [Calm] at h
      split at h
      · rename_i p hp
        rw [hp]
        intro hname _
        have hall := List.all_eq_true.mp h j hj
        simpa [hstored, hname] using hall
      · cases h
      · cases h
      · cases h
      · rename_i hset hinstall hrotate hcreate
        cases hp : x.agent.pc t with
        | access op =>
          cases op with
          | set p => exact absurd hp (hset p)
          | _ => trivial
        | install s k => exact absurd hp (hinstall s k)
        | rotateWrite s old new => exact absurd hp (hrotate s old new)
        | createWrite password => exact absurd hp (hcreate password)
        | _ => trivial
    | _ => trivial
  | _ => trivial

/-- The prompt is answered and the list has come. -/
def listed : List Event :=
  [.act .connect, .begin, .ensured true none, .confirmed true, .startList 0 1 1] ++
    (Sample.turns 0 4).map .act ++ [.listed fun _ => false]

/-- One request after the other is served. -/
def servedInTurn : List Event :=
  listed ++ (.startSet 0 1 1 2 :: (Sample.turns 1 4).map .act) ++
    (.startSet 1 2 1 3 :: (Sample.turns 2 4).map .act) ++ [.told 0]

def twice : List Candidate := [⟨"a", "x", none⟩, ⟨"a", "y", none⟩]

abbrev sampleStart : Migration.State Sample.Key := Migration.start Sample.Key Sample.created

theorem not_losesNoPlaintext : ¬ LosesNoPlaintext := by
  intro h
  have hreports := h Sample.Key Sample.packages Sample.config twice Sample.created
    (servedInTurn ++ [.told 1]) Sample.library_ideal (by decide +kernel)
  have hbefore : ((run (migrating Sample.packages Sample.config twice) sampleStart servedInTurn).map
      fun x => x.client.calls) = some [] := by
    decide +kernel
  obtain ⟨x, hx, hnone⟩ := Option.map_eq_some_iff.mp hbefore
  have hafter : ((run (migrating Sample.packages Sample.config twice) sampleStart
      (servedInTurn ++ [.told 1])).map fun y =>
        (y.client.calls, y.agent.shared.session.map fun s => valueIn s.body "a"))
      = some ([.ok ⟨["a", "a"], [], []⟩], some (some "y")) := by
    decide +kernel
  obtain ⟨y, hy, hreported⟩ := Option.map_eq_some_iff.mp hafter
  simp only [Prod.mk.injEq] at hreported
  obtain ⟨hcalls, hvalue⟩ := hreported
  have hlast : migrating Sample.packages Sample.config twice x (.told 1) = some y := by
    rw [run_append, hx, Option.bind_some, run_cons_eq_some] at hy
    obtain ⟨z, hz, hend⟩ := hy
    cases hend
    exact hz
  obtain ⟨hsub, hstored, hheld⟩ := (hreports.at_end hx y hlast).kept hnone ⟨["a", "a"], [], []⟩
    (by rw [hcalls]; exact List.mem_singleton_self _)
  have hlen : (toldOf (some true) y.client.jobs).length = 2 := by
    simpa [namesOf] using hstored.length_eq.symm
  have hall : toldOf (some true) y.client.jobs = twice := hsub.eq_of_length hlen
  obtain ⟨s, hs, hname⟩ := Option.map_eq_some_iff.mp hvalue
  have hx := (hheld ⟨"a", "x", none⟩ (by rw [hall]; exact List.mem_cons_self)).session s hs
  rw [hname] at hx
  exact absurd (Option.some.inj hx) (by decide)

def apart : List Candidate := [⟨"a", "x", none⟩, ⟨"b", "y", none⟩]

/-- The same run with two names. -/
theorem reports_of_undisturbed_apart :
    (run (migrating Sample.packages Sample.config apart) sampleStart
      (servedInTurn ++ [.told 1])).isSome = true ∧
      Along (migrating Sample.packages Sample.config apart)
        (Reports Sample.packages Sample.config apart) sampleStart (servedInTurn ++ [.told 1]) := by
  refine ⟨by decide +kernel, reports_of_undisturbed Sample.packages Sample.library_ideal
    Sample.config apart Sample.created _ (by decide +kernel) ?_⟩
  have hcalm : Along (migrating Sample.packages Sample.config apart) (fun x e => Calm x e = true)
      sampleStart (servedInTurn ++ [.told 1]) := by
    decide +kernel
  exact hcalm.mono fun x e h => undisturbed_of_calm h

end LvimKeyring.Handover
