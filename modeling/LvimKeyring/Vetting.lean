import LvimKeyring.Exposure

/-!
The directory of the socket, and what the client connects to.

The directory has a name in one where everyone may make directories and links, and may rename
and remove what is theirs. The client looks at it once for every attempt; each connect of the
attempt follows the name anew.
-/

namespace LvimKeyring.Vetting

open Rpc EventLoop Transition

/-! ### Directories -/

structure Dir where
  owner : ℕ
  mode : ℕ
  /-- Somebody listens on the socket in it. -/
  bound : Bool

/-- Where a link leads: to a name beside it, or to a directory elsewhere. -/
inductive Target
  | name (n : String)
  | dir (d : ℕ)

inductive Entry
  | dir (d : ℕ)
  | link (owner : ℕ) (target : Target)

structure World where
  entries : String → Option Entry
  dirs : List Dir

/-- Whose client it is, and what the socket's directory is called. -/
structure Place where
  uid : ℕ
  parent : String
  name : String

def Place.dir (pl : Place) : String := pl.parent ++ "/" ++ pl.name

/-- `rwx------` -/
def privateMode : ℕ := 0x1C0

/-- Owned by the user, and nobody else may do anything there. -/
def Dir.isPrivate (uid : ℕ) (d : Dir) : Bool := d.owner = uid && d.mode &&& 0x1FF = privateMode

namespace World

/-- The directory a name leads to, past so many links. -/
def follow (w : World) : ℕ → String → Option ℕ
  | 0, _ => none
  | k + 1, n =>
    match w.entries n with
    | none => none
    | some (.dir d) | some (.link _ (.dir d)) => some d
    | some (.link _ (.name m)) => w.follow k m

def maxLinks : ℕ := 40

/-- `fs_stat` -/
def stat (w : World) (n : String) : Option Dir :=
  (w.follow (maxLinks + 1) n).bind fun d => w.dirs[d]?

/-- The directory in which a connect finds somebody who listens. -/
def answering (w : World) (n : String) : Option Dir := (w.stat n).filter (·.bound)

def withDir (w : World) (n : String) (d : Dir) : World :=
  { w with
    entries := Function.update w.entries n (some (.dir w.dirs.length))
    dirs := w.dirs ++ [d] }

def setDir (w : World) (d : ℕ) (f : Dir → Dir) : World := { w with dirs := w.dirs.modify d f }

/-- `pcall(vim.fn.mkdir, dir, "p", 448)` -/
def mkdir (w : World) (pl : Place) : World :=
  if (w.entries pl.name).isNone then w.withDir pl.name ⟨pl.uid, privateMode, false⟩ else w

/-- Nothing is there, or a private directory. -/
def safe (w : World) (pl : Place) : Bool := (w.stat pl.name).all (·.isPrivate pl.uid)

end World

def socketDirSecure (pl : Place) (w : World) : Except Json Unit :=
  match w.stat pl.name with
  | none => .ok ()
  | some st =>
    if st.owner ≠ pl.uid then
      .error (.str ("keyring: socket dir " ++ pl.dir ++ " is not owned by you (uid " ++
        toString st.owner ++ ") — refusing to use it"))
    else if st.mode &&& 0x1FF ≠ privateMode then
      .error (.str ("keyring: socket dir " ++ pl.dir ++
        " must be private (0700) — refusing to use it"))
    else .ok ()

/-! ### What others do there -/

/-- What a user does with what is his, and with the sockets where he may write. -/
inductive Deed
  | mkdir (n : String) (mode : ℕ)
  | symlink (n : String) (target : Target)
  | rename (old new : String)
  | remove (n : String)
  | chmod (d mode : ℕ)
  | bind (d : ℕ)
  | unbind (d : ℕ)

/-- What an agent does before it serves its socket. -/
inductive Serve
  /-- `create_dir_all`, with what the umask leaves of the permissions. -/
  | createDir (mode : ℕ)
  /-- `set_mode(dir, 0o700)` -/
  | setMode
  | bind
  | unbind

namespace World

def owns (w : World) (who : ℕ) : Entry → Bool
  | .dir d => (w.dirs[d]?).any (·.owner = who)
  | .link owner _ => owner = who

/-- The owner may write, or the group or everyone. -/
def writable (w : World) (who d : ℕ) : Bool :=
  (w.dirs[d]?).any fun s => s.owner = who || s.mode &&& 0x12 ≠ 0

def deed (w : World) (who : ℕ) : Deed → Option World
  | .mkdir n mode => if (w.entries n).isNone then some (w.withDir n ⟨who, mode, false⟩) else none
  | .symlink n target =>
    if (w.entries n).isNone then
      some { w with entries := Function.update w.entries n (some (.link who target)) }
    else none
  | .rename old new =>
    match w.entries old with
    | none => none
    | some e =>
      if w.owns who e ∧ (w.entries new).all (w.owns who) then
        some { w with
          entries := Function.update (Function.update w.entries old none) new (some e) }
      else none
  | .remove n =>
    if (w.entries n).any (w.owns who) then
      some { w with entries := Function.update w.entries n none }
    else none
  | .chmod d mode =>
    if (w.dirs[d]?).any (·.owner = who) then some (w.setDir d fun s => { s with mode }) else none
  | .bind d =>
    if w.writable who d then some (w.setDir d fun s => { s with bound := true }) else none
  | .unbind d =>
    if w.writable who d then some (w.setDir d fun s => { s with bound := false }) else none

def serve (w : World) (pl : Place) : Serve → Option World
  | .createDir mode =>
    if (w.entries pl.name).isNone then some (w.withDir pl.name ⟨pl.uid, mode, false⟩) else none
  | .setMode =>
    match w.follow (maxLinks + 1) pl.name with
    | none => none
    | some d => w.deed pl.uid (.chmod d privateMode)
  | .bind =>
    match w.follow (maxLinks + 1) pl.name with
    | none => none
    | some d => w.deed pl.uid (.bind d)
  | .unbind =>
    match w.follow (maxLinks + 1) pl.name with
    | none => none
    | some d => w.deed pl.uid (.unbind d)

end World

/-! ### The client among them -/

structure Net where
  client : Client
  world : World
  /-- The directory, as it was, in which a connect has found somebody who listens. -/
  reached : ℕ → Option Dir

inductive Action
  | client (e : EventLoop.Event)
  | other (who : ℕ) (d : Deed)
  | agent (s : Serve)

section Step

variable (N : Neovim) (pl : Place)

/-- The check of an attempt is made on the directory as it is. -/
def Net.seen (x : Net) : EventLoop.Event → EventLoop.Event
  | .resume env => .resume { env with vetted := socketDirSecure pl x.world }
  | e => e

/-- A connect goes through only where somebody was found to listen. -/
def Net.allows (x : Net) : EventLoop.Event → Bool
  | .connected p false => (x.reached p).isSome
  | _ => true

/-- The directory is made for the agent that is started. -/
def Net.making (x : Net) (e : EventLoop.Event) : World :=
  match e, x.client.stack with
  | .resume _, .mkdir _ :: _ => x.world.mkdir pl
  | _, _ => x.world

/-- A connect follows the name when it is begun. -/
def Net.dialling (x : Net) (client : Client) : ℕ → Option Dir :=
  if x.client.dials.length < client.dials.length then
    Function.update x.reached x.client.dials.length (x.world.answering pl.name)
  else x.reached

def step (x : Net) : Action → Option Net
  | .client e =>
    if x.allows e then
      (EventLoop.step N x.client (x.seen pl e)).map fun client =>
        ⟨client, x.making pl e, x.dialling pl client⟩
    else none
  | .other who d =>
    if who ≠ pl.uid then (x.world.deed who d).map fun world => { x with world } else none
  | .agent s => (x.world.serve pl s).map fun world => { x with world }

end Step

def start (w : World) : Net := ⟨.new, w, fun _ => none⟩

/-- The client is connected only to what listens in a private directory. -/
def Trusted (pl : Place) (x : Net) : Prop :=
  ∀ p, x.client.pipe = some p → ∃ d, x.reached p = some d ∧ d.isPrivate pl.uid = true

/-- What is asked of the socket: whatever others do. -/
def TrustsOnly (N : Neovim) (pl : Place) : Prop :=
  ∀ w as x, run (step N pl) (start w) as = some x → Trusted pl x

/-- While an attempt may still connect without another check, nobody makes the name lead to a
directory that is not private. -/
def undisturbed (pl : Place) (x : Net) : Action → Bool
  | .other who d => !x.client.exposed || (x.world.deed who d).all (·.safe pl)
  | .agent (.createDir mode) => !x.client.exposed || mode &&& 0x1FF = privateMode
  | _ => true

variable {N : Neovim} {pl : Place} {x x' : Net} {w w' : World}

/-! ### The directory -/

lemma safe_iff : w.safe pl = true ↔ ∀ d, w.stat pl.name = some d → d.isPrivate pl.uid = true :=
  Option.all_eq_true _ _

lemma safe_of_secure {u : Unit} (h : socketDirSecure pl w = .ok u) : w.safe pl = true := by
  refine safe_iff.mpr fun d hd => ?_
  simp only [socketDirSecure, hd] at h
  split at h
  · cases h
  · rename_i howner
    split at h
    · cases h
    · rename_i hmode
      rw [Dir.isPrivate, decide_eq_true (not_not.mp howner), decide_eq_true (not_not.mp hmode)]
      rfl

lemma stat_withDir (d : Dir) : (w.withDir pl.name d).stat pl.name = some d := by
  simp [World.stat, World.withDir, World.follow]

lemma safe_withDir {d : Dir} (h : d.isPrivate pl.uid = true) :
    (w.withDir pl.name d).safe pl = true := by
  refine safe_iff.mpr fun d' hd' => ?_
  rw [stat_withDir] at hd'
  cases hd'
  exact h

lemma safe_mkdir (h : w.safe pl = true) : (w.mkdir pl).safe pl = true := by
  unfold World.mkdir
  split
  · exact safe_withDir (by simp [Dir.isPrivate, privateMode])
  · exact h

lemma follow_setDir (d : ℕ) (f : Dir → Dir) (k : ℕ) (n : String) :
    (w.setDir d f).follow k n = w.follow k n := by
  induction k generalizing n with
  | zero => rfl
  | succ k ih =>
    simp only [World.follow, World.setDir]
    split
    · rfl
    · rfl
    · rfl
    · exact ih _

lemma safe_setDir {d : ℕ} {f : Dir → Dir} (h : w.safe pl = true)
    (hf : ∀ s, s.isPrivate pl.uid = true → (f s).isPrivate pl.uid = true) :
    (w.setDir d f).safe pl = true := by
  refine safe_iff.mpr fun s hs => ?_
  unfold World.stat at hs
  rw [follow_setDir] at hs
  obtain ⟨b, hb, hget⟩ := Option.bind_eq_some_iff.mp hs
  simp only [World.setDir, List.getElem?_modify] at hget
  obtain ⟨s', hs', heq⟩ := Option.map_eq_some_iff.mp hget
  have hold : s'.isPrivate pl.uid = true := by
    refine safe_iff.mp h s' ?_
    rw [World.stat, hb]
    exact hs'
  split at heq
  · rw [← heq]
    exact hf s' hold
  · rw [← heq]
    exact hold

lemma safe_deed {who : ℕ} {d : Deed} (h : w.safe pl = true) (hstep : w.deed who d = some w')
    (hd : (∃ b, d = .bind b) ∨ (∃ b, d = .unbind b) ∨ ∃ b, d = .chmod b privateMode) :
    w'.safe pl = true := by
  rcases hd with ⟨b, rfl⟩ | ⟨b, rfl⟩ | ⟨b, rfl⟩
  · simp only [World.deed] at hstep
    split at hstep <;> cases hstep
    exact safe_setDir h fun s hs => hs
  · simp only [World.deed] at hstep
    split at hstep <;> cases hstep
    exact safe_setDir h fun s hs => hs
  · simp only [World.deed] at hstep
    split at hstep <;> cases hstep
    refine safe_setDir h fun s hs => ?_
    rw [Dir.isPrivate, Bool.and_eq_true] at hs
    simp [Dir.isPrivate, privateMode, of_decide_eq_true hs.1]

lemma safe_serve {s : Serve} (h : w.safe pl = true) (hstep : w.serve pl s = some w')
    (hs : ∀ mode, s = .createDir mode → mode &&& 0x1FF = privateMode) : w'.safe pl = true := by
  cases s with
  | createDir mode =>
    simp only [World.serve] at hstep
    split at hstep <;> cases hstep
    exact safe_withDir (by simp [Dir.isPrivate, hs mode rfl])
  | setMode =>
    simp only [World.serve] at hstep
    split at hstep
    · cases hstep
    · exact safe_deed h hstep (.inr (.inr ⟨_, rfl⟩))
  | bind =>
    simp only [World.serve] at hstep
    split at hstep
    · cases hstep
    · exact safe_deed h hstep (.inl ⟨_, rfl⟩)
  | unbind =>
    simp only [World.serve] at hstep
    split at hstep
    · cases hstep
    · exact safe_deed h hstep (.inr (.inl ⟨_, rfl⟩))

/-! ### The invariant -/

/-- While an attempt may connect without a check, the directory is safe. -/
structure Guarded (pl : Place) (x : Net) : Prop where
  tried : x.client.Tried
  safe : x.client.exposed = true → x.world.safe pl = true
  reached : ∀ p d, x.reached p = some d → d.isPrivate pl.uid = true
  linked : ∀ p, x.client.pipe = some p → p < x.client.dials.length ∧ (x.reached p).isSome = true

lemma Guarded.withWorld (h : Guarded pl x) (hw : x.client.exposed = true → w.safe pl = true) :
    Guarded pl { x with world := w } := ⟨h.tried, hw, h.reached, h.linked⟩

variable {client : Client} {e : EventLoop.Event}

lemma vetted_of_passed {env : Surroundings} {a : ℕ} {rest : List Frame} {u : Unit}
    (he : x.seen pl e = .resume env) (hs : x.client.stack = .vet a :: rest)
    (hok : env.vetted = .ok u) : x.world.safe pl = true ∧ x.making pl e = x.world := by
  cases e with
  | resume env' =>
    cases he
    refine ⟨safe_of_secure hok, ?_⟩
    simp only [Net.making, hs]
  | _ => cases he

lemma safe_making (h : x.world.safe pl = true) : (x.making pl e).safe pl = true := by
  unfold Net.making
  split
  · exact safe_mkdir h
  · exact h

lemma safe_or_rests (h : Guarded pl x)
    (hstep : EventLoop.step N x.client (x.seen pl e) = some client) :
    (x.world.safe pl = true ∧ (x.making pl e).safe pl = true) ∨ Client.Rests x.client client := by
  cases hexp : x.client.exposed with
  | true => exact .inl ⟨h.safe hexp, safe_making (h.safe hexp)⟩
  | false =>
    have hsealed := h.tried.toBounded.exposed_eq_false.mp hexp
    by_cases hvet : ∃ env a rest u, x.seen pl e = .resume env ∧ x.client.stack = .vet a :: rest ∧
        env.vetted = .ok u
    · obtain ⟨env, a, rest, u, he, hs, hok⟩ := hvet
      obtain ⟨hsafe, hmaking⟩ := vetted_of_passed he hs hok
      rw [hmaking]
      exact .inl ⟨hsafe, hsafe⟩
    · refine .inr (rests_step hsealed hstep fun env a rest u he hs hok => hvet ?_)
      exact ⟨env, a, rest, u, he, hs, hok⟩

lemma reached_dialling (h : Guarded pl x)
    (hstep : EventLoop.step N x.client (x.seen pl e) = some client) :
    ∀ p d, x.dialling pl client p = some d → d.isPrivate pl.uid = true := by
  intro p d hd
  unfold Net.dialling at hd
  split at hd
  · rename_i hlt
    by_cases hp : p = x.client.dials.length
    · subst hp
      rw [Function.update_self] at hd
      rcases safe_or_rests h hstep with ⟨hsafe, -⟩ | ⟨-, hdials⟩
      · exact safe_iff.mp hsafe d (Option.filter_eq_some_iff.mp hd).1
      · rw [hdials] at hlt
        exact absurd hlt (lt_irrefl _)
    · rw [Function.update_of_ne hp] at hd
      exact h.reached p d hd
  · exact h.reached p d hd

lemma guarded_client (h : Guarded pl x) (hallows : x.allows e = true)
    (hstep : EventLoop.step N x.client (x.seen pl e) = some client) :
    Guarded pl ⟨client, x.making pl e, x.dialling pl client⟩ := by
  have htried := tried_step h.tried hstep
  refine ⟨htried, fun hexp => ?_, reached_dialling h hstep, fun p hp => ?_⟩
  · rcases safe_or_rests h hstep with ⟨-, hsafe⟩ | ⟨hsealed, -⟩
    · exact hsafe
    · rw [htried.toBounded.exposed_eq_false.mpr hsealed] at hexp
      cases hexp
  · change p < client.dials.length ∧ (x.dialling pl client p).isSome = true
    -- A connect that was made before is not the one being begun.
    have hold : ∀ q, q < x.client.dials.length → x.dialling pl client q = x.reached q := by
      intro q hq
      unfold Net.dialling
      split
      · exact Function.update_of_ne hq.ne _ _
      · rfl
    have hpipe : client.pipe = some p := hp
    rcases kept_step hstep with hkept | ⟨q, he, hq, hwon, hdials⟩
    · rcases hkept.pipe with heq | heq
      · obtain ⟨hlt, hsome⟩ := h.linked p (heq.symm.trans hpipe)
        refine ⟨lt_of_lt_of_le hlt hkept.dials.length_le, ?_⟩
        rw [hold p hlt]
        exact hsome
      · rw [heq] at hpipe
        cases hpipe
    · rw [hwon] at hpipe
      cases hpipe
      rw [hold p hq, hdials]
      refine ⟨hq, ?_⟩
      cases e with
      | connected p' failed =>
        cases he
        exact hallows
      | _ => cases he

theorem guarded_step {a : Action} (h : Guarded pl x) (hu : undisturbed pl x a = true)
    (hstep : step N pl x a = some x') : Guarded pl x' := by
  cases a with
  | client e =>
    simp only [step] at hstep
    split at hstep
    · rename_i hallows
      obtain ⟨client, hclient, rfl⟩ := Option.map_eq_some_iff.mp hstep
      exact guarded_client h hallows hclient
    · cases hstep
  | other who d =>
    simp only [step] at hstep
    split at hstep
    · obtain ⟨w, hw, rfl⟩ := Option.map_eq_some_iff.mp hstep
      refine h.withWorld fun hexp => ?_
      simpa [undisturbed, hexp, hw] using hu
    · cases hstep
  | agent s =>
    obtain ⟨w, hw, rfl⟩ := Option.map_eq_some_iff.mp hstep
    refine h.withWorld fun hexp => safe_serve (h.safe hexp) hw ?_
    rintro mode rfl
    simpa [undisturbed, hexp] using hu

lemma guarded_start (w : World) : Guarded pl (start w) where
  tried := tried_new
  safe h := by cases h
  reached p d h := by cases h
  linked p h := by cases h

/-- Where nobody gets between the check of an attempt and its connects, the client is connected
only to what listens in a private directory. -/
theorem trusted_of_undisturbed {as : List Action}
    (hu : Along (step N pl) (fun x a => undisturbed pl x a = true) (start w) as)
    (hrun : run (step N pl) (start w) as = some x) : Trusted pl x := by
  have hkeep : ∀ s a t, Guarded pl s → undisturbed pl s a = true → step N pl s a = some t →
      Guarded pl t := fun _ _ _ h hu hstep => guarded_step h hu hstep
  have h := run_inv hkeep (guarded_start w) hu hrun
  intro p hp
  obtain ⟨d, hd⟩ := Option.isSome_iff_exists.mp (h.linked p hp).2
  exact ⟨d, hd, h.reached p d hd⟩

/-! ### Runs -/

section Runs

open EventLoop.Sample

def place : Place := ⟨1000, "/tmp", "lvim-keyring-1000"⟩

def empty : World := ⟨fun _ => none, []⟩

/-- An attempt whose first connect fails: it makes the directory and starts an agent, and is
connected to it at the first tick. Meanwhile somebody makes a directory of his own beside it. -/
def agentStarted : List Action :=
  [.client (.act .ensure), .client (.resume fine), .client (.resume fine),
    .client (.connected 0 true), .other 1001 (.mkdir "keyring" 0o777), .other 1001 (.bind 0),
    .client (.scheduled fine), .client (.resume fine), .client (.resume fine), .agent .setMode,
    .agent .bind, .client (.tick 0), .client (.scheduled fine), .client (.connected 1 false)]

theorem trusted_agentStarted : ∃ x, run (step neovim place) (start empty) agentStarted = some x ∧
    x.client.pipe = some 1 ∧ Trusted place x := by
  have hend : (run (step neovim place) (start empty) agentStarted).map (fun x => x.client.pipe)
      = some (some 1) := by
    decide +kernel
  obtain ⟨x, hx, hpipe⟩ := Option.map_eq_some_iff.mp hend
  exact ⟨x, hx, hpipe, trusted_of_undisturbed (by decide +kernel) hx⟩

/-- The directory is absent when it is checked, and somebody else makes it before the connect. -/
def overtaken : List Action :=
  [.client (.act .ensure), .client (.resume fine), .other 1001 (.mkdir "lvim-keyring-1000" 0o777),
    .other 1001 (.bind 0), .client (.resume fine), .client (.connected 0 false)]

theorem not_trustsOnly : ¬ ∀ N pl, TrustsOnly N pl := by
  intro h
  have hend : (run (step neovim place) (start empty) overtaken).map
      (fun x => (x.client.pipe, (x.reached 0).map (·.owner))) = some (some 0, some 1001) := by
    decide +kernel
  obtain ⟨x, hx, heq⟩ := Option.map_eq_some_iff.mp hend
  rw [Prod.mk.injEq] at heq
  obtain ⟨d, hd, hpriv⟩ := h neovim place empty overtaken x hx 0 heq.1
  rw [hd] at heq
  have howner : d.owner = 1001 := Option.some.inj heq.2
  rw [Dir.isPrivate, howner] at hpriv
  cases hpriv

end Runs

end LvimKeyring.Vetting
