import LvimKeyring.Daemon
import LvimKeyring.Lib.Transition
import LvimKeyring.Atomicity

/-!
Acknowledged writes among requests in flight.

Unlocking reads the vault file and installs what it read some time later, and a rotation
reads, writes and installs. What is acknowledged in between is lost, unless every session is
installed, and every rotation written, while the file is still as it was read.
-/

namespace LvimKeyring.SaveRaces

open Rpc Crypto Vault Server Daemon Transition Atomicity

variable {Key : Type}

/-! ### The ledger of a run -/

/-- The names an operation can change. -/
def touched : Op → List String
  | .set p => [p.name]
  | .delete name => [name]
  | .rename src dst => [src, dst]
  | .generate name _ => [name]
  | .get _ | .list | .totp _ => []

/-- What has been acknowledged in a run: what became of the names of every mutation, newest
first, and the passwords of the last rotation, until the file is rotated again. -/
structure Ledger where
  acked : List (String × Option Entry)
  rotated : Option (String × String)

def Ledger.empty : Ledger := ⟨[], none⟩

/-- An answered operation, with the session it leaves. -/
def Ledger.ack (g : Ledger) (op : Op) (s : Option (Session Key)) : Except Err Reply → Ledger
  | .ok _ =>
    let entry (name : String) := s.bind fun s => s.body.entries[name]?
    { g with acked := (touched op).map (fun name => (name, entry name)) ++ g.acked }
  | .error _ => g

def Ledger.update (g : Ledger) (d : State Key) : Action → State Key → Ledger
  | .run t _ _, d' =>
    match d.pc t, d'.pc t with
    | .access op, .respond r => g.ack op d'.shared.session r
    | .rotateWrite _ _ _, .install _ _ => { g with rotated := none }
    | .install _ (.rotate old new), _ => { g with rotated := some (old, new) }
    | _, _ => g
  | _, _ => g

/-- Every name has what the last acknowledged mutation of it left. -/
def Reflects (acked : List (String × Option Entry)) (b : Body) : Prop :=
  ∀ name v, acked.lookup name = some v → b.entries[name]? = v

/-! ### The statements -/

/-- What has been acknowledged is in the vault file and in the session. -/
def Kept (L : Packages Key) (cfg : Config) (d : State Key) (g : Ledger) : Prop :=
  (∃ f, Holds L.toLibrary d.shared.world.fs cfg.vaultPath f ∧ Reflects g.acked f.body) ∧
    ∀ s, d.shared.session = some s → Reflects g.acked s.body

/-- The vault file opens under a password. -/
def Opens (L : Packages Key) (cfg : Config) (d : State Key) (pw : String) : Prop :=
  ∃ s, Vault.unlock L.toLibrary .none d.shared.world.fs cfg.vaultPath (asBytes pw) = .ok s

/-- After a rotation the file opens under the new password only, with all that has been
acknowledged in it. -/
def Rotated (L : Packages Key) (cfg : Config) (d : State Key) (g : Ledger) : Prop :=
  ∀ old new, g.rotated = some (old, new) → old ≠ new →
    Opens L cfg d new ∧ ¬ Opens L cfg d old ∧
      ∃ f, Holds L.toLibrary d.shared.world.fs cfg.vaultPath f ∧ Reflects g.acked f.body

/-- A session is installed, and a rotation written, while the file is as it was read. -/
def Undisturbed (L : Packages Key) (cfg : Config) (d : State Key) : Action → Prop
  | .run t _ _ =>
    match d.pc t with
    | .install s _ | .rotateWrite s _ _ =>
      Holds L.toLibrary d.shared.world.fs cfg.vaultPath s
    | _ => True
  | _ => True

/-- The session a section relies on. -/
def relied : Pc Key → List (Session Key)
  | .install s _ | .rotateWrite s _ _ => [s]
  | _ => []

lemma undisturbed_iff {L : Packages Key} {cfg : Config} {d : State Key} {t : ℕ} {env : Env}
    {expired : Bool} : Undisturbed L cfg d (.run t env expired) ↔
      ∀ s ∈ relied (d.pc t), Holds L.toLibrary d.shared.world.fs cfg.vaultPath s := by
  simp only [Undisturbed]
  cases d.pc t <;> simp [relied]

instance [DecidableEq Key] (L : Packages Key) (cfg : Config) (d : State Key) :
    DecidablePred (Undisturbed L cfg d)
  | .run _ _ _ => decidable_of_iff _ undisturbed_iff.symm
  | .connect | .disconnect _ | .request _ _ _ _ _ | .tick _ | .rouse _ => isTrue trivial

variable {L : Packages Key} {cfg : Config}

/-! ### The operations on the map -/

lemma run_frame {T : Totp.Packages} {now : ℕ} {op : Op} {b b' : Body} {r : Reply}
    (h : op.run T now b = .ok (b', r)) {name : String} (hname : name ∉ touched op) :
    b'.entries[name]? = b.entries[name]? := by
  cases op with
  | get | list | totp => rw [run_reads rfl h]
  | set p =>
    have hne : p.name ≠ name := fun heq => hname (by simp [touched, heq])
    simp only [Op.run, secretSet] at h
    split at h
    · cases h
      simp [Std.ExtTreeMap.getElem?_insert, hne]
    · split at h <;> cases h
      simp [Std.ExtTreeMap.getElem?_insert, hne]
  | delete n =>
    have hne : n ≠ name := fun heq => hname (by simp [touched, heq])
    simp only [Op.run, secretDelete] at h
    split at h <;> cases h
    simp [Std.ExtTreeMap.getElem?_erase, hne]
  | rename src dst =>
    have hsrc : src ≠ name := fun heq => hname (by simp [touched, heq])
    have hdst : dst ≠ name := fun heq => hname (by simp [touched, heq])
    simp only [Op.run, secretRename] at h
    split at h
    · cases h
    · split at h <;> cases h
      simp [Std.ExtTreeMap.getElem?_insert, Std.ExtTreeMap.getElem?_erase, hsrc, hdst]
  | generate n value =>
    have hne : n ≠ name := fun heq => hname (by simp [touched, heq])
    simp only [Op.run, secretGenerate] at h
    split at h <;> cases h <;> simp [Std.ExtTreeMap.getElem?_insert, hne]

lemma lookup_map_append {names : List String} {f : String → Option Entry}
    {acked : List (String × Option Entry)} {name : String} :
    ((names.map fun n => (n, f n)) ++ acked).lookup name =
      if name ∈ names then some (f name) else acked.lookup name := by
  induction names with
  | nil => simp
  | cons n names ih =>
    by_cases hn : name = n
    · subst hn
      simp
    · simp [List.lookup_cons, beq_false_of_ne hn, ih, hn]

lemma reflects_run {T : Totp.Packages} {now : ℕ} {op : Op} {b b' : Body} {r : Reply}
    {acked : List (String × Option Entry)} (h : op.run T now b = .ok (b', r))
    (hb : Reflects acked b) :
    Reflects ((touched op).map (fun name => (name, b'.entries[name]?)) ++ acked) b' := by
  intro name v hv
  rw [lookup_map_append] at hv
  by_cases hname : name ∈ touched op
  · rw [if_pos hname] at hv
    exact Option.some.inj hv
  · rw [if_neg hname] at hv
    rw [run_frame h hname]
    exact hb name v hv

/-! ### The sections -/

/-- The sections that write the vault file or replace the session. -/
def writes : Pc Key → Bool
  | .createWrite _ | .rotateWrite _ _ _ | .install _ _ | .access _ | .tickTake | .call .lock => true
  | _ => false

/-- What a thread knows of the session a rotation has written. -/
def Ready (L : Packages Key) : Pc Key → Prop
  | .install s (.rotate _ new) =>
    deriveKey L.toPrimitives (asBytes new) s.salt s.params = .ok s.key
  | .createWrite _ => False
  | _ => True

/-- What a section that does not write leaves behind. -/
structure Spared (L : Packages Key) (sh sh' : Shared Key) (p' : Pc Key) : Prop where
  fs : sh'.world.fs = sh.world.fs
  session : sh'.session = sh.session
  ready : Ready L p'

variable {env : Env} {expired : Bool} {t : ℕ} {origin : ℕ × ℕ} {sh sh' : Shared Key} {p p' : Pc Key}

lemma ready_of_plain (hp : p'.plain = true) : Ready L p' := by
  cases p' with
  | install | createWrite => cases hp
  | _ => trivial

lemma exec_spared (hp : writes p = false) (hex : fileExists sh.world.fs cfg.vaultPath = true)
    (h : p.exec L cfg env expired t origin sh = some (sh', p')) : Spared L sh sh' p' := by
  by_cases hc : ∃ c, p = .call c
  · obtain ⟨c, rfl⟩ := hc
    obtain ⟨hfs, hsession, hopened⟩ := begin_opened (fun hlock => by subst hlock; cases hp) h
    refine ⟨hfs, hsession, ?_⟩
    cases hopened with
    | plain hplain => exact ready_of_plain hplain
    | create habsent =>
      rw [hex] at habsent
      cases habsent
    | unlock | rotate => trivial
  · have hrests : p.rests = true := by
      cases p with
      | call c => exact absurd ⟨c, rfl⟩ hc
      | createWrite | rotateWrite | install | access | tickTake => cases hp
      | _ => rfl
    obtain ⟨hfs, hsession, hplain⟩ := exec_rests hrests h
    exact ⟨hfs, hsession, ready_of_plain hplain⟩

variable (cfg env) in
/-- The section under the lock of the session: a refused operation and a reading one change
nothing, and a mutation is in the session, and in the file unless the save is stopped. -/
lemma withSession_saves (hL : L.toLibrary.Ideal) (op : Op) (w : World Key) :
    let o := Server.withSession L cfg env false op w
    (o.world = w ∧ ((∃ e, o.reply = .error e) ∨ op.reads = true)) ∨
      ∃ s b r, w.inner.session = some s ∧ op.run L.totp env.now s.body = .ok (b, r) ∧
        op.reads = false ∧ o.world.inner.session = some { s with body := b } ∧
          (o.reply = .ok r ∧ Holds L.toLibrary o.world.fs cfg.vaultPath { s with body := b } ∨
            stops env.io cfg.vaultPath ∧ (∃ e, o.reply = .error e) ∧
              o.world.fs cfg.vaultPath = w.fs cfg.vaultPath) := by
  unfold Server.withSession
  cases hs : w.inner.session with
  | none => exact .inl ⟨rfl, .inl ⟨_, rfl⟩⟩
  | some s =>
    cases hrun : op.run L.totp env.now s.body with
    | error e =>
      simp only [hrun]
      exact .inl ⟨rfl, .inl ⟨e, rfl⟩⟩
    | ok br =>
      obtain ⟨b, r⟩ := br
      simp only [hrun]
      cases hop : op.reads with
      | true => exact .inl ⟨rfl, .inr rfl⟩
      | false =>
        right
        obtain ⟨out, hout⟩ := render_total hL { s with body := b } env.nonce
        rcases hw : write L.toLibrary env.io w.fs cfg.vaultPath { s with body := b } env.nonce
          with ⟨fs', res⟩
        simp only [Bool.false_eq_true, if_false, save, hw]
        refine ⟨s, b, r, rfl, hrun, trivial, ?_⟩
        cases res with
        | ok _ => exact ⟨rfl, .inl ⟨rfl, holds_of_write hL hw⟩⟩
        | error e =>
          have hfails := (write_fails_iff L.toLibrary env.io w.fs cfg.vaultPath
            { s with body := b } env.nonce).mp ⟨e, by rw [hw]⟩
          have hstops : stops env.io cfg.vaultPath := by
            rcases hfails with ⟨e', he'⟩ | hstops
            · rw [hout] at he'
              cases he'
            · exact hstops
          exact ⟨rfl, .inr ⟨hstops, ⟨e, rfl⟩, write_error hw⟩⟩

variable (cfg) in
lemma withSession_cases (hL : L.toLibrary.Ideal) (hio : env.io = .none) (op : Op) (w : World Key) :
    let o := Server.withSession L cfg env false op w
    (o.world = w ∧ ((∃ e, o.reply = .error e) ∨ op.reads = true)) ∨
      ∃ s b r, w.inner.session = some s ∧ op.run L.totp env.now s.body = .ok (b, r) ∧
        o.reply = .ok r ∧ o.world.inner.session = some { s with body := b } ∧
          Holds L.toLibrary o.world.fs cfg.vaultPath { s with body := b } := by
  rcases withSession_saves cfg env hL op w with hsame | ⟨s, b, r, hs, hrun, -, hs', hsaved⟩
  · exact .inl hsame
  · rcases hsaved with ⟨hr, hheld⟩ | ⟨hstops, -⟩
    · exact .inr ⟨s, b, r, hs, hrun, hr, hs', hheld⟩
    · rw [hio] at hstops
      exact absurd hstops (not_stops_none _)

/-! ### The invariant -/

/-- The file holds all that has been acknowledged and the session has the same map; after a
rotation it is sealed under the new password and the session is the one it holds. -/
structure Inv (L : Packages Key) (cfg : Config) (d : State Key) (g : Ledger) : Prop where
  file : ∃ f, Holds L.toLibrary d.shared.world.fs cfg.vaultPath f ∧ Reflects g.acked f.body ∧
    (∀ s, d.shared.session = some s → s.body = f.body) ∧
      ∀ old new, g.rotated = some (old, new) →
        deriveKey L.toPrimitives (asBytes new) f.salt f.params = .ok f.key ∧
          ∀ s, d.shared.session = some s → s = f
  threads : ∀ t, Ready L (d.pc t)

lemma ready_moved (h : Moved p p') (hp : Ready L p) : Ready L p' := by
  cases h with
  | same => exact hp
  | rouse | request | tick => trivial

lemma Inv.fileExists {d : State Key} {g : Ledger} (h : Inv L cfg d g) :
    fileExists d.shared.world.fs cfg.vaultPath = true := by
  obtain ⟨f, hf, -⟩ := h.file
  exact hf.fileExists

lemma Inv.kept {d : State Key} {g : Ledger} (h : Inv L cfg d g) : Kept L cfg d g := by
  obtain ⟨f, hf, hacked, hsession, -⟩ := h.file
  refine ⟨⟨f, hf, hacked⟩, fun s hs => ?_⟩
  rw [hsession s hs]
  exact hacked

lemma Inv.rotated (hL : L.toLibrary.Ideal) {d : State Key} {g : Ledger} (h : Inv L cfg d g) :
    Rotated L cfg d g := by
  intro old new hrot hne
  obtain ⟨f, hf, hacked, -, hkey⟩ := h.file
  obtain ⟨hnew, -⟩ := hkey old new hrot
  refine ⟨⟨f, unlock_eq_ok.mpr ⟨rfl, hnew, hf⟩⟩, ?_, f, hf, hacked⟩
  rintro ⟨s, hs⟩
  obtain ⟨-, hold, hs⟩ := unlock_eq_ok.mp hs
  obtain rfl := hf.unique hL hs
  exact hne (asBytes_injective (hL.crypto.deriveKey_inj hnew hold))

variable {d d' : State Key} {g : Ledger}

lemma ready_run (h : ∀ u, Ready L (d.pc u)) (hstep : step L cfg d (.run t env expired) = some d')
    (ht : Ready L (d'.pc t)) (u : ℕ) : Ready L (d'.pc u) := by
  obtain ⟨p, -, -, hothers⟩ := step_run hstep
  by_cases hu : u = t
  · rw [hu]
    exact ht
  · rw [hothers u hu]
    split
    · exact ready_moved (moved_rouse _) (h u)
    · exact h u

lemma update_spared (hp : writes (d.pc t) = false) :
    g.update d (.run t env expired) d' = g := by
  simp only [Ledger.update]
  split
  · rename_i hpc _
    rw [hpc] at hp
    cases hp
  · rename_i hpc _
    rw [hpc] at hp
    cases hp
  · rename_i hpc
    rw [hpc] at hp
    cases hp
  · rfl

lemma update_access {op : Op} {res : Except Err Reply} (hp : d.pc t = .access op)
    (hp' : d'.pc t = .respond res) (g : Ledger) (env : Env) (expired : Bool) :
    g.update d (.run t env expired) d' = g.ack op d'.shared.session res := by
  simp only [Ledger.update, hp, hp']

lemma ack_reads {op : Op} (hop : op.reads = true) (g : Ledger) (s : Option (Session Key))
    (res : Except Err Reply) : g.ack op s res = g := by
  have hnone : touched op = [] := by cases op <;> first | rfl | cases hop
  cases res with
  | error e => rfl
  | ok r => simp [Ledger.ack, hnone]

lemma Inv.file_congr (h : Inv L cfg d g) (hfs : d'.shared.world.fs = d.shared.world.fs)
    (hsession : ∀ s, d'.shared.session = some s → d.shared.session = some s) :
    ∃ f, Holds L.toLibrary d'.shared.world.fs cfg.vaultPath f ∧ Reflects g.acked f.body ∧
      (∀ s, d'.shared.session = some s → s.body = f.body) ∧
        ∀ old new, g.rotated = some (old, new) →
          deriveKey L.toPrimitives (asBytes new) f.salt f.params = .ok f.key ∧
            ∀ s, d'.shared.session = some s → s = f := by
  obtain ⟨f, hf, hacked, hbody, hrot⟩ := h.file
  refine ⟨f, hf.congr (by rw [hfs]), hacked, fun s hs => hbody s (hsession s hs), ?_⟩
  intro old new hon
  exact ⟨(hrot old new hon).1, fun s hs => (hrot old new hon).2 s (hsession s hs)⟩

lemma inv_spared (h : Inv L cfg d g) (hp : writes (d.pc t) = false)
    (hstep : step L cfg d (.run t env expired) = some d') :
    Inv L cfg d' (g.update d (.run t env expired) d') := by
  obtain ⟨p, hexec, hp', -⟩ := step_run hstep
  have hspared := exec_spared hp h.fileExists hexec
  rw [update_spared hp]
  refine ⟨h.file_congr hspared.fs fun s hs => by rw [← hspared.session, hs], ?_⟩
  exact ready_run h.threads hstep (hp' ▸ hspared.ready)

lemma inv_taken (h : Inv L cfg d g) (hp : d.pc t = .tickTake ∨ d.pc t = .call .lock)
    (hstep : step L cfg d (.run t env expired) = some d') :
    Inv L cfg d' (g.update d (.run t env expired) d') := by
  obtain ⟨p, hexec, hp', -⟩ := step_run hstep
  have hg : g.update d (.run t env expired) d' = g := by
    rcases hp with hp | hp <;> simp only [Ledger.update, hp]
  have hsh : d'.shared = d.shared.withSession none ∧ Ready L p := by
    rcases hp with hp | hp <;> rw [hp] at hexec <;>
      simp only [Pc.exec, begin, Option.some.injEq, Prod.mk.injEq] at hexec <;>
      obtain ⟨hsh, rfl⟩ := hexec <;> exact ⟨hsh.symm, by split <;> trivial⟩
  rw [hg]
  refine ⟨h.file_congr (by rw [hsh.1]; rfl) fun s hs => ?_, ready_run h.threads hstep ?_⟩
  · rw [hsh.1] at hs
    cases hs
  · rw [hp']
    exact hsh.2

/-- Installing what the file holds. -/
lemma inv_install (hL : L.toLibrary.Ideal) (h : Inv L cfg d g) {s : Session Key} {k : Installer}
    (hp : d.pc t = .install s k) (hstep : step L cfg d (.run t env expired) = some d')
    (hguard : Holds L.toLibrary d.shared.world.fs cfg.vaultPath s) :
    Inv L cfg d' (g.update d (.run t env expired) d') := by
  obtain ⟨p, hexec, hp', -⟩ := step_run hstep
  have hready := h.threads t
  rw [hp] at hexec hready
  simp only [Pc.exec, Option.some.injEq, Prod.mk.injEq] at hexec
  obtain ⟨hsh, rfl⟩ := hexec
  obtain ⟨f, hf, hacked, hbody, hrot⟩ := h.file
  obtain rfl := hf.unique hL hguard
  have hsession : ∀ u, d'.shared.session = some u → u = s := by
    intro u hu
    rw [← hsh] at hu
    exact (Option.some.inj hu).symm
  have hheld : Holds L.toLibrary d'.shared.world.fs cfg.vaultPath s := by
    rw [← hsh]
    exact hguard
  refine ⟨⟨s, hheld, ?_, fun u hu => by rw [hsession u hu], fun old new hon => ?_⟩, ?_⟩
  · cases k <;> simpa only [Ledger.update, hp, hp'] using hacked
  · refine ⟨?_, hsession⟩
    cases k with
    | create pw | unlock pw =>
      simp only [Ledger.update, hp, hp'] at hon
      exact (hrot old new hon).1
    | rotate old' new' =>
      simp only [Ledger.update, hp, hp', Option.some.injEq, Prod.mk.injEq] at hon
      rw [← hon.2]
      exact hready
  · refine ready_run h.threads hstep ?_
    rw [hp']
    trivial

/-- Writing a rotation of what the file holds. -/
lemma inv_rotateWrite (hL : L.toLibrary.Ideal) (h : Inv L cfg d g) {current : Session Key}
    {old new : String} (hp : d.pc t = .rotateWrite current old new)
    (hstep : step L cfg d (.run t env expired) = some d') (hio : env.io = .none)
    (hguard : Holds L.toLibrary d.shared.world.fs cfg.vaultPath current) :
    Inv L cfg d' (g.update d (.run t env expired) d') := by
  obtain ⟨p, hexec, hp', -⟩ := step_run hstep
  rw [hp] at hexec
  simp only [Pc.exec, rotateRead, hio, Option.some.injEq] at hexec
  obtain ⟨f, hf, hacked, hbody, -⟩ := h.file
  obtain rfl := hf.unique hL hguard
  cases hkey : deriveKey L.toPrimitives (asBytes new) env.salt cfg.kdf with
  | error e =>
    simp only [hkey, afterWrite, Prod.mk.injEq] at hexec
    obtain ⟨hsh, rfl⟩ := hexec
    have hg : g.update d (.run t env expired) d' = g := by simp only [Ledger.update, hp, hp']
    rw [hg]
    refine ⟨h.file_congr (by rw [← hsh]; rfl) fun s hs => ?_, ready_run h.threads hstep ?_⟩
    · rw [← hsh] at hs
      exact hs
    · rw [hp']
      trivial
  | ok key =>
    obtain ⟨fs', hw⟩ := write_none hL d.shared.world.fs cfg.vaultPath
      ⟨⟨current.body.entries⟩, key, env.salt, cfg.kdf⟩ env.nonce
    simp only [hkey, writeNew, hw, Except.map, afterWrite, Prod.mk.injEq] at hexec
    obtain ⟨hsh, rfl⟩ := hexec
    have hg : g.update d (.run t env expired) d' = { g with rotated := none } := by
      simp only [Ledger.update, hp, hp']
    rw [hg]
    refine ⟨⟨⟨⟨current.body.entries⟩, key, env.salt, cfg.kdf⟩, ?_, hacked, fun s hs => ?_, ?_⟩, ?_⟩
    · rw [← hsh]
      exact holds_of_write hL hw
    · rw [← hsh] at hs
      exact hbody s hs
    · intro _ _ hon
      cases hon
    · refine ready_run h.threads hstep ?_
      rw [hp']
      exact hkey

/-- A mutation of the session that is in step with the file. -/
lemma inv_access (hL : L.toLibrary.Ideal) (h : Inv L cfg d g) {op : Op}
    (hp : d.pc t = .access op) (hstep : step L cfg d (.run t env expired) = some d')
    (hio : env.io = .none) : Inv L cfg d' (g.update d (.run t env expired) d') := by
  obtain ⟨p, hexec, hp', -⟩ := step_run hstep
  rw [hp] at hexec
  simp only [Pc.exec, Option.some.injEq, Prod.mk.injEq] at hexec
  obtain ⟨hsh, rfl⟩ := hexec
  have hready : Ready L (d'.pc t) := by
    rw [hp']
    trivial
  have hg := update_access hp hp' g env expired
  rcases withSession_cases cfg hL hio op d.shared.world with
    ⟨hw, hsame⟩ | ⟨s, b, r, hs, hrun, hr, hs', hf'⟩
  · -- A refusal or a read leaves the file and the session, and acknowledges nothing.
    have hg' : g.update d (.run t env expired) d' = g := by
      rw [hg]
      rcases hsame with ⟨e, he⟩ | hop
      · rw [he]
        rfl
      · exact ack_reads hop g _ _
    rw [hg']
    refine ⟨h.file_congr (by rw [← hsh, hw]) fun u hu => ?_, ready_run h.threads hstep hready⟩
    rw [← hsh, Shared.session, hw] at hu
    exact hu
  · -- A mutation: the session that is in step with the file is the one that is saved.
    obtain ⟨f, hf, hacked, hbody, hrot⟩ := h.file
    have hsession : d'.shared.session = some { s with body := b } := by
      rw [← hsh]
      exact hs'
    rw [hr, hsession] at hg
    rw [hg]
    refine ⟨⟨{ s with body := b }, ?_, ?_, fun u hu => ?_, fun old new hon => ⟨?_, fun u hu => ?_⟩⟩,
      ready_run h.threads hstep hready⟩
    · rw [← hsh]
      exact hf'
    · refine reflects_run hrun ?_
      rw [hbody s hs]
      exact hacked
    · rw [hsession] at hu
      rw [← Option.some.inj hu]
    · obtain ⟨hkey, heq⟩ := hrot old new hon
      rwa [heq s hs]
    · rw [hsession] at hu
      exact (Option.some.inj hu).symm

theorem inv_step (hL : L.toLibrary.Ideal) {a : Action} (h : Inv L cfg d g)
    (hio : a.faultless)
    (hguard : Undisturbed L cfg d a) (hstep : step L cfg d a = some d') :
    Inv L cfg d' (g.update d a d') := by
  by_cases ha : ∃ t env expired, a = .run t env expired
  · obtain ⟨t, env, expired, rfl⟩ := ha
    cases hw : writes (d.pc t) with
    | false => exact inv_spared h hw hstep
    | true =>
      simp only [Undisturbed] at hguard
      cases hp : d.pc t with
      | createWrite pw =>
        have hready := h.threads t
        rw [hp] at hready
        exact absurd hready (fun hf => hf)
      | rotateWrite current old new =>
        rw [hp] at hguard
        exact inv_rotateWrite hL h hp hstep hio hguard
      | install s k =>
        rw [hp] at hguard
        exact inv_install hL h hp hstep hguard
      | access op => exact inv_access hL h hp hstep hio
      | tickTake => exact inv_taken h (.inl hp) hstep
      | call c =>
        rw [hp] at hw
        cases c with
        | lock => exact inv_taken h (.inr hp) hstep
        | _ => cases hw
      | _ =>
        rw [hp] at hw
        cases hw
  · have hq := step_quiet hstep fun t env expired heq => ha ⟨t, env, expired, heq⟩
    have hg : g.update d a d' = g := by
      cases a with
      | run t env expired => exact absurd ⟨t, env, expired, rfl⟩ ha
      | _ => rfl
    rw [hg]
    refine ⟨h.file_congr (by rw [hq.world]) fun s hs => ?_,
      fun u => ready_moved (hq.moved u) (h.threads u)⟩
    rw [Shared.session, hq.world] at hs
    exact hs

lemma inv_start {fs : FileSystem} {clock : ℕ} {f : Session Key}
    (hf : Holds L.toLibrary fs cfg.vaultPath f) :
    Inv L cfg (start Key fs clock) .empty where
  file := by
    refine ⟨f, hf, ?_, ?_, ?_⟩
    · intro name v hv
      cases hv
    · intro s hs
      cases hs
    · intro old new hon
      cases hon
  threads _ := trivial

theorem inv_run (hL : L.toLibrary.Ideal) {fs : FileSystem} {clock : ℕ} {f : Session Key}
    (hf : Holds L.toLibrary fs cfg.vaultPath f) {as : List Action} {d : State Key}
    (hio : ∀ a ∈ as, a.faultless)
    (hguard : Along (step L cfg) (Undisturbed L cfg) (start Key fs clock) as)
    (hrun : run (step L cfg) (start Key fs clock) as = some d) :
    Inv L cfg d (history (step L cfg) Ledger.update .empty (start Key fs clock) as) := by
  have hboth := (along_of_forall fun a ha (_ : State Key) => hio a ha).and hguard
  refine run_history_inv (fun s g a u h hG hstep => ?_) (inv_start hf) hboth hrun
  exact inv_step hL h hG.1 hG.2 hstep

/-! ### Unlocking -/

/-- Unlock never loses an acknowledged write. -/
def UnlockKeepsWrites : Prop :=
  ∀ (Key : Type) (L : Packages Key) (cfg : Config) (fs : FileSystem) (clock : ℕ)
    (f : Session Key) (as : List Action) (d : State Key), L.toLibrary.Ideal →
    Holds L.toLibrary fs cfg.vaultPath f →
    (∀ a ∈ as, a.faultless ∧ a.only ("vault.unlock" :: mutators)) →
    run (step L cfg) (start Key fs clock) as = some d →
    Kept L cfg d (history (step L cfg) Ledger.update .empty (start Key fs clock) as)

/-- In a run that installs what the file holds nothing acknowledged is lost. -/
theorem kept_of_undisturbed (L : Packages Key) (hL : L.toLibrary.Ideal) (cfg : Config)
    (fs : FileSystem) (clock : ℕ) (f : Session Key)
    (hf : Holds L.toLibrary fs cfg.vaultPath f) (as : List Action) (d : State Key)
    (hio : ∀ a ∈ as, a.faultless)
    (hguard : Along (step L cfg) (Undisturbed L cfg) (start Key fs clock) as)
    (hrun : run (step L cfg) (start Key fs clock) as = some d) :
    Kept L cfg d (history (step L cfg) Ledger.update .empty (start Key fs clock) as) :=
  (inv_run hL hf hio hguard hrun).kept

/-- An unlock and a set after it, served one after the other. -/
def unlockThenSet (t : ℕ) : List Action :=
  Sample.served t "vault.unlock" [("password", .str "pw")] 8 ++
    Sample.served (t + 1) "secret.set" [("name", .str "a"), ("value", .str "x")] 4

/-- An unlock reads the file, another is served with a set after it, and then the first
installs what it read. -/
def staleUnlock : List Action :=
  .connect :: (Sample.served 0 "vault.unlock" [("password", .str "pw")] 2 ++
    (unlockThenSet 1 ++ Sample.turns 0 1))

theorem not_unlockKeepsWrites : ¬ UnlockKeepsWrites := by
  intro h
  have hserved : ((run Sample.step Sample.started staleUnlock).map fun d =>
      d.shared.session.map fun s => s.body.entries["a"]?) = some (some none) := by
    decide +kernel
  have hacked : (history Sample.step Ledger.update .empty Sample.started staleUnlock).acked
      = [("a", some (newEntry "x" 7))] := by
    decide +kernel
  have hrequests : ∀ a ∈ staleUnlock, Sample.Plain ("vault.unlock" :: mutators) a := by
    simp only [staleUnlock, unlockThenSet, List.forall_mem_cons, List.forall_mem_append]
    exact ⟨⟨trivial, trivial⟩, Sample.plain_served (by decide) _ _ _,
      ⟨Sample.plain_served (by decide) _ _ _, Sample.plain_served (by decide) _ _ _⟩,
      Sample.plain_turns _ _⟩
  obtain ⟨d, hrun, hd⟩ := Option.map_eq_some_iff.mp hserved
  obtain ⟨s, hs, hsa⟩ := Option.map_eq_some_iff.mp hd
  have hkept := h Sample.Key Sample.packages Sample.config _ 0 Sample.session staleUnlock d
    Sample.library_ideal Sample.created_holds hrequests hrun
  have hlost := hkept.2 s hs "a" (some (newEntry "x" 7)) (by rw [hacked]; rfl)
  rw [hsa] at hlost
  cases hlost

theorem kept_of_unlockThenSet : ∃ d,
    run Sample.step Sample.started (.connect :: unlockThenSet 1) = some d ∧
      Kept Sample.packages Sample.config d
        (history Sample.step Ledger.update .empty Sample.started
          (.connect :: unlockThenSet 1)) := by
  obtain ⟨d, hrun⟩ : ∃ d, run Sample.step Sample.started (.connect :: unlockThenSet 1) = some d :=
    Option.isSome_iff_exists.mp (by decide +kernel)
  refine ⟨d, hrun, kept_of_undisturbed Sample.packages Sample.library_ideal Sample.config _ 0
    Sample.session Sample.created_holds _ d ?_ (by decide +kernel) hrun⟩
  simp only [unlockThenSet, List.forall_mem_cons, List.forall_mem_append]
  exact ⟨trivial, fun a ha => (Sample.plain_served (List.mem_singleton_self _) _ _ _ a ha).1,
    fun a ha => (Sample.plain_served (List.mem_singleton_self _) _ _ _ a ha).1⟩

/-! ### Rotation -/

/-- A rotation is permanent and keeps the entries. -/
def RotationIsPermanent : Prop :=
  ∀ (Key : Type) (L : Packages Key) (cfg : Config) (fs : FileSystem) (clock : ℕ)
    (f : Session Key) (as : List Action) (d : State Key), L.toLibrary.Ideal →
    Holds L.toLibrary fs cfg.vaultPath f →
    (∀ a ∈ as, a.faultless ∧ a.only ("vault.unlock" :: "vault.rotate" :: mutators)) →
    run (step L cfg) (start Key fs clock) as = some d →
    Rotated L cfg d (history (step L cfg) Ledger.update .empty (start Key fs clock) as)

theorem rotated_of_undisturbed (L : Packages Key) (hL : L.toLibrary.Ideal) (cfg : Config)
    (fs : FileSystem) (clock : ℕ) (f : Session Key)
    (hf : Holds L.toLibrary fs cfg.vaultPath f) (as : List Action) (d : State Key)
    (hio : ∀ a ∈ as, a.faultless)
    (hguard : Along (step L cfg) (Undisturbed L cfg) (start Key fs clock) as)
    (hrun : run (step L cfg) (start Key fs clock) as = some d) :
    Rotated L cfg d (history (step L cfg) Ledger.update .empty (start Key fs clock) as) :=
  (inv_run hL hf hio hguard hrun).rotated hL

/-- A set is saved under the old password between the write of a rotation and the installation
of its session. -/
def overtakenRotation : List Action :=
  .connect :: (Sample.served 0 "vault.unlock" [("password", .str "pw")] 8 ++
    (Sample.served 1 "vault.rotate" [("old_password", .str "pw"), ("new_password", .str "new")] 3 ++
      (Sample.served 2 "secret.set" [("name", .str "a"), ("value", .str "x")] 4 ++
        Sample.turns 1 5)))

theorem not_rotationIsPermanent : ¬ RotationIsPermanent := by
  intro h
  have hopens : ((run Sample.step Sample.started overtakenRotation).map fun d =>
      (Vault.unlock Sample.packages.toLibrary .none d.shared.world.fs Sample.config.vaultPath
        (asBytes "new")).isOk) = some false := by
    decide +kernel
  have hrotated :
      (history Sample.step Ledger.update .empty Sample.started overtakenRotation).rotated
      = some ("pw", "new") := by
    decide +kernel
  have hrequests : ∀ a ∈ overtakenRotation,
      Sample.Plain ("vault.unlock" :: "vault.rotate" :: mutators) a := by
    simp only [overtakenRotation, List.forall_mem_cons, List.forall_mem_append]
    exact ⟨⟨trivial, trivial⟩, Sample.plain_served (by decide) _ _ _,
      Sample.plain_served (by decide) _ _ _, Sample.plain_served (by decide) _ _ _,
      Sample.plain_turns _ _⟩
  obtain ⟨d, hrun, hd⟩ := Option.map_eq_some_iff.mp hopens
  obtain ⟨⟨s, hs⟩, -⟩ := h Sample.Key Sample.packages Sample.config _ 0 Sample.session
    overtakenRotation d Sample.library_ideal Sample.created_holds hrequests hrun "pw" "new"
    hrotated (by decide)
  rw [hs] at hd
  cases hd

/-- A rotation served alone, with a set before and after it. -/
def rotateBetweenSets : List Action :=
  .connect :: (unlockThenSet 1 ++
    (Sample.served 0 "vault.rotate" [("old_password", .str "pw"), ("new_password", .str "new")] 8 ++
      Sample.served 0 "secret.delete" [("name", .str "a")] 4))

theorem rotated_of_rotateBetweenSets : ∃ d,
    run Sample.step Sample.started rotateBetweenSets = some d ∧
      Rotated Sample.packages Sample.config d
        (history Sample.step Ledger.update .empty Sample.started rotateBetweenSets) := by
  obtain ⟨d, hrun⟩ : ∃ d, run Sample.step Sample.started rotateBetweenSets = some d :=
    Option.isSome_iff_exists.mp (by decide +kernel)
  refine ⟨d, hrun, rotated_of_undisturbed Sample.packages Sample.library_ideal Sample.config _ 0
    Sample.session Sample.created_holds _ d ?_ (by decide +kernel) hrun⟩
  have hserved (t n : ℕ) (method : String) (params : List (String × Json)) :
      ∀ a ∈ Sample.served t method params n, a.faultless := fun a ha =>
    (Sample.plain_served (List.mem_singleton_self method) t n params a ha).1
  simp only [rotateBetweenSets, unlockThenSet, List.forall_mem_cons, List.forall_mem_append]
  exact ⟨trivial, ⟨hserved _ _ _ _, hserved _ _ _ _⟩, hserved _ _ _ _, hserved _ _ _ _⟩

end LvimKeyring.SaveRaces
