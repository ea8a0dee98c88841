import LvimKeyring.WalletRefines

/-!
The copy that a write keeps of the vault file it replaces.

Beside the vault file there is always the one before the last write. It opens under the password
of that time, and a daemon that is started on it goes on as the store would from the state before
the write: the copy is one step of undo.
-/

namespace LvimKeyring.Backup

open Rpc Crypto Vault Server Wallet WalletRefines OrderedMap Machine

variable {Key : Type}

/-! ### A store with one step of undo -/

/-- A store, and the store that its last write replaced. -/
structure Undo where
  now : Store
  before : Option Store

/-- Whether a call writes the vault file, when it succeeds. -/
def callWrites : Call → Bool
  | .create _ | .rotate _ _ => true
  | .session _ op => !op.reads
  | _ => false

def writes (random : ℕ → UInt8) (method : String) (params : Json) : Bool :=
  match prepare random method params with
  | .ok c => callWrites c
  | .error _ => false

/-- Whether what has happened has written the vault file. -/
def wrote : Event → Option (Except Err Reply) → Bool
  | .request env method params, some (.ok _) => writes env.random method params
  | _, _ => false

/-- Where there was a vault, a write keeps it. -/
def Undo.next (u : Undo) (written : Bool) (a : Store) : Undo :=
  ⟨a, if written && u.now.password.isSome then some u.now else u.before⟩

def undo (L : Packages Key) (d : Settings × Undo) (ev : Event) :
    (Settings × Undo) × Option (Except Err Reply) :=
  let r := store L (d.1, d.2.now) ev
  ((r.1.1, d.2.next (wrote ev r.2) r.1.2), r.2)

/-- The copy is put in the place of the vault file. -/
def restore (path : String) (fs : FileSystem) : FileSystem :=
  Function.update fs path (fs (bakPath path))

/-! ### What a write leaves in the copy -/

variable {L : Packages Key} {cfg : Config} {env : Env} {w : World Key} {a : Store}
variable {fs : FileSystem} {path : String}

lemma bakPath_ne_tmpPath (path : String) : bakPath path ≠ tmpPath path := by
  intro h
  have htext := congrArg String.toList h
  simp [bakPath, tmpPath] at htext

lemma store_bak (fs : FileSystem) (path : String) (out : Bytes) :
    (Vault.store .none fs path out).2 = .ok () ∧
      (Vault.store .none fs path out).1 (bakPath path) =
        if (fs path).isSome then fs path else fs (bakPath path) := by
  have hbak := bakPath_ne_tmpPath path
  have hwritten : Function.update fs (tmpPath path) (some out) path = fs path :=
    Function.update_of_ne (ne_tmpPath path) _ _
  unfold Vault.store
  simp only [Faults.none, ite_self, hwritten, true_and]
  rw [Function.update_of_ne hbak, Function.update_of_ne (ne_bakPath path).symm]
  cases fs path with
  | none => exact Function.update_of_ne hbak _ _
  | some old => exact Function.update_self _ _ _

/-- What a call without faults leaves in the copy. -/
def Copied (path : String) (fs : FileSystem) (written : Bool) (fs' : FileSystem) : Prop :=
  fs' (bakPath path) = if written && (fs path).isSome then fs path else fs (bakPath path)

lemma copied_refused (path : String) (fs : FileSystem) : Copied path fs false fs := rfl

lemma write_copied (L : Packages Key) (fs : FileSystem) (path : String) (s : Session Key)
    (nonce : Nonce) :
    Copied path fs (write L.toLibrary .none fs path s nonce).2.isOk
      (write L.toLibrary .none fs path s nonce).1 := by
  unfold Copied write
  cases render L.toLibrary s nonce with
  | error e => rfl
  | ok out =>
    obtain ⟨hok, hbak⟩ := store_bak fs path out
    simp only [hok, hbak, Except.isOk, Except.toBool, Bool.true_and]

lemma writeNew_copied (L : Packages Key) (fs : FileSystem) (path : String) (s : Session Key)
    (nonce : Nonce) :
    Copied path fs (writeNew L.toLibrary .none fs path s nonce).2.isOk
      (writeNew L.toLibrary .none fs path s nonce).1 := by
  have h := write_copied L fs path s nonce
  unfold writeNew
  rcases hw : write L.toLibrary .none fs path s nonce with ⟨fs', e | u⟩ <;> rw [hw] at h <;> exact h

lemma create_copied (hio : env.io = .none) (password : String) (w : World Key) :
    let o := Server.create L cfg env password w
    Copied cfg.vaultPath w.fs o.reply.isOk o.world.fs := by
  have hcreate : Copied cfg.vaultPath w.fs
      (Vault.create L.toLibrary .none w.fs cfg.vaultPath (asBytes password) cfg.kdf env.salt
        env.nonce).2.isOk
      (Vault.create L.toLibrary .none w.fs cfg.vaultPath (asBytes password) cfg.kdf env.salt
        env.nonce).1 := by
    unfold Vault.create createAbsent
    split
    · exact copied_refused _ _
    · split
      · exact copied_refused _ _
      · exact writeNew_copied _ _ _ _ _
  unfold Server.create
  rw [hio]
  split <;> rename_i hres <;> rw [hres] at hcreate <;> exact hcreate

lemma rotate_copied (hio : env.io = .none) (old new : String) (w : World Key) :
    let o := Server.rotate L cfg env old new w
    Copied cfg.vaultPath w.fs o.reply.isOk o.world.fs := by
  have hrotate : Copied cfg.vaultPath w.fs
      (Vault.rotate L.toLibrary .none w.fs cfg.vaultPath (asBytes old) (asBytes new) cfg.kdf
        env.salt env.nonce).2.isOk
      (Vault.rotate L.toLibrary .none w.fs cfg.vaultPath (asBytes old) (asBytes new) cfg.kdf
        env.salt env.nonce).1 := by
    unfold Vault.rotate rotateRead
    split
    · exact copied_refused _ _
    · split
      · exact copied_refused _ _
      · exact writeNew_copied _ _ _ _ _
  unfold Server.rotate
  rw [hio]
  split <;> rename_i hres <;> rw [hres] at hrotate <;> exact hrotate

lemma session_copied (hio : env.io = .none) (wait : Bool) (op : Op) (w : World Key) :
    let o := withSession L cfg env wait op w
    Copied cfg.vaultPath w.fs (!op.reads && o.reply.isOk) o.world.fs := by
  unfold withSession
  rw [hio]
  split
  · simp only [Except.isOk, Except.toBool, Bool.and_false]
    exact copied_refused _ _
  · rename_i s hs
    split
    · simp only [Outcome.of, Except.isOk, Except.toBool, Bool.and_false]
      exact copied_refused _ _
    · rename_i body r hrun
      cases hop : op.reads with
      | true => exact copied_refused _ _
      | false =>
        have hsave := write_copied L w.fs cfg.vaultPath { s with body } env.nonce
        simp only [Bool.false_eq_true, if_false, Bool.not_false, Bool.true_and, save]
        split <;> rename_i hres <;> rw [hres] at hsave <;> exact hsave

variable (L cfg) in
lemma exec_copied (hio : env.io = .none) (c : Call) (w : World Key) :
    let o := exec L cfg env w c
    Copied cfg.vaultPath w.fs (callWrites c && o.reply.isOk) o.world.fs := by
  cases c with
  | create password => exact create_copied hio password w
  | rotate old new => exact rotate_copied hio old new w
  | session wait op => exact session_copied hio wait op w
  | unlock password =>
    simp only [exec, Server.unlock]
    split <;> exact copied_refused _ _
  | hello | status | lock | unlockCancel | bare => exact copied_refused _ _

/-! ### What the copy holds -/

lemma holds_moved {fs' : FileSystem} {path' : String} {s : Session Key}
    (h : Holds L.toLibrary fs path s) (hfs : fs' path' = fs path) :
    Holds L.toLibrary fs' path' s := by
  obtain ⟨raw, header, ct, hraw, hparse, hopen⟩ := holds_iff.mp h
  exact holds_iff.mpr ⟨raw, header, ct, hfs.trans hraw, hparse, hopen⟩

/-- The configuration with another vault path. -/
def placed (cfg : Config) (path : String) : Config := { cfg with vaultPath := path }

/-- A file holds the secrets of a store, under its password. -/
def Sealed (L : Packages Key) (cfg : Config) (fs : FileSystem) (b : Store) : Prop :=
  ∃ pw s, b.password = some pw ∧ Keeps L cfg fs pw b.secrets s

lemma Sealed.moved {cfg' : Config} {fs' : FileSystem} {path path' : String} {b : Store}
    (h : Sealed L (placed cfg path) fs b) (hfs : fs' path' = fs path) :
    Sealed L (placed cfg' path') fs' b := by
  obtain ⟨pw, s, hpw, hk⟩ := h
  exact ⟨pw, s, hpw, holds_moved hk.holds hfs, hk.derives, hk.agrees⟩

lemma sealed_of_represents (h : Represents L cfg w a) (ha : a.password.isSome = true) :
    Sealed L (placed cfg cfg.vaultPath) w.fs a := by
  obtain ⟨pw, hpw⟩ := Option.isSome_iff_exists.mp ha
  obtain ⟨s, hk, -⟩ := h.sealed pw hpw
  exact ⟨pw, s, hpw, hk.holds, hk.derives, hk.agrees⟩

/-- The daemon represents the store, and the copy holds what the store was. -/
structure Follows (L : Packages Key) (path : String) (d : Config × World Key)
    (e : Settings × Undo) : Prop where
  same : d.1.vaultPath = path
  related : Related L d (e.1, e.2.now)
  copy : ∀ b, e.2.before = some b → Sealed L (placed d.1 (bakPath path)) d.2.fs b

lemma follows_copied {u : Undo} {fs' : FileSystem} (written : Bool)
    (hrep : Represents L cfg w u.now)
    (hcopy : ∀ b, u.before = some b → Sealed L (placed cfg (bakPath cfg.vaultPath)) w.fs b)
    (h : Copied cfg.vaultPath w.fs written fs') (a' : Store) :
    ∀ b, (u.next written a').before = some b →
      Sealed L (placed cfg (bakPath cfg.vaultPath)) fs' b := by
  intro b hb
  have hfile : (w.fs cfg.vaultPath).isSome = u.now.password.isSome := hrep.isSome_password
  unfold Copied at h
  rw [hfile] at h
  unfold Undo.next at hb
  cases hw : written && u.now.password.isSome with
  | true =>
    rw [hw] at hb h
    obtain rfl := Option.some.inj hb
    obtain ⟨-, hsome⟩ := Bool.and_eq_true_iff.mp hw
    exact (sealed_of_represents hrep hsome).moved h
  | false =>
    rw [hw] at hb h
    exact (hcopy b hb).moved h

variable (L cfg) in
lemma dispatch_copied (hio : env.io = .none) (w : World Key) (method : String) (params : Json) :
    let o := dispatch L cfg env w method params
    Copied cfg.vaultPath w.fs (wrote (.request env method params) (some o.reply)) o.world.fs := by
  have htouch : (if touches method then touch env w else w).fs = w.fs := by
    split <;> rfl
  cases hp : prepare env.random method params with
  | error e =>
    simp only [dispatch, hp, Outcome.of]
    rw [htouch]
    exact copied_refused _ _
  | ok c =>
    have hexec := exec_copied L cfg hio c (if touches method then touch env w else w)
    rw [htouch] at hexec
    simp only [dispatch, hp] at hexec ⊢
    cases hr : (exec L cfg env (if touches method then touch env w else w) c).reply with
    | ok r =>
      rw [hr] at hexec
      simpa [wrote, writes, hp, Except.isOk, Except.toBool] using hexec
    | error e =>
      rw [hr] at hexec
      simpa [wrote, Except.isOk, Except.toBool] using hexec

lemma tick_fs (cfg : Config) (clock : ℕ) (w : World Key) :
    (autolockTick cfg clock w).1.fs = w.fs := by
  unfold autolockTick
  split
  · rfl
  · simp only
    split <;> rfl

lemma follows_step (hL : L.toLibrary.Ideal) {path : String} (d : Config × World Key)
    (e : Settings × Undo) (ev : Event) (h : Follows L path d e) (hev : ev.faultless) :
    Follows L path (agent L d ev).1 (undo L e ev).1 := by
  obtain ⟨hrel, hans⟩ := related_step hL d (e.1, e.2.now) ev h.related hev
  obtain ⟨cfg, w⟩ := d
  obtain ⟨rfl, hrelated, hcopy⟩ := h
  cases ev with
  | request env method params =>
    refine ⟨rfl, hrel, ?_⟩
    have hcopied := dispatch_copied L cfg hev w method params
    simp only [undo, ← hans]
    exact follows_copied _ hrelated.2 hcopy hcopied _
  | tick clock =>
    have hfs : (autolockTick cfg clock w).1.fs = w.fs := tick_fs cfg clock w
    have hcopied : Copied cfg.vaultPath w.fs false (autolockTick cfg clock w).1.fs := by
      rw [hfs]
      exact copied_refused _ _
    exact ⟨rfl, hrel, follows_copied false hrelated.2 hcopy hcopied _⟩
  | restart kdf lockTimeout linger persist clock =>
    refine ⟨rfl, hrel, fun b hb => ?_⟩
    exact (hcopy b (by simpa [undo, Undo.next, wrote] using hb)).moved rfl

/-- Put in the place of the vault file, the copy is the vault before its last write: a daemon
started on it answers as the store does from there. -/
theorem restored_answers (L : Packages Key) (hL : L.toLibrary.Ideal) (cfg : Config)
    (fs : FileSystem) (clock : ℕ) (hfs : fs cfg.vaultPath = none) (events : List Event)
    (hev : ∀ ev ∈ events, ev.faultless) (b : Store)
    (hb : (final (undo L) (settings L cfg, ⟨Store.new clock, none⟩) events).2.before = some b)
    (kdf : KdfParams) (lockTimeout linger : ℕ) (persist : Bool) (clock' : ℕ) (later : List Event)
    (hlater : ∀ ev ∈ later, ev.faultless) :
    let d := final (agent L) (cfg, ⟨fs, Inner.new Key clock⟩) events
    let cfg' : Config := ⟨cfg.vaultPath, kdf, lockTimeout, linger, persist⟩
    answers (agent L) (cfg', ⟨restore cfg.vaultPath d.2.fs, Inner.new Key clock'⟩) later =
      answers (store L) (settings L cfg', b.restart clock') later := by
  intro d cfg'
  have hstart : Follows L cfg.vaultPath (cfg, ⟨fs, Inner.new Key clock⟩)
      (settings L cfg, ⟨Store.new clock, none⟩) :=
    ⟨rfl, ⟨rfl, rfl, rfl, fun _ => ⟨hfs, rfl⟩, fun pw hp => by cases hp⟩, fun b hb => by cases hb⟩
  have hend : Follows L cfg.vaultPath d
      (final (undo L) (settings L cfg, ⟨Store.new clock, none⟩) events) :=
    final_related (follows_step hL) hstart hev
  obtain ⟨pw, s, hpw, hk⟩ := hend.copy b hb
  have hholds : Holds L.toLibrary (restore cfg.vaultPath d.2.fs) cfg.vaultPath s :=
    holds_moved hk.holds (Function.update_self _ _ _)
  have hrestored : Related L (cfg', ⟨restore cfg.vaultPath d.2.fs, Inner.new Key clock'⟩)
      (settings L cfg', b.restart clock') := by
    refine ⟨rfl, rfl, rfl, fun hnone => ?_, fun pw' hpw' => ?_⟩
    · rw [Store.restart, hpw] at hnone
      cases hnone
    · rw [Store.restart, hpw] at hpw'
      obtain rfl := Option.some.inj hpw'
      exact ⟨s, ⟨hholds, hk.derives, hk.agrees⟩, fun t ht => by cases ht⟩
  exact answers_eq (related_step hL) hrestored hlater

/-- What is asked of a daemon started on the copy that the last write of `reopened` left. -/
def undone : List Event :=
  let request (method : String) (params : List (String × Json)) : Event :=
    .request Sample.env method (.obj params)
  [request "vault.unlock" [("password", .str "pw")], request "secret.list" [],
    request "secret.get" [("name", .str "a")]]

theorem restored_answers_reopened : ∃ b,
    (final (undo Sample.packages) (settings Sample.packages Sample.config, ⟨Store.new 0, none⟩)
      reopened).2.before = some b ∧
    answers (agent Sample.packages) (Sample.config,
        ⟨restore Sample.config.vaultPath (final (agent Sample.packages)
          (Sample.config, ⟨fun _ => none, Inner.new Sample.Key 0⟩) reopened).2.fs,
          Inner.new Sample.Key 0⟩) undone =
      answers (store Sample.packages) (settings Sample.packages Sample.config, b.restart 0)
        undone := by
  obtain ⟨b, hb⟩ : ∃ b, (final (undo Sample.packages)
      (settings Sample.packages Sample.config, ⟨Store.new 0, none⟩) reopened).2.before = some b :=
    Option.isSome_iff_exists.mp (by decide +kernel)
  exact ⟨b, hb, restored_answers Sample.packages Sample.library_ideal Sample.config _ 0 rfl reopened
    (by simp [reopened, Event.faultless, Sample.env]) b hb _ _ _ _ 0 undone
    (by simp [undone, Event.faultless, Sample.env])⟩

example : answers (agent Sample.packages) (Sample.config,
    ⟨restore Sample.config.vaultPath (final (agent Sample.packages)
      (Sample.config, ⟨fun _ => none, Inner.new Sample.Key 0⟩) reopened).2.fs,
      Inner.new Sample.Key 0⟩) undone =
    [some (.ok (.listing [])), some (.ok (.listing [])), some (.error (.noSecret "a"))] := by
  decide +kernel

end LvimKeyring.Backup
