import LvimKeyring.Lib.Machine
import LvimKeyring.Sample
import LvimKeyring.Wallet

/-!
The daemon, handling requests one after another, answers as the store does.

The relation between the two says what the vault file holds: the store's map, under a key
that the store's password derives. An unlocked session is the one the file holds.
-/

namespace LvimKeyring.WalletRefines

open Rpc Params Crypto Vault Server Wallet OrderedMap Machine

variable {Key : Type}

/-! ### The operations on the map -/

/-- The same error, or the same answer and maps that agree. -/
inductive Simulates : Except Err (Body × Reply) → Except Err (Secrets × Reply) → Prop
  | error (e : Err) : Simulates (.error e) (.error e)
  | ok {b : Body} {m : Secrets} (r : Reply) (h : Agrees m b.entries) :
      Simulates (.ok (b, r)) (.ok (m, r))

lemma applyMeta?_eq (e : Entry) (m : Option MetaIn) : applyMeta? e m = amend e m := by
  cases m with
  | none => rfl
  | some m =>
    obtain ⟨user, url, notes, tags, totp⟩ := m
    cases user <;> cases url <;> cases notes <;> cases tags <;> cases totp <;> rfl

lemma summaries_eq {b : Body} {m : Secrets} (h : Agrees m b.entries) :
    summaries b = Secrets.listing m := by
  have hcmp : ∀ s t : String, compare s t = .lt → s < t := fun s t hlt =>
    compareOfLessAndEq_eq_lt.mp hlt
  have hlist := Agrees.toList_eq h hcmp
  simp only [summaries, Secrets.listing, hlist, List.map_filterMap, Option.map_map]
  rfl

variable {b : Body} {m : Secrets}

lemma set_simulates (h : Agrees m b.entries) (p : SetParam) (now : ℕ) :
    Simulates (secretSet p now b) ((Secrets.set p now m).map fun m' => (m', .unit)) := by
  have hname := h p.name
  simp only [secretSet, Secrets.set]
  cases hb : b.entries[p.name]? with
  | some e =>
    rw [hname, hb]
    simp only [applyMeta?_eq]
    exact .ok .unit (h.insert _ _)
  | none =>
    rw [hname, hb]
    cases p.value with
    | none => exact .error _
    | some v =>
      simp only [applyMeta?_eq]
      exact .ok .unit (h.insert _ _)

lemma mem_of_eq_some (h : Agrees m b.entries) {name : String} {e : Entry}
    (hb : b.entries[name]? = some e) : name ∈ m :=
  (h.mem_iff name).mpr ⟨e, hb⟩

lemma notMem_of_eq_none (h : Agrees m b.entries) {name : String}
    (hb : b.entries[name]? = none) : name ∉ m := by
  rw [h.mem_iff name, hb]
  rintro ⟨e, he⟩
  cases he

lemma delete_simulates (h : Agrees m b.entries) (name : String) :
    Simulates (secretDelete name b) ((Secrets.delete name m).map fun m' => (m', .unit)) := by
  simp only [secretDelete, Secrets.delete]
  cases hb : b.entries[name]? with
  | none =>
    rw [if_neg (notMem_of_eq_none h hb)]
    exact .error _
  | some e =>
    rw [if_pos (mem_of_eq_some h hb)]
    exact .ok _ (h.erase name)

lemma rename_simulates (h : Agrees m b.entries) (src dst : String) :
    Simulates (secretRename src dst b) ((Secrets.rename src dst m).map fun m' => (m', .unit)) := by
  have hsrc := h src
  simp only [secretRename, Secrets.rename]
  cases hb : b.entries[dst]? with
  | some e =>
    rw [if_pos (mem_of_eq_some h hb)]
    exact .error _
  | none =>
    rw [if_neg (notMem_of_eq_none h hb), hsrc]
    cases b.entries[src]? with
    | none => exact .error _
    | some e => exact .ok _ ((h.erase src).insert dst e)

lemma generate_simulates (h : Agrees m b.entries) (name value : String) (now : ℕ) :
    Simulates (secretGenerate name value now b)
      (.ok (Secrets.generate name value now m, .generated value)) := by
  have hname := h name
  simp only [secretGenerate, Secrets.generate, hname]
  cases b.entries[name]? with
  | none => exact .ok _ (h.insert _ _)
  | some e => exact .ok _ (h.insert _ _)

lemma get_simulates (h : Agrees m b.entries) (name : String) :
    Simulates (secretGet name b) ((Secrets.get name m).map fun r => (m, r)) := by
  have hname := h name
  simp only [secretGet, Secrets.get, hname]
  cases b.entries[name]? with
  | none => exact .error _
  | some e => exact .ok _ h

lemma totp_simulates (T : Totp.Packages) (h : Agrees m b.entries) (name : String) (now : ℕ) :
    Simulates (secretTotp T name now b) ((Secrets.totp T name now m).map fun r => (m, r)) := by
  have hname := h name
  simp only [secretTotp, Secrets.totp, hname]
  cases b.entries[name]? with
  | none => exact .error _
  | some e =>
    simp only
    cases Totp.code T e.value now 30 6 with
    | error err => exact .error _
    | ok code => exact .ok _ h

theorem run_simulates (T : Totp.Packages) (now : ℕ) (h : Agrees m b.entries) (op : Op) :
    Simulates (op.run T now b) (Secrets.apply T now m op) := by
  cases op with
  | get name => exact get_simulates h name
  | set p => exact set_simulates h p now
  | delete name => exact delete_simulates h name
  | rename src dst => exact rename_simulates h src dst
  | list =>
    simp only [Op.run, Secrets.apply, summaries_eq h]
    exact .ok _ h
  | generate name value => exact generate_simulates h name value now
  | totp name => exact totp_simulates T h name now

/-! ### What the daemon represents -/

/-- The vault file holds a session with the secrets of the store, sealed under its password. -/
structure Keeps (L : Packages Key) (cfg : Config) (fs : FileSystem) (pw : String) (m : Secrets)
    (s : Session Key) : Prop where
  holds : Holds L.toLibrary fs cfg.vaultPath s
  derives : deriveKey L.toPrimitives (asBytes pw) s.salt s.params = .ok s.key
  agrees : Agrees m s.body.entries

structure Represents (L : Packages Key) (cfg : Config) (w : World Key) (a : Store) : Prop where
  lastUse : w.inner.lastActivity = a.lastUse
  locked : w.inner.session.isNone = a.locked
  absent : a.password = none → w.fs cfg.vaultPath = none ∧ w.inner.session = none
  sealed : ∀ pw, a.password = some pw →
    ∃ s, Keeps L cfg w.fs pw a.secrets s ∧ ∀ t, w.inner.session = some t → t = s

/-- The error every new password meets under cost parameters, if they are refused. -/
def refused (L : Packages Key) (params : KdfParams) : Option Err :=
  match deriveKey L.toPrimitives [] (.replicate _ 0) params with
  | .error e => some e
  | .ok _ => none

def settings (L : Packages Key) (cfg : Config) : Settings :=
  ⟨cfg.vaultPath, cfg.lockTimeout, refused L cfg.kdf⟩

variable {L : Packages Key} {cfg : Config} {env : Env} {w : World Key} {a : Store}

lemma deriveKey_refused (hL : L.toLibrary.Ideal) {params : KdfParams} {e : Err}
    (h : refused L params = some e) (pw : Bytes) (salt : Salt) :
    deriveKey L.toPrimitives pw salt params = .error e := by
  unfold refused at h
  split at h
  · rename_i e' he
    cases h
    exact hL.crypto.deriveKey_error he pw salt
  · cases h

lemma deriveKey_accepted (hL : L.toLibrary.Ideal) {params : KdfParams}
    (h : refused L params = none) (pw : Bytes) (salt : Salt) :
    ∃ key, deriveKey L.toPrimitives pw salt params = .ok key := by
  cases hk : deriveKey L.toPrimitives pw salt params with
  | ok key => exact ⟨key, rfl⟩
  | error e =>
    rw [refused, hL.crypto.deriveKey_error hk [] (.replicate _ 0)] at h
    cases h

lemma Represents.isSome_password (h : Represents L cfg w a) :
    fileExists w.fs cfg.vaultPath = a.password.isSome := by
  cases hp : a.password with
  | none => simp [fileExists, (h.absent hp).1]
  | some pw =>
    obtain ⟨s, hs, -⟩ := h.sealed pw hp
    exact hs.holds.fileExists

lemma Represents.session (h : Represents L cfg w a) {s : Session Key}
    (hs : w.inner.session = some s) :
    ∃ pw, a.password = some pw ∧ Keeps L cfg w.fs pw a.secrets s := by
  cases hp : a.password with
  | none => rw [(h.absent hp).2] at hs; cases hs
  | some pw =>
    obtain ⟨t, ht, heq⟩ := h.sealed pw hp
    rw [← heq s hs] at ht
    exact ⟨pw, rfl, ht⟩

lemma Represents.entries (h : Represents L cfg w a) :
    (w.inner.session.map fun s => summaries s.body) = a.entries := by
  have hlocked := h.locked
  unfold Store.entries
  cases hs : w.inner.session with
  | none => simp [← hlocked, hs]
  | some s =>
    obtain ⟨pw, -, hk⟩ := h.session hs
    rw [hs] at hlocked
    simp [← hlocked, summaries_eq hk.agrees]

/-! ### The vault functions -/

lemma unlock_absent (h : Represents L cfg w a) (hp : a.password = none) (pw : Bytes) :
    Vault.unlock L.toLibrary .none w.fs cfg.vaultPath pw = .error (.readVault noSuchFile) := by
  have hfs := (h.absent hp).1
  simp only [Vault.unlock, readFile, Faults.none, hfs]
  rfl

lemma unlock_right {pw : String} {m : Secrets} {s : Session Key} (h : Keeps L cfg w.fs pw m s) :
    Vault.unlock L.toLibrary .none w.fs cfg.vaultPath (asBytes pw) = .ok s :=
  unlock_eq_ok.mpr ⟨rfl, h.derives, h.holds⟩

lemma unlock_other (hL : L.toLibrary.Ideal) {pw pw' : String} {m : Secrets} {s : Session Key}
    (h : Keeps L cfg w.fs pw m s) (hne : pw' ≠ pw) :
    Vault.unlock L.toLibrary .none w.fs cfg.vaultPath (asBytes pw') = .error .wrongPassword := by
  cases hk : deriveKey L.toPrimitives (asBytes pw') s.salt s.params with
  | error e =>
    have := hL.crypto.deriveKey_error hk (asBytes pw) s.salt
    rw [h.derives] at this
    cases this
  | ok key =>
    refine unlock_wrong hL rfl h.holds hk ?_
    rintro rfl
    exact hne (asBytes_injective (hL.crypto.deriveKey_inj h.derives hk))

lemma writeNew_keeps (hL : L.toLibrary.Ideal) (cfg : Config) {pw : String} {s : Session Key}
    {m : Secrets}
    (hd : deriveKey L.toPrimitives (asBytes pw) s.salt s.params = .ok s.key)
    (hm : Agrees m s.body.entries) (fs : FileSystem) (nonce : Nonce) :
    ∃ fs', writeNew L.toLibrary .none fs cfg.vaultPath s nonce = (fs', .ok s) ∧
      Keeps L cfg fs' pw m s := by
  obtain ⟨fs', hw⟩ := write_none hL fs cfg.vaultPath s nonce
  exact ⟨fs', by simp only [writeNew, hw]; rfl, holds_of_write hL hw, hd, hm⟩

lemma Represents.install (h : Represents L cfg w a) {fs : FileSystem} {pw : String}
    {m : Secrets} {s : Session Key} (hk : Keeps L cfg fs pw m s) (reply : Reply) :
    Represents L cfg (install { w with fs } s reply).world
      { a with secrets := m, password := some pw, locked := false } where
  lastUse := h.lastUse
  locked := rfl
  absent hp := by cases hp
  sealed pw' hp := by
    cases hp
    exact ⟨s, hk, fun t ht => (Option.some.inj ht).symm⟩

/-! ### One call -/

/-- The new states represent each other and the answers are the same. -/
def Matches (L : Packages Key) (cfg : Config) (o : Outcome Key)
    (r : Store × Except Err Reply) : Prop :=
  Represents L cfg o.world r.1 ∧ o.reply = r.2

lemma create_matches (hL : L.toLibrary.Ideal) (hio : env.io = .none) (h : Represents L cfg w a)
    (password : String) :
    Matches L cfg (Server.create L cfg env password w)
      (a.create (settings L cfg) password) := by
  have hex := h.isSome_password
  unfold Server.create Store.create
  cases hp : a.password with
  | some pw =>
    rw [hp] at hex
    simp only [Vault.create, hex, Option.isSome_some, if_true]
    exact ⟨h, rfl⟩
  | none =>
    rw [hp] at hex
    simp only [Vault.create, hex, Option.isSome_none, Bool.false_eq_true, if_false, createAbsent,
      hio, settings]
    cases hr : refused L cfg.kdf with
    | some e =>
      simp only [deriveKey_refused hL hr]
      exact ⟨h, rfl⟩
    | none =>
      obtain ⟨key, hkey⟩ := deriveKey_accepted hL hr (asBytes password) env.salt
      obtain ⟨fs', hw, hk⟩ := writeNew_keeps hL cfg
        (s := ⟨Body.default, key, env.salt, cfg.kdf⟩) hkey .empty w.fs env.nonce
      simp only [hkey, hw]
      exact ⟨h.install hk _, rfl⟩

lemma unlock_matches (hL : L.toLibrary.Ideal) (hio : env.io = .none) (h : Represents L cfg w a)
    (password : String) :
    Matches L cfg (Server.unlock L cfg env password w) (a.unlock password) := by
  unfold Server.unlock Store.unlock
  rw [hio]
  cases hp : a.password with
  | none =>
    simp only [unlock_absent h hp]
    exact ⟨⟨h.lastUse, h.locked, h.absent, h.sealed⟩, rfl⟩
  | some pw =>
    obtain ⟨s, hk, -⟩ := h.sealed pw hp
    by_cases hpw : password = pw
    · subst hpw
      simp only [unlock_right hk, if_true, summaries_eq hk.agrees]
      exact ⟨h.install hk _, rfl⟩
    · simp only [unlock_other hL hk hpw, if_neg hpw]
      exact ⟨⟨h.lastUse, h.locked, h.absent, h.sealed⟩, rfl⟩

lemma rotate_matches (hL : L.toLibrary.Ideal) (hio : env.io = .none) (h : Represents L cfg w a)
    (old new : String) :
    Matches L cfg (Server.rotate L cfg env old new w) (a.rotate (settings L cfg) old new) := by
  unfold Server.rotate Store.rotate Vault.rotate
  rw [hio]
  cases hp : a.password with
  | none =>
    simp only [unlock_absent h hp]
    exact ⟨h, rfl⟩
  | some pw =>
    obtain ⟨s, hk, -⟩ := h.sealed pw hp
    by_cases hpw : old = pw
    · subst hpw
      simp only [unlock_right hk, if_true, rotateRead, settings]
      cases hr : refused L cfg.kdf with
      | some e =>
        simp only [deriveKey_refused hL hr]
        exact ⟨h, rfl⟩
      | none =>
        obtain ⟨key, hkey⟩ := deriveKey_accepted hL hr (asBytes new) env.salt
        obtain ⟨fs', hw, hk'⟩ := writeNew_keeps hL cfg
          (s := ⟨⟨s.body.entries⟩, key, env.salt, cfg.kdf⟩) hkey hk.agrees w.fs env.nonce
        simp only [hkey, hw]
        exact ⟨h.install hk' _, rfl⟩
    · simp only [unlock_other hL hk hpw, if_neg hpw]
      exact ⟨h, rfl⟩

lemma lock_represents (h : Represents L cfg w a) :
    Represents L cfg (lock w).1 { a with locked := true } where
  lastUse := h.lastUse
  locked := rfl
  absent hp := ⟨(h.absent hp).1, rfl⟩
  sealed pw hp := by
    obtain ⟨s, hk, -⟩ := h.sealed pw hp
    exact ⟨s, hk, fun t ht => by cases ht⟩

lemma session_matches (hL : L.toLibrary.Ideal) (hio : env.io = .none) (h : Represents L cfg w a)
    (wait : Bool) (op : Op) :
    Matches L cfg (withSession L cfg env wait op w) (a.session L.totp env.now op) := by
  have hlocked := h.locked
  unfold withSession Store.session
  cases hs : w.inner.session with
  | none =>
    have hon : a.locked = true := by rw [← hlocked, hs]; rfl
    simp only [if_pos hon]
    exact ⟨h, rfl⟩
  | some s =>
    obtain ⟨pw, hp, hk⟩ := h.session hs
    have hsim := run_simulates L.totp env.now hk.agrees op
    have hoff : ¬ a.locked = true := by rw [← hlocked, hs]; simp
    simp only [if_neg hoff]
    generalize hspec : Secrets.apply L.totp env.now a.secrets op = res at hsim ⊢
    cases hrun : op.run L.totp env.now s.body with
    | error e =>
      rw [hrun] at hsim
      cases hsim
      exact ⟨h, rfl⟩
    | ok br =>
      obtain ⟨b, r⟩ := br
      rw [hrun] at hsim
      cases hsim with
      | ok r hagree =>
        cases hop : op.reads with
        | true =>
          obtain rfl := run_reads hop hrun
          simp only [if_true]
          refine ⟨⟨h.lastUse, h.locked, fun hnone => ?_, fun pw' hp' => ?_⟩, rfl⟩
          · exact h.absent hnone
          · obtain ⟨t, ht, heq⟩ := h.sealed pw' hp'
            exact ⟨t, ⟨ht.holds, ht.derives, by rwa [← heq s hs]⟩, heq⟩
        | false =>
          obtain ⟨fs', hw⟩ := write_none hL w.fs cfg.vaultPath { s with body := b } env.nonce
          simp only [Bool.false_eq_true, if_false, save, hio, hw]
          refine ⟨⟨h.lastUse, ?_, fun hnone => ?_, fun pw' hp' => ?_⟩, rfl⟩
          · rw [← hlocked, hs]
            rfl
          · exact absurd (hp.symm.trans hnone) (by simp)
          · obtain rfl : pw' = pw := Option.some.inj (hp'.symm.trans hp)
            exact ⟨{ s with body := b }, ⟨holds_of_write hL hw, hk.derives, hagree⟩,
              fun t ht => (Option.some.inj ht).symm⟩

lemma call_matches (hL : L.toLibrary.Ideal) (hio : env.io = .none) (h : Represents L cfg w a)
    (call : Call) :
    Matches L cfg (exec L cfg env w call) (a.call L.totp (settings L cfg) env call) := by
  cases call with
  | hello =>
    refine ⟨h, ?_⟩
    simp only [exec, Store.call, hello, Outcome.of, Inner.isLocked, h.locked, h.isSome_password,
      h.entries]
  | status =>
    refine ⟨h, ?_⟩
    simp only [exec, Store.call, status, Outcome.of, Inner.isLocked, h.locked, h.isSome_password,
      h.entries, autolockIn, Store.autolockIn, settings, h.lastUse]
    congr
  | create password => exact create_matches hL hio h password
  | unlock password => exact unlock_matches hL hio h password
  | lock => exact ⟨lock_represents h, rfl⟩
  | unlockCancel => exact ⟨⟨h.lastUse, h.locked, h.absent, h.sealed⟩, rfl⟩
  | rotate old new => exact rotate_matches hL hio h old new
  | session wait op => exact session_matches hL hio h wait op
  | bare value => exact ⟨h, rfl⟩

lemma touch_represents (h : Represents L cfg w a) :
    Represents L cfg (touch env w) { a with lastUse := env.clock } :=
  ⟨rfl, h.locked, h.absent, h.sealed⟩

theorem handle_matches (hL : L.toLibrary.Ideal) (hio : env.io = .none)
    (h : Represents L cfg w a) (method : String) (params : Json) :
    Matches L cfg (dispatch L cfg env w method params)
      (a.handle L.totp (settings L cfg) env method params) := by
  unfold dispatch Store.handle
  have htouched : Represents L cfg (if touches method then touch env w else w)
      (if touches method then { a with lastUse := env.clock } else a) := by
    split
    · exact touch_represents h
    · exact h
  cases prepare env.random method params with
  | error e => exact ⟨htouched, rfl⟩
  | ok call => exact call_matches hL hio htouched call

lemma tick_represents (h : Represents L cfg w a) (clock : ℕ) :
    Represents L cfg (autolockTick cfg clock w).1 (a.tick (settings L cfg) clock) := by
  unfold autolockTick Store.tick settings
  simp only [Inner.isLocked, h.locked, h.lastUse]
  by_cases hidle : cfg.lockTimeout ≠ 0 ∧ cfg.lockTimeout * nanos ≤ clock - a.lastUse
  · rw [if_pos hidle]
    by_cases hlocked : a.locked = true
    · rw [if_pos (.inr hlocked)]
      convert h using 1
      rw [← hlocked]
    · rw [if_neg (not_or.mpr ⟨hidle.1, hlocked⟩), if_pos hidle.2]
      exact lock_represents h
  · rw [if_neg hidle]
    split
    · exact h
    · rename_i hon
      rw [if_neg fun hle => hidle ⟨fun h0 => hon (.inl h0), hle⟩]
      exact h

/-! ### Every run -/

/-- What can happen to a daemon that handles one request at a time. -/
inductive Event
  | request (env : Env) (method : String) (params : Json)
  | tick (clock : ℕ)
  | restart (kdf : KdfParams) (lockTimeout linger : ℕ) (persist : Bool) (clock : ℕ)

def Event.faultless : Event → Prop
  | .request env _ _ => env.io = .none
  | _ => True

/-- The daemon, with the configuration it was last started with. -/
def agent (L : Packages Key) (d : Config × World Key) :
    Event → (Config × World Key) × Option (Except Err Reply)
  | .request env method params =>
    let o := dispatch L d.1 env d.2 method params
    ((d.1, o.world), some o.reply)
  | .tick clock => ((d.1, (autolockTick d.1 clock d.2).1), none)
  | .restart kdf lockTimeout linger persist clock =>
    ((⟨d.1.vaultPath, kdf, lockTimeout, linger, persist⟩, ⟨d.2.fs, Inner.new Key clock⟩), none)

/-- The store, with the settings it was last started with. -/
def store (L : Packages Key) (d : Settings × Store) :
    Event → (Settings × Store) × Option (Except Err Reply)
  | .request env method params =>
    let r := d.2.handle L.totp d.1 env method params
    ((d.1, r.1), some r.2)
  | .tick clock => ((d.1, d.2.tick d.1 clock), none)
  | .restart kdf lockTimeout _ _ clock =>
    ((⟨d.1.path, lockTimeout, refused L kdf⟩, d.2.restart clock), none)

/-- The settings are those of the configuration, and the store is what the daemon represents. -/
def Related (L : Packages Key) (d : Config × World Key) (e : Settings × Store) : Prop :=
  e.1 = settings L d.1 ∧ Represents L d.1 d.2 e.2

lemma related_step (hL : L.toLibrary.Ideal) (d : Config × World Key) (e : Settings × Store)
    (ev : Event) (h : Related L d e) (hev : ev.faultless) :
    Related L (agent L d ev).1 (store L e ev).1 ∧ (agent L d ev).2 = (store L e ev).2 := by
  obtain ⟨cfg, w⟩ := d
  obtain ⟨st, a⟩ := e
  obtain ⟨rfl, h⟩ := h
  cases ev with
  | request env method params =>
    obtain ⟨hrep, hans⟩ := handle_matches hL hev h method params
    exact ⟨⟨rfl, hrep⟩, congrArg some hans⟩
  | tick clock => exact ⟨⟨rfl, tick_represents h clock⟩, rfl⟩
  | restart kdf lockTimeout linger persist clock =>
    refine ⟨⟨rfl, rfl, rfl, fun hp => ⟨(h.absent hp).1, rfl⟩, fun pw hp => ?_⟩, rfl⟩
    obtain ⟨s, hk, -⟩ := h.sealed pw hp
    exact ⟨s, ⟨hk.holds, hk.derives, hk.agrees⟩, fun t ht => by cases ht⟩

/-- From no vault on, whatever is requested and however often the daemon is restarted, it
answers as the store does. -/
theorem answers_store (L : Packages Key) (hL : L.toLibrary.Ideal) (cfg : Config)
    (fs : FileSystem) (clock : ℕ) (hfs : fs cfg.vaultPath = none) (events : List Event)
    (hev : ∀ ev ∈ events, ev.faultless) :
    answers (agent L) (cfg, ⟨fs, Inner.new Key clock⟩) events =
      answers (store L) (settings L cfg, Store.new clock) events := by
  have hstart : Related L (cfg, ⟨fs, Inner.new Key clock⟩) (settings L cfg, Store.new clock) :=
    ⟨rfl, rfl, rfl, fun _ => ⟨hfs, rfl⟩, fun pw hp => by cases hp⟩
  exact answers_eq (related_step hL) hstart hev

/-- A vault created, written, restarted under other parameters and opened again. -/
def reopened : List Event :=
  let request (method : String) (params : List (String × Json)) : Event :=
    .request Sample.env method (.obj params)
  [request "vault.create" [("password", .str "pw")],
    request "secret.set" [("name", .str "a"), ("value", .str "x")],
    .restart ⟨8, 1, 1⟩ 0 0 false 0,
    request "vault.unlock" [("password", .str "other")],
    request "vault.unlock" [("password", .str "pw")],
    request "secret.get" [("name", .str "a")]]

theorem answers_store_reopened :
    answers (agent Sample.packages) (Sample.config, ⟨fun _ => none, Inner.new Sample.Key 0⟩)
        reopened =
      answers (store Sample.packages) (settings Sample.packages Sample.config, Store.new 0)
        reopened :=
  answers_store Sample.packages Sample.library_ideal Sample.config _ 0 rfl reopened
    (by simp [reopened, Event.faultless, Sample.env])

example : answers (agent Sample.packages)
    (Sample.config, ⟨fun _ => none, Inner.new Sample.Key 0⟩) reopened =
      [some (.ok .unit), some (.ok .unit), none, some (.error .wrongPassword),
        some (.ok (.listing [⟨"a", entryMeta (newEntry "x" 7), 7, 7⟩])),
        some (.ok (.secret "x" (entryMeta (newEntry "x" 7))))] := by
  decide +kernel

end LvimKeyring.WalletRefines