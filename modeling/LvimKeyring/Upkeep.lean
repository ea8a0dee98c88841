import LvimKeyring.Sample

/-!
What every session keeps, whatever the daemon goes through.

A property of sessions that a new one has, and that every operation with a name it is let through
with keeps, is a property of the session and of what the vault file holds: across requests in
flight, failing file operations, locks, rotations and restores of the session from the file. It may
depend on the clock and on the passwords the daemon has been asked to seal under.
-/

namespace LvimKeyring.Upkeep

open Rpc Params Crypto Vault Server Daemon Transition Result

variable {Key : Type}

/-! ### Operations that are let through -/

/-- A name that an operation files an entry under is not blank. -/
def fit : Op → Bool
  | .set p => !isBlank p.name
  | .rename _ dst => !isBlank dst
  | .generate name _ => !isBlank name
  | .get _ | .delete _ | .list | .totp _ => true

lemma prepare_fit {random : ℕ → UInt8} {method : String} {params : Json} {wait : Bool} {op : Op}
    (h : prepare random method params = .ok (.session wait op)) : fit op = true := by
  unfold prepare at h
  split at h
  case h_1 | h_4 | h_5 | h_6 | h_15 => cases h
  case h_12 =>
    cases h
    rfl
  case h_2 | h_3 | h_7 | h_8 | h_10 | h_14 =>
    simp only [bind_eq_ok, pure_eq_ok] at h
    obtain ⟨p, -, heq⟩ := h
    cases heq
    try rfl
  case h_9 =>
    simp only [prepareSet, bind_eq_ok] at h
    obtain ⟨p, -, h⟩ := h
    split at h
    · cases h
    · next hblank =>
      cases h
      simpa [fit] using hblank
  case h_11 =>
    simp only [prepareRename, bind_eq_ok] at h
    obtain ⟨p, -, h⟩ := h
    split at h
    · cases h
    · next hblank =>
      cases h
      simpa [fit] using hblank
  case h_13 =>
    simp only [prepareGenerate] at h
    split at h
    · next name hname =>
      cases h
      simpa [fit] using (Option.filter_eq_some_iff.mp hname).2
    · cases h

/-! ### Properties that last -/

/-- What a run has brought: the last reading of the clock, and the passwords to seal under. -/
structure Seen where
  now : ℕ
  passwords : List String

/-- There are more passwords, and the clock goes as `R` says. -/
structure Seen.Le (R : ℕ → ℕ → Prop) (x y : Seen) : Prop where
  now : R x.now y.now
  passwords : x.passwords ⊆ y.passwords

/-- A property of sessions that lasts while the clock goes as `R` says. -/
structure Lasting (L : Packages Key) (cfg : Config) (R : ℕ → ℕ → Prop)
    (Q : Seen → Session Key → Prop) : Prop where
  stands : ∀ n, R n n
  later : ∀ {x y s}, Seen.Le R x y → Q x s → Q y s
  created : ∀ {x pw key salt}, pw ∈ x.passwords →
    deriveKey L.toPrimitives (asBytes pw) salt cfg.kdf = .ok key →
      Q x ⟨.default, key, salt, cfg.kdf⟩
  rotated : ∀ {x s pw key salt}, Q x s → pw ∈ x.passwords →
    deriveKey L.toPrimitives (asBytes pw) salt cfg.kdf = .ok key →
      Q x ⟨⟨s.body.entries⟩, key, salt, cfg.kdf⟩
  run : ∀ {x s b op r}, fit op = true → Q x s → op.run L.totp x.now s.body = .ok (b, r) →
    Q x { s with body := b }

/-- The passwords a call asks to seal under. -/
def sealers : Call → List String
  | .create password => [password]
  | .rotate _ new => [new]
  | _ => []

/-- The same, of a request. -/
def asked (method : String) (params : Json) : List String :=
  match method with
  | "vault.create" =>
    match PasswordParam.fromValue params with
    | .ok p => [p.password]
    | .error _ => []
  | "vault.rotate" =>
    match RotateParam.fromValue params with
    | .ok p => [p.newPassword]
    | .error _ => []
  | _ => []

lemma sealers_prepare {random : ℕ → UInt8} {method : String} {params : Json} {c : Call}
    (h : prepare random method params = .ok c) : sealers c ⊆ asked method params := by
  unfold prepare at h
  split at h
  case h_1 | h_4 | h_5 | h_6 | h_12 =>
    cases h
    exact List.nil_subset _
  case h_15 => cases h
  case h_2 | h_7 =>
    simp only [decoded, bind_eq_ok, pure_eq_ok, mapError_eq_ok] at h
    obtain ⟨p, hp, rfl⟩ := h
    simp only [sealers, asked, hp]
    exact List.Subset.refl _
  case h_3 | h_8 | h_10 | h_14 =>
    simp only [bind_eq_ok, pure_eq_ok] at h
    obtain ⟨p, -, rfl⟩ := h
    exact List.nil_subset _
  case h_9 | h_11 =>
    simp only [prepareSet, prepareRename, bind_eq_ok] at h
    obtain ⟨p, -, h⟩ := h
    split at h <;> cases h
    exact List.nil_subset _
  case h_13 =>
    simp only [prepareGenerate] at h
    split at h <;> cases h <;> exact List.nil_subset _

/-! ### Sections -/

/-- The operation a thread is on its way to. -/
def opOf : Pc Key → Option Op
  | .call (.session _ op) => some op
  | .park op | .signal op | .capture op | .access op => some op
  | .recheck op _ | .decide op _ | .asleep op _ | .woken op _ => some op
  | _ => none

/-- The session a thread is to install, or to write from. -/
def sessionOf : Pc Key → Option (Session Key)
  | .install s _ | .rotateWrite s _ _ => some s
  | _ => none

/-- The passwords a thread is on its way to seal under. -/
def passwordsOf : Pc Key → List String
  | .dispatch method params => asked method params
  | .call c => sealers c
  | .createWrite password => [password]
  | .rotateWrite _ _ new => [new]
  | _ => []

/-- The property, of all that is shared. -/
structure Sound (L : Packages Key) (cfg : Config) (Q : Seen → Session Key → Prop) (x : Seen)
    (sh : Shared Key) : Prop where
  session : ∀ s, sh.session = some s → Q x s
  file : ∀ s, Holds L.toLibrary sh.world.fs cfg.vaultPath s → Q x s

/-- The property, of what a thread has in its hands. -/
structure SoundPc (Q : Seen → Session Key → Prop) (x : Seen) (p : Pc Key) : Prop where
  op : ∀ op, opOf p = some op → fit op = true
  session : ∀ s, sessionOf p = some s → Q x s
  passwords : passwordsOf p ⊆ x.passwords

variable {L : Packages Key} {cfg : Config} {env : Env} {R : ℕ → ℕ → Prop}
variable {Q : Seen → Session Key → Prop} {x y : Seen}
variable {sh sh' : Shared Key} {p p' : Pc Key}

lemma Sound.later (hQ : Lasting L cfg R Q) (hxy : x.Le R y) (h : Sound L cfg Q x sh) :
    Sound L cfg Q y sh :=
  ⟨fun s hs => hQ.later hxy (h.session s hs), fun s hs => hQ.later hxy (h.file s hs)⟩

lemma SoundPc.later (hQ : Lasting L cfg R Q) (hxy : x.Le R y) (h : SoundPc Q x p) : SoundPc Q y p :=
  ⟨h.op, fun s hs => hQ.later hxy (h.session s hs), List.Subset.trans h.passwords hxy.passwords⟩

lemma Sound.congr (h : Sound L cfg Q x sh) (hfs : sh'.world.fs = sh.world.fs)
    (hsession : sh'.session = sh.session) : Sound L cfg Q x sh' := by
  refine ⟨fun s hs => h.session s (hsession ▸ hs), fun s hs => h.file s ?_⟩
  rwa [← hfs]

lemma soundPc_of_none (hop : opOf p = none) (hsession : sessionOf p = none)
    (hpasswords : passwordsOf p = []) : SoundPc Q x p := by
  refine ⟨fun op h => ?_, fun s h => ?_, ?_⟩
  · rw [hop] at h
    cases h
  · rw [hsession] at h
    cases h
  · rw [hpasswords]
    exact List.nil_subset _

lemma soundPc_session {s : Session Key} (hop : opOf p = none) (hsession : sessionOf p = some s)
    (hs : Q x s) (hpasswords : passwordsOf p ⊆ x.passwords) : SoundPc Q x p := by
  refine ⟨fun op h => ?_, fun t h => ?_, hpasswords⟩
  · rw [hop] at h
    cases h
  · rw [hsession] at h
    cases h
    exact hs

lemma soundPc_op {op : Op} (hop : opOf p = some op) (hfit : fit op = true)
    (hsession : sessionOf p = none) (hpasswords : passwordsOf p = []) : SoundPc Q x p := by
  refine ⟨fun op' h => ?_, fun s h => ?_, ?_⟩
  · rw [hop] at h
    cases h
    exact hfit
  · rw [hsession] at h
    cases h
  · rw [hpasswords]
    exact List.nil_subset _

lemma holds_write (hL : L.toLibrary.Ideal) {io : Faults} {fs : FileSystem} {path : String}
    {s t : Session Key} {nonce : Nonce}
    (h : Holds L.toLibrary (write L.toLibrary io fs path s nonce).1 path t) :
    t = s ∨ Holds L.toLibrary fs path t := by
  cases hw : write L.toLibrary io fs path s nonce with
  | mk fs' r =>
    rw [hw] at h
    cases r with
    | ok => exact .inl ((holds_of_write hL hw).unique hL h)
    | error e => exact .inr (h.congr (write_error hw).symm)

lemma soundPc_afterWrite (hL : L.toLibrary.Ideal) (h : Sound L cfg Q x sh) {s : Session Key}
    (hs : Q x s) (io : Faults) (nonce : Nonce) (k : Installer) :
    let r := afterWrite sh k (writeNew L.toLibrary io sh.world.fs cfg.vaultPath s nonce)
    Sound L cfg Q x r.1 ∧ SoundPc Q x r.2 := by
  have hfile : ∀ t, Holds L.toLibrary (write L.toLibrary io sh.world.fs cfg.vaultPath s nonce).1
      cfg.vaultPath t → Q x t := by
    intro t ht
    rcases holds_write hL ht with rfl | ht
    · exact hs
    · exact h.file t ht
  unfold writeNew
  cases hw : write L.toLibrary io sh.world.fs cfg.vaultPath s nonce with
  | mk fs' r =>
    rw [hw] at hfile
    cases r with
    | ok => exact ⟨⟨h.session, hfile⟩, soundPc_session rfl rfl hs (List.nil_subset _)⟩
    | error e => exact ⟨⟨h.session, hfile⟩, soundPc_of_none rfl rfl rfl⟩

/-- Access to the session. -/
lemma Sound.access (hL : L.toLibrary.Ideal) (hQ : Lasting L cfg R Q) (h : Sound L cfg Q x sh)
    (hnow : x.now = env.now) {op : Op} (hop : fit op = true) :
    Sound L cfg Q x
      { sh with world := (Server.withSession L cfg env false op sh.world).world } := by
  unfold Server.withSession
  split
  · exact h
  · next s hs =>
    split
    · exact h
    · next body r hrun =>
      have hbody : Q x { s with body } := hQ.run hop (h.session s hs) (hnow ▸ hrun)
      split
      · exact h
      · have hfile : ∀ t, Holds L.toLibrary (save L.toLibrary env.io sh.world.fs cfg.vaultPath
            { s with body } env.nonce).1 cfg.vaultPath t → Q x t := by
          intro t ht
          rcases holds_write hL ht with rfl | ht
          · exact hbody
          · exact h.file t ht
        have hsession : ∀ t, some { s with body } = some t → Q x t := by
          rintro t ⟨⟩
          exact hbody
        cases hsave : save L.toLibrary env.io sh.world.fs cfg.vaultPath { s with body }
            env.nonce with
        | mk fs saved =>
          rw [hsave] at hfile
          simp only [hsave]
          cases saved with
          | ok => exact ⟨hsession, hfile⟩
          | error e => exact ⟨hsession, hfile⟩

/-- The first section of a handler. -/
lemma sound_begin (h : Sound L cfg Q x sh) {c : Call} (hc : SoundPc Q x (.call c : Pc Key))
    (hbegin : begin L cfg env sh c = some (sh', p')) : Sound L cfg Q x sh' ∧ SoundPc Q x p' := by
  cases c with
  | lock =>
    cases hbegin
    refine ⟨⟨fun s hs => ?_, h.file⟩, ?_⟩
    · cases hs
    · split <;> exact soundPc_of_none rfl rfl rfl
  | hello | status | bare =>
    cases hbegin
    exact ⟨h, soundPc_of_none rfl rfl rfl⟩
  | create password =>
    simp only [begin] at hbegin
    split at hbegin <;> cases hbegin
    · exact ⟨h, soundPc_of_none rfl rfl rfl⟩
    · exact ⟨h, fun op hop => (by cases hop), fun s hs => (by cases hs), hc.passwords⟩
  | unlockCancel =>
    simp only [begin] at hbegin
    split at hbegin <;> cases hbegin
    exact ⟨h.congr rfl rfl, soundPc_of_none rfl rfl rfl⟩
  | unlock password =>
    simp only [begin] at hbegin
    split at hbegin <;> cases hbegin
    · next s hs =>
      exact ⟨h, soundPc_session rfl rfl (h.file s (unlock_eq_ok.mp hs).2.2) (List.nil_subset _)⟩
    · exact ⟨h, soundPc_of_none rfl rfl rfl⟩
  | rotate old new =>
    simp only [begin] at hbegin
    split at hbegin <;> cases hbegin
    · next s hs =>
      exact ⟨h, soundPc_session rfl rfl (h.file s (unlock_eq_ok.mp hs).2.2) hc.passwords⟩
    · exact ⟨h, soundPc_of_none rfl rfl rfl⟩
  | session wait op =>
    have hop : fit op = true := hc.op op rfl
    simp only [begin] at hbegin
    split at hbegin <;> cases hbegin
    · exact ⟨h, soundPc_op rfl hop rfl rfl⟩
    · refine ⟨h, ?_⟩
      split
      · exact soundPc_op rfl hop rfl rfl
      · exact soundPc_of_none rfl rfl rfl

/-- What a section that rests hands on: the operation it was given, or one just let through, and no
other password. -/
structure Hands (p p' : Pc Key) : Prop where
  op : ∀ op, opOf p' = some op → opOf p = some op ∨ fit op = true
  passwords : passwordsOf p' ⊆ passwordsOf p

lemma hands_of_none (hop : opOf p' = none) (hpasswords : passwordsOf p' = []) : Hands p p' := by
  refine ⟨fun op h => ?_, ?_⟩
  · rw [hop] at h
    cases h
  · rw [hpasswords]
    exact List.nil_subset _

lemma hands_same (hop : opOf p' = opOf p) (hpasswords : passwordsOf p' = []) : Hands p p' := by
  refine ⟨fun op h => .inl (hop ▸ h), ?_⟩
  rw [hpasswords]
  exact List.nil_subset _

lemma exec_hands {expired : Bool} {t : ℕ} {origin : ℕ × ℕ} (hp : p.rests = true)
    (hexec : p.exec L cfg env expired t origin sh = some (sh', p')) : Hands p p' := by
  cases p with
  | createWrite | rotateWrite | install | access | tickTake | call => cases hp
  | idle | asleep => cases hexec
  | dispatch method params =>
    simp only [Pc.exec] at hexec
    split at hexec <;> cases hexec
    · next c hprepare =>
      refine ⟨fun op hop => .inr ?_, sealers_prepare hprepare⟩
      cases c with
      | session wait op' =>
        cases hop
        exact prepare_fit hprepare
      | _ => cases hop
    · exact hands_of_none rfl rfl
  | park op =>
    cases hexec
    split <;> exact hands_same rfl rfl
  | capture op | woken op start =>
    simp only [Pc.exec] at hexec
    split at hexec <;> cases hexec
    exact hands_same rfl rfl
  | recheck op start =>
    simp only [Pc.exec] at hexec
    split at hexec <;> cases hexec <;> exact hands_same rfl rfl
  | decide op start =>
    simp only [Pc.exec] at hexec
    split at hexec <;> cases hexec
    · exact hands_of_none rfl rfl
    · exact hands_same rfl rfl
  | signal op =>
    cases hexec
    exact hands_same rfl rfl
  | wake k =>
    cases k <;> cases hexec <;> exact hands_of_none rfl rfl
  | announceLocked timer | queryLocked locked ex entries | tickLocked | tickIdle =>
    cases hexec
    split <;> exact hands_of_none rfl rfl
  | querySummaries full locked ex =>
    cases hexec
    split
    · exact hands_of_none rfl rfl
    · split <;> exact hands_of_none rfl rfl
  | resetFails | announceUnlocked | unlockedSummaries | countFailure | wakeCancelled
  | queryExists | queryIdle | respond =>
    cases hexec
    exact hands_of_none rfl rfl

lemma sessionOf_plain (hp : p.plain = true) : sessionOf p = none := by
  cases p <;> first | rfl | cases hp

/-- A section keeps the property, of what is shared and of what its thread has. -/
theorem sound_exec (hL : L.toLibrary.Ideal) (hQ : Lasting L cfg R Q) {expired : Bool} {t : ℕ}
    {origin : ℕ × ℕ} (hnow : x.now = env.now) (h : Sound L cfg Q x sh) (hp : SoundPc Q x p)
    (hexec : p.exec L cfg env expired t origin sh = some (sh', p')) :
    Sound L cfg Q x sh' ∧ SoundPc Q x p' := by
  by_cases hrests : p.rests = true
  · obtain ⟨hfs, hsession, hplain⟩ := exec_rests hrests hexec
    have hhands := exec_hands hrests hexec
    refine ⟨h.congr hfs hsession, fun op hop => ?_, fun s hs => ?_,
      List.Subset.trans hhands.passwords hp.passwords⟩
    · rcases hhands.op op hop with hold | hfit
      · exact hp.op op hold
      · exact hfit
    · rw [sessionOf_plain hplain] at hs
      cases hs
  · cases p with
    | call c => exact sound_begin h hp hexec
    | createWrite password =>
      simp only [Pc.exec, createAbsent] at hexec
      cases hkey : deriveKey L.toPrimitives (asBytes password) env.salt cfg.kdf with
      | error e =>
        rw [hkey] at hexec
        cases hexec
        exact ⟨h, soundPc_of_none rfl rfl rfl⟩
      | ok key =>
        simp only [hkey, Option.some.injEq] at hexec
        have hnew : Q x ⟨Body.default, key, env.salt, cfg.kdf⟩ :=
          hQ.created (hp.passwords (List.mem_singleton_self _)) hkey
        have hwrite := soundPc_afterWrite hL h hnew env.io env.nonce (.create password)
        rwa [hexec] at hwrite
    -- The entries are those of the session that the old password opened.
    | rotateWrite current old new =>
      simp only [Pc.exec, rotateRead] at hexec
      cases hkey : deriveKey L.toPrimitives (asBytes new) env.salt cfg.kdf with
      | error e =>
        rw [hkey] at hexec
        cases hexec
        exact ⟨h, soundPc_of_none rfl rfl rfl⟩
      | ok key =>
        simp only [hkey, Option.some.injEq] at hexec
        have hnew : Q x ⟨⟨current.body.entries⟩, key, env.salt, cfg.kdf⟩ :=
          hQ.rotated (hp.session current rfl) (hp.passwords (List.mem_singleton_self _)) hkey
        have hwrite := soundPc_afterWrite hL h hnew env.io env.nonce (.rotate old new)
        rwa [hexec] at hwrite
    | install s k =>
      cases hexec
      refine ⟨⟨fun t ht => ?_, h.file⟩, soundPc_of_none rfl rfl rfl⟩
      cases ht
      exact hp.session s rfl
    | access op =>
      cases hexec
      exact ⟨h.access hL hQ hnow (hp.op op rfl), soundPc_of_none rfl rfl rfl⟩
    | tickTake =>
      cases hexec
      refine ⟨⟨fun s hs => ?_, h.file⟩, ?_⟩
      · cases hs
      · split <;> exact soundPc_of_none rfl rfl rfl
    | _ => exact absurd rfl hrests

/-! ### Runs -/

/-- The property, of all there is in the daemon. -/
structure Kept (L : Packages Key) (cfg : Config) (Q : Seen → Session Key → Prop) (x : Seen)
    (d : State Key) : Prop where
  shared : Sound L cfg Q x d.shared
  pcs : ∀ t, SoundPc Q x (d.pc t)

def Seen.update (x : Seen) (_ : State Key) (a : Action) (_ : State Key) : Seen :=
  match a with
  | .run _ env _ => { x with now := env.now }
  | .request _ _ _ method params => { x with passwords := asked method params ++ x.passwords }
  | _ => x

/-- The clock goes as `R` says. -/
def Onward (R : ℕ → ℕ → Prop) (x : Seen × State Key) : Action → Prop
  | .run _ env _ => R x.1.now env.now
  | _ => True

instance [DecidableRel R] (x : Seen × State Key) : DecidablePred (Onward R x)
  | .run _ _ _ => inferInstanceAs (Decidable (R _ _))
  | .connect | .disconnect _ | .request _ _ _ _ _ | .tick _ | .rouse _ => isTrue trivial

lemma SoundPc.rouse (h : SoundPc Q x p) : SoundPc Q x (Daemon.rouse p) := by
  cases p with
  | asleep op start => exact ⟨h.op, h.session, h.passwords⟩
  | _ => exact h

lemma soundPc_update {pc : ℕ → Pc Key} (h : ∀ u, SoundPc Q x (pc u)) {t : ℕ} (hp : SoundPc Q x p)
    (u : ℕ) : SoundPc Q x (Function.update pc t p u) := by
  by_cases hu : u = t
  · rw [hu, Function.update_self]
    exact hp
  · rw [Function.update_of_ne hu]
    exact h u

lemma kept_step (hL : L.toLibrary.Ideal) (hQ : Lasting L cfg R Q) (x : Seen) (d : State Key)
    (a : Action)
    (d' : State Key) (h : Kept L cfg Q x d) (hn : Onward R (x, d) a)
    (hstep : step L cfg d a = some d') : Kept L cfg Q (x.update d a d') d' := by
  have hle : x.Le R (x.update d a d') := by
    cases a with
    | run t env expired => exact ⟨hn, List.Subset.refl _⟩
    | request => exact ⟨hQ.stands _, List.subset_append_right _ _⟩
    | connect | disconnect | tick | rouse => exact ⟨hQ.stands _, List.Subset.refl _⟩
  have hshared : Sound L cfg Q (x.update d a d') d.shared := h.shared.later hQ hle
  have hpcs : ∀ u, SoundPc Q (x.update d a d') (d.pc u) := fun u => (h.pcs u).later hQ hle
  cases stepped hstep with
  | connect | disconnect => exact ⟨hshared.congr rfl rfl, hpcs⟩
  | request t c id method params =>
    refine ⟨hshared, soundPc_update hpcs ⟨nofun, nofun, ?_⟩⟩
    exact List.subset_append_left _ _
  | tick t => exact ⟨hshared, soundPc_update hpcs (soundPc_of_none rfl rfl rfl)⟩
  | rouse t op start hpc =>
    have hp := hpcs t
    rw [hpc] at hp
    exact ⟨hshared, soundPc_update hpcs hp.rouse⟩
  | run t env expired shared p hexec =>
    obtain ⟨hsound, hp⟩ := sound_exec hL hQ rfl hshared (hpcs t) hexec
    refine ⟨hsound, soundPc_update (fun u => ?_) hp⟩
    split
    · exact (hpcs u).rouse
    · exact hpcs u

/-- A property that lasts holds all through a run. -/
theorem kept_run (hL : L.toLibrary.Ideal) (hQ : Lasting L cfg R Q) {d d' : State Key}
    {as : List Action}
    (h : Kept L cfg Q x d) (hn : Along (track (step L cfg) Seen.update) (Onward R) (x, d) as)
    (hrun : run (step L cfg) d as = some d') :
    Kept L cfg Q (history (step L cfg) Seen.update x d as) d' :=
  run_track_inv (kept_step hL hQ) h hn hrun

/-! ### Tidy vaults -/

/-- An entry as it is kept: under a name, without empty texts, and with its dates in order. -/
structure Tidy (now : ℕ) (name : String) (e : Entry) : Prop where
  name : isBlank name = false
  user : e.user ≠ some ""
  url : e.url ≠ some ""
  notes : e.notes ≠ some ""
  created : e.created ≤ e.updated
  updated : e.updated ≤ now

/-- A body with nothing but tidy entries. -/
def TidyBody (now : ℕ) (b : Body) : Prop := ∀ name e, b.entries[name]? = some e → Tidy now name e

lemma nonEmpty_ne (s : String) : nonEmpty s ≠ some "" := by
  unfold nonEmpty
  split
  · exact nofun
  · next hs => exact fun h => hs (Option.some.inj h)

variable {name : String} {e : Entry} {now : ℕ} {b b' : Body}

lemma tidy_applyMeta (h : Tidy now name e) (info : MetaIn) : Tidy now name (applyMeta e info) := by
  obtain ⟨hname, huser, hurl, hnotes, hcreated, hupdated⟩ := h
  obtain ⟨user, url, notes, tags, totp⟩ := info
  have hkept : ∀ (old new : Option String), old ≠ some "" →
      (new.elim old nonEmpty) ≠ some "" := by
    intro old new hold
    cases new with
    | none => exact hold
    | some text => exact nonEmpty_ne text
  have huser' := hkept e.user user huser
  have hurl' := hkept e.url url hurl
  have hnotes' := hkept e.notes notes hnotes
  cases user <;> cases url <;> cases notes <;> cases tags <;> cases totp <;>
    exact ⟨hname, huser', hurl', hnotes', hcreated, hupdated⟩

lemma tidy_applyMeta? (h : Tidy now name e) (info : Option MetaIn) :
    Tidy now name (applyMeta? e info) := by
  cases info with
  | none => exact h
  | some info => exact tidy_applyMeta h info

lemma Tidy.revalued (h : Tidy now name e) (value : String) : Tidy now name { e with value } :=
  ⟨h.name, h.user, h.url, h.notes, h.created, h.updated⟩

lemma Tidy.redated (h : Tidy now name e) : Tidy now name { e with updated := now } :=
  ⟨h.name, h.user, h.url, h.notes, h.created.trans h.updated, le_rfl⟩

lemma tidy_newEntry (hname : isBlank name = false) (value : String) :
    Tidy now name (newEntry value now) :=
  ⟨hname, nofun, nofun, nofun, le_rfl, le_rfl⟩

lemma TidyBody.insert (h : TidyBody now b) (he : Tidy now name e) :
    TidyBody now ⟨b.entries.insert name e⟩ := by
  intro other e' he'
  rw [Std.ExtTreeMap.getElem?_insert] at he'
  split at he'
  · next heq =>
    obtain rfl := Std.LawfulEqCmp.eq_of_compare heq
    cases he'
    exact he
  · exact h other e' he'

lemma TidyBody.erase (h : TidyBody now b) (name : String) :
    TidyBody now ⟨b.entries.erase name⟩ := by
  intro other e he
  rw [Std.ExtTreeMap.getElem?_erase] at he
  split at he
  · cases he
  · exact h other e he

/-- An operation leaves a tidy vault tidy. -/
lemma tidy_run {T : Totp.Packages} {op : Op} {r : Reply} (hop : fit op = true)
    (h : TidyBody now b) (hrun : op.run T now b = .ok (b', r)) : TidyBody now b' := by
  cases op with
  | get | list | totp =>
    rw [run_reads rfl hrun]
    exact h
  | set p =>
    simp only [Op.run, secretSet] at hrun
    split at hrun
    · next e he =>
      cases hrun
      exact h.insert (tidy_applyMeta? ((h p.name e he).revalued _) p.info).redated
    · split at hrun <;> cases hrun
      have hname : isBlank p.name = false := by simpa [fit] using hop
      exact h.insert (tidy_applyMeta? (tidy_newEntry hname _) p.info)
  | delete name =>
    simp only [Op.run, secretDelete] at hrun
    split at hrun <;> cases hrun
    exact h.erase name
  | rename src dst =>
    have hname : isBlank dst = false := by simpa [fit] using hop
    simp only [Op.run, secretRename] at hrun
    split at hrun
    · cases hrun
    · split at hrun <;> cases hrun
      next e he =>
      exact (h.erase src).insert { h src e he with name := hname }
  | generate name value =>
    have hname : isBlank name = false := by simpa [fit] using hop
    simp only [Op.run, secretGenerate] at hrun
    split at hrun <;> cases hrun
    · next e he => exact h.insert ((h name e he).revalued value).redated
    · exact h.insert (tidy_newEntry hname value)

lemma tidy_lasting (L : Packages Key) (cfg : Config) :
    Lasting L cfg (· ≤ ·) fun x s => TidyBody x.now s.body where
  stands := le_refl
  later hxy h name e he := { h name e he with updated := (h name e he).updated.trans hxy.now }
  created _ _ name e he := by simp [Body.default] at he
  rotated h _ _ := h
  run hop h hrun := tidy_run hop h hrun

/-- Whatever requests are in flight and whatever fails, as long as the clock does not go back:
started on no vault, or on a tidy one, the daemon keeps the session and the vault file tidy. -/
theorem stays_tidy (L : Packages Key) (hL : L.toLibrary.Ideal) (cfg : Config) (fs : FileSystem)
    (clock n : ℕ) (hfs : ∀ s, Holds L.toLibrary fs cfg.vaultPath s → TidyBody n s.body)
    (as : List Action) (d : State Key)
    (hn : Along (track (step L cfg) Seen.update) (Onward (· ≤ ·)) (⟨n, []⟩, start Key fs clock) as)
    (hrun : run (step L cfg) (start Key fs clock) as = some d) :
    let now := (history (step L cfg) Seen.update ⟨n, []⟩ (start Key fs clock) as).now
    (∀ s, d.shared.session = some s → TidyBody now s.body) ∧
      ∀ s, Holds L.toLibrary d.shared.world.fs cfg.vaultPath s → TidyBody now s.body := by
  have hstart : Kept L cfg (fun x s => TidyBody x.now s.body) ⟨n, []⟩ (start Key fs clock) :=
    ⟨⟨nofun, hfs⟩, fun _ => soundPc_of_none rfl rfl rfl⟩
  have hend := kept_run hL (tidy_lasting L cfg) hstart hn hrun
  exact ⟨hend.shared.session, hend.shared.file⟩

/-- A vault that is created and given a secret, which is renamed while the disk is full. -/
def renamedUnsaved : List Action :=
  .connect :: (Sample.served 0 "vault.create" [("password", .str "pw")] 8 ++
    (Sample.served 0 "secret.set" [("name", .str "a"), ("value", .str "x"),
        ("meta", .obj [("user", .str "")])] 4 ++
      .request 0 1 1 "secret.rename" (.obj [("from", .str "a"), ("to", .str "b")]) ::
        List.replicate 4 (.run 0 { Sample.env with
          now := 9
          io := ⟨fun call => if call = .writeAll then some "full" else none, none⟩ } false)))

theorem stays_tidy_renamedUnsaved : ∃ d,
    run Sample.step (start Sample.Key (fun _ => none) 0) renamedUnsaved = some d ∧
      (∀ s, d.shared.session = some s → TidyBody 9 s.body) ∧
        ∀ s, Holds Sample.packages.toLibrary d.shared.world.fs Sample.config.vaultPath s →
          TidyBody 9 s.body := by
  obtain ⟨d, hrun⟩ : ∃ d,
      run Sample.step (start Sample.Key (fun _ => none) 0) renamedUnsaved = some d :=
    Option.isSome_iff_exists.mp (by decide +kernel)
  have hnow : (history Sample.step Seen.update ⟨7, []⟩ (start Sample.Key (fun _ => none) 0)
      renamedUnsaved).now = 9 := by
    decide +kernel
  have hnone : ∀ s, Holds Sample.packages.toLibrary (fun _ => none) Sample.config.vaultPath s →
      TidyBody 7 s.body := by
    intro s hs
    have hfile := hs.fileExists
    cases hfile
  have htidy := stays_tidy Sample.packages Sample.library_ideal Sample.config (fun _ => none) 0 7
    hnone renamedUnsaved d (by decide +kernel) hrun
  rw [hnow] at htidy
  exact ⟨d, hrun, htidy⟩

end LvimKeyring.Upkeep
