import LvimKeyring.Lib.Machine
import LvimKeyring.Mirror
import LvimKeyring.Sample

/-!
What a locked vault shows.

Its file is only opened by a request that names a master password, and a password that does not
open it is refused alike whatever the file holds.
-/

namespace LvimKeyring.LockedView

open Rpc Crypto Vault Server Daemon Transition Mirror

variable {Key : Type}

/-! ### The statement -/

/-- Two vault files are sealed under one salt and one set of cost parameters. -/
def SealedAlike (L : Library Key) (path : String) (fs₁ fs₂ : FileSystem) : Prop :=
  ∃ s₁ s₂, Holds L fs₁ path s₁ ∧ Holds L fs₂ path s₂ ∧ s₂.salt = s₁.salt ∧ s₂.params = s₁.params

/-- A request, with what the environment contributes to it, handled at one stroke: its response
and the notifications. -/
def handle (L : Packages Key) (cfg : Config) (w : World Key) (r : Env × String × Json) :
    World Key × Except Err Reply × List Note :=
  let o := Server.dispatch L cfg r.1 w r.2.1 r.2.2
  (o.world, o.reply, o.sent)

/-- The request is no create, unlock or rotate that succeeds. -/
def Fails (L : Packages Key) (cfg : Config) (w : World Key) (r : Env × String × Json) : Bool :=
  match r.2.1, (handle L cfg w r).2.1 with
  | "vault.create", .ok _ | "vault.unlock", .ok _ | "vault.rotate", .ok _ => false
  | _, _ => true

/-- Two locked vaults answer the same requests alike as long as none of them opens a vault. -/
def RevealsNothing : Prop :=
  ∀ (Key : Type) (L : Packages Key) (cfg : Config) (inner : Inner Key) (fs₁ fs₂ : FileSystem)
    (rs : List (Env × String × Json)), L.toLibrary.Ideal → inner.session = none →
    SealedAlike L.toLibrary cfg.vaultPath fs₁ fs₂ →
    Along (fun w r => some (handle L cfg w r).1) (fun w r => Fails L cfg w r) ⟨fs₁, inner⟩ rs →
    Along (fun w r => some (handle L cfg w r).1) (fun w r => Fails L cfg w r) ⟨fs₂, inner⟩ rs →
    Machine.answers (handle L cfg) ⟨fs₁, inner⟩ rs = Machine.answers (handle L cfg) ⟨fs₂, inner⟩ rs

/-- Two locked daemons, the same but for their files. -/
structure LockedAlike (L : Packages Key) (cfg : Config) (d₁ d₂ : State Key) : Prop where
  locked : d₁.shared.session = none
  sealed : SealedAlike L.toLibrary cfg.vaultPath d₁.shared.world.fs d₂.shared.world.fs
  same : d₂ = { d₁ with shared := d₁.shared.withFs d₂.shared.world.fs }
  plain : ∀ t, (d₁.pc t).plain = true

/-- A create, an unlock or a rotate has succeeded: its session is installed next. -/
def succeeded : Pc Key → Bool
  | .install _ _ => true
  | _ => false

/-- No create, unlock or rotate succeeds in the step. -/
def Fruitless (L : Packages Key) (cfg : Config) (d : State Key) : Action → Bool
  | .run t env expired =>
    ((d.pc t).exec L cfg env expired t (d.origin t) d.shared).all fun x => !succeeded x.2
  | _ => true

/-- The old password that a rotate checks in the step opens both of two vaults or neither. -/
def EvenHanded (L : Packages Key) (cfg : Config) (fs₁ fs₂ : FileSystem) (d : State Key) :
    Action → Bool
  | .run t env _ =>
    match d.pc t with
    | .call (.rotate old _) =>
      (Vault.unlock L.toLibrary env.io fs₁ cfg.vaultPath (asBytes old)).isOk ==
        (Vault.unlock L.toLibrary env.io fs₂ cfg.vaultPath (asBytes old)).isOk
    | _ => true
  | _ => true

/-! ### Refused passwords -/

variable {L : Packages Key} {cfg : Config} {env : Env} {expired : Bool} {t : ℕ}
variable {origin : ℕ × ℕ} {sh₁ sh₁' sh₂ : Shared Key} {p p' q : Pc Key}

lemma unlock_sealedAlike {L : Library Key} (hL : L.Ideal) {path : String} {fs₁ fs₂ : FileSystem}
    (h : SealedAlike L path fs₁ fs₂) (io : Faults) (pw : Bytes) :
    (∃ s, unlock L io fs₁ path pw = .ok s) ∨ (∃ s, unlock L io fs₂ path pw = .ok s) ∨
      ∃ e, unlock L io fs₁ path pw = .error e ∧ unlock L io fs₂ path pw = .error e := by
  classical
  obtain ⟨s₁, s₂, h₁, h₂, hsalt, hparams⟩ := h
  rw [unlock_of_holds hL h₁, unlock_of_holds hL h₂, Session.opened, Session.opened, hsalt, hparams]
  cases io.fails .read with
  | some e => exact .inr (.inr ⟨_, rfl, rfl⟩)
  | none =>
    cases deriveKey L.toPrimitives pw s₁.salt s₁.params with
    | error e => exact .inr (.inr ⟨e, rfl, rfl⟩)
    | ok key =>
      by_cases hk₁ : key = s₁.key
      · exact .inl ⟨s₁, if_pos hk₁⟩
      · by_cases hk₂ : key = s₂.key
        · exact .inr (.inl ⟨s₂, if_pos hk₂⟩)
        · exact .inr (.inr ⟨.wrongPassword, if_neg hk₁, if_neg hk₂⟩)

lemma unlock_evenHanded {L : Library Key} (hL : L.Ideal) {path : String} {fs₁ fs₂ : FileSystem}
    (h : SealedAlike L path fs₁ fs₂) {io : Faults} {pw : Bytes}
    (hboth : (unlock L io fs₁ path pw).isOk = (unlock L io fs₂ path pw).isOk) :
    (∃ s s', unlock L io fs₁ path pw = .ok s ∧ unlock L io fs₂ path pw = .ok s') ∨
      ∃ e, unlock L io fs₁ path pw = .error e ∧ unlock L io fs₂ path pw = .error e := by
  have hok {x y : Except Err (Session Key)} {s : Session Key} (hxy : x.isOk = y.isOk)
      (hx : x = .ok s) : ∃ s', y = .ok s' := by
    rw [hx] at hxy
    cases y with
    | error e => cases hxy
    | ok s' => exact ⟨s', rfl⟩
  rcases unlock_sealedAlike hL h io pw with ⟨s, hs⟩ | ⟨s', hs'⟩ | hrefused
  · obtain ⟨s', hs'⟩ := hok hboth hs
    exact .inl ⟨s, s', hs, hs'⟩
  · obtain ⟨s, hs⟩ := hok hboth.symm hs'
    exact .inl ⟨s, s', hs, hs'⟩
  · exact .inr hrefused

/-! ### Side by side -/

/-- No two sessions are related: there is none. -/
def NoSession (_ _ : Session Key) : Prop := False

/-- The vault files are those of the start. -/
def Untouched (path : String) (fs₁ fs₂ : FileSystem) (fs fs' : FileSystem) : Prop :=
  fs path = fs₁ path ∧ fs' path = fs₂ path

variable {fs₁ fs₂ : FileSystem}

lemma SealedAlike.exists {L : Library Key} {path : String} (h : SealedAlike L path fs₁ fs₂) :
    fileExists fs₁ path = true ∧ fileExists fs₂ path = true := by
  obtain ⟨s₁, s₂, h₁, h₂, -⟩ := h
  exact ⟨h₁.fileExists, h₂.fileExists⟩

lemma discreet {L : Library Key} (hs : SealedAlike L cfg.vaultPath fs₁ fs₂) :
    Discreet cfg (@NoSession Key) (Untouched cfg.vaultPath fs₁ fs₂) where
  listing h := h.elim
  found h := by
    have hfs₁ := hs.exists.1
    have hfs₂ := hs.exists.2
    simp only [fileExists] at hfs₁ hfs₂ ⊢
    rw [h.1, h.2, hfs₁, hfs₂]

/-- The sessions that two rotations write from need not be related. -/
abbrev Level (cfg : Config) (fs₁ fs₂ : FileSystem) : State Key → State Key → Prop :=
  Together NoSession (fun _ _ => True) (Untouched cfg.vaultPath fs₁ fs₂) Pc.plain

abbrev Follows (L : Packages Key) (cfg : Config) (fs₁ fs₂ : FileSystem) (env : Env)
    (expired : Bool) (t : ℕ) (origin : ℕ × ℕ) : Shared Key → Pc Key → Shared Key → Pc Key → Prop :=
  Mirror.Follows L cfg env expired t origin NoSession (Untouched cfg.vaultPath fs₁ fs₂)
    (Abreast NoSession (fun _ _ => True) Pc.plain)

lemma locked_of_beside {F : FileSystem → FileSystem → Prop} (h : Beside NoSession F sh₁ sh₂) :
    sh₁.session = none ∧ sh₂.session = none := by
  have hs := h.session
  generalize sh₁.session = s₁ at hs
  generalize sh₂.session = s₂ at hs
  cases hs with
  | some hrel => exact hrel.elim
  | none => exact ⟨rfl, rfl⟩

lemma plain_of_begin (hfile : fileExists sh₁.world.fs cfg.vaultPath = true) {c : Call}
    (hc : opensFile c = false) (h : begin L cfg env sh₁ c = some (sh₁', p')) : p'.plain = true := by
  by_cases hlock : c = .lock
  · subst hlock
    cases h
    split <;> rfl
  · obtain ⟨-, -, hopened⟩ := begin_opened hlock h
    cases hopened with
    | plain hplain => exact hplain
    | create habsent =>
      rw [hfile] at habsent
      cases habsent
    | unlock | rotate => cases hc

lemma rotateRead_fails {L : Library Key} (hL : L.Ideal) {io : Faults} {fs fs₁' : FileSystem}
    {path : String} {s : Session Key} (fs' : FileSystem) (s' : Session Key) {pw : Bytes}
    {params : KdfParams}
    {salt : Salt} {nonce : Nonce} {e : Err}
    (h : rotateRead L io fs path s pw params salt nonce = (fs₁', .error e)) :
    fs₁' path = fs path ∧ ∃ fs₂', rotateRead L io fs' path s' pw params salt nonce
      = (fs₂', .error e) ∧ fs₂' path = fs' path := by
  unfold rotateRead at h ⊢
  cases hkey : deriveKey L.toPrimitives pw salt params with
  | error e' =>
    simp only [hkey] at h
    cases h
    exact ⟨rfl, fs', rfl, rfl⟩
  | ok key =>
    simp only [hkey, writeNew] at h ⊢
    have hreply := write_reply hL io fs fs' path ⟨⟨s.body.entries⟩, key, salt, params⟩
      ⟨⟨s'.body.entries⟩, key, salt, params⟩ nonce
    rcases hw : write L io fs path ⟨⟨s.body.entries⟩, key, salt, params⟩ nonce with ⟨fs₁, r⟩
    rcases hw' : write L io fs' path ⟨⟨s'.body.entries⟩, key, salt, params⟩ nonce with ⟨fs₂, r'⟩
    rw [hw, hw'] at hreply
    rw [hw] at h
    cases hreply
    cases r with
    | ok _ => cases h
    | error e' =>
      cases h
      exact ⟨write_error hw, fs₂, rfl, write_error hw'⟩

lemma rotateWrite_follows (hL : L.toLibrary.Ideal)
    (h : Beside NoSession (Untouched cfg.vaultPath fs₁ fs₂) sh₁ sh₂) {s : Session Key}
    (s' : Session Key) {old new : String}
    (hexec : (Pc.rotateWrite s old new).exec L cfg env expired t origin sh₁ = some (sh₁', p'))
    (hp' : succeeded p' = false) :
    Follows L cfg fs₁ fs₂ env expired t origin sh₂ (.rotateWrite s' old new) sh₁' p' := by
  simp only [Pc.exec, Option.some.injEq] at hexec
  rcases hr : rotateRead L.toLibrary env.io sh₁.world.fs cfg.vaultPath s (asBytes new) cfg.kdf
    env.salt env.nonce with ⟨fs₁', e | u⟩
  · obtain ⟨hfs₁, fs₂', hr', hfs₂⟩ := rotateRead_fails hL sh₂.world.fs s' hr
    rw [hr] at hexec
    cases hexec
    refine ⟨sh₂.withFs fs₂', .respond (.error e), by simp only [Pc.exec, hr', afterWrite], ?_,
      .same rfl⟩
    exact h.changed ⟨hfs₁.trans h.files.1, hfs₂.trans h.files.2⟩ h.session
  · rw [hr] at hexec
    cases hexec
    cases hp'

/-- A section of one daemon is followed by that of the other, unless a session is installed. -/
lemma exec_follows (hL : L.toLibrary.Ideal) (hs : SealedAlike L.toLibrary cfg.vaultPath fs₁ fs₂)
    (h : Beside NoSession (Untouched cfg.vaultPath fs₁ fs₂) sh₁ sh₂)
    (hpq : Abreast NoSession (fun _ _ => True) Pc.plain p q)
    (hexec : p.exec L cfg env expired t origin sh₁ = some (sh₁', p')) (hp' : succeeded p' = false)
    (hq' : (q.exec L cfg env expired t origin sh₂).all (fun x => !succeeded x.2) = true)
    (hboth : ∀ old new, p = .call (.rotate old new) →
      (Vault.unlock L.toLibrary env.io fs₁ cfg.vaultPath (asBytes old)).isOk
        = (Vault.unlock L.toLibrary env.io fs₂ cfg.vaultPath (asBytes old)).isOk) :
    Follows L cfg fs₁ fs₂ env expired t origin sh₂ q sh₁' p' := by
  have hv := discreet hs
  obtain ⟨hs₁, hs₂⟩ := locked_of_beside h
  have hopen₁ := unlock_congr (L := L.toLibrary) h.files.1 env.io
  have hopen₂ := unlock_congr (L := L.toLibrary) h.files.2 env.io
  cases hpq with
  | install hrel => exact hrel.elim
  | rotateWrite => exact rotateWrite_follows hL h _ hexec hp'
  | same hp =>
    by_cases hrests : p.rests = true
    · exact (rests_follows hv h hrests hexec).same (exec_rests hrests hexec).plain
    cases p with
    | createWrite | rotateWrite | install => cases hp
    | tickTake =>
      refine (tickTake_follows h hexec).same ?_
      cases hexec
      split <;> rfl
    | access op =>
      have hw₁ : sh₁.world.inner.session = none := hs₁
      have hw₂ : sh₂.world.inner.session = none := hs₂
      simp only [Pc.exec, Server.withSession, hw₁] at hexec
      cases hexec
      exact ⟨sh₂, _, by simp only [Pc.exec, Server.withSession, hw₂], h, .same rfl⟩
    | call c =>
      by_cases hc : opensFile c = false
      · have hfile : fileExists sh₁.world.fs cfg.vaultPath = true := by
          have hfs₁ := hs.exists.1
          simp only [fileExists] at hfs₁ ⊢
          rw [h.files.1, hfs₁]
        exact (begin_follows hv h hc hexec).same (plain_of_begin hfile hc hexec)
      cases c with
      | unlock password =>
        simp only [Pc.exec, begin, hopen₁] at hexec
        simp only [Pc.exec, begin, hopen₂] at hq'
        rcases unlock_sealedAlike hL hs env.io (asBytes password) with
          ⟨s, hok⟩ | ⟨s, hok⟩ | ⟨e, he₁, he₂⟩
        · rw [hok] at hexec
          cases hexec
          cases hp'
        · rw [hok] at hq'
          cases hq'
        · rw [he₁] at hexec
          cases hexec
          exact ⟨sh₂, _, by simp only [Pc.exec, begin, hopen₂, he₂], h, .same rfl⟩
      | rotate old new =>
        simp only [Pc.exec, begin, hopen₁] at hexec
        rcases unlock_evenHanded hL hs (hboth old new rfl) with ⟨s, s', hok₁, hok₂⟩ | ⟨e, he₁, he₂⟩
        · rw [hok₁] at hexec
          cases hexec
          exact ⟨sh₂, .rotateWrite s' old new, by simp only [Pc.exec, begin, hopen₂, hok₂], h,
            .rotateWrite trivial old new⟩
        · rw [he₁] at hexec
          cases hexec
          exact ⟨sh₂, _, by simp only [Pc.exec, begin, hopen₂, he₂], h, .same rfl⟩
      | _ => exact absurd rfl hc
    | _ => exact absurd rfl hrests

lemma level_step (hL : L.toLibrary.Ideal) (hs : SealedAlike L.toLibrary cfg.vaultPath fs₁ fs₂)
    {d₁ d₁' d₂ : State Key} {a : Action} (h : Level cfg fs₁ fs₂ d₁ d₂)
    (h₁ : Fruitless L cfg d₁ a = true) (hboth : EvenHanded L cfg fs₁ fs₂ d₁ a = true)
    (h₂ : Fruitless L cfg d₂ a = true) (hstep : step L cfg d₁ a = some d₁') :
    ∃ d₂', step L cfg d₂ a = some d₂' ∧ Level cfg fs₁ fs₂ d₁' d₂' := by
  refine step_together (fun _ _ _ _ _ _ => rfl) rfl (fun _ _ _ => rfl) ?_ h hstep
  rintro t env expired sh₁' p' rfl hexec
  have hp' : succeeded p' = false := by
    simpa [Fruitless, hexec] using h₁
  have hq' : ((d₂.pc t).exec L cfg env expired t (d₁.origin t) d₂.shared).all
      (fun x => !succeeded x.2) = true := by
    simpa only [Fruitless, h.origin] using h₂
  refine exec_follows hL hs h.shared (h.threads t) hexec hp' hq' fun old new hpc => ?_
  simpa only [EvenHanded, hpc, beq_iff_eq] using hboth

lemma level_of_alike {d₁ d₂ : State Key} (h : LockedAlike L cfg d₁ d₂) :
    Level cfg d₁.shared.world.fs d₂.shared.world.fs d₁ d₂ := by
  obtain ⟨hlocked, -, hsame, hplain⟩ := h
  have hlocked' : d₁.shared.world.inner.session = none := hlocked
  refine ⟨⟨⟨rfl, rfl⟩, ?_, ?_⟩, fun t => ?_, by rw [hsame]⟩
  · rw [hsame, withFs_session, hlocked]
    exact .none
  · rw [hsame]
    simp only [disguise, withFs_session, hlocked]
    simp [Shared.withFs, Shared.withSession, World.withSession, ← hlocked']
  · rw [hsame]
    exact .same (hplain t)

/-- **A locked daemon shows nothing of its vault**: two of them that are the same but for what
their files hold send every client the same lines, on every run on which no create, unlock or
rotate succeeds in either and no rotate is given a password that opens one of the files only. -/
theorem revealsNothing (L : Packages Key) (hL : L.toLibrary.Ideal) (cfg : Config)
    (d₁ d₂ : State Key) (h : LockedAlike L cfg d₁ d₂) (as : List Action)
    (h₁ : Along (step L cfg) (fun d a => Fruitless L cfg d a) d₁ as)
    (h₂ : Along (step L cfg) (fun d a => Fruitless L cfg d a) d₂ as)
    (hboth : Along (step L cfg)
      (fun d a => EvenHanded L cfg d₁.shared.world.fs d₂.shared.world.fs d a) d₁ as)
    (d₁' : State Key) (hrun : run (step L cfg) d₁ as = some d₁') :
    ∃ d₂', run (step L cfg) d₂ as = some d₂' ∧
      ∀ c, d₂'.shared.channel c = d₁'.shared.channel c := by
  have hstep : ∀ e₁ e₂ a e₁', Level cfg d₁.shared.world.fs d₂.shared.world.fs e₁ e₂ →
      (Fruitless L cfg e₁ a = true ∧
        EvenHanded L cfg d₁.shared.world.fs d₂.shared.world.fs e₁ a = true) →
      Fruitless L cfg e₂ a = true → step L cfg e₁ a = some e₁' →
      ∃ e₂', step L cfg e₂ a = some e₂' ∧
        Level cfg d₁.shared.world.fs d₂.shared.world.fs e₁' e₂' :=
    fun _ _ _ _ hlevel h₁ h₂ hstep => level_step hL h.sealed hlevel h₁.1 h₁.2 h₂ hstep
  obtain ⟨d₂', hrun₂, hlevel⟩ :=
    run_simulated hstep (level_of_alike h) (h₁.and hboth) h₂ hrun
  exact ⟨d₂', hrun₂, fun c => by rw [hlevel.channel]⟩

/-! ### A password that is right and a rotation that is refused -/

/-- A vault created under another password, with an entry stored in it. -/
def other : FileSystem :=
  let blank : World Sample.Key := ⟨fun _ => none, Inner.new Sample.Key 0⟩
  let created := (dispatch Sample.packages Sample.config Sample.env blank "vault.create"
    (.obj [("password", .str "other")])).world
  (dispatch Sample.packages Sample.config Sample.env created "secret.set"
    (.obj [("name", .str "a"), ("value", .str "x")])).world.fs

def otherSession : Session Sample.Key :=
  { Sample.session with
    body := ⟨.ofList [("a", newEntry "x" 7)]⟩
    key := Sample.frame.enc (asBytes "other") ++ (Sample.env.salt.toList ++
      LittleEndian.toLe 4 65536 ++ LittleEndian.toLe 4 3 ++ LittleEndian.toLe 4 4) }

lemma other_holds : Holds Sample.packages.toLibrary other Sample.config.vaultPath otherSession := by
  decide +kernel

lemma sealedAlike_other :
    SealedAlike Sample.packages.toLibrary Sample.config.vaultPath Sample.created.fs other :=
  ⟨Sample.session, otherSession, Sample.created_holds, other_holds, rfl, rfl⟩

/-- The cost parameters of the configuration are not valid ones. -/
def weak : Config := { Sample.config with kdf := ⟨1, 3, 4⟩ }

def rotateOnce : Env × String × Json :=
  (Sample.env, "vault.rotate", .obj [("old_password", .str "pw"), ("new_password", .str "new")])

theorem not_revealsNothing : ¬ RevealsNothing := by
  intro h
  have hsame := h Sample.Key Sample.packages weak (Inner.new Sample.Key 0) Sample.created.fs other
    [rotateOnce] Sample.library_ideal rfl sealedAlike_other (by decide +kernel) (by decide +kernel)
  have hfirst : Machine.answers (handle Sample.packages weak)
      ⟨Sample.created.fs, Inner.new Sample.Key 0⟩ [rotateOnce] = [(.error .invalidKdf, [])] := by
    decide +kernel
  have hsecond : Machine.answers (handle Sample.packages weak)
      ⟨other, Inner.new Sample.Key 0⟩ [rotateOnce] = [(.error .wrongPassword, [])] := by
    decide +kernel
  rw [hfirst, hsecond] at hsame
  exact absurd hsame (by decide)

/-- Guesses are refused, a read parks until its deadline, and the state is asked for. -/
def besieged : List Action :=
  .connect :: Sample.served 0 "vault.unlock" [("password", .str "guess")] 4 ++
    Sample.served 0 "vault.rotate" [("old_password", .str "guess"), ("new_password", .str "n")] 3 ++
    Sample.served 0 "secret.get" [("name", .str "a")] 7 ++ .rouse 0 ::
    List.replicate 4 (.run 0 Sample.env true) ++ Sample.served 0 "vault.status" [] 6 ++
    Sample.served 0 "vault.lock" [] 3

theorem revealsNothing_besieged : ∃ d₁', run Sample.step Sample.started besieged = some d₁' ∧
    ∃ d₂', run Sample.step (start Sample.Key other 0) besieged = some d₂' ∧
      ∀ c, d₂'.shared.channel c = d₁'.shared.channel c := by
  have hends : (run Sample.step Sample.started besieged).isSome = true := by decide +kernel
  obtain ⟨d₁', hrun⟩ := Option.isSome_iff_exists.mp hends
  exact ⟨d₁', hrun, revealsNothing Sample.packages Sample.library_ideal Sample.config
    Sample.started (start Sample.Key other 0) ⟨rfl, sealedAlike_other, rfl, fun _ => rfl⟩ besieged
    (by decide +kernel) (by decide +kernel) (by decide +kernel) d₁' hrun⟩

end LvimKeyring.LockedView
