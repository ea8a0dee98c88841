import LvimKeyring.Sample
import LvimKeyring.Serving

/-!
A locked vault among clients none of which has its password.

Whatever they send, and however it interleaves, no session is ever installed, the vault file is
never written, and no line says anything of an entry. It is enough to follow where the threads
can be: with no session to find and no password to check, none of them gets past the checks.
-/

namespace LvimKeyring.Seclusion

open Rpc Params Crypto Vault Server Daemon Transition Result
open Editors (spoken exec_spoken)

variable {Key : Type}

/-! ### What is sent -/

/-- The request offers the password to a method that opens the vault file with it. -/
def offers (pw method : String) (params : Json) : Bool :=
  match method with
  | "vault.unlock" =>
    match PasswordParam.fromValue params with
    | .ok p => p.password == pw
    | .error _ => false
  | "vault.rotate" =>
    match RotateParam.fromValue params with
    | .ok p => p.oldPassword == pw
    | .error _ => false
  | _ => false

/-- The action does not bring the password. -/
def Withheld (pw : String) : Action → Prop
  | .request _ _ _ method params => offers pw method params = false
  | _ => True

instance (pw : String) : DecidablePred (Withheld pw)
  | .request _ _ _ method params => inferInstanceAs (Decidable (offers pw method params = false))
  | .connect | .disconnect _ | .tick _ | .run _ _ _ | .rouse _ => isTrue trivial

/-- The error is about an entry. -/
def aboutEntry : Err → Bool
  | .noSecret _ | .alreadyExists _ | .needsValue | .totpParams | .totpSecret => true
  | _ => false

/-- The reply is one that a locked vault gives, and says nothing of its entries. -/
def discreet : Except Err Reply → Bool
  | .error e => !aboutEntry e
  | .ok .unit | .ok (.generated _) => true
  | .ok (.hello locked _ entries) => locked && entries.isNone
  | .ok (.status locked _ entries left) => locked && entries.isNone && left.isNone
  | .ok (.listing _) | .ok (.secret _ _) | .ok (.totp _ _ _) => false

/-- A line that a locked vault sends: nobody is told that it has been unlocked. -/
def Discreet : Line → Prop
  | .note n => n = .unlockNeeded
  | .response _ r => discreet r = true

/-! ### Where a thread can be -/

/-- The call opens the vault file with the password. -/
def tries (pw : String) : Call → Prop
  | .unlock password => password = pw
  | .rotate old _ => old = pw
  | _ => False

/-- The sections a thread can be at that has found no session and checked no password. -/
def Outside (pw : String) : Pc Key → Prop
  | .dispatch method params => offers pw method params = false
  | .call c => ¬ tries pw c
  | .queryExists _ locked | .querySummaries _ locked _ => locked = true
  | .queryLocked locked _ entries => locked = true ∧ entries = none
  | .countFailure e => aboutEntry e = false
  | .respond r => discreet r = true
  | .idle | .wakeCancelled | .park _ | .signal _ | .capture _ | .recheck _ _ | .decide _ _
  | .asleep _ _ | .woken _ _ | .tickLocked => True
  | .createWrite _ | .rotateWrite _ _ _ | .install _ _ | .resetFails _ | .announceUnlocked _
  | .wake _ | .unlockedSummaries | .announceLocked _ | .access _ | .queryIdle _ _ _ | .tickIdle
  | .tickTake => False

/-- The vault is locked, under the password, and no thread is past the checks. -/
structure Shut (L : Packages Key) (cfg : Config) (pw : String) (fs : FileSystem)
    (d : State Key) : Prop where
  files : d.shared.world.fs = fs
  locked : d.shared.session = none
  threads : ∀ t, Outside pw (d.pc t)
  sealed : ∃ f, Holds L.toLibrary fs cfg.vaultPath f ∧
    deriveKey L.toPrimitives (asBytes pw) f.salt f.params = .ok f.key

/-! ### The errors -/

variable {L : Packages Key} {cfg : Config} {env : Env} {pw : String} {fs : FileSystem}

lemma aboutEntry_prepare {random : ℕ → UInt8} {method : String} {params : Json} {e : Err}
    (h : prepare random method params = .error e) : aboutEntry e = false := by
  have hdecoded : ∀ {α : Type} {r : Except DecodeError α}, decoded r = .error e →
      aboutEntry e = false := by
    intro α r hr
    obtain ⟨e', -, rfl⟩ := mapError_eq_error.mp hr
    rfl
  unfold prepare at h
  split at h
  case h_1 | h_4 | h_5 | h_6 | h_12 | h_13 => cases h
  case h_15 =>
    cases h
    rfl
  case h_2 | h_3 | h_7 | h_8 | h_10 | h_14 =>
    rcases bind_eq_error.mp h with hr | ⟨p, -, hp⟩
    · exact hdecoded hr
    · cases hp
  case h_9 | h_11 =>
    rcases bind_eq_error.mp h with hr | ⟨p, -, hp⟩
    · exact hdecoded hr
    · split at hp <;> cases hp
      rfl

lemma aboutEntry_parse {raw : Bytes} {e : Err} (h : parse raw = .error e) :
    aboutEntry e = false := by
  unfold parse at h
  split at h
  · cases h
    rfl
  · split at h
    · cases h
      rfl
    · split at h
      · cases h
        rfl
      · split at h <;> cases h
        rfl

lemma aboutEntry_deriveKey {P : Primitives Key} {password : Bytes} {salt : Salt}
    {params : KdfParams} {e : Err} (h : deriveKey P password salt params = .error e) :
    aboutEntry e = false := by
  unfold deriveKey at h
  rcases bind_eq_error.mp h with hv | ⟨_, -, h⟩
  · unfold KdfParams.validate at hv
    split at hv <;> cases hv
    rfl
  · rcases bind_eq_error.mp h with hp | ⟨_, -, h⟩
    · obtain ⟨e', -, rfl⟩ := mapError_eq_error.mp hp
      rfl
    · obtain ⟨e', -, rfl⟩ := mapError_eq_error.mp h
      rfl

lemma aboutEntry_unlock {io : Faults} {path : String} {password : Bytes} {e : Err}
    (h : Vault.unlock L.toLibrary io fs path password = .error e) : aboutEntry e = false := by
  unfold Vault.unlock at h
  rcases bind_eq_error.mp h with hread | ⟨raw, -, h⟩
  · unfold readFile at hread
    split at hread <;> cases hread <;> rfl
  rcases bind_eq_error.mp h with hparse | ⟨⟨header, ct⟩, -, h⟩
  · exact aboutEntry_parse hparse
  rcases bind_eq_error.mp h with hkey | ⟨key, -, h⟩
  · exact aboutEntry_deriveKey hkey
  unfold openBody at h
  rcases bind_eq_error.mp h with hopen | ⟨plain, -, h⟩
  · unfold aeadOpen at hopen
    split at hopen <;> cases hopen
    rfl
  rcases bind_eq_error.mp h with hbody | ⟨body, -, h⟩
  · obtain ⟨e', -, rfl⟩ := mapError_eq_error.mp hbody
    rfl
  · cases h

/-! ### A section -/

lemma not_tries_prepare {random : ℕ → UInt8} {method : String} {params : Json} {c : Call}
    (h : prepare random method params = .ok c) (ho : offers pw method params = false) :
    ¬ tries pw c := by
  have hmethod := prepare_method h
  intro hc
  cases c with
  | unlock password =>
    obtain rfl : method = "vault.unlock" := hmethod
    obtain ⟨p, hp, hcall⟩ := bind_eq_ok.mp h
    cases hcall
    simp only [offers, mapError_eq_ok.mp hp, beq_eq_false_iff_ne] at ho
    exact ho hc
  | rotate old new =>
    obtain rfl : method = "vault.rotate" := hmethod
    obtain ⟨p, hp, hcall⟩ := bind_eq_ok.mp h
    cases hcall
    simp only [offers, mapError_eq_ok.mp hp, beq_eq_false_iff_ne] at ho
    exact ho hc
  | _ => exact hc

variable {d d' : State Key} {t : ℕ} {expired : Bool} {origin : ℕ × ℕ} {sh sh' : Shared Key}
variable {p p' : Pc Key}

lemma Shut.unlock_refused (hL : L.toLibrary.Ideal) (h : Shut L cfg pw fs d) {password : String}
    (hne : password ≠ pw) (io : Faults) (s : Session Key) :
    Vault.unlock L.toLibrary io d.shared.world.fs cfg.vaultPath (asBytes password) ≠ .ok s := by
  intro hs
  obtain ⟨f, hf, hkey⟩ := h.sealed
  rw [h.files] at hs
  obtain ⟨-, hkey', hs⟩ := unlock_eq_ok.mp hs
  obtain rfl := hf.unique hL hs
  exact hne (asBytes_injective (hL.crypto.deriveKey_inj hkey hkey'))

lemma Shut.fileExists (h : Shut L cfg pw fs d) :
    fileExists d.shared.world.fs cfg.vaultPath = true := by
  obtain ⟨f, hf, -⟩ := h.sealed
  rw [h.files]
  exact hf.fileExists

/-- What a section of a thread outside leaves behind. -/
structure Kept (pw : String) (sh sh' : Shared Key) (p' : Pc Key) : Prop where
  fs : sh'.world.fs = sh.world.fs
  session : sh'.session = sh.session
  outside : Outside pw p'

/-- The first section of a handler that is not given the password. -/
lemma begin_kept (hL : L.toLibrary.Ideal) (h : Shut L cfg pw fs d) {c : Call}
    (hc : ¬ tries pw c) (hexec : begin L cfg env d.shared c = some (sh', p')) :
    Kept pw d.shared sh' p' := by
  have hlocked := h.locked
  cases c with
  | hello | status =>
    cases hexec
    exact ⟨rfl, rfl, by simp [Outside, hlocked]⟩
  | create password =>
    simp only [begin, h.fileExists, if_true] at hexec
    cases hexec
    exact ⟨rfl, rfl, rfl⟩
  -- The password that would open the file is the one that is withheld.
  | unlock password =>
    simp only [begin] at hexec
    split at hexec <;> cases hexec
    · rename_i s hs
      exact absurd hs (h.unlock_refused hL hc env.io s)
    · rename_i e he
      exact ⟨rfl, rfl, aboutEntry_unlock he⟩
  | lock =>
    simp only [begin, hlocked, Option.isSome_none, Bool.false_eq_true, if_false] at hexec
    cases hexec
    exact ⟨rfl, hlocked.symm, rfl⟩
  | unlockCancel =>
    simp only [begin] at hexec
    split at hexec <;> cases hexec
    exact ⟨rfl, rfl, trivial⟩
  | rotate old new =>
    simp only [begin] at hexec
    split at hexec <;> cases hexec
    · rename_i s hs
      exact absurd hs (h.unlock_refused hL hc env.io s)
    · rename_i e he
      exact ⟨rfl, rfl, by simp [Outside, discreet, aboutEntry_unlock he]⟩
  | session wait op =>
    simp only [begin, hlocked, Option.isSome_none, Bool.false_eq_true, if_false] at hexec
    cases hexec
    refine ⟨rfl, rfl, ?_⟩
    split
    · trivial
    · rfl
  | bare value =>
    cases hexec
    exact ⟨rfl, rfl, rfl⟩

/-- A thread outside stays outside. -/
lemma exec_kept (hL : L.toLibrary.Ideal) (h : Shut L cfg pw fs d) (hp : Outside pw p)
    (hexec : p.exec L cfg env expired t origin d.shared = some (sh', p')) :
    Kept pw d.shared sh' p' := by
  have hlocked := h.locked
  cases p with
  | idle | asleep => cases hexec
  | createWrite | rotateWrite | install | resetFails | announceUnlocked | wake
  | unlockedSummaries | announceLocked | access | queryIdle | tickIdle | tickTake => exact hp.elim
  -- A request that offers another password is told nothing of what the file holds.
  | dispatch method params =>
    simp only [Pc.exec] at hexec
    split at hexec
    · rename_i c hc
      cases hexec
      refine ⟨?_, ?_, not_tries_prepare hc hp⟩ <;> split <;> rfl
    · rename_i e he
      cases hexec
      refine ⟨?_, ?_, by simp [Outside, discreet, aboutEntry_prepare he]⟩ <;> split <;> rfl
  | call c => exact begin_kept hL h hp hexec
  | countFailure e =>
    cases hexec
    exact ⟨rfl, rfl, by simp [Outside, discreet, show aboutEntry e = false from hp]⟩
  | park op =>
    simp only [Pc.exec, hlocked, Option.isSome_none, Bool.false_eq_true, if_false] at hexec
    cases hexec
    exact ⟨rfl, rfl, trivial⟩
  | capture op | woken op start =>
    simp only [Pc.exec] at hexec
    split at hexec <;> cases hexec
    exact ⟨rfl, rfl, trivial⟩
  | recheck op start =>
    simp only [Pc.exec, hlocked, Option.isSome_none, Bool.false_eq_true, if_false] at hexec
    cases hexec
    exact ⟨rfl, rfl, trivial⟩
  | decide op start =>
    simp only [Pc.exec] at hexec
    split at hexec <;> cases hexec
    · exact ⟨rfl, rfl, rfl⟩
    · exact ⟨rfl, rfl, trivial⟩
  | querySummaries full locked ex =>
    obtain rfl : locked = true := hp
    simp only [Pc.exec, hlocked, Option.map_none] at hexec
    cases hexec
    refine ⟨rfl, rfl, ?_⟩
    split
    · rfl
    · split
      · rfl
      · exact ⟨rfl, rfl⟩
  | queryLocked locked ex entries =>
    obtain ⟨rfl, rfl⟩ := hp
    simp only [Pc.exec, hlocked, Option.isSome_none, Bool.false_eq_true, if_false] at hexec
    cases hexec
    exact ⟨rfl, rfl, rfl⟩
  | tickLocked =>
    simp only [Pc.exec, hlocked, Option.isNone_none, or_true, if_true] at hexec
    cases hexec
    exact ⟨rfl, rfl, trivial⟩
  | queryExists full locked =>
    cases hexec
    exact ⟨rfl, rfl, hp⟩
  | wakeCancelled =>
    cases hexec
    exact ⟨rfl, rfl, rfl⟩
  | signal op | respond r =>
    cases hexec
    exact ⟨rfl, rfl, trivial⟩

lemma discreet_spoken (sh : Shared Key) (hp : Outside pw p) (c : ℕ) :
    ∀ l ∈ spoken sh p origin c, Discreet l := by
  cases p with
  | announceUnlocked | announceLocked => exact hp.elim
  | signal op =>
    simp only [spoken]
    split
    · exact List.forall_mem_singleton.mpr rfl
    · exact List.forall_mem_nil _
  | respond r =>
    simp only [spoken]
    split
    · exact List.forall_mem_singleton.mpr hp
    · exact List.forall_mem_nil _
  | _ => exact List.forall_mem_nil _

/-! ### A run -/

lemma outside_rouse (h : Outside pw p) : Outside pw (rouse p) := by
  cases p with
  | asleep op start => trivial
  | _ => exact h

lemma Shut.withPc (h : Shut L cfg pw fs d) (t : ℕ) (hp : Outside pw p) :
    Shut L cfg pw fs (d.withPc t p) := by
  refine ⟨h.files, h.locked, fun u => ?_, h.sealed⟩
  by_cases hu : u = t
  · subst hu
    simpa [State.withPc] using hp
  · simpa [State.withPc, Function.update_of_ne hu] using h.threads u

lemma shut_run (hL : L.toLibrary.Ideal) (h : Shut L cfg pw fs d)
    (hstep : step L cfg d (.run t env expired) = some d') : Shut L cfg pw fs d' := by
  obtain ⟨p, hexec, hp, hothers⟩ := step_run hstep
  have hkept := exec_kept hL h (h.threads t) hexec
  refine ⟨hkept.fs.trans h.files, hkept.session.trans h.locked, fun u => ?_, h.sealed⟩
  by_cases hu : u = t
  · rw [hu, hp]
    exact hkept.outside
  · rw [hothers u hu]
    split
    · exact outside_rouse (h.threads u)
    · exact h.threads u

theorem shut_step (hL : L.toLibrary.Ideal) {a : Action} (h : Shut L cfg pw fs d)
    (ha : Withheld pw a) (hstep : step L cfg d a = some d') : Shut L cfg pw fs d' := by
  cases a with
  | run t env expired => exact shut_run hL h hstep
  | connect | disconnect =>
    cases stepped hstep
    exact ⟨h.files, h.locked, h.threads, h.sealed⟩
  | request t c id method params =>
    cases stepped hstep
    have hd : Shut L cfg pw fs { d with origin := Function.update d.origin t (c, id) } :=
      ⟨h.files, h.locked, h.threads, h.sealed⟩
    exact hd.withPc t ha
  | tick t =>
    cases stepped hstep
    exact h.withPc t trivial
  | rouse t =>
    cases stepped hstep
    exact h.withPc t trivial

/-- Since a state, only lines that say nothing of an entry have been sent. -/
def Muted (d₀ d : State Key) : Prop :=
  ∀ c, ∃ new, d.shared.channel c = d₀.shared.channel c ++ new ∧ ∀ l ∈ new, Discreet l

lemma muted_step {d₀ : State Key} {a : Action} (h : Shut L cfg pw fs d) (hm : Muted d₀ d)
    (hstep : step L cfg d a = some d') : Muted d₀ d' := by
  intro c
  obtain ⟨new, hnew, hdiscreet⟩ := hm c
  by_cases ha : ∃ t env expired, a = .run t env expired
  · obtain ⟨t, env, expired, rfl⟩ := ha
    obtain ⟨p, hexec, -⟩ := step_run hstep
    refine ⟨new ++ spoken d.shared (d.pc t) (d.origin t) c, ?_, ?_⟩
    · rw [exec_spoken hexec c, hnew, List.append_assoc]
    · exact List.forall_mem_append.mpr ⟨hdiscreet, discreet_spoken _ (h.threads t) c⟩
  · have hq := step_quiet hstep fun t env expired heq => ha ⟨t, env, expired, heq⟩
    exact ⟨new, by rw [hq.channel, hnew], hdiscreet⟩

/-- The vault has been locked and silent since a state. -/
structure Closed (L : Packages Key) (cfg : Config) (pw : String) (d₀ d : State Key) : Prop where
  shut : Shut L cfg pw d₀.shared.world.fs d
  muted : Muted d₀ d

lemma closed_step (hL : L.toLibrary.Ideal) {d₀ : State Key} {a : Action}
    (h : Closed L cfg pw d₀ d) (ha : Withheld pw a) (hstep : step L cfg d a = some d') :
    Closed L cfg pw d₀ d' :=
  ⟨shut_step hL h.shut ha hstep, muted_step h.shut h.muted hstep⟩

/-- A vault that is locked, with nothing in flight, stays locked and as it is until somebody
sends its password, and until then its clients are told nothing of its entries. -/
theorem shut_of_withheld (L : Packages Key) (hL : L.toLibrary.Ideal) (cfg : Config) (pw : String)
    (f : Session Key) (hkey : deriveKey L.toPrimitives (asBytes pw) f.salt f.params = .ok f.key)
    (d₀ d : State Key) (hf : Holds L.toLibrary d₀.shared.world.fs cfg.vaultPath f)
    (hlocked : d₀.shared.session = none) (hidle : ∀ t, d₀.pc t = .idle) (as : List Action)
    (hwithheld : ∀ a ∈ as, Withheld pw a) (hrun : run (step L cfg) d₀ as = some d) :
    d.shared.session = none ∧ d.shared.world.fs = d₀.shared.world.fs ∧ Muted d₀ d := by
  have hstart : Closed L cfg pw d₀ d₀ := by
    refine ⟨⟨rfl, hlocked, fun t => ?_, f, hf, hkey⟩, fun c => ⟨[], by simp, by simp⟩⟩
    rw [hidle t]
    trivial
  have hsteps : Along (step L cfg) (fun _ a => Withheld pw a) d₀ as :=
    along_of_forall fun a ha _ => hwithheld a ha
  have hend : Closed L cfg pw d₀ d :=
    run_inv (fun _ _ _ h ha hstep => closed_step hL h ha hstep) hstart hsteps hrun
  exact ⟨hend.shut.locked, hend.shut.files, hend.muted⟩

/-- A guess, a read that does not wait and a rotation with another guess. -/
def guesses : List Action :=
  .connect :: (Sample.served 0 "vault.unlock" [("password", .str "guess")] 4 ++
    (Sample.served 0 "secret.get" [("name", .str "a"), ("wait", .bool false)] 3 ++
      Sample.served 0 "vault.rotate"
        [("old_password", .str "guess"), ("new_password", .str "pw")] 3))

theorem shut_of_guesses : ∃ d, run Sample.step Sample.started guesses = some d ∧
    d.shared.session = none ∧ d.shared.world.fs = Sample.created.fs ∧
      Muted Sample.started d := by
  obtain ⟨d, hrun⟩ : ∃ d, run Sample.step Sample.started guesses = some d :=
    Option.isSome_iff_exists.mp (by decide +kernel)
  exact ⟨d, hrun, shut_of_withheld Sample.packages Sample.library_ideal Sample.config "pw"
    Sample.session (by decide +kernel) Sample.started d Sample.created_holds rfl
      (fun _ => rfl) guesses
    (by decide +kernel) hrun⟩

end LvimKeyring.Seclusion
