import LvimKeyring.LockedView
import LvimKeyring.ValueView

/-!
What the secret of a one-time password decides.

Two entries that are flagged and whose values yield the same codes at all times cannot be told
apart by any request but the one that reads the value.
-/

namespace LvimKeyring.TotpView

open Rpc Params Crypto Vault Server Daemon Transition OrderedMap Mirror Likeness
open LockedView (handle)

variable {Key : Type}

/-! ### The statement -/

/-- The same entry, or two that are flagged and differ in values that yield the same codes, or
the same decoding error, at all times. -/
def Veiled (T : Totp.Packages) (e e' : Entry) : Prop :=
  e' = e ∨ e.totp = true ∧ e' = { e with value := e'.value } ∧
    ∀ now, Totp.code T e'.value now 30 6 = Totp.code T e.value now 30 6

/-- The entry of a name in an unlocked vault. -/
def entryOf (w : World Key) (name : String) : Option Entry :=
  w.inner.session.bind fun s => s.body.entries[name]?

/-- Handled one after the other, the requests leave the entries alone that two worlds differ in. -/
def LeavesAlone (L : Packages Key) (cfg : Config) :
    World Key → World Key → List (Env × String × Json) → Prop
  | _, _, [] => True
  | w₁, w₂, r :: rs =>
    (∀ name, entryOf w₁ name ≠ entryOf w₂ name →
      entryOf (handle L cfg w₁ r).1 name = entryOf w₁ name ∧
        entryOf (handle L cfg w₂ r).1 name = entryOf w₂ name) ∧
      LeavesAlone L cfg (handle L cfg w₁ r).1 (handle L cfg w₂ r).1 rs

/-- The world a daemon has come to after the requests. -/
def after (L : Packages Key) (cfg : Config) (fs : FileSystem) (clock : ℕ)
    (rs : List (Env × String × Json)) : World Key :=
  rs.foldl (fun w r => (handle L cfg w r).1) ⟨fs, Inner.new Key clock⟩

/-- Two daemons that have come to differ in the secrets of one-time passwords only answer the
same requests alike, as long as they leave those entries alone. -/
def NeverLeaves : Prop :=
  ∀ (Key : Type) (L : Packages Key) (cfg : Config) (fs : FileSystem) (clock : ℕ)
    (rs₁ rs₂ rs : List (Env × String × Json)) (w₁ w₂ : World Key), L.toLibrary.Ideal →
    w₁ = after L cfg fs clock rs₁ → w₂ = after L cfg fs clock rs₂ →
    (∃ s₁ s₂, w₁.inner.session = some s₁ ∧ w₂.inner = { w₁.inner with session := some s₂ } ∧
      Sessions (Veiled L.totp) s₁ s₂) →
    Files (Veiled L.totp) L.toLibrary cfg.vaultPath w₁.fs w₂.fs → LeavesAlone L cfg w₁ w₂ rs →
    Machine.answers (handle L cfg) w₁ rs = Machine.answers (handle L cfg) w₂ rs

/-! ### Conditions on the steps of two daemons -/

/-- The entries of a name differ. -/
def differ (b b' : Body) (name : String) : Bool := b.entries[name]? != b'.entries[name]?

/-- A `secret.set` that takes the flag from an entry and leaves its value in place. -/
def unflags (b b' : Body) : Op → Bool
  | .set p => differ b b' p.name && p.value.isNone && p.info.bind MetaIn.totp == some false
  | _ => false

/-- A `secret.get` of an entry that the two differ in. -/
def reads (b b' : Body) : Op → Bool
  | .get name => differ b b' name
  | _ => false

/-- The operation the step runs is not a bad one. -/
def Spares (bad : Body → Body → Op → Bool) (d₁ d₂ : State Key) : Action → Bool
  | .run t _ _ =>
    match d₁.pc t, d₁.shared.session, d₂.shared.session with
    | .access op, some s, some s' => !bad s.body s'.body op
    | _, _, _ => true
  | _ => true

/-! ### Steps -/

lemma veiled_ofValues (T : Totp.Packages) : OfValues (Veiled T) where
  refl e := .inl rfl
  value h := by
    rcases h with rfl | ⟨-, h, -⟩
    · rfl
    · exact h

lemma Veiled.amended {T : Totp.Packages} {e e' : Entry} (h : Veiled T e e') {m : Option MetaIn}
    (hm : m.bind MetaIn.totp ≠ some false) (now : ℕ) :
    Veiled T { applyMeta? e m with updated := now } { applyMeta? e' m with updated := now } := by
  rcases h with rfl | ⟨hflag, hvalue, hcode⟩
  · exact .inl rfl
  · have htotp : (applyMeta? e m).totp = true := by
      rw [WalletRefines.applyMeta?_eq]
      change (m.bind MetaIn.totp).getD e.totp = true
      cases hbind : m.bind MetaIn.totp with
      | none => exact hflag
      | some flag => exact (Bool.not_eq_false flag).mp fun hfalse => hm (by rw [hbind, hfalse])
    have hkept : ∀ e : Entry, (applyMeta? e m).value = e.value := by
      intro e
      rw [WalletRefines.applyMeta?_eq]
      rfl
    refine .inr ⟨htotp, ?_, fun now => ?_⟩
    · rw [hkept e', hvalue, WalletRefines.applyMeta?_eq, WalletRefines.applyMeta?_eq]
      rfl
    · simp only [hkept]
      exact hcode now

lemma unseen_of_spared (T : Totp.Packages) (now : ℕ) {b b' : Body} {op : Op}
    (hflag : unflags b b' op = false) (hread : reads b b' op = false) :
    Unseen (Veiled T) T now b b' op := by
  cases op with
  | delete | rename | list | generate => trivial
  | get name =>
    intro e e' ⟨hb, hb', _⟩
    have heq : e = e' := by
      simpa [reads, differ, hb, hb'] using hread
    rw [heq]
  | totp name =>
    intro e e' ⟨_, _, he⟩
    rcases he with rfl | ⟨-, -, hcode⟩
    · rfl
    · exact hcode now
  | set p =>
    intro hp e e' ⟨hb, hb', he⟩
    by_cases hm : p.info.bind MetaIn.totp = some false
    · have heq : e = e' := by
        simpa [unflags, differ, hb, hb', hp, hm] using hflag
      subst heq
      exact .inl rfl
    · exact he.amended hm now

lemma seesNone_of_spared {L : Packages Key} {d₁ d₂ : State Key} {a : Action}
    (hflag : Spares unflags d₁ d₂ a = true) (hread : Spares reads d₁ d₂ a = true) :
    SeesNone (Veiled L.totp) L d₁ d₂ a := by
  cases a with
  | run t env expired =>
    intro op s s' hpc hs hs'
    simp only [Spares, hpc, hs, hs', Bool.not_eq_true'] at hflag hread
    exact unseen_of_spared L.totp env.now hflag hread
  | _ => trivial

/-- **A secret shows in its codes only**: two daemons that differ in the secrets of flagged
entries, by ones that yield the same codes, send every client the same lines on every run that
takes the flag from none of these entries and reads none of them with a `secret.get`. -/
theorem neverLeaves_of_unread (L : Packages Key) (hL : L.toLibrary.Ideal) (cfg : Config)
    (d₁ d₂ : State Key) (h : Related (Veiled L.totp) L cfg d₁ d₂) (as : List Action)
    (hkept : AlongBoth (step L cfg) (step L cfg) (fun e₁ e₂ a => Spares unflags e₁ e₂ a) d₁ d₂ as)
    (hunread : AlongBoth (step L cfg) (step L cfg) (fun e₁ e₂ a => Spares reads e₁ e₂ a) d₁ d₂ as)
    (d₁' : State Key) (hrun : run (step L cfg) d₁ as = some d₁') :
    ∃ d₂', run (step L cfg) d₂ as = some d₂' ∧
      (∀ c, d₂'.shared.channel c = d₁'.shared.channel c) ∧
        Related (Veiled L.totp) L cfg d₁' d₂' := by
  have hseen := (hkept.and hunread).mono fun e₁ e₂ a ha => seesNone_of_spared (L := L) ha.1 ha.2
  exact run_related (veiled_ofValues L.totp) hL h hseen hrun

/-! ### A secret that is read -/

/-- A session of the vault with one entry, of a flagged secret. -/
def guarding (secret : String) : Session Sample.Key :=
  { Sample.session with
    body := ⟨Body.default.entries.insert "a" { newEntry secret 7 with totp := true }⟩ }

def stores (secret : String) : List (Env × String × Json) :=
  [(Sample.env, "vault.create", .obj [("password", .str "pw")]),
    (Sample.env, "secret.set", .obj [("name", .str "a"), ("value", .str secret),
      ("meta", .obj [("totp", .bool true)])])]

/-- A vault has been created and the secret stored. -/
def stored (secret : String) : World Sample.Key :=
  after Sample.packages Sample.config (fun _ => none) 0 (stores secret)

def getsIt : Env × String × Json := (Sample.env, "secret.get", .obj [("name", .str "a")])

lemma guarding_veiled : Sessions (Veiled Sample.packages.totp) (guarding "x") (guarding "y") := by
  have hx : Sample.packages.totp.base32Nopad (asBytes (Totp.clean Sample.packages.totp "x"))
      = none := by decide +kernel
  have hy : Sample.packages.totp.base32Nopad (asBytes (Totp.clean Sample.packages.totp "y"))
      = none := by decide +kernel
  have hentry : Veiled Sample.packages.totp { newEntry "x" 7 with totp := true }
      { newEntry "y" 7 with totp := true } := by
    refine .inr ⟨rfl, rfl, fun now => ?_⟩
    simp only [Totp.code, newEntry, hx, hy]
  exact ⟨Pointwise.insert (Pointwise.refl (veiled_ofValues _).refl _) "a" hentry, rfl, rfl, rfl⟩

lemma stored_session : ∀ v ∈ ["x", "y"], (stored v).inner.session = some (guarding v) := by
  decide +kernel

lemma stored_holds : ∀ v ∈ ["x", "y"], Holds Sample.packages.toLibrary (stored v).fs
    Sample.config.vaultPath (guarding v) := by decide +kernel

lemma stored_inner :
    (stored "y").inner = { (stored "x").inner with session := some (guarding "y") } := by
  rw [← stored_session "y" (by decide)]
  rfl

lemma stored_files : Files (Veiled Sample.packages.totp) Sample.packages.toLibrary
    Sample.config.vaultPath (stored "x").fs (stored "y").fs :=
  .inr ⟨_, _, stored_holds "x" (by decide), stored_holds "y" (by decide), guarding_veiled⟩

theorem not_neverLeaves : ¬ NeverLeaves := by
  intro h
  have hx := stored_session "x" (by decide)
  have hy := stored_session "y" (by decide)
  have hafter : ∀ v ∈ ["x", "y"],
      (handle Sample.packages Sample.config (stored v) getsIt).1.inner.session
        = some (guarding v) := by decide +kernel
  have hleaves : LeavesAlone Sample.packages Sample.config (stored "x") (stored "y") [getsIt] := by
    refine ⟨fun name _ => ⟨?_, ?_⟩, trivial⟩
    · simp only [entryOf, hx, hafter "x" (by decide)]
    · simp only [entryOf, hy, hafter "y" (by decide)]
  have hsame := h Sample.Key Sample.packages Sample.config (fun _ => none) 0 (stores "x")
    (stores "y") [getsIt] (stored "x") (stored "y") Sample.library_ideal rfl rfl
    ⟨guarding "x", guarding "y", hx, stored_inner, guarding_veiled⟩
    stored_files hleaves
  have hread : ∀ v ∈ ["x", "y"], Machine.answers (handle Sample.packages Sample.config) (stored v)
      [getsIt] = [(.ok (.secret v ⟨none, none, none, [], true, 7, 7⟩), [])] := by decide +kernel
  have hanswers := (hread "x" (by decide)).symm.trans (hsame.trans (hread "y" (by decide)))
  exact absurd hanswers (by decide)

/-! ### A secret that is used -/

/-- The daemon with the secret stored and one client. -/
def unlocked (secret : String) : State Sample.Key where
  shared := ⟨stored secret, none, [1], 2, fun _ => []⟩
  pc _ := .idle
  origin _ := (0, 0)

lemma unlocked_related :
    Related (Veiled Sample.packages.totp) Sample.packages Sample.config (unlocked "x")
      (unlocked "y") where
  shared := by
    refine ⟨stored_files, ?_, ?_⟩
    · simp only [Shared.session, unlocked, stored_session "x" (by decide),
        stored_session "y" (by decide)]
      exact .some guarding_veiled
    · simp only [unlocked, disguise, Shared.withFs, Shared.withSession, World.withSession,
        Shared.session, stored_session "y" (by decide), ← stored_inner]
  threads _ := .same rfl
  origin := rfl

/-- The entry is amended, renamed and used for a code, the vault locked and unlocked, its entries
are listed, and a secret that is not there is asked for. -/
def used : List Action :=
  Sample.served 0 "secret.set" [("name", .str "a"),
      ("meta", .obj [("user", .str "u"), ("totp", .bool true)])] 4 ++
    Sample.served 0 "secret.rename" [("from", .str "a"), ("to", .str "b")] 4 ++
    Sample.served 0 "secret.totp" [("name", .str "b")] 4 ++
    Sample.served 0 "vault.lock" [] 4 ++
    Sample.served 0 "vault.unlock" [("password", .str "pw")] 8 ++
    Sample.served 0 "secret.list" [] 4 ++ Sample.served 0 "secret.get" [("name", .str "a")] 4

theorem neverLeaves_used : ∃ d₁', run Sample.step (unlocked "x") used = some d₁' ∧
    ∃ d₂', run Sample.step (unlocked "y") used = some d₂' ∧
      (∀ c, d₂'.shared.channel c = d₁'.shared.channel c) ∧
        Related (Veiled Sample.packages.totp) Sample.packages Sample.config d₁' d₂' := by
  have hends : (run Sample.step (unlocked "x") used).isSome = true := by decide +kernel
  obtain ⟨d₁', hrun⟩ := Option.isSome_iff_exists.mp hends
  exact ⟨d₁', hrun, neverLeaves_of_unread Sample.packages Sample.library_ideal Sample.config
    (unlocked "x") (unlocked "y") unlocked_related used (by decide +kernel) (by decide +kernel)
    d₁' hrun⟩

end LvimKeyring.TotpView
