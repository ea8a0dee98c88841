import LvimKeyring.Daemon
import LvimKeyring.Sample
import LvimKeyring.Sealing

/-!
Creations of the vault among requests in flight.

A creation looks for the vault file first and writes it some time later, after it has derived
the key. Two that look before either writes are both answered, and the second puts an empty
vault over what has been stored since the first. In every other run one creation is answered at
most, and none replaces a file.
-/

namespace LvimKeyring.CreateRaces

open Rpc Crypto Vault Server Daemon Transition Result

variable {Key : Type}

/-! ### The creations of a run -/

/-- Which threads serve a creation, and for which of those a creation has written the file since
they looked for it; how many have been answered; whether one has replaced a file. -/
structure Creations where
  serving : ℕ → Bool
  stale : ℕ → Bool
  acked : ℕ
  replaced : Bool

def Creations.none : Creations := ⟨fun _ => false, fun _ => false, 0, false⟩

def Creations.update (cfg : Config) (g : Creations) (d : State Key) : Action → State Key → Creations
  | .request t _ _ method _, _ =>
    { g with serving := Function.update g.serving t (method == "vault.create") }
  | .tick t, _ => { g with serving := Function.update g.serving t false }
  | .run t _ _, d' =>
    match d.pc t, d'.pc t with
    | .call (.create _), _ => { g with stale := Function.update g.stale t false }
    | .createWrite _, .install _ _ =>
      { g with
        stale := fun _ => true
        replaced := g.replaced || fileExists d.shared.world.fs cfg.vaultPath }
    | .respond (.ok _), _ => if g.serving t then { g with acked := g.acked + 1 } else g
    | _, _ => g
  | .connect, _ | .disconnect _, _ | .rouse _, _ => g

/-- One creation is answered at most, and none has replaced a file. -/
def CreatesOnce (g : Creations) : Prop := g.acked ≤ 1 ∧ g.replaced = false

/-- Create never replaces an existing vault. -/
def CreateNeverReplaces : Prop :=
  ∀ (Key : Type) (L : Packages Key) (cfg : Config) (fs : FileSystem) (clock : ℕ)
    (as : List Action) (d : State Key), run (step L cfg) (start Key fs clock) as = some d →
    CreatesOnce (history (step L cfg) (Creations.update cfg) .none (start Key fs clock) as)

/-- The write of a creation fails. -/
def createFails (L : Packages Key) (cfg : Config) (env : Env) (sh : Shared Key)
    (password : String) : Bool :=
  match (createAbsent L.toLibrary env.io sh.world.fs cfg.vaultPath (asBytes password) cfg.kdf
    env.salt env.nonce).2 with
  | .ok _ => false
  | .error _ => true

/-- When a creation comes to write, no other one has written the file since it looked for it,
unless its own write fails. -/
def InTurn (L : Packages Key) (cfg : Config) (x : Creations × State Key) : Action → Bool
  | .run t env _ =>
    match x.2.pc t with
    | .createWrite password => !x.1.stale t || createFails L cfg env x.2.shared password
    | _ => true
  | _ => true

/-! ### The sections of a creation -/

/-- Whether a section belongs to a creation, where that can be told. -/
def owned : Pc Key → Option Bool
  | .idle | .respond _ => .none
  | .dispatch method _ => some (method == "vault.create")
  | .call (.create _) | .createWrite _ | .install _ (.create _) | .resetFails (.create _)
  | .announceUnlocked (.create _) | .wake (.create _) => some true
  | _ => some false

/-- The creation that the section belongs to has written the file and is not answered yet. -/
def made (serving : Bool) : Pc Key → Bool
  | .install _ (.create _) | .resetFails (.create _) | .announceUnlocked (.create _)
  | .wake (.create _) => true
  | .respond (.ok _) => serving
  | _ => false

/-- The section has a session that was read from the file or written to it. -/
def backed : Pc Key → Bool
  | .install _ _ | .rotateWrite _ _ _ => true
  | _ => false

variable {L : Packages Key} {cfg : Config} {env : Env} {expired : Bool} {t : ℕ} {origin : ℕ × ℕ}
  {sh sh' : Shared Key} {p p' : Pc Key} {d d' : State Key} {g : Creations}

lemma prepare_owned {random : ℕ → UInt8} {method : String} {params : Json} {c : Call}
    (h : prepare random method params = .ok c) :
    owned (.call c : Pc Key) = some (method == "vault.create") := by
  rw [prepare_method h]
  cases c with
  | session wait op => cases op <;> rfl
  | _ => rfl

/-- A section stays with the creation it belongs to until it answers. -/
lemma exec_owned (h : p.exec L cfg env expired t origin sh = some (sh', p')) :
    owned p' = .none ∨ owned p' = owned p := by
  cases p with
  | idle | asleep => cases h
  | dispatch method params =>
    simp only [Pc.exec] at h
    cases hp : prepare env.random method params with
    | ok c =>
      simp only [hp] at h
      cases h
      exact .inr (prepare_owned hp)
    | error e =>
      simp only [hp] at h
      cases h
      exact .inl rfl
  | call c =>
    cases c with
    | create password =>
      simp only [Pc.exec, begin] at h
      split at h <;> cases h
      · exact .inl rfl
      · exact .inr rfl
    | unlock password =>
      simp only [Pc.exec, begin] at h
      split at h <;> cases h <;> exact .inr rfl
    | rotate old new =>
      simp only [Pc.exec, begin] at h
      split at h <;> cases h
      · exact .inr rfl
      · exact .inl rfl
    | lock =>
      cases h
      split
      · exact .inr rfl
      · exact .inl rfl
    | unlockCancel =>
      simp only [Pc.exec, begin] at h
      split at h <;> cases h
      exact .inr rfl
    | session wait op =>
      simp only [Pc.exec, begin] at h
      split at h <;> cases h
      · exact .inr rfl
      · cases wait
        · exact .inl rfl
        · exact .inr rfl
    | hello | status =>
      cases h
      exact .inr rfl
    | bare =>
      cases h
      exact .inl rfl
  | createWrite password | rotateWrite current old new =>
    simp only [Pc.exec, Option.some.injEq] at h
    rcases afterWrite_cases h with ⟨s, rfl⟩ | ⟨e, rfl⟩
    · exact .inr rfl
    · exact .inl rfl
  | install s k | resetFails k | announceUnlocked k =>
    cases h
    cases k <;> exact .inr rfl
  | wake k =>
    cases k <;> cases h
    · exact .inl rfl
    · exact .inr rfl
    · exact .inl rfl
  | announceLocked timer =>
    cases h
    cases timer <;> exact .inl rfl
  | park op =>
    cases h
    split <;> exact .inr rfl
  | capture op | woken op start =>
    simp only [Pc.exec] at h
    split at h <;> cases h
    exact .inr rfl
  | recheck op start =>
    simp only [Pc.exec] at h
    split at h <;> cases h <;> exact .inr rfl
  | decide op start =>
    simp only [Pc.exec] at h
    split at h <;> cases h
    · exact .inl rfl
    · exact .inr rfl
  | querySummaries full locked ex =>
    cases h
    split
    · exact .inl rfl
    · split
      · exact .inl rfl
      · exact .inr rfl
  | queryLocked locked ex entries =>
    cases h
    split
    · exact .inr rfl
    · exact .inl rfl
  | tickLocked =>
    cases h
    split
    · exact .inl rfl
    · exact .inr rfl
  | tickIdle =>
    cases h
    split
    · exact .inr rfl
    · exact .inl rfl
  | tickTake =>
    cases h
    split
    · exact .inr rfl
    · exact .inl rfl
  | unlockedSummaries | countFailure | wakeCancelled | access | queryIdle | respond =>
    cases h
    exact .inl rfl
  | signal | queryExists =>
    cases h
    exact .inr rfl

/-! ### The file -/

lemma write_keeps (L : Library Key) (io : Faults) {fs : FileSystem} {path : String}
    (s : Session Key) (nonce : Nonce) (h : fileExists fs path = true) :
    fileExists (write L io fs path s nonce).1 path = true := by
  unfold write
  cases render L s nonce with
  | error e => exact h
  | ok out =>
    rcases store_spec io fs path out with ⟨-, -, hfs⟩ | ⟨-, -, hfs⟩
    · simp only [fileExists, hfs, Option.isSome_some]
    · simp only [fileExists, hfs]
      exact h

lemma withSession_keeps (op : Op) {w : World Key} (h : fileExists w.fs cfg.vaultPath = true) :
    fileExists (Server.withSession L cfg env false op w).world.fs cfg.vaultPath = true := by
  unfold Server.withSession
  cases hs : w.inner.session with
  | none => exact h
  | some s =>
    cases hrun : op.run L.totp env.now s.body with
    | error e =>
      simp only [hrun]
      exact h
    | ok br =>
      obtain ⟨body, r⟩ := br
      simp only [hrun]
      cases hop : op.reads with
      | true => exact h
      | false =>
        have hkeeps := write_keeps L.toLibrary env.io { s with body } env.nonce h
        simp only [Bool.false_eq_true, if_false, save]
        rcases hw : write L.toLibrary env.io w.fs cfg.vaultPath { s with body } env.nonce
          with ⟨fs, r'⟩
        rw [hw] at hkeeps
        cases r' <;> exact hkeeps

lemma withSession_none (op : Op) {w : World Key} (h : w.inner.session = none) :
    (Server.withSession L cfg env false op w).world = w := by
  simp only [Server.withSession, h]

/-- Only a creation makes the file; the others leave one where there was one and none where
there was none, for they have the session from it. -/
lemma exec_filed (hp : ∀ password, p ≠ .createWrite password)
    (hback : sh.session.isSome = true ∨ backed p = true →
      fileExists sh.world.fs cfg.vaultPath = true)
    (h : p.exec L cfg env expired t origin sh = some (sh', p')) :
    fileExists sh'.world.fs cfg.vaultPath = fileExists sh.world.fs cfg.vaultPath ∧
      (sh'.session.isSome = true ∨ backed p' = true →
        fileExists sh.world.fs cfg.vaultPath = true) := by
  have hplain : p'.plain = true → backed p' = false := by
    intro hpl
    cases p' with
    | install | rotateWrite => cases hpl
    | _ => rfl
  cases p with
  | createWrite password => exact absurd rfl (hp password)
  | call c =>
    by_cases hlock : c = .lock
    · subst hlock
      cases h
      refine ⟨rfl, fun hb => ?_⟩
      rcases hb with hs | hb
      · cases hs
      · split at hb <;> cases hb
    · obtain ⟨hfs, hsession, hopened⟩ := begin_opened hlock h
      rw [hfs, hsession]
      refine ⟨rfl, fun hb => ?_⟩
      rcases hb with hs | hb
      · exact hback (.inl hs)
      · cases hopened with
        | plain hpl =>
          rw [hplain hpl] at hb
          cases hb
        | create => cases hb
        | unlock hu | rotate hu => exact (unlock_eq_ok.mp hu).2.2.fileExists
  | rotateWrite current old new =>
    have hfile := hback (.inr rfl)
    simp only [Pc.exec, Option.some.injEq] at h
    have hkeeps : fileExists (rotateRead L.toLibrary env.io sh.world.fs cfg.vaultPath current
        (asBytes new) cfg.kdf env.salt env.nonce).1 cfg.vaultPath = true := by
      unfold rotateRead
      split
      · exact hfile
      · exact write_keeps L.toLibrary env.io _ env.nonce hfile
    rcases hr :
      rotateRead L.toLibrary env.io sh.world.fs cfg.vaultPath current (asBytes new) cfg.kdf
      env.salt env.nonce with ⟨fs, r⟩
    rw [hr] at h hkeeps
    refine ⟨?_, fun _ => hfile⟩
    rw [hfile]
    cases r <;> cases h <;> exact hkeeps
  | install s k =>
    have hfile := hback (.inr rfl)
    cases h
    exact ⟨rfl, fun _ => hfile⟩
  | access op =>
    cases h
    refine ⟨?_, fun hb => ?_⟩
    · cases hs : sh.world.inner.session with
      | none => rw [withSession_none op hs]
      | some s =>
        have hfile := hback (.inl (by rw [Shared.session, hs]; rfl))
        rw [hfile]
        exact withSession_keeps op hfile
    · rcases hb with hs | hb
      · have hsame : (Server.withSession L cfg env false op sh.world).world.inner.session.isNone
            = sh.world.inner.session.isNone := withSession_isNone L cfg env false op sh.world
        refine hback (.inl ?_)
        simp only [Shared.session] at hs ⊢
        simpa [← Option.not_isSome, hs] using hsame
      · cases hb
  | tickTake =>
    cases h
    refine ⟨rfl, fun hb => ?_⟩
    rcases hb with hs | hb
    · cases hs
    · split at hb <;> cases hb
  | _ =>
    obtain ⟨hfs, hsession, hpl⟩ := exec_rests rfl h
    rw [hfs, hsession]
    refine ⟨rfl, fun hb => ?_⟩
    rcases hb with hs | hb
    · exact hback (.inl hs)
    · rw [hplain hpl] at hb
      cases hb

/-! ### The invariant -/

lemma made_owned {serving : Bool} (hm : made serving p = true) (hs : serving = false) :
    owned p = some true := by
  subst hs
  unfold made at hm
  split at hm
  case h_1 | h_2 | h_3 | h_4 => rfl
  all_goals cases hm

/-- No section but the write of a creation makes one. -/
lemma exec_made {serving : Bool} (hp : ∀ password, p ≠ .createWrite password)
    (hown : ∀ b, owned p = some b → serving = b)
    (h : p.exec L cfg env expired t origin sh = some (sh', p')) (hm : made serving p' = true) :
    made serving p = true := by
  have howned := exec_owned h
  cases hserving : serving with
  | false =>
    -- a request of another kind
    have htrue : owned p' = some true := made_owned hm hserving
    rw [htrue] at howned
    rcases howned with hnone | hsame
    · cases hnone
    · rw [hown true hsame.symm] at hserving
      cases hserving
  | true =>
    subst hserving
    cases p with
    | idle | asleep => cases h
    | createWrite password => exact absurd rfl (hp password)
    | dispatch method params =>
      simp only [Pc.exec] at h
      split at h <;> cases h <;> cases hm
    | respond r =>
      cases h
      cases hm
    | call c =>
      cases c with
      | create password =>
        simp only [Pc.exec, begin] at h
        split at h <;> cases h <;> cases hm
      | _ => exact absurd (hown false rfl) (by decide)
    | install s k | resetFails k | announceUnlocked k | wake k =>
      cases k with
      | create => rfl
      | _ => exact absurd (hown false rfl) (by decide)
    | _ => exact absurd (hown false rfl) (by decide)

/-- A creation that has written is the only one, and not answered yet; one that may still write
has found no file, and there is none unless another one has written since. -/
structure Inv (cfg : Config) (g : Creations) (d : State Key) : Prop where
  owners : ∀ u b, owned (d.pc u) = some b → g.serving u = b
  session : d.shared.session.isSome = true → fileExists d.shared.world.fs cfg.vaultPath = true
  backed : ∀ u, backed (d.pc u) = true → fileExists d.shared.world.fs cfg.vaultPath = true
  made : ∀ u, made (g.serving u) (d.pc u) = true →
    fileExists d.shared.world.fs cfg.vaultPath = true ∧ g.acked = 0 ∧
      ∀ v, made (g.serving v) (d.pc v) = true → v = u
  acked : g.acked = 0 ∨ (g.acked = 1 ∧ fileExists d.shared.world.fs cfg.vaultPath = true)
  fresh : ∀ u password, d.pc u = .createWrite password → g.stale u = false →
    fileExists d.shared.world.fs cfg.vaultPath = false
  kept : g.replaced = false

lemma Inv.createsOnce (h : Inv cfg g d) : CreatesOnce g := by
  refine ⟨?_, h.kept⟩
  rcases h.acked with h0 | ⟨h1, -⟩
  · omega
  · omega

/-- What the invariant looks at of a thread is the same when it is woken. -/
structure Alike (p p' : Pc Key) : Prop where
  owned : owned p' = owned p
  backed : backed p' = backed p
  made : ∀ serving, made serving p' = made serving p
  writing : ∀ password, p' = .createWrite password ↔ p = .createWrite password

lemma Alike.refl (p : Pc Key) : Alike p p := ⟨rfl, rfl, fun _ => rfl, fun _ => Iff.rfl⟩

lemma alike_rouse (p : Pc Key) : Alike p (rouse p) := by
  cases p with
  | asleep op start =>
    exact ⟨rfl, rfl, fun _ => rfl, fun _ => ⟨fun h => (by cases h), fun h => (by cases h)⟩⟩
  | _ => exact .refl _

lemma alike_other (h : step L cfg d (.run t env expired) = some d') {u : ℕ} (hu : u ≠ t) :
    Alike (d.pc u) (d'.pc u) := by
  obtain ⟨p, -, -, hothers⟩ := step_run h
  rw [hothers u hu]
  split
  · exact alike_rouse _
  · exact .refl _

/-- A thread is given other work, or none; the others stay as they are. -/
lemma Inv.moved (h : Inv cfg g d) (serving : ℕ → Bool) {t : ℕ}
    (hfile : fileExists d'.shared.world.fs cfg.vaultPath
      = fileExists d.shared.world.fs cfg.vaultPath)
    (hsession : d'.shared.session = d.shared.session)
    (hother : ∀ u, u ≠ t → serving u = g.serving u ∧ Alike (d.pc u) (d'.pc u))
    (hself : (∀ b, owned (d'.pc t) = some b → serving t = b) ∧
      CreateRaces.backed (d'.pc t) = false ∧
      CreateRaces.made (serving t) (d'.pc t) = false ∧ ∀ password,
        d'.pc t ≠ .createWrite password) :
    Inv cfg { g with serving } d' := by
  have hmade : ∀ u, CreateRaces.made (serving u) (d'.pc u) = true →
      CreateRaces.made (g.serving u) (d.pc u) = true := by
    intro u hm
    by_cases hu : u = t
    · subst hu
      rw [hself.2.2.1] at hm
      cases hm
    · obtain ⟨hs, ha⟩ := hother u hu
      rw [hs, ha.made] at hm
      exact hm
  refine ⟨fun u b hb => ?_, fun hs => ?_, fun u hb => ?_, fun u hm => ?_, ?_, fun u pw hp hst => ?_,
    h.kept⟩
  · by_cases hu : u = t
    · subst hu
      exact hself.1 b hb
    · obtain ⟨hs, ha⟩ := hother u hu
      rw [ha.owned] at hb
      exact hs.trans (h.owners u b hb)
  · rw [hfile]
    rw [hsession] at hs
    exact h.session hs
  · rw [hfile]
    by_cases hu : u = t
    · subst hu
      rw [hself.2.1] at hb
      cases hb
    · rw [(hother u hu).2.backed] at hb
      exact h.backed u hb
  · obtain ⟨hexists, hacked, honly⟩ := h.made u (hmade u hm)
    rw [hfile]
    exact ⟨hexists, hacked, fun v hv => honly v (hmade v hv)⟩
  · rw [hfile]
    exact h.acked
  · rw [hfile]
    by_cases hu : u = t
    · subst hu
      exact absurd hp (hself.2.2.2 pw)
    · exact h.fresh u pw (((hother u hu).2.writing pw).mp hp) hst

lemma exec_writing {password : String} (hp : ∀ password, p ≠ .createWrite password)
    (h : p.exec L cfg env expired t origin sh = some (sh', .createWrite password)) :
    fileExists sh.world.fs cfg.vaultPath = false := by
  cases p with
  | createWrite password => exact absurd rfl (hp password)
  | call c =>
    by_cases hlock : c = .lock
    · subst hlock
      simp only [Pc.exec, begin, Option.some.injEq, Prod.mk.injEq] at h
      obtain ⟨-, h⟩ := h
      split at h <;> cases h
    · obtain ⟨-, -, hopened⟩ := begin_opened hlock h
      cases hopened with
      | plain hpl => cases hpl
      | create habsent => exact habsent
  | rotateWrite current old new =>
    simp only [Pc.exec, Option.some.injEq] at h
    rcases afterWrite_cases h with ⟨s, hp'⟩ | ⟨e, hp'⟩ <;> cases hp'
  | install | access => cases h
  | tickTake =>
    simp only [Pc.exec, Option.some.injEq, Prod.mk.injEq] at h
    obtain ⟨-, h⟩ := h
    split at h <;> cases h
  | _ =>
    obtain ⟨-, -, hpl⟩ := exec_rests rfl h
    cases hpl

lemma update_section (cfg : Config) (g : Creations) (env : Env) (expired : Bool) (d' : State Key)
    (hp : ∀ password, d.pc t ≠ .createWrite password) :
    let g' := Creations.update cfg g d (.run t env expired) d'
    g'.serving = g.serving ∧ g'.replaced = g.replaced ∧ (∀ u, u ≠ t → g'.stale u = g.stale u) ∧
      (g'.acked = g.acked ∨ (g'.acked = g.acked + 1 ∧
        ∃ r, d.pc t = .respond (.ok r) ∧ g.serving t = true)) := by
  simp only [Creations.update]
  split
  · exact ⟨rfl, rfl, fun u hu => Function.update_of_ne hu _ _, .inl rfl⟩
  · rename_i password s k hwrite hinstall
    exact absurd hwrite (hp password)
  · rename_i r hrespond
    split
    · rename_i hserving
      exact ⟨rfl, rfl, fun _ _ => rfl, .inr ⟨rfl, r, hrespond, hserving⟩⟩
    · exact ⟨rfl, rfl, fun _ _ => rfl, .inl rfl⟩
  · exact ⟨rfl, rfl, fun _ _ => rfl, .inl rfl⟩

/-- A section that does not write a new file. -/
lemma inv_section (h : Inv cfg g d) (hp : ∀ password, d.pc t ≠ .createWrite password)
    (hstep : step L cfg d (.run t env expired) = some d') :
    Inv cfg (Creations.update cfg g d (.run t env expired) d') d' := by
  obtain ⟨p', hexec, rfl, hothers⟩ := step_run hstep
  obtain ⟨hserving, hreplaced, hstale, hacked⟩ := update_section cfg g env expired d' hp
  generalize Creations.update cfg g d (.run t env expired) d' = g' at *
  obtain ⟨hfile, hback⟩ := exec_filed hp (fun hb => hb.elim h.session (h.backed t)) hexec
  have hmade : ∀ u, CreateRaces.made (g'.serving u) (d'.pc u) = true →
      CreateRaces.made (g.serving u) (d.pc u) = true := by
    intro u hm
    rw [hserving] at hm
    by_cases hu : u = t
    · subst hu
      exact exec_made hp (h.owners u) hexec hm
    · rwa [(alike_other hstep hu).made] at hm
  refine ⟨fun u b hb => ?_, fun hs => ?_, fun u hb => ?_, fun u hm => ?_, ?_,
    fun u pw hpc hst => ?_, hreplaced.trans h.kept⟩
  · rw [hserving]
    by_cases hu : u = t
    · subst hu
      rcases exec_owned hexec with hnone | hsame
      · rw [hnone] at hb
        cases hb
      · exact h.owners u b (hsame ▸ hb)
    · exact h.owners u b ((alike_other hstep hu).owned ▸ hb)
  · rw [hfile]
    exact hback (.inl hs)
  · rw [hfile]
    by_cases hu : u = t
    · subst hu
      exact hback (.inr hb)
    · exact h.backed u ((alike_other hstep hu).backed ▸ hb)
  · obtain ⟨hexists, hzero, honly⟩ := h.made u (hmade u hm)
    rw [hfile]
    refine ⟨hexists, ?_, fun v hv => honly v (hmade v hv)⟩
    rcases hacked with hsame | ⟨-, r, hrespond, hself⟩
    · rw [hsame, hzero]
    · -- the creation just answered was the only one
      have ht : CreateRaces.made (g.serving t) (d.pc t) = true := by rw [hrespond, hself]; rfl
      obtain rfl : t = u := honly t ht
      have hidle : d'.pc t = .idle := by
        rw [hrespond] at hexec
        simp only [Pc.exec, Option.some.injEq, Prod.mk.injEq] at hexec
        exact hexec.2.symm
      rw [hidle] at hm
      cases hm
  · -- A second answer without an error would need a second creation that has made the file.
    rw [hfile]
    rcases hacked with hsame | ⟨hmore, r, hrespond, hself⟩
    · rw [hsame]
      exact h.acked
    · have ht : CreateRaces.made (g.serving t) (d.pc t) = true := by rw [hrespond, hself]; rfl
      obtain ⟨hexists, hzero, -⟩ := h.made t ht
      exact .inr ⟨by omega, hexists⟩
  · rw [hfile]
    by_cases hu : u = t
    · subst hu
      rw [hpc] at hexec
      exact exec_writing hp hexec
    · rw [hstale u hu] at hst
      exact h.fresh u pw (((alike_other hstep hu).writing pw).mp hpc) hst

/-- A creation's write either leaves the file as it was or puts one there. -/
lemma createAbsent_file {io : Faults} {fs fs' : FileSystem} {path : String} {password : Bytes}
    {params : KdfParams} {salt : Salt} {nonce : Nonce} {r : Except Err (Session Key)}
    (h : createAbsent L.toLibrary io fs path password params salt nonce = (fs', r)) :
    (∃ e, r = .error e ∧ fs' path = fs path) ∨ ∃ s, r = .ok s ∧ fileExists fs' path = true := by
  unfold createAbsent at h
  split at h
  · rename_i e he
    cases h
    exact .inl ⟨e, rfl, rfl⟩
  · rename_i key hkey
    unfold writeNew at h
    rcases hw : write L.toLibrary io fs path ⟨Body.default, key, salt, params⟩ nonce with ⟨fs₁, r₁⟩
    rw [hw] at h
    cases r₁ with
    | error e =>
      cases h
      exact .inl ⟨e, rfl, write_error hw⟩
    | ok u =>
      cases h
      refine .inr ⟨_, rfl, ?_⟩
      unfold write at hw
      cases hr : render L.toLibrary ⟨Body.default, key, salt, params⟩ nonce with
      | error e => simp [hr] at hw
      | ok out =>
        simp only [hr] at hw
        rcases store_spec io fs path out with ⟨-, -, hfs⟩ | ⟨-, ⟨e, he⟩, -⟩
        · rw [hw] at hfs
          simp only at hfs
          simp only [fileExists, hfs, Option.isSome_some]
        · simp [hw] at he

/-- The write of a creation that comes in its turn. -/
lemma inv_createWrite (h : Inv cfg g d) {password : String} (hp : d.pc t = .createWrite password)
    (hturn : InTurn L cfg (g, d) (.run t env expired) = true)
    (hstep : step L cfg d (.run t env expired) = some d') :
    Inv cfg (Creations.update cfg g d (.run t env expired) d') d' := by
  obtain ⟨p', hexec, hself, hothers⟩ := step_run hstep
  have hserving : g.serving t = true := h.owners t true (by rw [hp]; rfl)
  rw [hp] at hexec
  simp only [Pc.exec, Option.some.injEq] at hexec
  rcases hr : createAbsent L.toLibrary env.io d.shared.world.fs cfg.vaultPath (asBytes password)
    cfg.kdf env.salt env.nonce with ⟨fs, r⟩
  rw [hr] at hexec
  rcases createAbsent_file hr with ⟨e, rfl, hfs⟩ | ⟨s, rfl, hexists⟩
  · -- it fails, and the file is as it was
    simp only [afterWrite, Prod.mk.injEq] at hexec
    obtain ⟨hshared, rfl⟩ := hexec
    have hg : Creations.update cfg g d (.run t env expired) d' = g := by
      simp only [Creations.update, hp, hself]
    rw [hg]
    refine h.moved g.serving (t := t) ?_ ?_ (fun u hu => ⟨rfl, alike_other hstep hu⟩) ?_
    · rw [← hshared]
      simp only [Shared.withFs, fileExists, hfs]
    · rw [← hshared]
      rfl
    · rw [hself]
      exact ⟨fun _ h => (by cases h), rfl, rfl, fun _ h => (by cases h)⟩
  · -- it was the first to write
    simp only [afterWrite, Prod.mk.injEq] at hexec
    obtain ⟨hshared, rfl⟩ := hexec
    have hfails : createFails L cfg env d.shared password = false := by
      simp only [createFails, hr]
    have hstale : g.stale t = false := by
      simpa [InTurn, hp, hfails] using hturn
    have habsent : fileExists d.shared.world.fs cfg.vaultPath = false :=
      h.fresh t password hp hstale
    have hfile : fileExists d'.shared.world.fs cfg.vaultPath = true := by
      rw [← hshared]
      exact hexists
    have hnobody : ∀ u, CreateRaces.made (g.serving u) (d.pc u) = false := by
      intro u
      by_contra hm
      have hthere := (h.made u (Bool.eq_true_of_not_eq_false hm)).1
      rw [habsent] at hthere
      cases hthere
    have hzero : g.acked = 0 := by
      rcases h.acked with h0 | ⟨-, hthere⟩
      · exact h0
      · rw [habsent] at hthere
        cases hthere
    have hg : Creations.update cfg g d (.run t env expired) d'
        = { g with stale := fun _ => true, replaced := false } := by
      simp only [Creations.update, hp, hself, h.kept, habsent, Bool.or_false]
    rw [hg]
    -- The file is there from now on, and everybody else who has checked has checked too early.
    refine ⟨fun u b hb => ?_, fun _ => hfile, fun _ _ => hfile, fun u hm => ?_, .inl hzero,
      fun _ _ _ hst => (by cases hst), rfl⟩
    · by_cases hu : u = t
      · subst hu
        rw [hself] at hb
        cases hb
        exact hserving
      · exact h.owners u b ((alike_other hstep hu).owned ▸ hb)
    · have honly : ∀ v, CreateRaces.made (g.serving v) (d'.pc v) = true → v = t := by
        intro v hv
        by_contra hvt
        rw [(alike_other hstep hvt).made, hnobody v] at hv
        cases hv
      exact ⟨hfile, hzero, fun v hv => (honly v hv).trans (honly u hm).symm⟩

theorem inv_step {a : Action} (h : Inv cfg g d) (hturn : InTurn L cfg (g, d) a = true)
    (hstep : step L cfg d a = some d') : Inv cfg (Creations.update cfg g d a d') d' := by
  cases stepped hstep with
  | run t env expired =>
    by_cases hp : ∃ password, d.pc t = .createWrite password
    · obtain ⟨password, hp⟩ := hp
      exact inv_createWrite h hp hturn hstep
    · exact inv_section h (fun password heq => hp ⟨password, heq⟩) hstep
  | connect | disconnect => exact ⟨h.owners, h.session, h.backed, h.made, h.acked, h.fresh, h.kept⟩
  | request t | tick t =>
    refine h.moved _ (t := t) rfl rfl (fun u hu => ?_) ?_
    · simp only [State.withPc, Function.update_of_ne hu, true_and]
      exact .refl _
    · simp only [State.withPc, Function.update_self]
      exact ⟨fun b hb => Option.some.inj hb, rfl, rfl, fun _ h => (by cases h)⟩
  | rouse t op start hpc =>
    have hserving : g.serving t = false := h.owners t false (by rw [hpc]; rfl)
    refine h.moved g.serving (t := t) rfl rfl (fun u hu => ?_) ?_
    · simp only [State.withPc, Function.update_of_ne hu, true_and]
      exact .refl _
    · simp only [State.withPc, Function.update_self]
      exact ⟨fun b hb => hserving.trans (Option.some.inj hb), rfl, rfl,
        fun _ h => (by cases h)⟩

lemma inv_start (fs : FileSystem) (clock : ℕ) : Inv cfg .none (start Key fs clock) where
  owners _ _ h := by cases h
  session h := by cases h
  backed _ h := by cases h
  made _ h := by cases h
  acked := .inl rfl
  fresh _ _ h := by cases h
  kept := rfl

/-- In every run whose creations write in their turn, one is answered at most, and none
replaces a file. -/
theorem createsOnce_of_inTurn (L : Packages Key) (cfg : Config) (fs : FileSystem) (clock : ℕ)
    (as : List Action) (d : State Key)
    (hturn : Along (track (step L cfg) (Creations.update cfg)) (fun x a => InTurn L cfg x a = true)
      (.none, start Key fs clock) as)
    (hrun : run (step L cfg) (start Key fs clock) as = some d) :
    CreatesOnce (history (step L cfg) (Creations.update cfg) .none (start Key fs clock) as) := by
  have hstep : ∀ g (d : State Key) a d', Inv cfg g d → InTurn L cfg (g, d) a = true →
      step L cfg d a = some d' → Inv cfg (Creations.update cfg g d a d') d' :=
    fun g d a d' h hG hs => inv_step h hG hs
  have hend : Inv cfg
      (history (step L cfg) (Creations.update cfg) .none (start Key fs clock) as) d :=
    run_track_inv hstep (inv_start fs clock) hturn hrun
  exact hend.createsOnce

/-! ### Two creations -/

/-- Two editors ask for a vault and both requests find none; one is served, a secret is stored
and acknowledged, and then the other is served. -/
def bothLook : List Action :=
  [.connect, .connect, .request 0 1 0 "vault.create" (.obj [("password", .str "pw")]),
    .request 1 2 1 "vault.create" (.obj [("password", .str "other")])] ++
    Sample.turns 0 2 ++ Sample.turns 1 2 ++ Sample.turns 0 6 ++
    Sample.served 2 "secret.set" [("name", .str "a"), ("value", .str "x")] 4 ++ Sample.turns 1 6

abbrev blank : State Sample.Key := start Sample.Key (fun _ => none) 0

theorem not_createNeverReplaces : ¬ CreateNeverReplaces := by
  intro h
  have hruns : (run Sample.step blank bothLook).isSome := by decide +kernel
  have hacked : (history Sample.step (Creations.update Sample.config) .none blank bothLook).acked
      = 2 := by
    decide +kernel
  obtain ⟨d, hrun⟩ := Option.isSome_iff_exists.mp hruns
  have honce := h Sample.Key Sample.packages Sample.config (fun _ => none) 0 bothLook d hrun
  have hle := honce.1
  rw [hacked] at hle
  omega

/-- The second request looks for the file after the first has been served. -/
def oneLooksLater : List Action :=
  [.connect, .connect, .request 0 1 0 "vault.create" (.obj [("password", .str "pw")]),
    .request 1 2 1 "vault.create" (.obj [("password", .str "other")])] ++
    Sample.turns 0 8 ++ Sample.turns 1 3

theorem createsOnce_oneLooksLater :
    (history Sample.step (Creations.update Sample.config) .none blank oneLooksLater).acked = 1 ∧
      CreatesOnce (history Sample.step (Creations.update Sample.config) .none blank
        oneLooksLater) := by
  have hruns : (run Sample.step blank oneLooksLater).isSome := by decide +kernel
  obtain ⟨d, hrun⟩ := Option.isSome_iff_exists.mp hruns
  exact ⟨by decide +kernel, createsOnce_of_inTurn Sample.packages Sample.config _ 0 oneLooksLater d
    (by decide +kernel) hrun⟩

end LvimKeyring.CreateRaces
