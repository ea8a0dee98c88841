import Mathlib.Data.Option.Basic
import LvimKeyring.Daemon
import LvimKeyring.Sealing

/-!
Two daemons side by side.

They differ in their sessions and in their files. A section that looks at neither does the same
in both, and one schedule then takes both through the same steps and sends every client the
same lines.
-/

namespace LvimKeyring.Mirror

open Rpc Crypto Vault Server Daemon Transition

variable {Key : Type} {L : Packages Key} {cfg : Config} {env : Env} {expired : Bool} {t : ℕ}
variable {origin : ℕ × ℕ} {sh sh' sh₁ sh₁' sh₂ : Shared Key} {p p' : Pc Key}

/-- The same but for its files and its session. -/
def disguise (sh : Shared Key) (fs : FileSystem) (s : Option (Session Key)) : Shared Key :=
  (sh.withFs fs).withSession s

/-- Two shared states differ in their files, by `F`, and in their sessions, by `S`. -/
structure Beside (S : Session Key → Session Key → Prop) (F : FileSystem → FileSystem → Prop)
    (sh₁ sh₂ : Shared Key) : Prop where
  files : F sh₁.world.fs sh₂.world.fs
  session : Option.Rel S sh₁.session sh₂.session
  rest : sh₂ = disguise sh₁ sh₂.world.fs sh₂.session

/-- What requests are told of a session and a file whatever they are for does not show the
difference. -/
structure Discreet (cfg : Config) (S : Session Key → Session Key → Prop)
    (F : FileSystem → FileSystem → Prop) : Prop where
  listing : ∀ {s s'}, S s s' → summaries s'.body = summaries s.body
  found : ∀ {fs fs'}, F fs fs' → fileExists fs' cfg.vaultPath = fileExists fs cfg.vaultPath

/-- Two threads are at the same place; a session that one is about to install is related to that
of the other by `S`, and one that it is about to write from by `T`. -/
inductive Abreast (S T : Session Key → Session Key → Prop) (ok : Pc Key → Bool) :
    Pc Key → Pc Key → Prop
  | same {p : Pc Key} (h : ok p = true) : Abreast S T ok p p
  | install {s s' : Session Key} (h : S s s') (k : Installer) :
    Abreast S T ok (.install s k) (.install s' k)
  | rotateWrite {s s' : Session Key} (h : T s s') (old new : String) :
    Abreast S T ok (.rotateWrite s old new) (.rotateWrite s' old new)

structure Together (S T : Session Key → Session Key → Prop) (F : FileSystem → FileSystem → Prop)
    (ok : Pc Key → Bool) (d₁ d₂ : State Key) : Prop where
  shared : Beside S F d₁.shared d₂.shared
  threads : ∀ t, Abreast S T ok (d₁.pc t) (d₂.pc t)
  origin : d₂.origin = d₁.origin

/-! ### Sections that look at neither -/

/-- A section that rests does the same in the disguised state when it is told the same of the
session and the file. -/
lemma exec_disguise (hp : p.rests = true) {fs : FileSystem} {s : Option (Session Key)}
    (hfile : fileExists fs cfg.vaultPath = fileExists sh.world.fs cfg.vaultPath)
    (hnone : s.isNone = sh.session.isNone)
    (hlist : (s.map fun s => summaries s.body) = sh.session.map fun s => summaries s.body)
    (h : p.exec L cfg env expired t origin sh = some (sh', p')) :
    p.exec L cfg env expired t origin (disguise sh fs s) = some (disguise sh' fs s, p') := by
  have hsome : s.isSome = sh.session.isSome := by
    rw [← Option.not_isNone, hnone, Option.not_isNone]
  cases p with
  | createWrite | rotateWrite | install | access | tickTake | call => cases hp
  | idle | asleep => cases h
  | dispatch method params =>
    simp only [Pc.exec] at h ⊢
    split at h <;> cases h <;> split <;> rfl
  | wake k => cases k <;> cases h <;> rfl
  | unlockedSummaries =>
    cases h
    simp only [Pc.exec, disguise, withSession_session, hlist]
  | capture op | woken op start =>
    simp only [Pc.exec] at h
    split at h
    · cases h
    · rename_i hfree
      cases h
      exact if_neg hfree
  | recheck op start =>
    simp only [Pc.exec] at h
    simp only [Pc.exec, disguise, withSession_session, hsome]
    split at h <;> cases h
    · rename_i hs
      exact if_pos hs
    · rename_i hs
      exact if_neg hs
  | decide op start =>
    simp only [Pc.exec] at h
    split at h <;> cases h
    · rename_i hgen
      exact if_pos hgen
    · rename_i hgen
      exact if_neg hgen
  | park op =>
    cases h
    simp only [Pc.exec, disguise, withSession_session, hsome]
  | queryExists full locked =>
    cases h
    simp only [Pc.exec, disguise]
    exact congrArg (fun b => some (_, Pc.querySummaries full locked b)) hfile
  | querySummaries full locked ex =>
    cases h
    simp only [Pc.exec, disguise, withSession_session, hlist]
  | queryLocked locked ex entries =>
    cases h
    simp only [Pc.exec, disguise, withSession_session, hsome]
  | tickLocked =>
    cases h
    simp only [Pc.exec, disguise, withSession_session, hnone]
  | resetFails | announceUnlocked | countFailure | announceLocked | wakeCancelled | signal
  | queryIdle | tickIdle | respond =>
    cases h
    rfl

section Sections

variable {S : Session Key → Session Key → Prop} {F : FileSystem → FileSystem → Prop}

lemma Beside.isNone (h : Beside S F sh₁ sh₂) : sh₂.session.isNone = sh₁.session.isNone := by
  have hs := h.session
  generalize sh₁.session = s₁ at hs
  generalize sh₂.session = s₂ at hs
  cases hs <;> rfl

lemma Beside.isSome (h : Beside S F sh₁ sh₂) : sh₂.session.isSome = sh₁.session.isSome := by
  rw [← Option.not_isNone, h.isNone, Option.not_isNone]

lemma Beside.listing (hv : Discreet cfg S F) (h : Beside S F sh₁ sh₂) :
    (sh₂.session.map fun s => summaries s.body) = sh₁.session.map fun s => summaries s.body := by
  have hs := h.session
  generalize sh₁.session = s₁ at hs
  generalize sh₂.session = s₂ at hs
  cases hs with
  | some hrel => exact congrArg some (hv.listing hrel)
  | none => rfl

lemma Beside.cleared (h : Beside S F sh₁ sh₂) :
    Beside S F (sh₁.withSession none) (sh₂.withSession none) where
  files := h.files
  session := .none
  rest := by
    rw [h.rest]
    rfl

lemma Beside.changed (h : Beside S F sh₁ sh₂) {fs₁ fs₂ : FileSystem}
    {s₁ s₂ : Option (Session Key)} (hfs : F fs₁ fs₂) (hs : Option.Rel S s₁ s₂) :
    Beside S F (disguise sh₁ fs₁ s₁) (disguise sh₂ fs₂ s₂) where
  files := hfs
  session := hs
  rest := by
    rw [h.rest]
    rfl

/-- The next section of the other daemon, and what the two come to. -/
def Follows (L : Packages Key) (cfg : Config) (env : Env) (expired : Bool) (t : ℕ)
    (origin : ℕ × ℕ) (S : Session Key → Session Key → Prop)
    (F : FileSystem → FileSystem → Prop) (R : Pc Key → Pc Key → Prop) (sh₂ : Shared Key)
    (q : Pc Key) (sh₁' : Shared Key) (p' : Pc Key) : Prop :=
  ∃ sh₂' q', q.exec L cfg env expired t origin sh₂ = some (sh₂', q') ∧
    Beside S F sh₁' sh₂' ∧ R p' q'

lemma Follows.same {T : Session Key → Session Key → Prop} {ok : Pc Key → Bool} {q : Pc Key}
    (hok : ok p' = true) (h : Follows L cfg env expired t origin S F Eq sh₂ q sh₁' p') :
    Follows L cfg env expired t origin S F (Abreast S T ok) sh₂ q sh₁' p' := by
  obtain ⟨sh₂', q', hexec, hbeside, rfl⟩ := h
  exact ⟨sh₂', p', hexec, hbeside, .same hok⟩

lemma rests_follows (hv : Discreet cfg S F) (h : Beside S F sh₁ sh₂) (hp : p.rests = true)
    (hexec : p.exec L cfg env expired t origin sh₁ = some (sh₁', p')) :
    Follows L cfg env expired t origin S F Eq sh₂ p sh₁' p' := by
  have hrests := exec_rests hp hexec
  refine ⟨disguise sh₁' sh₂.world.fs sh₂.session, p', ?_, ⟨?_, ?_, rfl⟩, rfl⟩
  · rw [h.rest]
    exact exec_disguise hp (hv.found h.files) h.isNone (h.listing hv) hexec
  · rw [hrests.fs]
    exact h.files
  · rw [hrests.session]
    exact h.session

/-- The handlers that do not open the vault file. -/
def opensFile : Call → Bool
  | .unlock _ | .rotate _ _ => true
  | _ => false

lemma begin_follows (hv : Discreet cfg S F) (h : Beside S F sh₁ sh₂) {c : Call}
    (hc : opensFile c = false) (hexec : begin L cfg env sh₁ c = some (sh₁', p')) :
    Follows L cfg env expired t origin S F Eq sh₂ (.call c) sh₁' p' := by
  have hnone := h.isNone
  have hsome := h.isSome
  have hholder : sh₂.holder = sh₁.holder := by
    rw [h.rest]
    rfl
  cases c with
  | unlock | rotate => cases hc
  | hello | status =>
    cases hexec
    exact ⟨sh₂, _, rfl, h, by rw [hnone]⟩
  | bare value =>
    cases hexec
    exact ⟨sh₂, _, rfl, h, rfl⟩
  | create password =>
    simp only [begin, ← hv.found h.files] at hexec
    split at hexec <;> cases hexec
    · rename_i hfile
      exact ⟨sh₂, _, if_pos hfile, h, rfl⟩
    · rename_i hfile
      exact ⟨sh₂, _, if_neg hfile, h, rfl⟩
  | lock =>
    cases hexec
    exact ⟨_, _, rfl, h.cleared, by rw [hsome]⟩
  | unlockCancel =>
    simp only [begin, ← hholder] at hexec
    split at hexec <;> cases hexec
    rename_i hfree
    refine ⟨_, _, if_neg hfree, ⟨h.files, h.session, ?_⟩, rfl⟩
    rw [h.rest]
    rfl
  | session wait op =>
    simp only [begin, ← hsome] at hexec
    split at hexec <;> cases hexec
    · rename_i hs
      exact ⟨sh₂, _, if_pos hs, h, rfl⟩
    · rename_i hs
      exact ⟨sh₂, _, if_neg hs, h, rfl⟩

lemma tickTake_follows (h : Beside S F sh₁ sh₂)
    (hexec : Pc.tickTake.exec L cfg env expired t origin sh₁ = some (sh₁', p')) :
    Follows L cfg env expired t origin S F Eq sh₂ .tickTake sh₁' p' := by
  cases hexec
  exact ⟨_, _, rfl, h.cleared, by rw [h.isSome]⟩

end Sections

/-! ### Steps -/

section Steps

variable {S T : Session Key → Session Key → Prop} {F : FileSystem → FileSystem → Prop}
variable {ok : Pc Key → Bool} {q : Pc Key} {d₁ d₁' d₂ : State Key} {a : Action}

lemma Abreast.isIdle (h : Abreast S T ok p q) : q.isIdle = p.isIdle := by
  cases h <;> rfl

lemma Abreast.notifies (h : Abreast S T ok p q) : q.notifies = p.notifies := by
  cases h <;> rfl

lemma Abreast.rouse (hrouse : ∀ op start, ok (.asleep op start) = true →
      ok (.woken op start) = true) (h : Abreast S T ok p q) :
    Abreast S T ok (rouse p) (rouse q) := by
  cases h with
  | install hs k => exact .install hs k
  | rotateWrite hs old new => exact .rotateWrite hs old new
  | same hp =>
    cases p with
    | asleep op start => exact .same (hrouse op start hp)
    | _ => exact .same hp

lemma Together.withPc (h : Together S T F ok d₁ d₂) {q' : Pc Key} (hp : Abreast S T ok p' q') :
    Together S T F ok (d₁.withPc t p') (d₂.withPc t q') := by
  refine ⟨h.shared, fun u => ?_, h.origin⟩
  by_cases hu : u = t
  · subst hu
    simpa [State.withPc] using hp
  · simpa [State.withPc, Function.update_of_ne hu] using h.threads u

/-- The two stay together through a step when the section that is run has one to follow it. -/
lemma step_together (hstarts : ∀ t c id method params, a = .request t c id method params →
      ok (.dispatch method params) = true) (htick : ok .tickLocked = true)
    (hrouse : ∀ op start, ok (.asleep op start) = true → ok (.woken op start) = true)
    (hruns : ∀ t env expired sh₁' p', a = .run t env expired →
      (d₁.pc t).exec L cfg env expired t (d₁.origin t) d₁.shared = some (sh₁', p') →
      Follows L cfg env expired t (d₁.origin t) S F (Abreast S T ok) d₂.shared (d₂.pc t)
        sh₁' p')
    (h : Together S T F ok d₁ d₂) (hstep : step L cfg d₁ a = some d₁') :
    ∃ d₂', step L cfg d₂ a = some d₂' ∧ Together S T F ok d₁' d₂' := by
  -- Who is registered is the same in both, so a step that is possible in one is so in the other.
  have hclients : d₂.shared.clients = d₁.shared.clients := by
    rw [h.shared.rest]
    rfl
  have hnext : d₂.shared.nextClient = d₁.shared.nextClient := by
    rw [h.shared.rest]
    rfl
  cases a with
  | connect =>
    cases hstep
    refine ⟨_, rfl, ⟨h.shared.files, h.shared.session, ?_⟩, h.threads, h.origin⟩
    simp only [hclients, hnext]
    rw [h.shared.rest]
    rfl
  | disconnect c =>
    simp only [step, ← hclients] at hstep
    split at hstep <;> cases hstep
    rename_i hc
    refine ⟨_, if_pos hc, ⟨h.shared.files, h.shared.session, ?_⟩, h.threads, h.origin⟩
    rw [h.shared.rest]
    rfl
  | request t c id method params =>
    simp only [step, ← hclients, ← (h.threads t).isIdle] at hstep
    split at hstep <;> cases hstep
    rename_i hc
    refine ⟨_, if_pos hc, ?_⟩
    have horigin : Together S T F ok
        { d₁ with origin := Function.update d₁.origin t (c, id) }
        { d₂ with origin := Function.update d₂.origin t (c, id) } :=
      ⟨h.shared, h.threads, by rw [h.origin]⟩
    exact horigin.withPc (.same (hstarts t c id method params rfl))
  | tick t =>
    simp only [step, ← (h.threads t).isIdle] at hstep
    split at hstep <;> cases hstep
    rename_i hidle
    exact ⟨_, if_pos hidle, h.withPc (.same htick)⟩
  | rouse t =>
    simp only [step] at hstep
    split at hstep <;> cases hstep
    rename_i op start hpc
    have ht := h.threads t
    rw [hpc] at ht
    generalize hq : d₂.pc t = q at ht
    cases ht with
    | same hok => exact ⟨_, by simp only [step, hq], h.withPc (.same (hrouse op start hok))⟩
  | run t env expired =>
    simp only [step] at hstep
    split at hstep
    · cases hstep
    · rename_i sh₁' p' hexec
      cases hstep
      obtain ⟨sh₂', q', hexec₂, hbeside, hp⟩ := hruns t env expired sh₁' p' rfl hexec
      rw [← h.origin] at hexec₂
      refine ⟨{ d₂ with
        shared := sh₂'
        pc := Function.update
          (if (d₂.pc t).notifies then fun u => rouse (d₂.pc u) else d₂.pc) t q' },
        by simp only [step, hexec₂], hbeside, fun u => ?_, h.origin⟩
      by_cases hu : u = t
      · subst hu
        simpa using hp
      · simp only [Function.update_of_ne hu, (h.threads t).notifies]
        split
        · exact (h.threads u).rouse hrouse
        · exact h.threads u

lemma Together.channel (h : Together S T F ok d₁ d₂) : d₂.shared.channel = d₁.shared.channel := by
  rw [h.shared.rest]
  rfl

end Steps

end LvimKeyring.Mirror
