import LvimKeyring.Lib.OrderedMap
import LvimKeyring.Mirror
import LvimKeyring.WalletRefines

/-!
Vaults whose entries are related.

The relation is one between entries that differ in their values at most. Two daemons with vaults
so related take the same steps as long as no operation sees which of two related entries it is
about; what they write and read back is related again.
-/

namespace LvimKeyring.Likeness

open Rpc Params Crypto Vault Server Daemon Transition OrderedMap Mirror

variable {Key : Type}

section Relations

variable (E : Entry → Entry → Prop)

/-- The same names, and related entries. -/
def Bodies (b b' : Body) : Prop := Pointwise E b.entries b'.entries

structure Sessions (s s' : Session Key) : Prop where
  body : Bodies E s.body s'.body
  key : s'.key = s.key
  salt : s'.salt = s.salt
  params : s'.params = s.params

/-- The vault files are the same, or hold sessions that are related. -/
def Files (L : Library Key) (path : String) (fs fs' : FileSystem) : Prop :=
  fs' path = fs path ∨ ∃ s s', Holds L fs path s ∧ Holds L fs' path s' ∧ Sessions E s s'

/-- Related entries differ in their values at most. -/
structure OfValues : Prop where
  refl : ∀ e, E e e
  value : ∀ {e e'}, E e e' → e' = { e with value := e'.value }

/-- The name has two related entries. -/
def Finds (b b' : Body) (name : String) (e e' : Entry) : Prop :=
  b.entries[name]? = some e ∧ b'.entries[name]? = some e' ∧ E e e'

/-- The operation does not see which of two related entries it finds. -/
def Unseen (T : Totp.Packages) (now : ℕ) (b b' : Body) : Op → Prop
  | .get name => ∀ e e', Finds E b b' name e e' → e'.value = e.value
  | .totp name => ∀ e e', Finds E b b' name e e' →
      Totp.code T e'.value now 30 6 = Totp.code T e.value now 30 6
  | .set p => p.value = none → ∀ e e', Finds E b b' p.name e e' →
      E { applyMeta? e p.info with updated := now } { applyMeta? e' p.info with updated := now }
  | .delete _ | .rename _ _ | .list | .generate _ _ => True

/-- The same error, or the same answer and related bodies. -/
inductive Answers : Except Err (Body × Reply) → Except Err (Body × Reply) → Prop
  | error (e : Err) : Answers (.error e) (.error e)
  | ok {b b' : Body} (r : Reply) (h : Bodies E b b') : Answers (.ok (b, r)) (.ok (b', r))

/-- Two writes: both fail and leave their vault files alone, or both go through. -/
inductive Sealed (L : Library Key) (path : String) (fs₁ fs₂ : FileSystem) :
    FileSystem × Except Err (Session Key) → FileSystem × Except Err (Session Key) → Prop
  | error {fs₁' fs₂' : FileSystem} (e : Err) (h₁ : fs₁' path = fs₁ path)
    (h₂ : fs₂' path = fs₂ path) : Sealed L path fs₁ fs₂ (fs₁', .error e) (fs₂', .error e)
  | ok {fs₁' fs₂' : FileSystem} {s s' : Session Key} (hs : Holds L fs₁' path s)
    (hs' : Holds L fs₂' path s') (h : Sessions E s s') :
    Sealed L path fs₁ fs₂ (fs₁', .ok s) (fs₂', .ok s')

end Relations

/-- The thread has no session in hand. -/
def emptyHanded : Pc Key → Bool
  | .install _ _ | .rotateWrite _ _ _ => false
  | _ => true

/-- Two daemons in states that are related: in their sessions, in what the vault files hold and
in the sessions that threads have in their hands. -/
abbrev Related (E : Entry → Entry → Prop) (L : Packages Key) (cfg : Config) :
    State Key → State Key → Prop :=
  Together (Sessions E) (Sessions E) (Files E L.toLibrary cfg.vaultPath) emptyHanded

/-- The step runs no operation that sees the difference. -/
def SeesNone (E : Entry → Entry → Prop) (L : Packages Key) (d₁ d₂ : State Key) : Action → Prop
  | .run t env _ => ∀ op s s', d₁.pc t = .access op → d₁.shared.session = some s →
      d₂.shared.session = some s' → Unseen E L.totp env.now s.body s'.body op
  | _ => True

/-! ### The operations -/

variable {E : Entry → Entry → Prop}

lemma Sessions.refl (hE : OfValues E) (s : Session Key) : Sessions E s s :=
  ⟨Pointwise.refl hE.refl s.body.entries, rfl, rfl, rfl⟩

lemma Files.congr {L : Library Key} {path : String} {fs₁ fs₁' fs₂ fs₂' : FileSystem}
    (h : Files E L path fs₁ fs₂) (h₁ : fs₁' path = fs₁ path) (h₂ : fs₂' path = fs₂ path) :
    Files E L path fs₁' fs₂' := by
  rcases h with hsame | ⟨s, s', hs, hs', hrel⟩
  · exact .inl (by rw [h₂, hsame, h₁])
  · exact .inr ⟨s, s', hs.congr h₁, hs'.congr h₂, hrel⟩

lemma summaries_alike (hE : OfValues E) {b b' : Body} (h : Bodies E b b') :
    summaries b' = summaries b := by
  have hlist := h.map_toList (f := fun e => (entryMeta e, e.created, e.updated))
    (g := fun e => (entryMeta e, e.created, e.updated)) (by
      intro e e' he
      rw [hE.value he]
      rfl)
  have hsummary := congrArg (List.map fun x : String × EntryMeta × ℕ × ℕ =>
    (⟨x.1, x.2.1, x.2.2.1, x.2.2.2⟩ : Summary)) hlist
  simp only [List.map_map, Function.comp_def] at hsummary
  exact hsummary.symm

variable {b b' : Body}

lemma Bodies.lookup (h : Bodies E b b') (name : String) :
    (b.entries[name]? = none ∧ b'.entries[name]? = none) ∨
      ∃ e e', b.entries[name]? = some e ∧ b'.entries[name]? = some e' ∧ E e e' := by
  have hname := h name
  generalize b.entries[name]? = x at hname
  generalize b'.entries[name]? = y at hname
  cases hname with
  | some he => exact .inr ⟨_, _, rfl, rfl, he⟩
  | none => exact .inl ⟨rfl, rfl⟩

lemma get_alike (hE : OfValues E) (h : Bodies E b b') {name : String}
    (hseen : ∀ e e', Finds E b b' name e e' → e'.value = e.value) :
    Answers E (secretGet name b) (secretGet name b') := by
  rcases h.lookup name with ⟨hb, hb'⟩ | ⟨e, e', hb, hb', he⟩
  · simp only [secretGet, hb, hb']
    exact .error _
  · have heq : e' = e := by
      rw [hE.value he, hseen e e' ⟨hb, hb', he⟩]
    simp only [secretGet, hb, hb', heq]
    exact .ok _ h

lemma totp_alike (h : Bodies E b b') {T : Totp.Packages} {name : String} {now : ℕ}
    (hseen : ∀ e e', Finds E b b' name e e' →
      Totp.code T e'.value now 30 6 = Totp.code T e.value now 30 6) :
    Answers E (secretTotp T name now b) (secretTotp T name now b') := by
  rcases h.lookup name with ⟨hb, hb'⟩ | ⟨e, e', hb, hb', he⟩
  · simp only [secretTotp, hb, hb']
    exact .error _
  · simp only [secretTotp, hb, hb', hseen e e' ⟨hb, hb', he⟩]
    cases Totp.code T e.value now 30 6 with
    | error err => exact .error err
    | ok code => exact .ok _ h

lemma OfValues.replaced (hE : OfValues E) {e e' : Entry} (h : E e e') (value : String) :
    { e' with value } = { e with value } := by
  rw [hE.value h]

lemma set_alike (hE : OfValues E) (h : Bodies E b b') {p : SetParam} {now : ℕ}
    (hseen : p.value = none → ∀ e e', Finds E b b' p.name e e' →
      E { applyMeta? e p.info with updated := now } { applyMeta? e' p.info with updated := now }) :
    Answers E (secretSet p now b) (secretSet p now b') := by
  rcases h.lookup p.name with ⟨hb, hb'⟩ | ⟨e, e', hb, hb', he⟩
  · simp only [secretSet, hb, hb']
    cases p.value with
    | none => exact .error _
    | some v => exact .ok .unit (Pointwise.insert h p.name (hE.refl _))
  · simp only [secretSet, hb, hb']
    refine .ok .unit (Pointwise.insert h p.name ?_)
    cases hv : p.value with
    | none => exact hseen hv e e' ⟨hb, hb', he⟩
    | some v =>
      simp only [Option.getD_some, hE.replaced he v]
      exact hE.refl _

lemma delete_alike (h : Bodies E b b') (name : String) :
    Answers E (secretDelete name b) (secretDelete name b') := by
  rcases h.lookup name with ⟨hb, hb'⟩ | ⟨e, e', hb, hb', -⟩
  · simp only [secretDelete, hb, hb']
    exact .error _
  · simp only [secretDelete, hb, hb']
    exact .ok .unit (Pointwise.erase h name)

lemma rename_alike (h : Bodies E b b') (src dst : String) :
    Answers E (secretRename src dst b) (secretRename src dst b') := by
  rcases h.lookup dst with ⟨hd, hd'⟩ | ⟨e, e', hd, hd', -⟩
  · rcases h.lookup src with ⟨hs, hs'⟩ | ⟨e, e', hs, hs', he⟩
    · simp only [secretRename, hd, hd', hs, hs']
      exact .error _
    · simp only [secretRename, hd, hd', hs, hs']
      exact .ok .unit (Pointwise.insert (Pointwise.erase h src) dst he)
  · simp only [secretRename, hd, hd']
    exact .error _

lemma generate_alike (hE : OfValues E) (h : Bodies E b b') (name value : String) (now : ℕ) :
    Answers E (secretGenerate name value now b) (secretGenerate name value now b') := by
  rcases h.lookup name with ⟨hb, hb'⟩ | ⟨e, e', hb, hb', he⟩
  · simp only [secretGenerate, hb, hb']
    exact .ok _ (Pointwise.insert h name (hE.refl _))
  · have hnew : { e' with value, updated := now } = { e with value, updated := now } :=
      congrArg (fun e : Entry => { e with updated := now }) (hE.replaced he value)
    simp only [secretGenerate, hb, hb', hnew]
    exact .ok _ (Pointwise.insert h name (hE.refl _))

/-- An operation that does not see the difference answers alike and leaves related bodies. -/
theorem run_alike (hE : OfValues E) (h : Bodies E b b') {T : Totp.Packages} {now : ℕ} {op : Op}
    (hseen : Unseen E T now b b' op) : Answers E (op.run T now b) (op.run T now b') := by
  cases op with
  | get name => exact get_alike hE h hseen
  | totp name => exact totp_alike h hseen
  | set p => exact set_alike hE h hseen
  | delete name => exact delete_alike h name
  | rename src dst => exact rename_alike h src dst
  | generate name value => exact generate_alike hE h name value now
  | list =>
    simp only [Op.run, summaries_alike hE h]
    exact .ok _ h

/-! ### The files -/

section Files

variable {L : Library Key} {path : String} {fs₁ fs₂ : FileSystem} {s s' : Session Key}

lemma unlock_alike (hE : OfValues E) (hL : L.Ideal) (h : Files E L path fs₁ fs₂) (io : Faults)
    (pw : Bytes) :
    (∃ s s', unlock L io fs₁ path pw = .ok s ∧ unlock L io fs₂ path pw = .ok s' ∧
      Sessions E s s') ∨
      ∃ e, unlock L io fs₁ path pw = .error e ∧ unlock L io fs₂ path pw = .error e := by
  classical
  rcases h with hsame | ⟨s, s', hs, hs', hrel⟩
  · rw [unlock_congr hsame]
    cases unlock L io fs₁ path pw with
    | ok s => exact .inl ⟨s, s, rfl, rfl, .refl hE s⟩
    | error e => exact .inr ⟨e, rfl, rfl⟩
  · rw [unlock_of_holds hL hs, unlock_of_holds hL hs', Session.opened, Session.opened, hrel.key,
      hrel.salt, hrel.params]
    cases io.fails .read with
    | some e => exact .inr ⟨_, rfl, rfl⟩
    | none =>
      cases deriveKey L.toPrimitives pw s.salt s.params with
      | error e => exact .inr ⟨e, rfl, rfl⟩
      | ok key =>
        by_cases hk : key = s.key
        · exact .inl ⟨s, s', if_pos hk, if_pos hk, hrel⟩
        · exact .inr ⟨.wrongPassword, if_neg hk, if_neg hk⟩

lemma write_both (hL : L.Ideal) (io : Faults) (fs₁ fs₂ : FileSystem) (path : String)
    (s s' : Session Key) (nonce : Nonce) :
    (∃ e fs₁' fs₂', write L io fs₁ path s nonce = (fs₁', .error e) ∧
      write L io fs₂ path s' nonce = (fs₂', .error e) ∧ fs₁' path = fs₁ path ∧
        fs₂' path = fs₂ path) ∨
      ∃ fs₁' fs₂', write L io fs₁ path s nonce = (fs₁', .ok ()) ∧
        write L io fs₂ path s' nonce = (fs₂', .ok ()) ∧ Holds L fs₁' path s ∧
          Holds L fs₂' path s' := by
  have hreply := write_reply hL io fs₁ fs₂ path s s' nonce
  generalize h₁ : write L io fs₁ path s nonce = r₁ at hreply
  generalize h₂ : write L io fs₂ path s' nonce = r₂ at hreply
  obtain ⟨fs₁', e | u⟩ := r₁
  · obtain ⟨fs₂', r⟩ := r₂
    cases hreply
    exact .inl ⟨e, fs₁', fs₂', rfl, rfl, write_error h₁, write_error h₂⟩
  · obtain ⟨fs₂', r⟩ := r₂
    cases hreply
    exact .inr ⟨fs₁', fs₂', rfl, rfl, holds_of_write hL h₁, holds_of_write hL h₂⟩

lemma writeNew_sealed (hL : L.Ideal) (io : Faults) (h : Sessions E s s') (nonce : Nonce) :
    Sealed E L path fs₁ fs₂ (writeNew L io fs₁ path s nonce)
      (writeNew L io fs₂ path s' nonce) := by
  unfold writeNew
  rcases write_both hL io fs₁ fs₂ path s s' nonce with
    ⟨e, fs₁', fs₂', h₁, h₂, hfs₁, hfs₂⟩ | ⟨fs₁', fs₂', h₁, h₂, hs, hs'⟩
  · rw [h₁, h₂]
    exact .error e hfs₁ hfs₂
  · rw [h₁, h₂]
    exact .ok hs hs' h

lemma createAbsent_sealed (hE : OfValues E) (hL : L.Ideal) (io : Faults) (pw : Bytes)
    (params : KdfParams) (salt : Salt) (nonce : Nonce) :
    Sealed E L path fs₁ fs₂ (createAbsent L io fs₁ path pw params salt nonce)
      (createAbsent L io fs₂ path pw params salt nonce) := by
  unfold createAbsent
  cases deriveKey L.toPrimitives pw salt params with
  | error e => exact .error e rfl rfl
  | ok key => exact writeNew_sealed hL io (.refl hE _) nonce

lemma rotateRead_sealed (hL : L.Ideal) (io : Faults) (h : Sessions E s s') (pw : Bytes)
    (params : KdfParams) (salt : Salt) (nonce : Nonce) :
    Sealed E L path fs₁ fs₂ (rotateRead L io fs₁ path s pw params salt nonce)
      (rotateRead L io fs₂ path s' pw params salt nonce) := by
  unfold rotateRead
  cases deriveKey L.toPrimitives pw salt params with
  | error e => exact .error e rfl rfl
  | ok key =>
    have hnew : Sessions E (⟨⟨s.body.entries⟩, key, salt, params⟩ : Session Key)
        ⟨⟨s'.body.entries⟩, key, salt, params⟩ := ⟨h.body, rfl, rfl, rfl⟩
    exact writeNew_sealed hL io hnew nonce

end Files

/-! ### Sections -/

section Sections

variable {L : Packages Key} {cfg : Config} {env : Env} {expired : Bool} {t : ℕ}
variable {origin : ℕ × ℕ} {sh₁ sh₁' sh₂ : Shared Key} {p p' q : Pc Key}

lemma discreet (hE : OfValues E) (L : Library Key) (cfg : Config) :
    Discreet cfg (@Sessions Key E) (Files E L cfg.vaultPath) where
  listing h := summaries_alike hE h.body
  found h := by
    rcases h with hsame | ⟨s, s', hs, hs', -⟩
    · simp only [fileExists, hsame]
    · rw [hs.fileExists, hs'.fileExists]

lemma emptyHanded_of_plain (h : p.plain = true) : emptyHanded p = true := by
  cases p <;> first | rfl | cases h

lemma begin_emptyHanded {c : Call} (hc : opensFile c = false)
    (h : begin L cfg env sh₁ c = some (sh₁', p')) : emptyHanded p' = true := by
  by_cases hlock : c = .lock
  · subst hlock
    cases h
    split <;> rfl
  · obtain ⟨-, -, hopened⟩ := begin_opened hlock h
    cases hopened with
    | plain hp => exact emptyHanded_of_plain hp
    | create => rfl
    | unlock | rotate => cases hc

abbrev Follows (E : Entry → Entry → Prop) (L : Packages Key) (cfg : Config) (env : Env)
    (expired : Bool) (t : ℕ) (origin : ℕ × ℕ) :
    Shared Key → Pc Key → Shared Key → Pc Key → Prop :=
  Mirror.Follows L cfg env expired t origin (Sessions E) (Files E L.toLibrary cfg.vaultPath)
    (Abreast (Sessions E) (Sessions E) emptyHanded)

lemma afterWrite_follows {k : Installer}
    (h : Beside (Sessions E) (Files E L.toLibrary cfg.vaultPath) sh₁ sh₂)
    {r r' : FileSystem × Except Err (Session Key)}
    (hr : Sealed E L.toLibrary cfg.vaultPath sh₁.world.fs sh₂.world.fs r r')
    (hexec : afterWrite sh₁ k r = (sh₁', p'))
    (hq : q.exec L cfg env expired t origin sh₂ = some (afterWrite sh₂ k r')) :
    Follows E L cfg env expired t origin sh₂ q sh₁' p' := by
  cases hr with
  | error e h₁ h₂ =>
    cases hexec
    exact ⟨_, _, hq, h.changed (h.files.congr h₁ h₂) h.session, .same rfl⟩
  | ok hs hs' hrel =>
    cases hexec
    exact ⟨_, _, hq, h.changed (.inr ⟨_, _, hs, hs', hrel⟩) h.session, .install hrel k⟩

lemma access_of_outcomes {op : Op} {w₁ w₂ : World Key} {r : Except Err Reply}
    (h₁ : Server.withSession L cfg env false op sh₁.world = .of w₁ r [])
    (h₂ : Server.withSession L cfg env false op sh₂.world = .of w₂ r [])
    (h : Beside (Sessions E) (Files E L.toLibrary cfg.vaultPath) { sh₁ with world := w₁ }
      { sh₂ with world := w₂ })
    (hexec : (Pc.access op).exec L cfg env expired t origin sh₁ = some (sh₁', p')) :
    Follows E L cfg env expired t origin sh₂ (.access op) sh₁' p' := by
  simp only [Pc.exec, h₁] at hexec
  cases hexec
  exact ⟨{ sh₂ with world := w₂ }, .respond r, by simp only [Pc.exec, h₂]; rfl, h, .same rfl⟩

/-- An operation that sees no difference is answered alike, and its changes are saved alike. -/
lemma access_follows (hE : OfValues E) (hL : L.toLibrary.Ideal)
    (h : Beside (Sessions E) (Files E L.toLibrary cfg.vaultPath) sh₁ sh₂) {op : Op}
    (hseen : ∀ s s', sh₁.session = some s → sh₂.session = some s' →
      Unseen E L.totp env.now s.body s'.body op)
    (hexec : (Pc.access op).exec L cfg env expired t origin sh₁ = some (sh₁', p')) :
    Follows E L cfg env expired t origin sh₂ (.access op) sh₁' p' := by
  have hs := h.session
  simp only [Shared.session] at hs hseen
  generalize hs₁ : sh₁.world.inner.session = x at hs
  generalize hs₂ : sh₂.world.inner.session = y at hs
  cases hs with
  | none =>
    have hnone (w : World Key) (hw : w.inner.session = none) :
        Server.withSession L cfg env false op w = .of w (.error .locked) [] := by
      simp only [Server.withSession, hw]
      rfl
    exact access_of_outcomes (hnone _ hs₁) (hnone _ hs₂) h hexec
  | @some s s' hrel =>
    have hrun := run_alike hE hrel.body (hseen s s' hs₁ hs₂)
    generalize ha₁ : op.run L.totp env.now s.body = a₁ at hrun
    generalize ha₂ : op.run L.totp env.now s'.body = a₂ at hrun
    cases hrun with
    | error e =>
      exact access_of_outcomes (r := .error e) (by simp only [Server.withSession, hs₁, ha₁])
        (by simp only [Server.withSession, hs₂, ha₂]) h hexec
    | @ok b b' r hb =>
      cases hreads : op.reads with
      | true =>
        exact access_of_outcomes (r := .ok r)
          (by simp only [Server.withSession, hs₁, ha₁, hreads, if_true])
          (by simp only [Server.withSession, hs₂, ha₂, hreads, if_true]) h hexec
      | false =>
        have hchanged : Sessions E { s with body := b } { s' with body := b' } :=
          ⟨hb, hrel.key, hrel.salt, hrel.params⟩
        have hfails (w : World Key) {s : Session Key} {b : Body} {fs : FileSystem} {e : Err}
            (hw : w.inner.session = some s) (ha : op.run L.totp env.now s.body = .ok (b, r))
            (hfs : write L.toLibrary env.io w.fs cfg.vaultPath { s with body := b } env.nonce
              = (fs, .error e)) :
            Server.withSession L cfg env false op w
              = .of ({ w with fs }.withSession (some { s with body := b })) (.error e) [] := by
          simp only [Server.withSession, hw, ha, hreads, Bool.false_eq_true, if_false, save, hfs]
        have hsaved (w : World Key) {s : Session Key} {b : Body} {fs : FileSystem}
            (hw : w.inner.session = some s) (ha : op.run L.totp env.now s.body = .ok (b, r))
            (hfs : write L.toLibrary env.io w.fs cfg.vaultPath { s with body := b } env.nonce
              = (fs, .ok ())) :
            Server.withSession L cfg env false op w
              = .of ({ w with fs }.withSession (some { s with body := b })) (.ok r) [] := by
          simp only [Server.withSession, hw, ha, hreads, Bool.false_eq_true, if_false, save, hfs]
        rcases write_both hL env.io sh₁.world.fs sh₂.world.fs cfg.vaultPath
          { s with body := b } { s' with body := b' } env.nonce with
          ⟨e, fs₁', fs₂', h₁, h₂, hfs₁, hfs₂⟩ | ⟨fs₁', fs₂', h₁, h₂, hheld₁, hheld₂⟩
        · exact access_of_outcomes (hfails _ hs₁ ha₁ h₁) (hfails _ hs₂ ha₂ h₂)
            (h.changed (h.files.congr hfs₁ hfs₂) (.some hchanged)) hexec
        · exact access_of_outcomes (hsaved _ hs₁ ha₁ h₁) (hsaved _ hs₂ ha₂ h₂)
            (h.changed (.inr ⟨_, _, hheld₁, hheld₂, hchanged⟩) (.some hchanged)) hexec

/-- A section that sees no difference is followed, in the other daemon, by its twin. -/
theorem exec_follows (hE : OfValues E) (hL : L.toLibrary.Ideal)
    (h : Beside (Sessions E) (Files E L.toLibrary cfg.vaultPath) sh₁ sh₂)
    (hpq : Abreast (Sessions E) (Sessions E) emptyHanded p q)
    (hseen : ∀ op s s', p = .access op → sh₁.session = some s → sh₂.session = some s' →
      Unseen E L.totp env.now s.body s'.body op)
    (hexec : p.exec L cfg env expired t origin sh₁ = some (sh₁', p')) :
    Follows E L cfg env expired t origin sh₂ q sh₁' p' := by
  have hv := discreet hE L.toLibrary cfg
  cases hpq with
  | install hs k =>
    cases hexec
    exact ⟨_, _, rfl, h.changed h.files (.some hs), .same rfl⟩
  | rotateWrite hs old new =>
    simp only [Pc.exec, Option.some.injEq] at hexec
    exact afterWrite_follows h (rotateRead_sealed hL _ hs _ _ _ _) hexec rfl
  | same hp =>
    by_cases hrests : p.rests = true
    · exact (rests_follows hv h hrests hexec).same
        (emptyHanded_of_plain (exec_rests hrests hexec).plain)
    -- The rest open, write or install a file: both do so, to related sessions, or neither.
    cases p with
    | install | rotateWrite => cases hp
    | createWrite password =>
      simp only [Pc.exec, Option.some.injEq] at hexec
      exact afterWrite_follows h (createAbsent_sealed hE hL _ _ _ _ _) hexec rfl
    | tickTake =>
      refine (tickTake_follows h hexec).same ?_
      cases hexec
      split <;> rfl
    | access op => exact access_follows hE hL h (fun s s' => hseen op s s' rfl) hexec
    | call c =>
      by_cases hc : opensFile c = false
      · exact (begin_follows hv h hc hexec).same (begin_emptyHanded hc hexec)
      cases c with
      | unlock password =>
        rcases unlock_alike hE hL h.files env.io (asBytes password) with
          ⟨s, s', hs, hs', hrel⟩ | ⟨e, he, he'⟩
        · simp only [Pc.exec, begin, hs] at hexec
          cases hexec
          exact ⟨sh₂, _, by simp only [Pc.exec, begin, hs'], h, .install hrel _⟩
        · simp only [Pc.exec, begin, he] at hexec
          cases hexec
          exact ⟨sh₂, _, by simp only [Pc.exec, begin, he'], h, .same rfl⟩
      | rotate old new =>
        rcases unlock_alike hE hL h.files env.io (asBytes old) with
          ⟨s, s', hs, hs', hrel⟩ | ⟨e, he, he'⟩
        · simp only [Pc.exec, begin, hs] at hexec
          cases hexec
          exact ⟨sh₂, _, by simp only [Pc.exec, begin, hs'], h, .rotateWrite hrel _ _⟩
        · simp only [Pc.exec, begin, he] at hexec
          cases hexec
          exact ⟨sh₂, _, by simp only [Pc.exec, begin, he'], h, .same rfl⟩
      | _ => exact absurd rfl hc
    | _ => exact absurd rfl hrests

end Sections

/-! ### Steps -/

variable {L : Packages Key} {cfg : Config}

lemma related_step (hE : OfValues E) (hL : L.toLibrary.Ideal) {d₁ d₁' d₂ : State Key} {a : Action}
    (h : Related E L cfg d₁ d₂) (hseen : SeesNone E L d₁ d₂ a)
    (hstep : step L cfg d₁ a = some d₁') :
    ∃ d₂', step L cfg d₂ a = some d₂' ∧ Related E L cfg d₁' d₂' := by
  refine step_together (fun _ _ _ _ _ _ => rfl) rfl (fun _ _ _ => rfl) ?_ h hstep
  rintro t env expired sh₁' p' rfl hexec
  exact exec_follows hE hL h.shared (h.threads t) hseen hexec

/-- Related daemons go through the same steps and send every client the same lines on every run
that sees no difference, and are related after it. -/
theorem run_related (hE : OfValues E) (hL : L.toLibrary.Ideal) {d₁ d₁' d₂ : State Key}
    {as : List Action} (h : Related E L cfg d₁ d₂)
    (hseen : AlongBoth (step L cfg) (step L cfg) (SeesNone E L) d₁ d₂ as)
    (hrun : run (step L cfg) d₁ as = some d₁') :
    ∃ d₂', run (step L cfg) d₂ as = some d₂' ∧
      (∀ c, d₂'.shared.channel c = d₁'.shared.channel c) ∧ Related E L cfg d₁' d₂' := by
  have hstep : ∀ e₁ e₂ a e₁', Related E L cfg e₁ e₂ → SeesNone E L e₁ e₂ a →
      step L cfg e₁ a = some e₁' → ∃ e₂', step L cfg e₂ a = some e₂' ∧ Related E L cfg e₁' e₂' :=
    fun _ _ _ _ hrel ha hstep => related_step hE hL hrel ha hstep
  obtain ⟨d₂', hrun₂, hrel⟩ := run_paired hstep h hseen hrun
  exact ⟨d₂', hrun₂, fun c => by rw [hrel.channel], hrel⟩

end LvimKeyring.Likeness
