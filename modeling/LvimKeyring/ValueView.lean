import LvimKeyring.Likeness
import LvimKeyring.Sample

/-!
What the values of the entries decide.

Every operation but a read of a value is done to two vaults whose entries differ in their values
alone with one answer, and leaves them so; what is written and read back differs no further.
-/

namespace LvimKeyring.ValueView

open Rpc Params Crypto Vault Server Daemon Transition OrderedMap Mirror Likeness

variable {Key : Type}

/-! ### Vaults that differ in their values -/

/-- Two entries differ in their values at most. -/
def EntryAlike (e e' : Entry) : Prop := e' = { e with value := e'.value }

/-- The same names, and entries that differ in their values at most. -/
def BodyAlike (b b' : Body) : Prop := Pointwise EntryAlike b.entries b'.entries

structure SessionAlike (s s' : Session Key) : Prop where
  body : BodyAlike s.body s'.body
  key : s'.key = s.key
  salt : s'.salt = s.salt
  params : s'.params = s.params

/-- The vault files are the same, or hold sessions that differ in their values at most. -/
def FilesAlike (L : Library Key) (path : String) (fs fs' : FileSystem) : Prop :=
  fs' path = fs path ∨ ∃ s s', Holds L fs path s ∧ Holds L fs' path s' ∧ SessionAlike s s'

/-- The operation answers with a value or what is computed from one. -/
def shows : Op → Bool
  | .get _ | .totp _ => true
  | .set _ | .delete _ | .rename _ _ | .list | .generate _ _ => false

/-- No request that shows a value is served at this place, and no session is in hand. -/
def hides : Pc Key → Bool
  | .dispatch method _ => method != "secret.get" && method != "secret.totp"
  | .call (.session _ op) | .park op | .signal op | .capture op | .recheck op _ | .decide op _
  | .asleep op _ | .woken op _ | .access op => !shows op
  | .install _ _ | .rotateWrite _ _ _ => false
  | _ => true

/-- Two daemons in states that differ only in the values of entries: those of the sessions, of
what the vault files hold and of the sessions that threads have in their hands. -/
abbrev Twins (L : Packages Key) (cfg : Config) : State Key → State Key → Prop :=
  Together SessionAlike SessionAlike (FilesAlike L.toLibrary cfg.vaultPath) hides

/-- The request is no `secret.get` and no `secret.totp`. -/
def ReadsNoValue : Action → Prop
  | .request _ _ _ method _ => method ≠ "secret.get" ∧ method ≠ "secret.totp"
  | _ => True

/-! ### The operations -/

lemma EntryAlike.refl (e : Entry) : EntryAlike e e := rfl

lemma BodyAlike.refl (b : Body) : BodyAlike b b := Pointwise.refl EntryAlike.refl b.entries

lemma EntryAlike.amended {e e' : Entry} (h : EntryAlike e e') (m : Option MetaIn) (now : ℕ) :
    EntryAlike { applyMeta? e m with updated := now } { applyMeta? e' m with updated := now } := by
  rw [h, WalletRefines.applyMeta?_eq, WalletRefines.applyMeta?_eq]
  rfl

lemma entryAlike_ofValues : OfValues EntryAlike := ⟨EntryAlike.refl, fun h => h⟩

lemma sessionAlike_eq : @SessionAlike Key = Sessions EntryAlike := by
  ext s s'
  exact ⟨fun h => ⟨h.body, h.key, h.salt, h.params⟩, fun h => ⟨h.body, h.key, h.salt, h.params⟩⟩

lemma filesAlike_eq (L : Library Key) (path : String) :
    FilesAlike L path = Likeness.Files EntryAlike L path := by
  ext fs fs'
  rw [FilesAlike, Likeness.Files, sessionAlike_eq]

lemma unseen_of_hidden (T : Totp.Packages) (now : ℕ) (b b' : Body) {op : Op}
    (hop : shows op = false) : Unseen EntryAlike T now b b' op := by
  cases op with
  | get | totp => cases hop
  | set p => exact fun _ e e' hfinds => EntryAlike.amended hfinds.2.2 p.info now
  | delete | rename | list | generate => trivial

/-! ### Sections -/

variable {L : Packages Key} {cfg : Config} {env : Env} {expired : Bool} {t : ℕ}
variable {origin : ℕ × ℕ} {sh sh' : Shared Key} {p p' q : Pc Key}

lemma emptyHanded_of_hides (h : hides p = true) : emptyHanded p = true := by
  cases p <;> first | rfl | cases h

lemma hides_call {c : Call} (hm : c.method ≠ "secret.get" ∧ c.method ≠ "secret.totp") :
    hides (.call c : Pc Key) = true := by
  cases c with
  | session wait op =>
    cases op with
    | get | totp => simp [Call.method] at hm
    | _ => rfl
  | _ => rfl

lemma begin_hides {c : Call} (hc : hides (.call c : Pc Key) = true)
    (h : begin L cfg env sh c = some (sh', p')) (hempty : emptyHanded p' = true) :
    hides p' = true := by
  cases c with
  | create password =>
    simp only [begin] at h
    split at h <;> cases h <;> rfl
  | unlock password =>
    simp only [begin] at h
    split at h <;> cases h
    · cases hempty
    · rfl
  | rotate old new =>
    simp only [begin] at h
    split at h <;> cases h
    · cases hempty
    · rfl
  | lock =>
    cases h
    split <;> rfl
  | unlockCancel =>
    simp only [begin] at h
    split at h <;> cases h
    rfl
  | session wait op =>
    simp only [begin] at h
    split at h <;> cases h
    · exact hc
    · split
      · exact hc
      · rfl
  | hello | status | bare =>
    cases h
    rfl

/-- A thread that hides values goes on to do so, unless it gets a session in hand. -/
lemma exec_hides (hp : emptyHanded p = true → hides p = true)
    (h : p.exec L cfg env expired t origin sh = some (sh', p')) (hempty : emptyHanded p' = true) :
    hides p' = true := by
  cases p with
  | idle | asleep => cases h
  | install s k =>
    cases h
    rfl
  | createWrite | rotateWrite =>
    rcases afterWrite_cases (Option.some.inj h) with ⟨s, rfl⟩ | ⟨e, rfl⟩
    · cases hempty
    · rfl
  | call c => exact begin_hides (hp rfl) h hempty
  | dispatch method params =>
    simp only [Pc.exec] at h
    split at h <;> cases h
    · rename_i c hc
      have hm := hp rfl
      rw [prepare_method hc] at hm
      exact hides_call (by simpa [hides] using hm)
    · rfl
  | wake k => cases k <;> cases h <;> rfl
  | capture op | woken op start =>
    simp only [Pc.exec] at h
    split at h <;> cases h
    exact hp rfl
  | recheck op start =>
    simp only [Pc.exec] at h
    split at h <;> cases h <;> exact hp rfl
  | decide op start =>
    simp only [Pc.exec] at h
    split at h <;> cases h
    · rfl
    · exact hp rfl
  | park op =>
    cases h
    split <;> exact hp rfl
  | signal op =>
    cases h
    exact hp rfl
  | querySummaries full locked ex =>
    cases h
    split
    · rfl
    · split <;> rfl
  | announceLocked | queryLocked | tickLocked | tickIdle | tickTake =>
    cases h
    split <;> rfl
  | resetFails | announceUnlocked | unlockedSummaries | countFailure | wakeCancelled | queryExists
  | queryIdle | respond | access =>
    cases h
    rfl

lemma Abreast.refine {S T : Session Key → Session Key → Prop} {ok ok' : Pc Key → Bool}
    (h : Abreast S T ok p q) (hok : ok p = true → ok' p = true) : Abreast S T ok' p q := by
  cases h with
  | same hp => exact .same (hok hp)
  | install hs k => exact .install hs k
  | rotateWrite hs old new => exact .rotateWrite hs old new

lemma Abreast.hides {S T : Session Key → Session Key → Prop} (h : Abreast S T hides p q)
    (hempty : emptyHanded p = true) : hides p = true := by
  cases h with
  | same hp => exact hp
  | install | rotateWrite => cases hempty

/-! ### Runs -/

lemma twins_step (hL : L.toLibrary.Ideal) {d₁ d₁' d₂ : State Key} {a : Action}
    (h : Twins L cfg d₁ d₂) (ha : ReadsNoValue a) (hstep : step L cfg d₁ a = some d₁') :
    ∃ d₂', step L cfg d₂ a = some d₂' ∧ Twins L cfg d₁' d₂' := by
  refine step_together ?_ rfl (fun _ _ hp => hp) ?_ h hstep
  · rintro t c id method params rfl
    simpa [hides, ReadsNoValue] using ha
  · rintro t env expired sh₁' p' rfl hexec
    have hp := Abreast.hides (h.threads t)
    have hrefined := Abreast.refine (h.threads t) emptyHanded_of_hides
    have hseen : ∀ op s s', d₁.pc t = .access op → d₁.shared.session = some s →
        d₂.shared.session = some s' → Unseen EntryAlike L.totp env.now s.body s'.body op := by
      intro op s s' hpc _ _
      rw [hpc] at hp
      exact unseen_of_hidden L.totp env.now s.body s'.body (by simpa [hides] using hp rfl)
    have hshared := h.shared
    rw [sessionAlike_eq, filesAlike_eq] at hshared ⊢
    rw [sessionAlike_eq] at hrefined
    obtain ⟨sh₂', q', hq, hbeside, hpq⟩ :=
      Likeness.exec_follows entryAlike_ofValues hL hshared hrefined hseen hexec
    exact ⟨sh₂', q', hq, hbeside, Abreast.refine hpq (exec_hides hp hexec)⟩

/-- **Values are shown by the requests that are for them only**: two daemons whose states differ
in the values of entries send every client the same lines on every run without a `secret.get` or
a `secret.totp`, and their states differ no further after it. -/
theorem sameReplies (L : Packages Key) (hL : L.toLibrary.Ideal) (cfg : Config) (d₁ d₂ : State Key)
    (h : Twins L cfg d₁ d₂) (as : List Action) (hio : ∀ a ∈ as, a.faultless)
    (has : ∀ a ∈ as, ReadsNoValue a) (d₁' : State Key)
    (hrun : run (step L cfg) d₁ as = some d₁') :
    ∃ d₂', run (step L cfg) d₂ as = some d₂' ∧
      (∀ c, d₂'.shared.channel c = d₁'.shared.channel c) ∧ Twins L cfg d₁' d₂' := by
  have hstep : ∀ e₁ e₂ a e₁', Twins L cfg e₁ e₂ → (a.faultless ∧ ReadsNoValue a) → True →
      step L cfg e₁ a = some e₁' → ∃ e₂', step L cfg e₂ a = some e₂' ∧ Twins L cfg e₁' e₂' :=
    fun _ _ _ _ htwins ha _ hstep => twins_step hL htwins ha.2 hstep
  have halong : Along (step L cfg) (fun _ a => a.faultless ∧ ReadsNoValue a) d₁ as :=
    along_of_forall fun a ha _ => ⟨hio a ha, has a ha⟩
  obtain ⟨d₂', hrun₂, htwins⟩ := run_simulated hstep h halong
    (along_of_forall fun _ _ _ => trivial) hrun
  exact ⟨d₂', hrun₂, fun c => by rw [htwins.channel], htwins⟩

/-- A session of the vault with one entry, of a value. -/
def storing (value : String) : Session Sample.Key :=
  { Sample.session with body := ⟨Body.default.entries.insert "a" (newEntry value 7)⟩ }

/-- The files once it has been saved. -/
def saved (value : String) : FileSystem :=
  (save Sample.packages.toLibrary .none Sample.created.fs Sample.config.vaultPath (storing value)
    Sample.env.nonce).1

def unlocked (value : String) : State Sample.Key where
  shared :=
    disguise ⟨Sample.created, none, [1], 2, fun _ => []⟩ (saved value) (some (storing value))
  pc _ := .idle
  origin _ := (0, 0)

lemma storing_alike (v v' : String) : SessionAlike (storing v) (storing v') :=
  ⟨Pointwise.insert (BodyAlike.refl Body.default) "a" rfl, rfl, rfl, rfl⟩

lemma saved_holds (value : String) :
    Holds Sample.packages.toLibrary (saved value) Sample.config.vaultPath (storing value) := by
  obtain ⟨fs, hfs⟩ := write_none Sample.library_ideal Sample.created.fs Sample.config.vaultPath
    (storing value) Sample.env.nonce
  have heq : saved value = fs := congrArg Prod.fst hfs
  rw [heq]
  exact holds_of_write Sample.library_ideal hfs

lemma unlocked_twins (v v' : String) :
    Twins Sample.packages Sample.config (unlocked v) (unlocked v') where
  shared :=
    ⟨.inr ⟨_, _, saved_holds v, saved_holds v', storing_alike v v'⟩,
      .some (storing_alike v v'), rfl⟩
  threads _ := .same rfl
  origin := rfl

/-- The methods of the run below. -/
def writing : List String := ["secret.set", "secret.rename", "vault.rotate", "vault.lock",
  "vault.unlock", "secret.list"]

/-- The entry is amended and renamed, the vault rotated, locked and unlocked, and its entries
are listed. -/
def reworked : List Action :=
  Sample.served 0 "secret.set" [("name", .str "a"), ("meta", .obj [("user", .str "u")])] 4 ++
    Sample.served 0 "secret.rename" [("from", .str "a"), ("to", .str "b")] 4 ++
    Sample.served 0 "vault.rotate" [("old_password", .str "pw"), ("new_password", .str "new")] 8 ++
    Sample.served 0 "vault.lock" [] 4 ++
    Sample.served 0 "vault.unlock" [("password", .str "new")] 8 ++
    Sample.served 0 "secret.list" [] 4

lemma readsNoValue_of_plain {a : Action} (h : Sample.Plain writing a) : ReadsNoValue a := by
  cases a with
  | request t c id method params =>
    have hmem : method ∈ writing := h.2
    constructor <;> rintro rfl <;> exact absurd hmem (by decide)
  | _ => trivial

theorem sameReplies_reworked : ∃ d₁', run Sample.step (unlocked "x") reworked = some d₁' ∧
    ∃ d₂', run Sample.step (unlocked "y") reworked = some d₂' ∧
      (∀ c, d₂'.shared.channel c = d₁'.shared.channel c) ∧
        Twins Sample.packages Sample.config d₁' d₂' := by
  have hplain : ∀ a ∈ reworked, Sample.Plain writing a := by
    simp only [reworked, List.forall_mem_append]
    exact ⟨⟨⟨⟨⟨Sample.plain_served (by decide) _ _ _, Sample.plain_served (by decide) _ _ _⟩,
      Sample.plain_served (by decide) _ _ _⟩, Sample.plain_served (by decide) _ _ _⟩,
      Sample.plain_served (by decide) _ _ _⟩, Sample.plain_served (by decide) _ _ _⟩
  have hends : (run Sample.step (unlocked "x") reworked).isSome = true := by decide +kernel
  obtain ⟨d₁', hrun⟩ := Option.isSome_iff_exists.mp hends
  exact ⟨d₁', hrun, sameReplies Sample.packages Sample.library_ideal Sample.config (unlocked "x")
    (unlocked "y") (unlocked_twins "x" "y") reworked (fun a ha => (hplain a ha).1)
    (fun a ha => readsNoValue_of_plain (hplain a ha)) d₁' hrun⟩

end LvimKeyring.ValueView
