import Mathlib.Data.List.Infix
import LvimKeyring.Upkeep

/-!
The prompts for the master password.

A vault is created under a password that was typed twice, and so is a rotation's new one. What the
prompts send goes to a daemon with requests of many clients in flight, where any file operation may
fail: what its vault file holds opens with a password that somebody typed twice in a row.
-/

namespace LvimKeyring.MasterPassword

open Rpc Params Crypto Vault Server Transition Upkeep

/-! ### The flows -/

/-- A masked input. -/
inductive Ask
  | create
  | confirm
  | unlock
  | current
  | new
  | confirmNew
  deriving DecidableEq

/-- What a flow waits for: an input, or an answer of the agent. -/
inductive Stage
  | status
  | asksNew
  | confirms (pw : String)
  | creating (pw : String)
  | asks
  | unlocking (pw : String)
  | asksOld
  | asksNext (old : String)
  | confirmsNext (old new : String)
  | rotating (old new : String)
  /-- The callback has been called, with `true` or with an error. -/
  | ended (r : Except String Unit)

/-- The input that is open. -/
def Stage.ask : Stage → Option Ask
  | .asksNew => some .create
  | .confirms _ => some .confirm
  | .asks => some .unlock
  | .asksOld => some .current
  | .asksNext _ => some .new
  | .confirmsNext _ _ => some .confirmNew
  | _ => none

inductive Level
  | info
  | warn

structure Flow where
  stage : Stage
  typed : List (Ask × String)

/-- What a callback does: the flow goes on, with requests and messages. -/
structure Effect where
  flow : Flow
  sent : List (String × Json)
  notices : List (Level × String)

namespace Flow

def goTo (f : Flow) (st : Stage) : Effect := ⟨{ f with stage := st }, [], []⟩

def request (f : Flow) (st : Stage) (method : String) (params : Json) : Effect :=
  ⟨{ f with stage := st }, [(method, params)], []⟩

def fail (f : Flow) (e : String) : Effect := f.goTo (.ended (.error e))

end Flow

def Effect.notify (x : Effect) (l : Level) (text : String) : Effect :=
  { x with notices := x.notices ++ [(l, "lvim-keyring: " ++ text)] }

/-- `M.create` -/
def create (f : Flow) : Effect := f.goTo .asksNew

/-- `M.unlock_existing` -/
def unlockExisting (f : Flow) : Effect := f.goTo .asks

/-- `M.unlock` -/
def unlock (f : Flow) : Effect := f.request .status "vault.status" (.obj [])

/-- `M.rotate` -/
def rotate (f : Flow) : Effect := f.goTo .asksOld

/-- The callback of an input; a cancelled one gives no value. -/
def entered (f : Flow) (value : Option String) : Effect :=
  match f.stage, value with
  | .asksNew, some pw => if pw = "" then f.fail "cancelled" else f.goTo (.confirms pw)
  | .confirms pw, some again =>
    if again ≠ pw then (create f).notify .warn "passwords did not match — try again"
    else f.request (.creating pw) "vault.create" (.obj [("password", .str pw)])
  | .asks, some pw =>
    if pw = "" then f.fail "cancelled"
    else f.request (.unlocking pw) "vault.unlock" (.obj [("password", .str pw)])
  | .asksOld, some old => if old = "" then f.fail "cancelled" else f.goTo (.asksNext old)
  | .asksNext old, some new =>
    if new = "" then f.fail "cancelled" else f.goTo (.confirmsNext old new)
  | .confirmsNext old new, some again =>
    if again ≠ new then (f.fail "mismatch").notify .warn "new passwords did not match"
    else
      f.request (.rotating old new) "vault.rotate"
        (.obj [("new_password", .str new), ("old_password", .str old)])
  | _, _ => f.fail "cancelled"

/-- `status.vault_exists` -/
def vaultExists : Reply → Bool
  | .status _ ex _ _ | .hello _ ex _ => ex
  | _ => false

/-- The callback of a request. -/
def replied (f : Flow) (result : Except String Reply) : Effect :=
  match f.stage, result with
  | .status, .error e => f.fail e
  | .status, .ok r => if vaultExists r then unlockExisting f else create f
  | .creating _, .error e => f.fail e
  | .creating _, .ok _ => (f.goTo (.ended (.ok ()))).notify .info "vault created and unlocked"
  | .unlocking _, .error e => (unlockExisting f).notify .warn e
  | .unlocking _, .ok _ => f.goTo (.ended (.ok ()))
  | .rotating _ _, .error e => (f.fail e).notify .warn e
  | .rotating _ _, .ok _ => (f.goTo (.ended (.ok ()))).notify .info "master password changed"
  | _, _ => f.goTo f.stage

/-- The flow waits for an answer. -/
def Stage.waits : Stage → Bool
  | .status | .creating _ | .unlocking _ | .rotating _ _ => true
  | _ => false

/-! ### One editor -/

structure Ui where
  flows : List Flow
  sent : List (String × Json)
  notices : List (Level × String)

def Ui.new : Ui := ⟨[], [], []⟩

inductive Entry
  | unlock
  | create
  | unlockExisting
  | rotate

def Entry.run : Entry → Flow → Effect
  | .unlock => MasterPassword.unlock
  | .create => MasterPassword.create
  | .unlockExisting => MasterPassword.unlockExisting
  | .rotate => MasterPassword.rotate

inductive Event
  | start (entry : Entry)
  | enter (i : ℕ) (value : Option String)
  | reply (i : ℕ) (result : Except String Reply)

def Ui.apply (s : Ui) (flows : List Flow) (x : Effect) : Ui :=
  ⟨flows, s.sent ++ x.sent, s.notices ++ x.notices⟩

def Flow.fresh : Flow := ⟨.ended (.ok ()), []⟩

def step (s : Ui) : Event → Option Ui
  | .start entry =>
    let x := entry.run .fresh
    some (s.apply (s.flows ++ [x.flow]) x)
  | .enter i value =>
    (s.flows[i]?).bind fun f => f.stage.ask.map fun a =>
      let x := entered { f with typed := f.typed ++ (value.map fun text => (a, text)).toList } value
      s.apply (s.flows.set i x.flow) x
  | .reply i result =>
    (s.flows[i]?).bind fun f =>
      if f.stage.waits then
        let x := replied f result
        some (s.apply (s.flows.set i x.flow) x)
      else none

/-! ### What has been typed -/

/-- The texts were typed one after another in one flow. -/
def Typed (s : Ui) (texts : List (Ask × String)) : Prop := ∃ f ∈ s.flows, texts <:+: f.typed

/-- The password was typed, and typed again. -/
def TypedTwice (s : Ui) (pw : String) : Prop :=
  pw ≠ "" ∧ (Typed s [(.create, pw), (.confirm, pw)] ∨
    ∃ old, Typed s [(.current, old), (.new, pw), (.confirmNew, pw)])

/-- What a stage carries, as it was typed. -/
def Stage.carries : Stage → List (Ask × String)
  | .confirms pw => [(.create, pw)]
  | .creating pw => [(.create, pw), (.confirm, pw)]
  | .unlocking pw => [(.unlock, pw)]
  | .asksNext old => [(.current, old)]
  | .confirmsNext old new => [(.current, old), (.new, new)]
  | .rotating old new => [(.current, old), (.new, new), (.confirmNew, new)]
  | _ => []

/-- What a flow carries was typed last, and is not empty. -/
structure Backed (f : Flow) : Prop where
  typed : f.stage.carries <:+ f.typed
  filled : ∀ x ∈ f.stage.carries, x.2 ≠ ""

/-- A request with what was typed for it. -/
inductive Justified (typed : List (Ask × String)) : String × Json → Prop
  | status : Justified typed ("vault.status", .obj [])
  | create {pw : String} (hne : pw ≠ "") (h : [(.create, pw), (.confirm, pw)] <:+: typed) :
    Justified typed ("vault.create", .obj [("password", .str pw)])
  | unlock {pw : String} (hne : pw ≠ "") (h : [(.unlock, pw)] <:+: typed) :
    Justified typed ("vault.unlock", .obj [("password", .str pw)])
  | rotate {old new : String} (hold : old ≠ "") (hnew : new ≠ "")
    (h : [(.current, old), (.new, new), (.confirmNew, new)] <:+: typed) :
    Justified typed ("vault.rotate", .obj [("new_password", .str new), ("old_password", .str old)])

/-- A flow goes on well: it is backed, and so is what it sends. -/
structure Sound (f : Flow) (x : Effect) : Prop where
  typed : x.flow.typed = f.typed
  backed : Backed x.flow
  sent : ∀ m ∈ x.sent, Justified f.typed m

variable {f : Flow}

lemma sound_goTo {st : Stage} (h : st.carries = []) : Sound f (f.goTo st) := by
  have hcarries : (f.goTo st).flow.stage.carries = [] := h
  refine ⟨rfl, ⟨?_, fun x hx => ?_⟩, nofun⟩
  · rw [hcarries]
    exact List.nil_suffix
  · rw [hcarries] at hx
    cases hx

lemma Sound.notify {x : Effect} (h : Sound f x) (l : Level) (text : String) :
    Sound f (x.notify l text) := ⟨h.typed, h.backed, h.sent⟩

lemma suffix_typed {texts typed : List (Ask × String)} (h : texts <:+ typed) (x : Ask × String) :
    texts ++ [x] <:+ typed ++ [x] := by
  obtain ⟨before, rfl⟩ := h
  exact ⟨before, (List.append_assoc _ _ _).symm⟩

/-- Something is typed into the input that is open. -/
lemma sound_entered (h : Backed f) {a : Ask} (ha : f.stage.ask = some a) (text : String) :
    let g : Flow := { f with typed := f.typed ++ [(a, text)] }
    Sound g (entered g (some text)) := by
  obtain ⟨st, typed⟩ := f
  obtain ⟨htyped, hfilled⟩ := h
  have hlast : st.carries ++ [(a, text)] <:+ typed ++ [(a, text)] := suffix_typed htyped _
  cases st with
  | status | creating | unlocking | rotating | ended => cases ha
  | asksNew =>
    cases ha
    simp only [entered]
    split
    · exact sound_goTo rfl
    · next hne => exact ⟨rfl, ⟨hlast, by simpa [Flow.goTo, Stage.carries] using hne⟩, nofun⟩
  | confirms pw =>
    cases ha
    simp only [entered]
    -- The two texts differ: the flow ends with a warning, and nothing is sent.
    split
    · exact (sound_goTo rfl).notify _ _
    · next heq =>
      obtain rfl : text = pw := not_not.mp heq
      have hne : text ≠ "" := hfilled _ (List.mem_singleton_self _)
      refine ⟨rfl, ⟨hlast, by simp [Flow.request, Stage.carries, hne]⟩, fun m hm => ?_⟩
      rw [List.mem_singleton.mp hm]
      exact .create hne hlast.isInfix
  | asks =>
    cases ha
    simp only [entered]
    split
    · exact sound_goTo rfl
    · next hne =>
      refine ⟨rfl, ⟨hlast, by simpa [Flow.request, Stage.carries] using hne⟩, fun m hm => ?_⟩
      rw [List.mem_singleton.mp hm]
      exact .unlock hne hlast.isInfix
  | asksOld =>
    cases ha
    simp only [entered]
    split
    · exact sound_goTo rfl
    · next hne => exact ⟨rfl, ⟨hlast, by simpa [Flow.goTo, Stage.carries] using hne⟩, nofun⟩
  | asksNext old =>
    cases ha
    have hold : old ≠ "" := hfilled _ (List.mem_singleton_self _)
    simp only [entered]
    split
    · exact sound_goTo rfl
    · next hne => exact ⟨rfl, ⟨hlast, by simpa [Flow.goTo, Stage.carries] using ⟨hold, hne⟩⟩, nofun⟩
  | confirmsNext old new =>
    cases ha
    simp only [entered]
    split
    · exact (sound_goTo rfl).notify _ _
    · next heq =>
      obtain rfl : text = new := not_not.mp heq
      have hold : old ≠ "" := hfilled (.current, old) List.mem_cons_self
      have hne : text ≠ "" :=
        hfilled (.new, text) (List.mem_cons_of_mem _ (List.mem_singleton_self _))
      refine ⟨rfl, ⟨hlast, by simp [Flow.request, Stage.carries, hold, hne]⟩, fun m hm => ?_⟩
      rw [List.mem_singleton.mp hm]
      exact .rotate hold hne hlast.isInfix

lemma sound_cancelled (f : Flow) : Sound f (entered f none) := by
  unfold entered
  split <;> first | exact sound_goTo rfl | contradiction

lemma sound_replied (h : Backed f) (result : Except String Reply) : Sound f (replied f result) := by
  unfold replied
  split
  · exact sound_goTo rfl
  · split <;> exact sound_goTo rfl
  · exact sound_goTo rfl
  · exact (sound_goTo rfl).notify _ _
  · exact (sound_goTo rfl).notify _ _
  · exact sound_goTo rfl
  · exact (sound_goTo rfl).notify _ _
  · exact (sound_goTo rfl).notify _ _
  · exact ⟨rfl, h, nofun⟩

lemma Justified.mono {typed typed' : List (Ask × String)} {m : String × Json}
    (h : Justified typed m) (hle : typed <+: typed') : Justified typed' m := by
  cases h with
  | status => exact .status
  | create hne h => exact .create hne (h.trans hle.isInfix)
  | unlock hne h => exact .unlock hne (h.trans hle.isInfix)
  | rotate hold hnew h => exact .rotate hold hnew (h.trans hle.isInfix)

/-- Every flow is backed, and every request was typed in one. -/
structure Inv (s : Ui) : Prop where
  backed : ∀ f ∈ s.flows, Backed f
  sent : ∀ m ∈ s.sent, ∃ f ∈ s.flows, Justified f.typed m

variable {s t : Ui}

lemma Inv.set (h : Inv s) {i : ℕ} (hi : s.flows[i]? = some f) {g : Flow} {x : Effect}
    (hle : f.typed <+: g.typed) (hx : Sound g x) : Inv (s.apply (s.flows.set i x.flow) x) := by
  obtain ⟨hlt, hf⟩ := List.getElem?_eq_some_iff.mp hi
  have hnew : x.flow ∈ s.flows.set i x.flow := List.mem_set hlt _
  refine ⟨fun y hy => ?_, fun m hm => ?_⟩
  · rcases List.mem_or_eq_of_mem_set hy with hold | rfl
    · exact h.backed y hold
    · exact hx.backed
  · rcases List.mem_append.mp hm with hold | hsent
    · obtain ⟨y, hy, hjust⟩ := h.sent m hold
      obtain ⟨j, hj⟩ := List.getElem?_of_mem hy
      by_cases hij : i = j
      · subst hij
        obtain rfl : f = y := Option.some.inj (hi.symm.trans hj)
        exact ⟨x.flow, hnew, hx.typed ▸ hjust.mono hle⟩
      · refine ⟨y, List.mem_of_getElem? (i := j) ?_, hjust⟩
        rw [Ui.apply, List.getElem?_set_ne hij, hj]
    · exact ⟨x.flow, hnew, hx.typed ▸ hx.sent m hsent⟩

lemma inv_step {e : Event} (h : Inv s) (hstep : step s e = some t) : Inv t := by
  cases e with
  | start entry =>
    cases hstep
    have hentry : Sound .fresh (entry.run .fresh) := by
      cases entry with
      | unlock =>
        refine ⟨rfl, ⟨List.nil_suffix, nofun⟩, fun m hm => ?_⟩
        rw [List.mem_singleton.mp hm]
        exact .status
      | create | unlockExisting | rotate => exact sound_goTo rfl
    refine ⟨fun y hy => ?_, fun m hm => ?_⟩
    · rcases List.mem_append.mp hy with hold | hnew
      · exact h.backed y hold
      · rw [List.mem_singleton.mp hnew]
        exact hentry.backed
    · rcases List.mem_append.mp hm with hold | hsent
      · obtain ⟨y, hy, hjust⟩ := h.sent m hold
        exact ⟨y, List.mem_append_left _ hy, hjust⟩
      · refine ⟨_, List.mem_append_right _ (List.mem_singleton_self _), ?_⟩
        rw [hentry.typed]
        exact hentry.sent m hsent
  | enter i value =>
    obtain ⟨f, hf, hstep⟩ := Option.bind_eq_some_iff.mp hstep
    obtain ⟨a, ha, rfl⟩ := Option.map_eq_some_iff.mp hstep
    have hbacked := h.backed f (List.mem_of_getElem? hf)
    cases value with
    | none => exact h.set hf (List.prefix_append _ _) (sound_cancelled _)
    | some text => exact h.set hf (List.prefix_append _ _) (sound_entered hbacked ha text)
  | reply i result =>
    obtain ⟨f, hf, hstep⟩ := Option.bind_eq_some_iff.mp hstep
    split at hstep <;> cases hstep
    exact h.set hf (List.prefix_refl _)
      (sound_replied (h.backed f (List.mem_of_getElem? hf)) result)

/-- In every run of the prompts. -/
theorem inv_run {es : List Event} (hrun : run step .new es = some s) : Inv s := by
  have hnew : Inv .new :=
    ⟨fun f hf => absurd hf List.not_mem_nil, fun m hm => absurd hm List.not_mem_nil⟩
  have hsteps : Along step (fun _ _ => True) .new es := along_of_forall fun _ _ _ => trivial
  exact run_inv (fun _ _ _ h _ hstep => inv_step h hstep) hnew hsteps hrun

lemma Inv.typedTwice (h : Inv s) {method : String} {params : Json}
    (hsent : (method, params) ∈ s.sent) {pw : String} (hpw : pw ∈ asked method params) :
    TypedTwice s pw := by
  obtain ⟨f, hf, hjust⟩ := h.sent _ hsent
  cases hjust with
  | status | unlock => cases hpw
  | create hne h =>
    obtain rfl := List.mem_singleton.mp hpw
    exact ⟨hne, .inl ⟨f, hf, h⟩⟩
  | rotate hold hnew h =>
    obtain rfl := List.mem_singleton.mp hpw
    exact ⟨hnew, .inr ⟨_, f, hf, h⟩⟩

/-! ### The vault -/

variable {Key : Type} {L : Packages Key} {cfg : Config}

/-- The key of the session comes from one of the passwords. -/
def SealedBy (L : Packages Key) (x : Seen) (s : Session Key) : Prop :=
  ∃ pw ∈ x.passwords, deriveKey L.toPrimitives (asBytes pw) s.salt s.params = .ok s.key

lemma sealedBy_lasting (L : Packages Key) (cfg : Config) :
    Lasting L cfg (fun _ _ => True) (SealedBy L) where
  stands _ := trivial
  later hxy h := by
    obtain ⟨pw, hpw, hkey⟩ := h
    exact ⟨pw, hxy.passwords hpw, hkey⟩
  created hpw hkey := ⟨_, hpw, hkey⟩
  rotated _ hpw hkey := ⟨_, hpw, hkey⟩
  run _ h _ := h

lemma passwords_run {d d' : Daemon.State Key} {as : List Daemon.Action} {n : ℕ} {P : String → Prop}
    (hP : ∀ t c id method params, .request t c id method params ∈ as →
      ∀ pw ∈ asked method params, P pw)
    (hrun : run (Daemon.step L cfg) d as = some d') :
    ∀ pw ∈ (history (Daemon.step L cfg) Seen.update ⟨n, []⟩ d as).passwords, P pw := by
  have hstep : ∀ (x : Seen) (d : Daemon.State Key) (a : Daemon.Action) (d' : Daemon.State Key),
      (∀ pw ∈ x.passwords, P pw) → a ∈ as → Daemon.step L cfg d a = some d' →
        ∀ pw ∈ (x.update d a d').passwords, P pw := by
    intro x d a d' h ha _ pw hpw
    cases a with
    | request t c id method params =>
      rcases List.mem_append.mp hpw with hnew | hold
      · exact hP t c id method params ha pw hnew
      · exact h pw hold
    | connect | disconnect | tick | run | rouse => exact h pw hpw
  have hmem : Along (track (Daemon.step L cfg) Seen.update) (fun _ a => a ∈ as) (⟨n, []⟩, d) as :=
    along_of_forall fun a ha _ => ha
  exact run_track_inv hstep (by simp) hmem hrun

/-- Whatever the users of some editors type and cancel, and however the daemon's requests interleave
and its file operations fail: when the requests to create a vault and to rotate its password come
from the prompts, whatever the vault file holds opens with a password that somebody typed twice. -/
theorem opens_with_typed (L : Packages Key) (hL : L.toLibrary.Ideal) (cfg : Config)
    (fs : FileSystem) (clock : ℕ) (hfs : fs cfg.vaultPath = none) (editors : ℕ → Ui)
    (hui : ∀ k, ∃ es, run step .new es = some (editors k)) (as : List Daemon.Action)
    (d : Daemon.State Key)
    (hsent : ∀ t c id method params, .request t c id method params ∈ as →
      method = "vault.create" ∨ method = "vault.rotate" → ∃ k, (method, params) ∈ (editors k).sent)
    (hrun : run (Daemon.step L cfg) (Daemon.start Key fs clock) as = some d) {s : Session Key}
    (hs : Holds L.toLibrary d.shared.world.fs cfg.vaultPath s) :
    ∃ pw k, TypedTwice (editors k) pw ∧
      Vault.unlock L.toLibrary .none d.shared.world.fs cfg.vaultPath (asBytes pw) = .ok s := by
  have hnone : ∀ s, Holds L.toLibrary fs cfg.vaultPath s → SealedBy L ⟨0, []⟩ s := by
    intro s hs
    have hfile := hs.fileExists
    rw [fileExists, hfs] at hfile
    cases hfile
  have hstart : Kept L cfg (SealedBy L) ⟨0, []⟩ (Daemon.start Key fs clock) :=
    ⟨⟨fun s hs => (by cases hs), hnone⟩, fun _ => soundPc_of_none rfl rfl rfl⟩
  have hclock : Along (track (Daemon.step L cfg) Seen.update) (Onward fun _ _ => True)
      (⟨0, []⟩, Daemon.start Key fs clock) as :=
    along_of_forall fun a _ x => by cases a <;> trivial
  obtain ⟨pw, hpw, hkey⟩ :=
    (kept_run hL (sealedBy_lasting L cfg) hstart hclock hrun).shared.file s hs
  have htyped : ∀ pw ∈ (history (Daemon.step L cfg) Seen.update ⟨0, []⟩
      (Daemon.start Key fs clock) as).passwords, ∃ k, TypedTwice (editors k) pw := by
    refine passwords_run (fun t c id method params hmem pw hpw => ?_) hrun
    have hmethod : method = "vault.create" ∨ method = "vault.rotate" := by
      by_contra hno
      obtain ⟨hcreate, hrotate⟩ := not_or.mp hno
      unfold asked at hpw
      split at hpw <;> contradiction
    obtain ⟨k, hk⟩ := hsent t c id method params hmem hmethod
    obtain ⟨es, hes⟩ := hui k
    exact ⟨k, (inv_run hes).typedTwice hk hpw⟩
  obtain ⟨k, hk⟩ := htyped pw hpw
  exact ⟨pw, k, hk, unlock_eq_ok.mpr ⟨rfl, hkey, hs⟩⟩

/-- A vault is created at the second attempt; the password is then changed, on a full disk. -/
def typing : List Event :=
  [.start .unlock, .reply 0 (.ok (.status true false none none)), .enter 0 (some "pw"),
    .enter 0 (some "pv"), .enter 0 (some "pw"), .enter 0 (some "pw"), .reply 0 (.ok .unit),
    .start .rotate, .enter 1 (some "pw"), .enter 1 (some "new"), .enter 1 (some "new"),
    .reply 1 (.error "full")]

def serving : List Daemon.Action :=
  .connect :: (Sample.served 0 "vault.create" [("password", .str "pw")] 8 ++
    .request 0 1 1 "vault.rotate"
      (.obj [("new_password", .str "new"), ("old_password", .str "pw")]) ::
      List.replicate 4 (.run 0 { Sample.env with
        io := ⟨fun call => if call = .writeAll then some "full" else none, none⟩ } false))

theorem opens_with_typed_serving : ∃ u d s,
    run step .new typing = some u ∧
      run Sample.step (Daemon.start Sample.Key (fun _ => none) 0) serving = some d ∧
        Holds Sample.packages.toLibrary d.shared.world.fs Sample.config.vaultPath s ∧
          ∃ pw, TypedTwice u pw ∧ Vault.unlock Sample.packages.toLibrary .none d.shared.world.fs
            Sample.config.vaultPath (asBytes pw) = .ok s := by
  have hsends : (run step .new typing).map Ui.sent = some [("vault.status", .obj []),
      ("vault.create", .obj [("password", .str "pw")]),
      ("vault.rotate", .obj [("new_password", .str "new"), ("old_password", .str "pw")])] := rfl
  have hends : (run Sample.step (Daemon.start Sample.Key (fun _ => none) 0) serving).any
      (fun d => d.shared.session.any fun s =>
        decide (Holds Sample.packages.toLibrary d.shared.world.fs Sample.config.vaultPath s)) =
          true := by
    decide +kernel
  obtain ⟨u, hu, hsent⟩ := Option.map_eq_some_iff.mp hsends
  obtain ⟨d, hd, hsession⟩ := (Option.any_eq_true _ _).mp hends
  obtain ⟨s, -, hs⟩ := (Option.any_eq_true _ _).mp hsession
  have hs := of_decide_eq_true hs
  have hfrom : ∀ t c id method params, Daemon.Action.request t c id method params ∈ serving →
      method = "vault.create" ∨ method = "vault.rotate" → ∃ _ : ℕ, (method, params) ∈ u.sent := by
    intro t c id method params hmem _
    rw [hsent]
    simp [serving, Sample.served, Sample.turns] at hmem
    rcases hmem with ⟨-, -, -, rfl, rfl⟩ | ⟨-, -, -, rfl, rfl⟩ <;> exact ⟨0, by simp⟩
  obtain ⟨pw, -, hpw, hopen⟩ := opens_with_typed Sample.packages Sample.library_ideal Sample.config
    (fun _ => none) 0 rfl (fun _ => u) (fun _ => ⟨typing, hu⟩) serving d hfrom hd hs
  exact ⟨u, d, s, hu, hd, hs, pw, hpw, hopen⟩

end LvimKeyring.MasterPassword
