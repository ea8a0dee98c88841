import LvimKeyring.Atomicity
import LvimKeyring.Options
import LvimKeyring.PanelAlive
import LvimKeyring.WalletRefines

/-!
The panel and the agent it is a view of.

The calls of the panel are carried out by the agent one after another, among requests of others and
restarts, and the answers are on their way for some time. When the listings and the changes of the
panel are answered in the order they were carried out, and nobody else changes the wallet, a panel
that waits for nothing shows the wallet as it is.
-/

namespace LvimKeyring.PanelSync

open Rpc Params Crypto Vault Wallet WalletRefines Options Transition PanelRows PanelAlive
open Server (Env Summary Reply Op summaries entryMeta optField prepare prepare_method touches)
open Atomicity (mutators)
open Result ListUpdate
open Panel (Call Waiting Clipboard screen)
open Rows (Theme)

/-! ### The system -/

def metaParam (m : MetaIn) : Json :=
  .obj (optField "notes" .str m.notes ++ optField "tags" (fun l => .arr (l.map .str)) m.tags ++
    optField "totp" .bool m.totp ++ optField "url" .str m.url ++ optField "user" .str m.user)

/-- What a call sends; the prompts of a rotation send theirs. -/
def request (number : ℕ → Json) (config : Defaults) : Call → Option (String × Json)
  | .list => some ("secret.list", .obj [])
  | .get name => some ("secret.get", .obj [("name", .str name)])
  | .totp name => some ("secret.totp", .obj [("name", .str name)])
  | .set name value info =>
    some ("secret.set", .obj (optField "meta" metaParam info ++ ("name", .str name) ::
      optField "value" .str value))
  | .rename src dst => some ("secret.rename", .obj [("from", .str src), ("to", .str dst)])
  | .delete name => some ("secret.delete", .obj [("name", .str name)])
  | .generate storeAs =>
    some ("secret.generate", generateParams number config ⟨none, none, some storeAs⟩)
  | .lock => some ("vault.lock", .obj [])
  | .rotate => none

structure System (σ : Type) where
  panel : Panel.State
  agent : σ
  /-- The answers that have not arrived, in the order they were given. -/
  replies : List (ℕ × Except Err Reply)

inductive Action
  /-- Anything at the panel but an answer of the agent. -/
  | use (e : Panel.Event)
  | take (id : ℕ) (env : Env)
  | deliver (i : ℕ) (c : Clipboard) (th : Theme)
  | other (ev : Event)

def isReply : Panel.Event → Bool
  | .reply _ _ _ _ => true
  | _ => false

section Step

variable {σ : Type} (M : σ → Event → σ × Option (Except Err Reply))
variable (serde : DecodeError → String) (number : ℕ → Json) (config : Defaults)

def step (s : System σ) : Action → Option (System σ)
  | .use e => if isReply e then none else (Panel.step s.panel e).map fun p => { s with panel := p }
  | .take id env =>
    if id ∈ s.panel.unanswered ∧ id ∉ s.replies.map Prod.fst then
      (s.panel.calls[id]?).bind fun cw => (request number config cw.1).bind fun sent =>
        let r := M s.agent (.request env sent.1 sent.2)
        r.2.map fun result => { s with agent := r.1, replies := s.replies ++ [(id, result)] }
    else none
  | .deliver i c th =>
    (s.replies[i]?).bind fun answer =>
      (Panel.step s.panel (.reply answer.1 (answer.2.mapError (Err.text serde)) c th)).map fun p =>
        { s with panel := p, replies := s.replies.eraseIdx i }
  | .other ev => some { s with agent := (M s.agent ev).1 }

end Step

def start {σ : Type} (agent : σ) : System σ := ⟨.new, agent, []⟩

/-! ### The conditions -/

/-- What is done with the answer to a call. -/
def waits (calls : List (Call × Waiting)) (id : ℕ) : Option Waiting := (calls[id]?).map Prod.snd

def lists : Waiting → Bool
  | .opening | .refreshing => true
  | _ => false

def changes : Waiting → Bool
  | .storing _ => true
  | _ => false

def isListing (calls : List (Call × Waiting)) (id : ℕ) : Bool := (waits calls id).any lists

def isChange (calls : List (Call × Waiting)) (id : ℕ) : Bool := (waits calls id).any changes

def matters (calls : List (Call × Waiting)) (id : ℕ) : Bool :=
  isListing calls id || isChange calls id

/-- Nobody else sends a change. -/
def Action.alone : Action → Prop
  | .other (.request _ method _) => method ∉ mutators
  | _ => True

def Action.faultless : Action → Prop
  | .take _ env => env.io = .none
  | .other ev => ev.faultless
  | _ => True

/-- A listing or a change is answered after those that were carried out before it, and no listing is
refused. A panel is opened only where none is left. -/
def InOrder {σ : Type} (s : System σ) : Action → Prop
  | .deliver i _ _ =>
    ∀ answer ∈ s.replies[i]?, matters s.panel.calls answer.1 = true →
      (∀ old ∈ s.replies.take i, matters s.panel.calls old.1 = false) ∧
        (isListing s.panel.calls answer.1 = true → answer.2.isOk = true) ∧
          (waits s.panel.calls answer.1 = some .opening → Bare s.panel)
  | _ => True

instance {σ : Type} (s : System σ) : DecidablePred (InOrder s)
  | .deliver i _ _ => inferInstanceAs (Decidable (∀ _ ∈ s.replies[i]?, _))
  | .use _ | .take _ _ | .other _ => isTrue trivial

/-! ### The store -/

variable {T : Totp.Packages} {st : Settings} {env : Env} {a : Store}

/-- Without a vault there is nothing in the store, and no way in. -/
def Void (a : Store) : Prop := a.password = none → a.secrets = ∅ ∧ a.locked = true

/-- What an answer says of the map. -/
structure Answered (a : Store) (method : String) (r : Store × Except Err Reply) : Prop where
  void : Void r.1
  refused : ∀ e, r.2 = .error e → r.1.secrets = a.secrets
  reads : method ∉ mutators → r.1.secrets = a.secrets
  listed : method = "secret.list" → ∀ reply, r.2 = .ok reply →
    reply = .listing (Secrets.listing a.secrets)
  distinct : ∀ reply, r.2 = .ok reply → Distinct (Panel.entriesOf reply)

lemma distinct_listing (m : Secrets) : Distinct (Secrets.listing m) := by
  have hnames : (Secrets.listing m).map (·.name) = m.keys.sort.filter fun n =>
      (m.lookup n).isSome := by
    unfold Secrets.listing
    induction m.keys.sort with
    | nil => rfl
    | cons n ns ih =>
      cases hn : m.lookup n with
      | none => simpa [hn] using ih
      | some e => simpa [hn] using ih
  rw [Distinct, hnames]
  exact (Finset.sort_nodup _ _).filter _

lemma answered_ok {method : String} {b : Store} {reply : Reply} (hvoid : Void b)
    (hsecrets : b.secrets = a.secrets) (hmethod : method ≠ "secret.list")
    (hentries : Distinct (Panel.entriesOf reply)) : Answered a method (b, .ok reply) := by
  refine ⟨hvoid, fun _ _ => hsecrets, fun _ => hsecrets, fun h => absurd h hmethod, fun r hr => ?_⟩
  cases hr
  exact hentries

lemma answered_error {method : String} {b : Store} {e : Err} (hvoid : Void b)
    (hsecrets : b.secrets = a.secrets) : Answered a method (b, .error e) :=
  ⟨hvoid, fun _ _ => hsecrets, fun _ => hsecrets, fun _ _ h => (by cases h), fun _ h => by cases h⟩

lemma distinct_nil : Distinct [] := List.nodup_nil

lemma map_eq_ok {ε α β : Type} {x : Except ε α} {f : α → β} {b : β} :
    x.map f = .ok b ↔ ∃ y, x = .ok y ∧ f y = b := by
  cases x <;> simp [Except.map]

lemma apply_reads {now : ℕ} {m m' : Secrets} {op : Op} {r : Reply}
    (h : Secrets.apply T now m op = .ok (m', r)) :
    (op.reads = true → m' = m) ∧
    Panel.entriesOf r = (if op = .list then Secrets.listing m else []) ∧
      (op = .list → r = .listing (Secrets.listing m)) := by
  cases op with
  | list =>
    cases h
    exact ⟨fun _ => rfl, rfl, fun _ => rfl⟩
  | get name =>
    obtain ⟨r', hr', heq⟩ := map_eq_ok.mp h
    cases heq
    unfold Secrets.get at hr'
    split at hr' <;> cases hr'
    exact ⟨fun _ => rfl, rfl, nofun⟩
  | totp name =>
    obtain ⟨r', hr', heq⟩ := map_eq_ok.mp h
    cases heq
    unfold Secrets.totp at hr'
    split at hr'
    · cases hr'
    · obtain ⟨code, -, rfl⟩ := map_eq_ok.mp hr'
      exact ⟨fun _ => rfl, rfl, nofun⟩
  | set p | delete name | rename src dst =>
    obtain ⟨m'', -, heq⟩ := map_eq_ok.mp h
    cases heq
    exact ⟨nofun, rfl, nofun⟩
  | generate name value =>
    cases h
    exact ⟨nofun, rfl, nofun⟩

lemma answered_session (h : Void a) (wait : Bool) (op : Op) (now : ℕ) :
    Answered a (Server.Call.session wait op).method (a.session T now op) := by
  unfold Store.session
  by_cases hlocked : a.locked = true
  · rw [if_pos hlocked]
    exact answered_error h rfl
  · rw [if_neg hlocked]
    have hpassword : a.password ≠ none := fun hp => hlocked (h hp).2
    cases hr : Secrets.apply T now a.secrets op with
    | error e => exact answered_error h rfl
    | ok mr =>
      obtain ⟨m, r⟩ := mr
      obtain ⟨hreads, hentries, hlist⟩ := apply_reads hr
      refine ⟨fun hp => absurd hp hpassword, nofun, fun hmethod => hreads ?_,
        fun hmethod r' hr' => ?_,
        fun r' hr' => ?_⟩
      · cases op with
        | get | list | totp => rfl
        | set | delete | rename | generate =>
          exact absurd (by simp [Server.Call.method, mutators]) hmethod
      · cases hr'
        refine hlist ?_
        cases op with
        | list => rfl
        | get | totp | set | delete | rename | generate =>
          exact absurd hmethod (by simp [Server.Call.method])
      · cases hr'
        rw [hentries]
        split
        · exact distinct_listing _
        · exact distinct_nil

variable (T st env) in
lemma answered_call (h : Void a) (call : Server.Call) :
    Answered a call.method (a.call T st env call) := by
  cases call with
  | session wait op => exact answered_session h wait op env.now
  | hello | status | unlockCancel | bare =>
    exact answered_ok h rfl (by simp [Server.Call.method]) distinct_nil
  | lock =>
    exact answered_ok (fun hp => ⟨(h hp).1, rfl⟩) rfl (by simp [Server.Call.method]) distinct_nil
  | create password =>
    simp only [Store.call, Store.create]
    cases hp : a.password with
    | some pw => exact answered_error h rfl
    | none =>
      cases st.refused with
      | some e => exact answered_error h rfl
      | none =>
        exact answered_ok (fun h => by cases h) (h hp).1.symm
          (by simp [Server.Call.method]) distinct_nil
  | unlock password =>
    simp only [Store.call, Store.unlock]
    cases hp : a.password with
    | none => exact answered_error h rfl
    | some pw =>
      simp only
      split
      · exact answered_ok (fun hnone => absurd hnone (by simp)) rfl (by simp [Server.Call.method])
          (distinct_listing _)
      · exact answered_error h rfl
  | rotate old new =>
    simp only [Store.call, Store.rotate]
    cases hp : a.password with
    | none => exact answered_error h rfl
    | some pw =>
      simp only
      split
      · cases st.refused with
        | some e => exact answered_error h rfl
        | none =>
          exact answered_ok (fun h => by cases h) rfl (by simp [Server.Call.method]) distinct_nil
      · exact answered_error h rfl

variable (T st env) in
/-- A request. -/
theorem answered_handle (h : Void a) (method : String) (params : Json) :
    Answered a method (a.handle T st env method params) := by
  unfold Store.handle
  have htouched : Void (if touches method then { a with lastUse := env.clock } else a) := by
    split
    · exact h
    · exact h
  have hsecrets :
      (if touches method then { a with lastUse := env.clock } else a).secrets = a.secrets := by
    split <;> rfl
  cases hp : prepare env.random method params with
  | error e => exact answered_error htouched hsecrets
  | ok call =>
    obtain ⟨hvoid, hrefused, hreads, hlisted, hdistinct⟩ :=
      answered_call T st env htouched call
    rw [← prepare_method hp, hsecrets] at *
    exact ⟨hvoid, hrefused, hreads, hlisted, hdistinct⟩

lemma Void.tick (h : Void a) (st : Settings) (clock : ℕ) :
    Void (a.tick st clock) ∧ (a.tick st clock).secrets = a.secrets := by
  unfold Store.tick
  split
  · exact ⟨fun hp => ⟨(h hp).1, rfl⟩, rfl⟩
  · exact ⟨h, rfl⟩

lemma void_step {Key : Type} (L : Server.Packages Key) {e : Settings × Store} (h : Void e.2)
    (ev : Event) :
    Void (store L e ev).1.2 := by
  cases ev with
  | request env method params => exact (answered_handle L.totp e.1 env h method params).void
  | tick clock => exact (h.tick e.1 clock).1
  | restart => exact fun hp => ⟨(h hp).1, rfl⟩

lemma secrets_other {Key : Type} (L : Server.Packages Key) {e : Settings × Store} (h : Void e.2)
    {ev : Event} (halone : (Action.other ev).alone) :
    (store L e ev).1.2.secrets = e.2.secrets := by
  cases ev with
  | request env method params => exact (answered_handle L.totp e.1 env h method params).reads halone
  | tick clock => exact (h.tick e.1 clock).2
  | restart => rfl

/-! ### What the panel does with its calls -/

/-- The part of the panel's state that is about its calls. -/
structure Ledger where
  live : Bool
  entries : List Summary
  calls : List (Call × Waiting)
  unanswered : List ℕ

def ledger (s : Panel.State) : Ledger := ⟨s.live, s.entries, s.calls, s.unanswered⟩

def writes : Call → Bool
  | .set _ _ _ | .rename _ _ | .delete _ | .generate _ => true
  | _ => false

/-- Only a listing is waited for as one, and a change is waited for as a change. -/
structure Fits (cw : Call × Waiting) : Prop where
  lists : lists cw.2 = true → cw.1 = .list
  changes : writes cw.1 = true → changes cw.2 = true

def Ledger.send (l : Ledger) (c : Call) (w : Waiting) : Ledger :=
  { l with calls := l.calls ++ [(c, w)], unanswered := l.calls.length :: l.unanswered }

/-- The user does something: the panel may leave, and one call may be sent. -/
inductive Moves (l : Ledger) : Ledger → Prop
  | rest (live : Bool) (h : live = true → l.live = true) : Moves l { l with live }
  | send (live : Bool) (h : live = true → l.live = true) {c : Call} {w : Waiting}
    (hcw : Fits (c, w)) :
    Moves l (Ledger.send { l with live } c w)

/-- A call is answered. -/
inductive Arrives (w : Waiting) (result : Except String Reply) (l : Ledger) : Ledger → Prop
  | listed (r : Reply) (live : Bool) (hw : lists w = true) (hr : result = .ok r) :
    Arrives w result l { l with live, entries := Panel.entriesOf r }
  | changed (r : Reply) (hw : changes w = true) (hr : result = .ok r) (hlive : l.live = true) :
    Arrives w result l (l.send .list .refreshing)
  | rest (hlists : lists w = true → ∀ r, result ≠ .ok r)
    (hchanges : changes w = true → l.live = false ∨ ∀ r, result ≠ .ok r) : Arrives w result l l

section Panel

open Panel

variable {s t : Panel.State}

lemma fits_list (w : Waiting) : Fits (.list, w) := by
  refine ⟨fun _ => rfl, fun h => ?_⟩
  cases h

lemma fits_of {c : Call} {w : Waiting} (hw : lists w = false) (hc : writes c = changes w) :
    Fits (c, w) := by
  refine ⟨fun h => ?_, fun h => hc ▸ h⟩
  rw [hw] at h
  cases h

/-- The calls are as they were, and a panel that is live was. -/
structure Same (s t : Panel.State) : Prop where
  live : t.live = true → s.live = true
  kept : ledger t = { ledger s with live := t.live }

lemma same_of_eq (h : ledger t = ledger s) : Same s t := by
  have hlive : t.live = s.live := congrArg Ledger.live h
  refine ⟨fun ht => hlive ▸ ht, ?_⟩
  rw [h, hlive]
  rfl

lemma Same.moves (h : Same s t) : Moves (ledger s) (ledger t) := by
  rw [h.kept]
  exact .rest t.live h.live

lemma Same.send (h : Same s t) {c : Call} {w : Waiting} (hcw : Fits (c, w)) :
    Moves (ledger s) (ledger (t.send c w)) := by
  have hsend : ledger (t.send c w) = (ledger t).send c w := rfl
  rw [hsend, h.kept]
  exact .send t.live h.live hcw

lemma Same.refresh (h : Same s t) : Moves (ledger s) (ledger t.refresh) := by
  unfold State.refresh
  split
  · exact h.send (fits_list _)
  · exact h.moves

lemma same_modify {k : ℕ} {g : Surface → Surface} (hg : ∀ f, (g f).valid = true → f.valid = true) :
    Same s { s with surfaces := s.surfaces.modify k g } := by
  refine ⟨fun h => ?_, rfl⟩
  obtain ⟨j, f, hj, hf, hon⟩ := live_eq.mp h
  obtain ⟨f₀, hf₀, rfl⟩ := modify_eq.mp hf
  refine live_eq.mpr ⟨j, f₀, hj, hf₀, ?_⟩
  split at hon
  · exact hg f₀ hon
  · exact hon

lemma same_close (k : ℕ) : Same s (s.close k) := same_modify fun _ h => nomatch h

lemma same_forget (h : Same s t) : Same s { t with handle := none } := by
  refine ⟨nofun, ?_⟩
  have hkept := h.kept
  simp only [ledger, Ledger.mk.injEq] at hkept ⊢
  exact ⟨trivial, hkept.2⟩

lemma moves_openPanel : Moves (ledger s) (ledger s.openPanel) := by
  unfold State.openPanel
  refine (same_forget ?_).send (fits_list _)
  split
  · cases s.handle with
    | none => exact same_of_eq rfl
    | some k => exact same_close k
  · exact same_of_eq rfl

lemma moves_press (k : Key) : Moves (ledger s) (ledger (s.press k)) := by
  have hsame : Same s s := same_of_eq rfl
  have hlook : ∀ (e : Summary) {w : Waiting}, lists w = false → changes w = false →
      Moves (ledger s) (ledger (s.send (if isTotp e then .totp e.name else .get e.name) w)) := by
    intro e w hlists hchanges
    refine hsame.send (fits_of hlists ?_)
    rw [hchanges]
    split <;> rfl
  unfold State.press State.onEntry
  cases s.curEntry with
  | none => cases k <;> exact hsame.moves
  | some e =>
    cases k with
    | reveal => exact hlook e rfl rfl
    | copy => exact hlook e rfl rfl
    | totp | rename | delete | edit | change => exact hsame.moves

lemma moves_footer (j : ℕ) (b : Footer) : Moves (ledger s) (ledger (s.runFooter j b)) := by
  have hsame : Same s s := same_of_eq rfl
  cases b with
  | add | generate | help => exact hsame.moves
  | change | delete =>
    unfold State.runFooter State.onCurrent
    cases s.curEntry <;> exact hsame.moves
  | lock => exact (same_close j).send (fits_of rfl rfl)
  | rotate => exact hsame.send (fits_of rfl rfl)

lemma moves_answered (h : Same s t) (p : Prompt) (ok : Bool) (text : String) :
    Moves (ledger s) (ledger (t.answered p ok text)) := by
  have hask : ∀ q, Moves (ledger s) (ledger (t.ask q)) := fun _ => h.moves
  have hstore : ∀ {c : Call} (note : Option String), writes c = true →
      Moves (ledger s) (ledger (t.send c (.storing note))) := fun _ hc => h.send (fits_of rfl hc)
  unfold State.answered
  split
  · exact h.moves
  · cases p with
    | addName | totpName =>
      simp only
      split
      · exact h.moves
      · exact hask _
    | addValue | editMeta | delete => exact hstore _ rfl
    | totpSecret | changeValue | rename | generateInto =>
      simp only
      split
      · exact h.moves
      · exact hstore _ rfl

/-- What the user does. -/
theorem moves_step {e : Panel.Event} (he : isReply e = false) (h : Panel.step s e = some t) :
    Moves (ledger s) (ledger t) := by
  cases e with
  | reply => cases he
  | openPanel =>
    cases h
    exact moves_openPanel
  | refresh =>
    cases h
    exact (same_of_eq rfl).refresh
  | add =>
    cases h
    exact (same_of_eq rfl).moves
  | move j line =>
    obtain ⟨f, -, rfl⟩ := Option.map_eq_some_iff.mp h
    have hmove : Same s { s with
        surfaces := s.surfaces.modify j fun f => { f with cursor := line } } :=
      same_modify fun _ hf => hf
    exact hmove.moves
  | press j k =>
    obtain ⟨f, -, rfl⟩ := Option.map_eq_some_iff.mp h
    exact moves_press k
  | footer j b =>
    obtain ⟨f, -, rfl⟩ := Option.map_eq_some_iff.mp h
    exact moves_footer j b
  | pick j =>
    obtain ⟨f, name, e, -, -, rfl⟩ := step_pick h
    unfold State.reveal
    exact (same_of_eq rfl).send (fits_of rfl (by split <;> rfl))
  | toggle j i =>
    obtain ⟨f, x, -, -, rfl⟩ := step_toggle h
    have hflip : Same s { s with
        surfaces :=
          s.surfaces.modify j fun f => { f with rows := f.rows.set i (.section x.flip) } } :=
      same_modify fun _ hf => hf
    unfold State.onToggle
    split
    · exact Same.refresh ⟨hflip.live, hflip.kept⟩
    · exact hflip.moves
  | answer id ok text =>
    obtain ⟨p, -, -, rfl⟩ := step_answer h
    have hsame : Same s { s with pending := s.pending.erase id } := same_of_eq rfl
    exact moves_answered hsame p ok text
  | copyPopup i c =>
    obtain ⟨p, -, rfl⟩ := Option.map_eq_some_iff.mp h
    exact (same_of_eq rfl).moves
  | gone j =>
    obtain ⟨f, -, rfl⟩ := Option.map_eq_some_iff.mp h
    exact (same_close j).moves
  -- The callback closes the panel for good, and a panel that is gone is up to date.
  | callback j =>
    obtain ⟨f, -, -, -, rfl⟩ := step_callback h
    exact Same.moves ⟨fun hlive => (by cases hlive), rfl⟩

/-- An answer of the agent. -/
lemma arrives_replied (s : Panel.State) (c : Clipboard) (th : Theme) (w : Waiting)
    (result : Except String Reply) :
    Arrives w result (ledger s) (ledger (s.replied c th w result)) := by
  cases result with
  | error err =>
    have hfails : ∀ r, Except.error err ≠ (Except.ok r : Except String Reply) :=
      fun r h => by cases h
    have hrest : Arrives w (.error err) (ledger s) (ledger s) :=
      .rest (fun _ => hfails) fun _ => .inr hfails
    cases w <;> exact hrest
  | ok r =>
    have hrest : lists w = false → changes w = false → Arrives w (.ok r) (ledger s) (ledger s) := by
      intro hlists hchanges
      refine .rest (fun h => ?_) fun h => ?_
      · rw [hlists] at h
        cases h
      · rw [hchanges] at h
        cases h
    cases w with
    | opening => exact .listed r _ rfl rfl
    | refreshing =>
      simp only [State.replied, State.relisted]
      split
      · exact .listed r _ rfl rfl
      · exact .listed r _ rfl rfl
    | locking | ignoring => exact hrest rfl rfl
    | revealing e =>
      have hledger : ledger (s.revealed e r) = ledger s := by
        unfold State.revealed
        split
        · cases r <;> rfl
        · rfl
      rw [State.replied, hledger]
      exact hrest rfl rfl
    | copying e =>
      have hledger : ledger (s.copied c e r) = ledger s := by
        unfold State.copied
        split
        · cases r <;> rfl
        · split <;> rfl
      rw [State.replied, hledger]
      exact hrest rfl rfl
    -- A change asks for the list again, if there still is a panel to show it.
    | storing note =>
      have htold : ledger (note.elim s fun text => s.notify .info text) = ledger s := by
        cases note <;> rfl
      rw [State.replied]
      generalize note.elim s (fun text => s.notify .info text) = u at htold
      unfold State.refresh
      cases hlive : u.live with
      | true =>
        have hsend : ledger (u.send .list .refreshing) = (ledger s).send .list .refreshing := by
          rw [← htold]
          rfl
        rw [if_pos rfl, hsend]
        refine .changed r rfl rfl ?_
        rw [← htold]
        exact hlive
      | false =>
        rw [if_neg Bool.false_ne_true, htold]
        refine .rest (fun h => by cases h) fun _ => .inl ?_
        rw [← htold]
        exact hlive

theorem arrives_step {id : ℕ} {result : Except String Reply} {c : Clipboard} {th : Theme}
    (h : Panel.step s (.reply id result c th) = some t) :
    id ∈ s.unanswered ∧ ∃ call w, s.calls[id]? = some (call, w) ∧
      Arrives w result { ledger s with unanswered := s.unanswered.erase id } (ledger t) := by
  obtain ⟨call, w, hid, hcw, rfl⟩ := step_reply h
  have harrives := arrives_replied { s with unanswered := s.unanswered.erase id } c th w result
  exact ⟨hid, call, w, hcw, harrives⟩

end Panel

/-! ### Answers on their way -/

/-- A change is among the answers. -/
def Changed (calls : List (Call × Waiting)) (rs : List (ℕ × Except Err Reply)) : Prop :=
  ∃ x ∈ rs, isChange calls x.1 = true ∧ x.2.isOk = true

/-- Each listing among the answers lists `es`, or a change comes after it. -/
def Current (calls : List (Call × Waiting)) (es : List Summary) : List (ℕ × Except Err Reply) → Prop
  | [] => True
  | x :: rs => (isListing calls x.1 = true → ∀ r, x.2 = .ok r →
      Panel.entriesOf r = es ∨ Changed calls rs) ∧ Current calls es rs

variable {calls calls' : List (Call × Waiting)} {es es' : List Summary}
variable {rs pre post : List (ℕ × Except Err Reply)} {x : ℕ × Except Err Reply}

lemma changed_append : Changed calls (pre ++ post) ↔ Changed calls pre ∨ Changed calls post := by
  simp only [Changed, List.mem_append, or_and_right, exists_or]

lemma Changed.congr (h : Changed calls rs) (hcalls : ∀ y ∈ rs, waits calls' y.1 = waits calls y.1) :
    Changed calls' rs := by
  obtain ⟨y, hy, hchanges, hok⟩ := h
  exact ⟨y, hy, by rwa [isChange, hcalls y hy], hok⟩

lemma Current.congr (h : Current calls es rs)
    (hcalls : ∀ y ∈ rs, waits calls' y.1 = waits calls y.1) :
    Current calls' es rs := by
  induction rs with
  | nil => trivial
  | cons y rs ih =>
    have hrest : ∀ z ∈ rs, waits calls' z.1 = waits calls z.1 := fun z hz =>
      hcalls z (List.mem_cons_of_mem _ hz)
    refine ⟨fun hlists r hr => ?_, ih h.2 hrest⟩
    rw [isListing, hcalls y List.mem_cons_self] at hlists
    exact (h.1 hlists r hr).imp_right fun hchanged => hchanged.congr hrest

lemma isListing_of_isChange {id : ℕ} (h : isChange calls id = true) :
    isListing calls id = false := by
  unfold isChange at h
  unfold isListing
  cases hw : waits calls id with
  | none => rfl
  | some w =>
    rw [hw] at h
    cases w <;> first | rfl | cases h

lemma current_of_change (hx : isChange calls x.1 = true) (hok : x.2.isOk = true)
    (rs : List (ℕ × Except Err Reply)) : Current calls es (rs ++ [x]) := by
  have hchanged : Changed calls [x] := ⟨x, List.mem_singleton_self x, hx, hok⟩
  induction rs with
  | nil =>
    refine ⟨fun hlists => ?_, trivial⟩
    rw [isListing_of_isChange hx] at hlists
    cases hlists
  | cons y rs ih => exact ⟨fun _ _ _ => .inr (changed_append.mpr (.inr hchanged)), ih⟩

lemma Current.append (h : Current calls es rs)
    (hx : isListing calls x.1 = true → ∀ r, x.2 = .ok r → Panel.entriesOf r = es) :
    Current calls es (rs ++ [x]) := by
  induction rs with
  | nil => exact ⟨fun hlists r hr => .inl (hx hlists r hr), trivial⟩
  | cons y rs ih =>
    refine ⟨fun hlists r hr => ?_, ih h.2⟩
    exact (h.1 hlists r hr).imp_right fun hchanged => changed_append.mpr (.inl hchanged)

lemma Current.at (h : Current calls es (pre ++ x :: post)) (hx : isListing calls x.1 = true)
    {r : Reply} (hr : x.2 = .ok r) : Panel.entriesOf r = es ∨ Changed calls post := by
  induction pre with
  | nil => exact h.1 hx r hr
  | cons y pre ih => exact ih h.2

lemma Current.remove (h : Current calls es (pre ++ x :: post))
    (hpre : matters calls x.1 = true → ∀ y ∈ pre, matters calls y.1 = false) :
    Current calls es (pre ++ post) := by
  induction pre with
  | nil => exact h.2
  | cons y pre ih =>
    have hrest : matters calls x.1 = true → ∀ z ∈ pre, matters calls z.1 = false :=
      fun hx z hz => hpre hx z (List.mem_cons_of_mem _ hz)
    refine ⟨fun hlists r hr => ?_, ih h.2 hrest⟩
    rcases h.1 hlists r hr with heq | ⟨z, hz, hchanges, hok⟩
    · exact .inl heq
    · right
      rcases List.mem_append.mp hz with hz | hz
      · exact ⟨z, List.mem_append_left _ hz, hchanges, hok⟩
      · rcases List.mem_cons.mp hz with rfl | hz
        · have hy := hpre (by rw [matters, hchanges, Bool.or_true]) y List.mem_cons_self
          rw [matters, hlists] at hy
          cases hy
        · exact ⟨z, List.mem_append_right _ hz, hchanges, hok⟩

/-! ### The invariant -/

/-- The panel shows the listing, or what will bring it up to date is on its way. -/
structure Synced (l : Ledger) (a : Store) (rs : List (ℕ × Except Err Reply)) : Prop where
  void : Void a
  fits : ∀ cw ∈ l.calls, Fits cw
  known : ∀ id ∈ l.unanswered, id < l.calls.length
  waiting : ∀ x ∈ rs, x.1 ∈ l.unanswered
  once : (rs.map Prod.fst).Nodup
  distinct : ∀ x ∈ rs, ∀ r, x.2 = .ok r → Distinct (Panel.entriesOf r)
  current : Current l.calls (Secrets.listing a.secrets) rs
  fresh : l.live = true → l.entries = Secrets.listing a.secrets ∨ Changed l.calls rs ∨
    ∃ id ∈ l.unanswered, isListing l.calls id = true

variable {l l' : Ledger} {a' : Store}

lemma waits_append {cw : Call × Waiting} {id : ℕ} (h : id < calls.length) :
    waits (calls ++ [cw]) id = waits calls id := by
  rw [waits, waits, List.getElem?_append_left h]

lemma Synced.send (h : Synced l a rs) {c : Call} {w : Waiting} (hcw : Fits (c, w)) :
    Synced (l.send c w) a rs := by
  have hwaits : ∀ x ∈ rs, waits (l.calls ++ [(c, w)]) x.1 = waits l.calls x.1 := fun x hx =>
    waits_append (h.known _ (h.waiting x hx))
  refine ⟨h.void, fun cw hmem => ?_, fun id hid => ?_,
    fun x hx => List.mem_cons_of_mem _ (h.waiting x hx),
    h.once, h.distinct, h.current.congr hwaits, fun hlive => ?_⟩
  · rcases List.mem_append.mp hmem with hold | hnew
    · exact h.fits cw hold
    · rw [List.mem_singleton.mp hnew]
      exact hcw
  · rw [Ledger.send, List.length_append]
    rcases List.mem_cons.mp hid with rfl | hold
    · exact Nat.lt_succ_self _
    · exact Nat.lt_succ_of_lt (h.known id hold)
  · rcases h.fresh hlive with hsame | hchanged | ⟨id, hid, hlisting⟩
    · exact .inl hsame
    · exact .inr (.inl (hchanged.congr hwaits))
    · refine .inr (.inr ⟨id, List.mem_cons_of_mem _ hid, ?_⟩)
      rwa [Ledger.send, isListing, waits_append (h.known id hid)]

lemma Synced.moves (h : Synced l a rs) (hmoves : Moves l l') : Synced l' a rs := by
  have hrest : ∀ live : Bool, (live = true → l.live = true) → Synced { l with live } a rs :=
    fun live hlive => ⟨h.void, h.fits, h.known, h.waiting, h.once, h.distinct, h.current,
      fun hon => h.fresh (hlive hon)⟩
  cases hmoves with
  | rest live hlive => exact hrest live hlive
  | send live hlive hcw => exact (hrest live hlive).send hcw

lemma Synced.other (h : Synced l a rs) (hvoid : Void a') (hsecrets : a'.secrets = a.secrets) :
    Synced l a' rs := by
  refine ⟨hvoid, h.fits, h.known, h.waiting, h.once, h.distinct, ?_, ?_⟩
  · rw [hsecrets]
    exact h.current
  · rw [hsecrets]
    exact h.fresh

/-- A call is carried out. -/
lemma Synced.take (h : Synced l a rs) {id : ℕ} {cw : Call × Waiting} {method : String}
    {result : Except Err Reply} (hid : id ∈ l.unanswered) (hnew : id ∉ rs.map Prod.fst)
    (hcw : l.calls[id]? = some cw) (hmethod : writes cw.1 = false → method ∉ mutators)
    (hlist : cw.1 = .list → method = "secret.list") (hans : Answered a method (a', result)) :
    Synced l a' (rs ++ [(id, result)]) := by
  have hfits : Fits cw := h.fits cw (List.mem_of_getElem? hcw)
  have hwaits : waits l.calls id = some cw.2 := by rw [waits, hcw, Option.map_some]
  have hsame : isChange l.calls id = false → a'.secrets = a.secrets := by
    intro hno
    refine hans.reads (hmethod ?_)
    rw [isChange, hwaits] at hno
    by_contra hyes
    rw [Option.any_some, hfits.changes (by simpa using hyes)] at hno
    cases hno
  have hlisting : isListing l.calls id = true → ∀ r, result = .ok r →
      Panel.entriesOf r = Secrets.listing a.secrets := by
    intro hyes r hr
    rw [isListing, hwaits] at hyes
    rw [hans.listed (hlist (hfits.lists hyes)) r hr]
    rfl
  have hnext : Current l.calls (Secrets.listing a'.secrets) (rs ++ [(id, result)]) ∧
      (l.live = true → l.entries = Secrets.listing a'.secrets ∨
        Changed l.calls (rs ++ [(id, result)]) ∨
        ∃ id ∈ l.unanswered, isListing l.calls id = true) := by
    -- A change that has gone through puts its own answer last, so a listing has to follow.
    by_cases hmade : isChange l.calls id = true ∧ result.isOk = true
    · refine ⟨current_of_change hmade.1 hmade.2 rs, fun _ => .inr (.inl ?_)⟩
      exact ⟨_, List.mem_append_right _ (List.mem_singleton_self _), hmade⟩
    · have hkept : a'.secrets = a.secrets := by
        cases hchange : isChange l.calls id with
        | false => exact hsame hchange
        | true =>
          cases hresult : result with
          | ok r => exact absurd ⟨hchange, by rw [hresult]; rfl⟩ hmade
          | error e => exact hans.refused e hresult
      rw [hkept]
      refine ⟨h.current.append hlisting, fun hlive => ?_⟩
      exact (h.fresh hlive).imp_right
        (Or.imp_left fun hchanged => changed_append.mpr (.inl hchanged))
  refine ⟨hans.void, h.fits, h.known, fun x hx => ?_, ?_, fun x hx => ?_, hnext.1, hnext.2⟩
  · rcases List.mem_append.mp hx with hold | hlast
    · exact h.waiting x hold
    · rw [List.mem_singleton.mp hlast]
      exact hid
  · rw [List.map_append, List.nodup_append]
    refine ⟨h.once, List.nodup_singleton _, fun y hy z hz heq => hnew ?_⟩
    obtain rfl : z = id := List.mem_singleton.mp hz
    rwa [← heq]
  · rcases List.mem_append.mp hx with hold | hlast
    · exact h.distinct x hold
    · rw [List.mem_singleton.mp hlast]
      exact hans.distinct

lemma Synced.rest (h : Synced l a (pre ++ x :: post))
    (hpre : matters l.calls x.1 = true → ∀ y ∈ pre, matters l.calls y.1 = false) (es : List Summary)
    (live : Bool) (hfresh : live = true → es = Secrets.listing a.secrets ∨
      Changed l.calls (pre ++ post) ∨ ∃ id ∈ l.unanswered.erase x.1, isListing l.calls id = true) :
    Synced ⟨live, es, l.calls, l.unanswered.erase x.1⟩ a (pre ++ post) := by
  have hsub : (pre ++ post).Sublist (pre ++ x :: post) :=
    List.Sublist.append_left (List.sublist_cons_self x post) pre
  have honce := h.once
  rw [List.map_append, List.map_cons, List.nodup_middle, List.nodup_cons,
    ← List.map_append] at honce
  refine ⟨h.void, h.fits, fun id hid => h.known id (List.mem_of_mem_erase hid), fun y hy => ?_,
    honce.2, fun y hy => h.distinct y (hsub.subset hy), h.current.remove hpre, hfresh⟩
  refine (List.mem_erase_of_ne fun heq => honce.1 ?_).mpr (h.waiting y (hsub.subset hy))
  rw [← heq]
  exact List.mem_map_of_mem hy

lemma Synced.ask (h : Synced { l with live := false } a rs) :
    Synced (l.send .list .refreshing) a rs := by
  have hsend : Synced (Ledger.send { l with live := false } .list .refreshing) a rs :=
    h.send (fits_list _)
  refine { hsend with fresh := fun _ => .inr (.inr ⟨l.calls.length, List.mem_cons_self, ?_⟩) }
  rw [isListing, waits, Ledger.send, List.getElem?_concat_length]
  rfl

/-- An answer arrives. -/
lemma Synced.arrives (h : Synced l a (pre ++ x :: post)) {call : Call} {w : Waiting}
    (hcw : l.calls[x.1]? = some (call, w)) (serde : DecodeError → String)
    (hpre : matters l.calls x.1 = true → ∀ y ∈ pre, matters l.calls y.1 = false)
    (hgiven : isListing l.calls x.1 = true → x.2.isOk = true)
    (harrives : Arrives w (x.2.mapError (Err.text serde))
      { l with unanswered := l.unanswered.erase x.1 } l') : Synced l' a (pre ++ post) := by
  have hwaits : waits l.calls x.1 = some w := by rw [waits, hcw, Option.map_some]
  cases harrives with
  | listed r live hw hr =>
    have hx : x.2 = .ok r := mapError_eq_ok.mp hr
    have hlisting : isListing l.calls x.1 = true := by rw [isListing, hwaits, Option.any_some, hw]
    refine h.rest hpre _ live fun _ => ?_
    rcases h.current.at hlisting hx with heq | hchanged
    · exact .inl heq
    · exact .inr (.inl (changed_append.mpr (.inr hchanged)))
  | changed r hw hr hlive => exact (h.rest hpre l.entries false nofun).ask
  | rest hlists hchanges =>
    refine h.rest hpre l.entries l.live fun hlive => ?_
    have herror : ∀ v : Waiting → Bool, v w = true → (v w = true → ∀ r,
        x.2.mapError (Err.text serde) ≠ .ok r) → x.2.isOk = false := by
      intro v hv hno
      cases hx : x.2 with
      | error e => rfl
      | ok r => exact absurd (mapError_eq_ok.mpr hx) (hno hv r)
    rcases h.fresh hlive with hsame | ⟨y, hy, hchange, hok⟩ | ⟨id, hid, hlisting⟩
    · exact .inl hsame
    · rcases List.mem_append.mp hy with hmem | hmem
      · exact .inr (.inl ⟨y, List.mem_append_left _ hmem, hchange, hok⟩)
      · rcases List.mem_cons.mp hmem with rfl | hmem
        · -- The change itself, answered: a panel that is live would have asked.
          rw [isChange, hwaits, Option.any_some] at hchange
          have hfalse :=
            herror changes hchange fun hw => (hchanges hw).resolve_left (by simp [hlive])
          rw [hok] at hfalse
          cases hfalse
        · exact .inr (.inl ⟨y, List.mem_append_right _ hmem, hchange, hok⟩)
    · refine .inr (.inr ⟨id, (List.mem_erase_of_ne fun heq => ?_).mpr hid, hlisting⟩)
      subst heq
      have hok := hgiven hlisting
      rw [isListing, hwaits, Option.any_some] at hlisting
      rw [herror lists hlisting hlists] at hok
      cases hok

/-! ### Every run -/

section Runs

variable {Key : Type} {L : Server.Packages Key} {serde : DecodeError → String} {number : ℕ → Json}
variable {config : Defaults}

lemma request_method {c : Call} {method : String} {params : Json}
    (h : request number config c = some (method, params)) :
    (writes c = false → method ∉ mutators) ∧ (c = .list → method = "secret.list") := by
  cases c with
  | set | rename | delete | generate => exact ⟨nofun, nofun⟩
  | list | get | totp | lock =>
    cases h
    exact ⟨fun _ => by decide, by first | exact fun _ => rfl | exact nofun⟩
  | rotate => cases h

/-- The panel in front of the store. -/
structure Inv (s : System (Settings × Store)) : Prop where
  synced : Synced (ledger s.panel) s.agent.2 s.replies
  alive : Alive (screen s.panel)

lemma orderly_of_use {p : Panel.State} {e : Panel.Event} (he : isReply e = false) :
    Orderly p e := by
  cases e with
  | reply => cases he
  | _ => trivial

/-- One step in front of the store. -/
lemma inv_step {s t : System (Settings × Store)} {a : Action} (h : Inv s) (halone : a.alone)
    (horder : InOrder s a) (hstep : step (store L) serde number config s a = some t) : Inv t := by
  cases a with
  | use e =>
    simp only [step] at hstep
    split at hstep
    · cases hstep
    · next he =>
      have he : isReply e = false := by simpa using he
      obtain ⟨p, hp, rfl⟩ := Option.map_eq_some_iff.mp hstep
      exact ⟨h.synced.moves (moves_step he hp), alive_step h.alive (orderly_of_use he) hp⟩
  | take id env =>
    simp only [step] at hstep
    split at hstep
    · next hid =>
      obtain ⟨cw, hcw, hstep⟩ := Option.bind_eq_some_iff.mp hstep
      obtain ⟨⟨method, params⟩, hrequest, hstep⟩ := Option.bind_eq_some_iff.mp hstep
      obtain ⟨result, hresult, rfl⟩ := Option.map_eq_some_iff.mp hstep
      cases hresult
      obtain ⟨hmethod, hlist⟩ := request_method hrequest
      have hans := answered_handle L.totp s.agent.1 env h.synced.void method params
      exact ⟨h.synced.take hid.1 hid.2 hcw hmethod hlist hans, h.alive⟩
    · cases hstep
  | deliver i c th =>
    obtain ⟨answer, hanswer, hstep⟩ := Option.bind_eq_some_iff.mp hstep
    obtain ⟨p, hp, rfl⟩ := Option.map_eq_some_iff.mp hstep
    obtain ⟨-, call, w, hcw, harrives⟩ := arrives_step hp
    have horder := horder answer hanswer
    have hsplit : s.replies.take i ++ answer :: s.replies.drop (i + 1) = s.replies := by
      obtain ⟨hi, rfl⟩ := List.getElem?_eq_some_iff.mp hanswer
      rw [← List.drop_eq_getElem_cons hi, List.take_append_drop]
    have hsynced := h.synced
    rw [← hsplit] at hsynced
    have hmatters : isListing s.panel.calls answer.1 = true →
        matters s.panel.calls answer.1 = true := by
      intro hlisting
      rw [matters, hlisting, Bool.true_or]
    refine ⟨?_, alive_step h.alive ?_ hp⟩
    · rw [List.eraseIdx_eq_take_drop_succ]
      exact hsynced.arrives hcw serde (fun hm => (horder hm).1)
        (fun hlisting => (horder (hmatters hlisting)).2.1 hlisting) harrives
    · cases hresult : answer.2 with
      | error e => trivial
      | ok r =>
        refine ⟨h.synced.distinct answer (List.mem_of_getElem? hanswer) r hresult,
          fun hopening => ?_⟩
        rw [hcw, Option.any_some, decide_eq_true_eq] at hopening
        subst hopening
        have hwaits : waits s.panel.calls answer.1 = some .opening := by
          rw [waits, hcw, Option.map_some]
        refine (horder (hmatters ?_)).2.2 hwaits
        rw [isListing, hwaits]
        rfl
  | other ev =>
    cases hstep
    have hvoid := void_step L h.synced.void ev
    exact ⟨h.synced.other hvoid (secrets_other L h.synced.void halone), h.alive⟩

/-- One step in front of the daemon, and of the store it represents. -/
lemma inv_related (hL : L.toLibrary.Ideal) {s t : System (Server.Config × Server.World Key)}
    {a : Action} (hinv : ∃ e, Related L s.agent e ∧ Inv ⟨s.panel, e, s.replies⟩)
    (ha : InOrder s a ∧ a.faultless ∧ a.alone)
    (hstep : step (agent L) serde number config s a = some t) :
    ∃ e, Related L t.agent e ∧ Inv ⟨t.panel, e, t.replies⟩ := by
  obtain ⟨e, hrelated, hinv⟩ := hinv
  obtain ⟨horder, hfault, halone⟩ := ha
  have hstore : ∃ e', Related L t.agent e' ∧
      step (store L) serde number config ⟨s.panel, e, s.replies⟩ a = some
        ⟨t.panel, e', t.replies⟩ := by
    cases a with
    | use ev =>
      simp only [step] at hstep
      split at hstep
      · cases hstep
      · next he =>
        obtain ⟨p, hp, rfl⟩ := Option.map_eq_some_iff.mp hstep
        exact ⟨e, hrelated, by simp only [step, if_neg he, hp, Option.map_some]⟩
    | take id env =>
      simp only [step] at hstep
      split at hstep
      · next hid =>
        obtain ⟨cw, hcw, hstep⟩ := Option.bind_eq_some_iff.mp hstep
        obtain ⟨sent, hsent, hstep⟩ := Option.bind_eq_some_iff.mp hstep
        obtain ⟨result, hresult, rfl⟩ := Option.map_eq_some_iff.mp hstep
        obtain ⟨hnext, hans⟩ :=
          related_step hL s.agent e (.request env sent.1 sent.2) hrelated hfault
        refine ⟨_, hnext, ?_⟩
        simp only [step, if_pos hid, hcw, hsent, Option.bind_some, ← hans, hresult, Option.map_some]
      · cases hstep
    | deliver i c th =>
      obtain ⟨answer, hanswer, hstep⟩ := Option.bind_eq_some_iff.mp hstep
      obtain ⟨p, hp, rfl⟩ := Option.map_eq_some_iff.mp hstep
      exact ⟨e, hrelated, by simp only [step, hanswer, Option.bind_some, hp, Option.map_some]⟩
    | other ev =>
      cases hstep
      exact ⟨_, (related_step hL s.agent e ev hrelated hfault).1, rfl⟩
  obtain ⟨e', hnext, hstep'⟩ := hstore
  exact ⟨e', hnext, inv_step hinv halone horder hstep'⟩

end Runs

/-- A vault is created, the panel is opened, and a secret is added in it. -/
def added : List Action :=
  [.other (.request Sample.env "vault.create" (.obj [("password", .str "pw")])),
    .use .openPanel, .take 0 Sample.env, .deliver 0 ⟨"+", 30⟩ drawn,
    .use (.footer 0 .add), .use (.answer 0 true "a"), .use (.answer 1 true "x"),
    .take 1 Sample.env, .deliver 0 ⟨"+", 30⟩ drawn,
    .take 2 Sample.env, .deliver 0 ⟨"+", 30⟩ drawn]

def begun : System (Server.Config × Server.World Sample.Key) :=
  start (Sample.config, ⟨fun _ => none, Server.Inner.new Sample.Key 0⟩)

end LvimKeyring.PanelSync
