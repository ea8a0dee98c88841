import LvimKeyring.Lib.ListUpdate
import LvimKeyring.PanelRows

/-!
What the panel sends, and why.

A step puts out one thing at most: a call, a prompt, a popup or a text for the register. Each is
traced back to what the user did, and to a listing that the agent gave.
-/

namespace LvimKeyring.PanelCalls

open Rows Panel PanelRows Transition ListUpdate
open Server (Summary Reply)

/-! ### One step -/

inductive Output
  | silent
  | send (c : Call) (w : Waiting)
  | ask (p : Prompt)
  | popup (p : Popup)
  | yank (value label : String)

/-- What has been put out. -/
structure Logs where
  calls : List (Call × Waiting)
  prompts : List Prompt
  popups : List Popup
  yanked : List (String × String)

def logs (s : State) : Logs := ⟨s.calls, s.prompts, s.popups, s.yanked⟩

def Logs.add (l : Logs) : Output → Logs
  | .silent => l
  | .send c w => { l with calls := l.calls ++ [(c, w)] }
  | .ask p => { l with prompts := l.prompts ++ [p] }
  | .popup p => { l with popups := l.popups ++ [p] }
  | .yank value label => { l with yanked := l.yanked ++ [(value, label)] }

/-- The call that reads an entry. -/
def look (e : Summary) : Call := if isTotp e then .totp e.name else .get e.name

/-- What an answer to that call shows. -/
def shownIn (e : Summary) (r : Reply) : Option String :=
  if isTotp e then
    match r with
    | .totp digits _ _ => some digits
    | _ => none
  else valueOf r

/-- A key, or its place in the footer, used with an entry under the cursor. -/
inductive Chooses (s : State) (e : Summary) : Key → Event → Prop
  | press (j : ℕ) (k : Key) (h : s.curEntry = some e) : Chooses s e k (.press j k)
  | change (j : ℕ) (h : s.curEntry = some e) : Chooses s e .change (.footer j .change)
  | delete (j : ℕ) (h : s.curEntry = some e) : Chooses s e .delete (.footer j .delete)

/-- A prompt that is open is answered with a text. -/
def Answers (s : State) (a : Event) (p : Prompt) (text : String) : Prop :=
  ∃ id, a = .answer id true text ∧ id ∈ s.pending ∧ s.prompts[id]? = some p

/-- A call is answered. -/
def Replies (s : State) (a : Event) (call : Call) (w : Waiting) (r : Reply) : Prop :=
  ∃ id c th, a = .reply id (.ok r) c th ∧ s.calls[id]? = some (call, w)

/-- Why a call is sent. -/
inductive Sends (s : State) (a : Event) : Call → Waiting → Prop
  | opening (h : a = .openPanel) : Sends s a .list .opening
  | refreshing (h : a = .refresh) : Sends s a .list .refreshing
  | toggled (j i : ℕ) (h : a = .toggle j i) : Sends s a .list .refreshing
  | changed {call : Call} {note : Option String} {r : Reply}
    (h : Replies s a call (.storing note) r) : Sends s a .list .refreshing
  | revealed {e : Summary} (h : Chooses s e .reveal a) : Sends s a (look e) (.revealing e)
  | picked {e : Summary} {j : ℕ} {f : Surface} {name : String} (h : a = .pick j)
    (hf : s.shown j = some f) (hline : f.line = some (name, some e)) :
    Sends s a (look e) (.revealing e)
  | copied {e : Summary} (h : Chooses s e .copy a) : Sends s a (look e) (.copying e)
  | added {name text : String} (h : Answers s a (.addValue name) text) (note : Option String) :
    Sends s a (.set name (some text) none) (.storing note)
  | addedTotp {name text : String} (h : Answers s a (.totpSecret name) text)
    (hne : trim text ≠ "") (note : Option String) :
    Sends s a (.set name (some (trim text)) (some ⟨none, none, none, none, some true⟩))
      (.storing note)
  | valued {e : Summary} {text : String} (h : Answers s a (.changeValue e) text)
    (hne : trim text ≠ "") (note : Option String) :
    Sends s a (.set e.name (some (trim text)) none) (.storing note)
  | edited {e : Summary} {text : String} (h : Answers s a (.editMeta e) text)
    (note : Option String) :
    Sends s a (.set e.name none (some ⟨some text, none, none, none, none⟩)) (.storing note)
  | renamed {e : Summary} {text : String} (h : Answers s a (.rename e) text) (hne : trim text ≠ "")
    (hother : trim text ≠ e.name) (note : Option String) :
    Sends s a (.rename e.name (trim text)) (.storing note)
  | deleted {e : Summary} {text : String} (h : Answers s a (.delete e) text)
    (note : Option String) :
    Sends s a (.delete e.name) (.storing note)
  | generated {text : String} (h : Answers s a .generateInto text) (hne : trim text ≠ "")
    (note : Option String) : Sends s a (.generate (trim text)) (.storing note)
  | locked (j : ℕ) (h : a = .footer j .lock) : Sends s a .lock .locking
  | rotated (j : ℕ) (h : a = .footer j .rotate) : Sends s a .rotate .ignoring

/-- Why a prompt is opened. -/
inductive Asks (s : State) (a : Event) : Prompt → Prop
  | addName (h : a = .add ∨ ∃ j, a = .footer j .add) : Asks s a .addName
  | addValue {text : String} (h : Answers s a .addName text) (hne : trim text ≠ "") :
    Asks s a (.addValue (trim text))
  | totpName (j : ℕ) (h : a = .press j .totp) : Asks s a .totpName
  | totpSecret {text : String} (h : Answers s a .totpName text) (hne : trim text ≠ "") :
    Asks s a (.totpSecret (trim text))
  | changeValue {e : Summary} (h : Chooses s e .change a) : Asks s a (.changeValue e)
  | editMeta {e : Summary} (h : Chooses s e .edit a) : Asks s a (.editMeta e)
  | rename {e : Summary} (h : Chooses s e .rename a) : Asks s a (.rename e)
  | delete {e : Summary} (h : Chooses s e .delete a) : Asks s a (.delete e)
  | generateInto (j : ℕ) (h : a = .footer j .generate) : Asks s a .generateInto

/-- Why a popup is opened. -/
inductive Pops (s : State) (a : Event) (p : Popup) : Prop
  | revealed {call : Call} {e : Summary} {r : Reply} (h : Replies s a call (.revealing e) r)
    (hvalue : p.copyValue = (shownIn e r).getD "")

/-- Why a text goes to the register. -/
inductive Yanks (s : State) (a : Event) (value : String) : Prop
  | copied {call : Call} {e : Summary} {r : Reply} (h : Replies s a call (.copying e) r)
    (hvalue : shownIn e r = some value)
  | popup {i : ℕ} {c : Clipboard} {p : Popup} (h : a = .copyPopup i c) (hp : s.popups[i]? = some p)
    (hvalue : value = p.copyValue)

def Outputs (s : State) (a : Event) : Output → Prop
  | .silent => True
  | .send c w => Sends s a c w
  | .ask p => Asks s a p
  | .popup p => Pops s a p
  | .yank value _ => Yanks s a value

/-- What a step puts out, with the reason. -/
def Puts (s : State) (a : Event) (t : State) : Prop :=
  ∃ o, logs t = (logs s).add o ∧ Outputs s a o

variable {s t : State} {a : Event}

lemma puts_nothing (h : logs t = logs s) : Puts s a t := ⟨.silent, h, trivial⟩

lemma puts_refresh {u : State} (hu : logs u = logs s) (h : Sends s a .list .refreshing) :
    Puts s a u.refresh := by
  unfold State.refresh
  split
  · exact ⟨.send .list .refreshing, congrArg (Logs.add · (.send .list .refreshing)) hu, h⟩
  · exact puts_nothing hu

lemma puts_press {j : ℕ} (k : Key) : Puts s (.press j k) (s.press k) := by
  have hentry : ∀ f : Summary → State, (∀ e, s.curEntry = some e → Puts s (.press j k) (f e)) →
      Puts s (.press j k) (s.onEntry f) := by
    intro f hf
    unfold State.onEntry
    cases hcur : s.curEntry with
    | none => exact puts_nothing rfl
    | some e => exact hf e hcur
  cases k with
  | totp => exact ⟨.ask .totpName, rfl, .totpName j rfl⟩
  | reveal => exact hentry _ fun e he => ⟨.send (look e) _, rfl, .revealed (.press j _ he)⟩
  | copy => exact hentry _ fun e he => ⟨.send (look e) _, rfl, .copied (.press j _ he)⟩
  | rename => exact hentry _ fun e he => ⟨.ask (.rename e), rfl, .rename (.press j _ he)⟩
  | delete => exact hentry _ fun e he => ⟨.ask (.delete e), rfl, .delete (.press j _ he)⟩
  | edit => exact hentry _ fun e he => ⟨.ask (.editMeta e), rfl, .editMeta (.press j _ he)⟩
  | change => exact hentry _ fun e he => ⟨.ask (.changeValue e), rfl, .changeValue (.press j _ he)⟩

lemma puts_footer {j : ℕ} (b : Footer) : Puts s (.footer j b) (s.runFooter j b) := by
  have hcurrent : ∀ f : Summary → State, (∀ e, s.curEntry = some e → Puts s (.footer j b) (f e)) →
      Puts s (.footer j b) (s.onCurrent f) := by
    intro f hf
    unfold State.onCurrent
    cases hcur : s.curEntry with
    | none => exact puts_nothing rfl
    | some e => exact hf e hcur
  cases b with
  | add => exact ⟨.ask .addName, rfl, .addName (.inr ⟨j, rfl⟩)⟩
  | change => exact hcurrent _ fun e he => ⟨.ask (.changeValue e), rfl, .changeValue (.change j he)⟩
  | delete => exact hcurrent _ fun e he => ⟨.ask (.delete e), rfl, .delete (.delete j he)⟩
  | generate => exact ⟨.ask .generateInto, rfl, .generateInto j rfl⟩
  | lock => exact ⟨.send .lock .locking, rfl, .locked j rfl⟩
  | rotate => exact ⟨.send .rotate .ignoring, rfl, .rotated j rfl⟩
  | help => exact puts_nothing rfl

/-- An answer of the user. -/
lemma puts_answered {u : State} (hu : logs u = logs s) {p : Prompt} {ok : Bool} {text : String}
    (h : ok = true → Answers s a p text) : Puts s a (u.answered p ok text) := by
  unfold State.answered
  cases ok with
  | false => exact puts_nothing hu
  | true =>
    have hans := h rfl
    have hsend : ∀ c w, Sends s a c w → Puts s a (u.send c w) := fun c w hs =>
      ⟨.send c w, congrArg (Logs.add · (.send c w)) hu, hs⟩
    have hask : ∀ q, Asks s a q → Puts s a (u.ask q) := fun q hq =>
      ⟨.ask q, congrArg (Logs.add · (.ask q)) hu, hq⟩
    rw [Bool.not_true, if_neg Bool.false_ne_true]
    cases p with
    | addName =>
      simp only
      split
      · exact puts_nothing hu
      · next hne => exact hask _ (.addValue hans hne)
    | addValue name => exact hsend _ _ (.added hans _)
    | totpName =>
      simp only
      split
      · exact puts_nothing hu
      · next hne => exact hask _ (.totpSecret hans hne)
    | totpSecret name =>
      simp only
      split
      · exact puts_nothing hu
      · next hne => exact hsend _ _ (.addedTotp hans hne _)
    | changeValue e =>
      simp only
      split
      · exact puts_nothing hu
      · next hne => exact hsend _ _ (.valued hans hne _)
    | editMeta e => exact hsend _ _ (.edited hans _)
    | rename e =>
      simp only
      split
      · exact puts_nothing hu
      · next hne => exact hsend _ _ (.renamed hans (not_or.mp hne).1 (not_or.mp hne).2 _)
    | delete e => exact hsend _ _ (.deleted hans _)
    | generateInto =>
      simp only
      split
      · exact puts_nothing hu
      · next hne => exact hsend _ _ (.generated hans hne _)

/-- An answer of the agent. -/
lemma puts_replied {u : State} (hu : logs u = logs s) {c : Clipboard} {th : Theme} {w : Waiting}
    {result : Except String Reply} {call : Call} (h : ∀ r, result = .ok r → Replies s a call w r) :
    Puts s a (u.replied c th w result) := by
  have hpopup : ∀ p, Pops s a p → Puts s a (u.popup p) := fun p hp =>
    ⟨.popup p, congrArg (Logs.add · (.popup p)) hu, hp⟩
  have hyank : ∀ value label, Yanks s a value → Puts s a (u.yank c value label) :=
    fun value label hv => ⟨.yank value label, congrArg (Logs.add · (.yank value label)) hu, hv⟩
  cases result with
  | error err => cases w <;> exact puts_nothing hu
  | ok r =>
    have hr := h r rfl
    cases w with
    | locking => exact puts_nothing hu
    | ignoring => exact puts_nothing hu
    | opening => exact puts_nothing hu
    | refreshing =>
      simp only [State.replied, State.relisted]
      split <;> exact puts_nothing hu
    | storing note =>
      refine puts_refresh ?_ (.changed hr)
      cases note <;> exact hu
    | revealing e =>
      simp only [State.replied, State.revealed]
      split
      · -- A `totp` entry is answered with its code; any other answer is none to show.
        next htotp =>
        cases r with
        | totp digits remaining period =>
          exact hpopup _ (.revealed hr (by simp [shownIn, htotp]))
        | unit | hello | status | listing | secret | generated => exact puts_nothing hu
      · next htotp => exact hpopup _ (.revealed hr (by simp [shownIn, htotp]))
    | copying e =>
      simp only [State.replied, State.copied]
      split
      · -- As with a popup: the code, and never the secret behind it.
        next htotp =>
        cases r with
        | totp digits remaining period =>
          exact hyank _ _ (.copied hr (by simp [shownIn, htotp]))
        | unit | hello | status | listing | secret | generated => exact puts_nothing hu
      · next htotp =>
        split
        · next value hvalue => exact hyank _ _ (.copied hr (by simp [shownIn, htotp, hvalue]))
        · exact puts_nothing hu

/-- A step puts out one thing at most, for a reason. -/
theorem step_puts (h : step s a = some t) : Puts s a t := by
  cases a with
  | openPanel =>
    cases h
    refine ⟨.send .list .opening, ?_, .opening rfl⟩
    unfold State.openPanel
    cases s.live <;> cases s.handle <;> rfl
  | refresh =>
    cases h
    exact puts_refresh rfl (.refreshing rfl)
  | add =>
    cases h
    exact ⟨.ask .addName, rfl, .addName (.inl rfl)⟩
  | move j line =>
    obtain ⟨f, -, rfl⟩ := Option.map_eq_some_iff.mp h
    exact puts_nothing rfl
  | press j k =>
    obtain ⟨f, -, rfl⟩ := Option.map_eq_some_iff.mp h
    exact puts_press k
  | footer j b =>
    obtain ⟨f, -, rfl⟩ := Option.map_eq_some_iff.mp h
    exact puts_footer b
  | pick j =>
    obtain ⟨f, name, e, hf, hline, rfl⟩ := step_pick h
    exact ⟨.send (look e) (.revealing e), rfl, .picked rfl hf hline⟩
  | toggle j i =>
    obtain ⟨f, x, -, -, rfl⟩ := step_toggle h
    unfold State.onToggle
    split
    · exact puts_refresh rfl (.toggled j i rfl)
    · exact puts_nothing rfl
  | answer id ok text =>
    obtain ⟨p, hid, hp, rfl⟩ := step_answer h
    have hlogs : logs { s with pending := s.pending.erase id } = logs s := rfl
    refine puts_answered hlogs fun hok => ⟨id, ?_, hid, hp⟩
    rw [hok]
  | reply id result c th =>
    obtain ⟨call, w, -, hcw, rfl⟩ := step_reply h
    have hlogs : logs { s with unanswered := s.unanswered.erase id } = logs s := rfl
    have hreplies : ∀ r, result = .ok r → Replies s (.reply id result c th) call w r := by
      rintro r rfl
      exact ⟨id, c, th, rfl, hcw⟩
    exact puts_replied hlogs hreplies
  | copyPopup i c =>
    obtain ⟨p, hp, rfl⟩ := Option.map_eq_some_iff.mp h
    exact ⟨.yank p.copyValue p.copyLabel, rfl, .popup rfl hp rfl⟩
  | gone j =>
    obtain ⟨f, -, rfl⟩ := Option.map_eq_some_iff.mp h
    exact puts_nothing rfl
  | callback j =>
    obtain ⟨f, -, -, -, rfl⟩ := step_callback h
    exact puts_nothing rfl

/-! ### What came before -/

/-- The steps of a run, each with the state it was taken from. -/
abbrev Past := List (State × Event)

def past (as : List Event) : Past := history step (fun g s a _ => g ++ [(s, a)]) [] .new as

/-- The agent has listed the entry. -/
def Listed (h : Past) (e : Summary) : Prop :=
  ∃ x ∈ h, ∃ w r, Replies x.1 x.2 .list w r ∧ e ∈ entriesOf r

/-- The user has typed the name, to a prompt. -/
def Typed (h : Past) (p : Prompt) (name : String) : Prop :=
  ∃ x ∈ h, ∃ text, Answers x.1 x.2 p text ∧ name = trim text ∧ name ≠ ""

/-- The user has pressed the key with a listed entry under the cursor. -/
def Chosen (h : Past) (e : Summary) (k : Key) : Prop := Listed h e ∧ ∃ x ∈ h, Chooses x.1 e k x.2

/-- The user reveals an entry, by the key or by its row. -/
def Reveals (s : State) (a : Event) (e : Summary) : Prop :=
  Chooses s e .reveal a ∨
    ∃ j f name, a = .pick j ∧ s.shown j = some f ∧ f.line = some (name, some e)

/-- The agent has answered that this is what a listed entry holds, which the user has asked for. -/
def Told (h : Past) (value : String) : Prop :=
  ∃ e, Listed h e ∧ (∃ x ∈ h, Reveals x.1 x.2 e) ∧
    ∃ x ∈ h, ∃ r, Replies x.1 x.2 (look e) (.revealing e) r ∧ value = (shownIn e r).getD ""

/-- Why a prompt is open. -/
def Asked (h : Past) : Prompt → Prop
  | .addName => ∃ x ∈ h, x.2 = .add ∨ ∃ j, x.2 = .footer j .add
  | .addValue name => Typed h .addName name
  | .totpName => ∃ x ∈ h, ∃ j, x.2 = .press j .totp
  | .totpSecret name => Typed h .totpName name
  | .changeValue e => Chosen h e .change
  | .editMeta e => Chosen h e .edit
  | .rename e => Chosen h e .rename
  | .delete e => Chosen h e .delete
  | .generateInto => ∃ x ∈ h, ∃ j, x.2 = .footer j .generate

/-- What the user has answered for a change to be sent. -/
def Ordered (h : Past) (s : State) (a : Event) : Call → Prop
  | .set name value info =>
    (∃ text, Answers s a (.addValue name) text ∧ Typed h .addName name ∧ value = some text ∧
      info = none) ∨
    (∃ text, Answers s a (.totpSecret name) text ∧ Typed h .totpName name ∧ trim text ≠ "" ∧
      value = some (trim text) ∧ info = some ⟨none, none, none, none, some true⟩) ∨
    (∃ e text, e.name = name ∧ Answers s a (.changeValue e) text ∧ Chosen h e .change ∧
      trim text ≠ "" ∧ value = some (trim text) ∧ info = none) ∨
    ∃ e text, e.name = name ∧ Answers s a (.editMeta e) text ∧ Chosen h e .edit ∧
      value = none ∧ info = some ⟨some text, none, none, none, none⟩
  | .rename src dst => ∃ e text, e.name = src ∧ Answers s a (.rename e) text ∧ Chosen h e .rename ∧
    dst = trim text ∧ dst ≠ "" ∧ dst ≠ src
  | .delete name => ∃ e text, e.name = name ∧ Answers s a (.delete e) text ∧ Chosen h e .delete
  | .generate name => ∃ text, Answers s a .generateInto text ∧ name = trim text ∧ name ≠ ""
  | .list | .get _ | .totp _ | .lock | .rotate => False

/-- What has to have happened for a call to be sent, by what is done with its answer. A listing is
fetched again when the panel is told to, and after a change that the user has ordered. -/
def Caused (h : Past) (s : State) (a : Event) (c : Call) : Waiting → Prop
  | .opening => c = .list ∧ a = .openPanel
  | .refreshing => c = .list ∧ (a = .refresh ∨ (∃ j i, a = .toggle j i) ∨
    ∃ call note r, Replies s a call (.storing note) r ∧ ∃ x ∈ h, Ordered h x.1 x.2 call)
  | .revealing e => c = look e ∧ Listed h e ∧ Reveals s a e
  | .copying e => c = look e ∧ Listed h e ∧ Chooses s e .copy a
  | .storing _ => Ordered h s a c
  | .locking => c = .lock ∧ ∃ j, a = .footer j .lock
  | .ignoring => c = .rotate ∧ ∃ j, a = .footer j .rotate

/-- Where a text for the register is from. -/
def Given (h : Past) (s : State) (a : Event) (value : String) : Prop :=
  (∃ e r, Chosen h e .copy ∧ Replies s a (look e) (.copying e) r ∧ shownIn e r = some value) ∨
    (∃ i c, a = .copyPopup i c) ∧ Told h value

variable {h h' : Past} {s t : State} {a : Event}

lemma Listed.mono (hsub : h ⊆ h') {e : Summary} (he : Listed h e) : Listed h' e := by
  obtain ⟨x, hx, hrest⟩ := he
  exact ⟨x, hsub hx, hrest⟩

lemma Typed.mono (hsub : h ⊆ h') {p : Prompt} {name : String} (hn : Typed h p name) :
    Typed h' p name := by
  obtain ⟨x, hx, hrest⟩ := hn
  exact ⟨x, hsub hx, hrest⟩

lemma Chosen.mono (hsub : h ⊆ h') {e : Summary} {k : Key} (he : Chosen h e k) : Chosen h' e k := by
  obtain ⟨hlisted, x, hx, hrest⟩ := he
  exact ⟨hlisted.mono hsub, x, hsub hx, hrest⟩

lemma Told.mono (hsub : h ⊆ h') {value : String} (hv : Told h value) : Told h' value := by
  obtain ⟨e, hlisted, ⟨x, hx, hreveals⟩, y, hy, hrest⟩ := hv
  exact ⟨e, hlisted.mono hsub, ⟨x, hsub hx, hreveals⟩, y, hsub hy, hrest⟩

lemma Ordered.mono (hsub : h ⊆ h') {c : Call} (hc : Ordered h s a c) : Ordered h' s a c := by
  cases c with
  | set name value info =>
    rcases hc with ⟨text, hans, hname, hrest⟩ | ⟨text, hans, hname, hrest⟩ |
      ⟨e, text, hname, hans, he, hrest⟩ | ⟨e, text, hname, hans, he, hrest⟩
    · exact .inl ⟨text, hans, hname.mono hsub, hrest⟩
    · exact .inr (.inl ⟨text, hans, hname.mono hsub, hrest⟩)
    · exact .inr (.inr (.inl ⟨e, text, hname, hans, he.mono hsub, hrest⟩))
    · exact .inr (.inr (.inr ⟨e, text, hname, hans, he.mono hsub, hrest⟩))
  | rename src dst =>
    obtain ⟨e, text, hname, hans, he, hrest⟩ := hc
    exact ⟨e, text, hname, hans, he.mono hsub, hrest⟩
  | delete name =>
    obtain ⟨e, text, hname, hans, he⟩ := hc
    exact ⟨e, text, hname, hans, he.mono hsub⟩
  | generate name => exact hc
  | list | get | totp | lock | rotate => exact hc

lemma Caused.mono (hsub : h ⊆ h') {c : Call} {w : Waiting} (hc : Caused h s a c w) :
    Caused h' s a c w := by
  cases w with
  | opening | locking | ignoring => exact hc
  | refreshing =>
    obtain ⟨hlist, hrefresh | htoggle | ⟨call, note, r, hr, x, hx, hordered⟩⟩ := hc
    · exact ⟨hlist, .inl hrefresh⟩
    · exact ⟨hlist, .inr (.inl htoggle)⟩
    · exact ⟨hlist, .inr (.inr ⟨call, note, r, hr, x, hsub hx, hordered.mono hsub⟩)⟩
  | revealing e | copying e => exact ⟨hc.1, hc.2.1.mono hsub, hc.2.2⟩
  | storing note => exact Ordered.mono hsub hc

lemma Asked.mono (hsub : h ⊆ h') {p : Prompt} (hp : Asked h p) : Asked h' p := by
  cases p with
  | addName | totpName | generateInto =>
    obtain ⟨x, hx, hrest⟩ := hp
    exact ⟨x, hsub hx, hrest⟩
  | addValue | totpSecret => exact Typed.mono hsub hp
  | changeValue | editMeta | rename | delete => exact Chosen.mono hsub hp

/-! ### Where entries come from -/

/-- Everything that is known of entries has been listed. -/
structure Knows (h : Past) (v : Screen) : Prop where
  entries : ∀ e ∈ v.entries, Listed h e
  registry : ∀ x ∈ v.registry, Listed h x.2
  rows : ∀ f ∈ v.surfaces, ∀ x, .section x ∈ f.rows → ∀ r ∈ x.children, Listed h r.entry

lemma Knows.mono {v : Screen} (hsub : h ⊆ h') (hs : Knows h v) : Knows h' v where
  entries e he := (hs.entries e he).mono hsub
  registry x hx := (hs.registry x hx).mono hsub
  rows f hf x hx r hr := (hs.rows f hf x hx r hr).mono hsub

lemma Knows.modify {v : Screen} (hs : Knows h v) (k : ℕ) {g : Surface → Surface}
    (hrows : ∀ f, v.surfaces[k]? = some f → ∀ x, .section x ∈ (g f).rows → ∀ r ∈ x.children,
      Listed h r.entry) : Knows h { v with surfaces := v.surfaces.modify k g } := by
  refine ⟨hs.entries, hs.registry, fun f hf x hx r hr => ?_⟩
  obtain ⟨i, hi⟩ := List.getElem?_of_mem hf
  obtain ⟨f₀, hf₀, rfl⟩ := modify_eq.mp hi
  split at hx
  · next hki => exact hrows f₀ (hki ▸ hf₀) x hx r hr
  · exact hs.rows f₀ (List.mem_of_getElem? hf₀) x hx r hr

lemma listed_children {th : Theme} {es : List Summary} {collapsed : String → Bool}
    (hes : ∀ e ∈ es, Listed h e) {x : Section} (hx : .section x ∈ (buildRows th es collapsed).rows)
    {r : EntryRow} (hr : r ∈ x.children) : Listed h r.entry := by
  by_cases hne : es = []
  · rw [buildRows, if_pos hne, List.mem_singleton] at hx
    cases hx
  · rw [buildRows_of_ne hne, List.mem_map] at hx
    obtain ⟨y, hy, heq⟩ := hx
    cases heq
    obtain ⟨g, hg, rfl⟩ := List.mem_map.mp hy
    have hreg : (r.name, r.entry) ∈ registered (buildSection th collapsed g) :=
      List.mem_map.mpr ⟨r, hr, rfl⟩
    exact hes _ ((mem_grouped hg).mp (mem_registered.mp hreg).2.1).1

lemma listed_registry {th : Theme} {es : List Summary} {collapsed : String → Bool}
    (hes : ∀ e ∈ es, Listed h e) {x : String × Summary}
    (hx : x ∈ (buildRows th es collapsed).registry) : Listed h x.2 := hes _ (mem_registry.mp hx).1

lemma Knows.close (hs : Knows h (screen s)) (k : ℕ) : Knows h (screen (s.close k)) :=
  hs.modify k fun f hf => hs.rows f (List.mem_of_getElem? hf)

lemma Knows.footer (hs : Knows h (screen s)) (j : ℕ) (b : Footer) :
    Knows h (screen (s.runFooter j b)) := by
  rcases screen_footer s j b with heq | heq
  · rw [heq]
    exact hs
  · rw [heq]
    exact hs.close j

lemma Knows.openPanel (hs : Knows h (screen s)) : Knows h (screen s.openPanel) := by
  have hforget : ∀ u : State, Knows h (screen u) →
      Knows h (screen (State.send { u with handle := none } .list .opening)) := fun u hu =>
    ⟨hu.entries, hu.registry, hu.rows⟩
  unfold State.openPanel
  refine hforget _ ?_
  split
  · cases s.handle with
    | none => exact hs
    | some k => exact hs.close k
  · exact hs

lemma Knows.replied (hs : Knows h (screen s)) {c : Clipboard} {th : Theme} {w : Waiting}
    {result : Except String Reply}
    (hlist : ∀ r, result = .ok r → w = .opening ∨ w = .refreshing → ∀ e ∈ entriesOf r, Listed h e) :
    Knows h (screen (s.replied c th w result)) := by
  by_cases hlists : ∀ r, result = .ok r → w ≠ .opening ∧ w ≠ .refreshing
  · rw [screen_replied s c th hlists]
    exact hs
  · simp only [not_forall, not_and_or, not_not] at hlists
    obtain ⟨r, rfl, hw⟩ := hlists
    have hes := hlist r rfl hw
    rcases hw with rfl | rfl
    · refine ⟨hes, fun x hx => listed_registry hes hx, fun f hf x hx y hy => ?_⟩
      rcases List.mem_append.mp hf with hf | hf
      · exact hs.rows f hf x hx y hy
      · rw [List.mem_singleton] at hf
        rw [hf] at hx
        exact listed_children hes hx hy
    · have hbase : Knows h (screen { s with entries := entriesOf r }) := ⟨hes, hs.registry, hs.rows⟩
      simp only [State.replied, State.relisted]
      split
      · next k _ _ =>
        have hmod := hbase.modify k (g := fun f => { f with rows := (buildRows th (entriesOf r)
          s.collapsed).rows }) fun f _ x hx y hy => listed_children hes hx hy
        exact ⟨hes, fun x hx => listed_registry hes hx, hmod.rows⟩
      · exact hbase

/-- A step keeps what is known, and adds what it is told. -/
lemma knows_step (hs : Knows h (screen s))
    (hlists : ∀ cw ∈ s.calls, cw.2 = .opening ∨ cw.2 = .refreshing → cw.1 = .list)
    (hstep : step s a = some t) : Knows (h ++ [(s, a)]) (screen t) := by
  have hsub : h ⊆ h ++ [(s, a)] := List.subset_append_left h _
  have hs := hs.mono hsub
  cases a with
  | openPanel =>
    cases hstep
    exact hs.openPanel
  | refresh =>
    cases hstep
    rw [screen_refresh]
    exact hs
  | add =>
    cases hstep
    exact hs
  | move j line =>
    obtain ⟨f, -, rfl⟩ := Option.map_eq_some_iff.mp hstep
    exact hs.modify j fun f hf => hs.rows f (List.mem_of_getElem? hf)
  | press j k =>
    obtain ⟨f, -, rfl⟩ := Option.map_eq_some_iff.mp hstep
    rw [screen_press]
    exact hs
  | footer j b =>
    obtain ⟨f, -, rfl⟩ := Option.map_eq_some_iff.mp hstep
    exact hs.footer j b
  | pick j =>
    obtain ⟨f, name, e, -, -, rfl⟩ := step_pick hstep
    exact hs
  | toggle j i =>
    obtain ⟨f, x, hf, hrow, rfl⟩ := step_toggle hstep
    have hflip : Knows (h ++ [(s, .toggle j i)]) (screen { s with
        surfaces := s.surfaces.modify j fun f =>
          { f with rows := f.rows.set i (.section x.flip) } }) := by
      refine hs.modify j fun g hg y hy r hr => ?_
      obtain rfl : f = g := Option.some.inj ((Option.filter_eq_some_iff.mp hf).1.symm.trans hg)
      rcases List.mem_or_eq_of_mem_set hy with hy | heq
      · exact hs.rows f (List.mem_of_getElem? hg) y hy r hr
      · cases heq
        exact hs.rows f (List.mem_of_getElem? hg) x (List.mem_of_getElem? hrow) r hr
    -- Toggled on the screen, the surface is drawn anew and registers its rows once more.
    unfold State.onToggle
    split
    · rw [screen_refresh]
      exact hflip
    · exact hflip
  | answer id ok text =>
    obtain ⟨p, -, -, rfl⟩ := step_answer hstep
    rw [screen_answered]
    exact hs
  | reply id result c th =>
    obtain ⟨call, w, -, hcw, rfl⟩ := step_reply hstep
    have hsame : Knows (h ++ [(s, .reply id result c th)])
        (screen { s with unanswered := s.unanswered.erase id }) := hs
    refine hsame.replied fun r hr hw e he => ?_
    subst hr
    -- Only a listing is answered with entries, and the answer is part of the history now.
    obtain rfl : call = .list := hlists _ (List.mem_of_getElem? hcw) hw
    exact ⟨_, List.mem_append_right h (List.mem_singleton_self _), w, r, ⟨id, c, th, rfl, hcw⟩, he⟩
  | copyPopup i c =>
    obtain ⟨p, -, rfl⟩ := Option.map_eq_some_iff.mp hstep
    exact hs
  | gone j =>
    obtain ⟨f, -, rfl⟩ := Option.map_eq_some_iff.mp hstep
    exact hs.close j
  | callback j =>
    obtain ⟨f, -, -, -, rfl⟩ := step_callback hstep
    have hmod := hs.modify j (g := fun f => { f with owed := false }) fun f hf =>
      hs.rows f (List.mem_of_getElem? hf)
    exact ⟨hmod.entries, hmod.registry, hmod.rows⟩

/-! ### Every run -/

structure Inv (h : Past) (s : State) : Prop where
  knows : Knows h (screen s)
  sent : ∀ cw ∈ s.calls, ∃ x ∈ h, Caused h x.1 x.2 cw.1 cw.2
  asked : ∀ p ∈ s.prompts, Asked h p
  told : ∀ p ∈ s.popups, Told h p.copyValue

lemma inv_new : Inv [] .new := by
  refine ⟨⟨?_, ?_, ?_⟩, ?_, ?_, ?_⟩ <;> exact fun x hx => absurd hx List.not_mem_nil

lemma Inv.lists (hs : Inv h s) {cw : Call × Waiting} (hcw : cw ∈ s.calls)
    (hw : cw.2 = .opening ∨ cw.2 = .refreshing) : cw.1 = .list := by
  obtain ⟨x, -, hc⟩ := hs.sent cw hcw
  rcases hw with hw | hw
  · rw [hw] at hc
    exact hc.1
  · rw [hw] at hc
    exact hc.1

lemma Inv.replies (hs : Inv h s) {call : Call} {w : Waiting} {r : Reply}
    (hr : Replies s a call w r) : ∃ x ∈ h, Caused h x.1 x.2 call w := by
  obtain ⟨id, -, -, -, hcw⟩ := hr
  exact hs.sent _ (List.mem_of_getElem? hcw)

lemma Inv.listed (hs : Inv h s) {e : Summary} (he : s.curEntry = some e) : Listed h e := by
  obtain ⟨f, -, hline⟩ := Option.bind_eq_some_iff.mp he
  obtain ⟨line, -, hlookup⟩ := Option.bind_eq_some_iff.mp hline
  exact hs.knows.registry _ (Rpc.mem_of_lookup hlookup)

lemma Chooses.cur {e : Summary} {k : Key} (hc : Chooses s e k a) : s.curEntry = some e := by
  cases hc with
  | press j k he => exact he
  | change j he => exact he
  | delete j he => exact he

lemma Inv.prompt (hs : Inv h s) {p : Prompt} {text : String} (hp : Answers s a p text) :
    Asked h p := by
  obtain ⟨id, -, -, hprompt⟩ := hp
  exact hs.asked p (List.mem_of_getElem? hprompt)

lemma Inv.asks (hs : Inv h s) {p : Prompt} (hp : Asks s a p) : Asked (h ++ [(s, a)]) p := by
  have hsub : h ⊆ h ++ [(s, a)] := List.subset_append_left h _
  have hlast : (s, a) ∈ h ++ [(s, a)] := List.mem_append_right h (List.mem_singleton_self _)
  have hchosen : ∀ e k, Chooses s e k a → Chosen (h ++ [(s, a)]) e k := fun e k hc =>
    ⟨(hs.listed hc.cur).mono hsub, (s, a), hlast, hc⟩
  cases hp with
  | addName ha => exact ⟨(s, a), hlast, ha⟩
  | addValue hans hne => exact ⟨(s, a), hlast, _, hans, rfl, hne⟩
  | totpName j ha => exact ⟨(s, a), hlast, j, ha⟩
  | totpSecret hans hne => exact ⟨(s, a), hlast, _, hans, rfl, hne⟩
  | changeValue hc => exact hchosen _ _ hc
  | editMeta hc => exact hchosen _ _ hc
  | rename hc => exact hchosen _ _ hc
  | delete hc => exact hchosen _ _ hc
  | generateInto j ha => exact ⟨(s, a), hlast, j, ha⟩

lemma Inv.caused (hs : Inv h s) {c : Call} {w : Waiting} (hc : Sends s a c w) :
    Caused h s a c w := by
  cases hc with
  | opening ha => exact ⟨rfl, ha⟩
  | refreshing ha => exact ⟨rfl, .inl ha⟩
  | toggled j i ha => exact ⟨rfl, .inr (.inl ⟨j, i, ha⟩)⟩
  | changed hr =>
    obtain ⟨x, hx, hordered⟩ := hs.replies hr
    exact ⟨rfl, .inr (.inr ⟨_, _, _, hr, x, hx, hordered⟩)⟩
  | revealed hk => exact ⟨rfl, hs.listed hk.cur, .inl hk⟩
  | copied hk => exact ⟨rfl, hs.listed hk.cur, hk⟩
  | @picked e j f name ha hf hline =>
    have hmem := List.mem_of_getElem? (Option.filter_eq_some_iff.mp hf).1
    obtain ⟨row, hrow, hl⟩ := List.mem_flatMap.mp (List.mem_of_getElem? hline)
    rcases row with label | x
    · rw [Row.lines, List.mem_singleton] at hl
      cases hl
    · rcases List.mem_cons.mp hl with heq | hl
      · cases heq
      · split at hl
        · obtain ⟨r, hr, heq⟩ := List.mem_map.mp hl
          cases heq
          exact ⟨rfl, hs.knows.rows f hmem x hrow r hr, .inr ⟨j, f, _, ha, hf, hline⟩⟩
        · exact absurd hl List.not_mem_nil
  | added hans note => exact .inl ⟨_, hans, hs.prompt hans, rfl, rfl⟩
  | addedTotp hans hne note => exact .inr (.inl ⟨_, hans, hs.prompt hans, hne, rfl, rfl⟩)
  | valued hans hne note =>
    exact .inr (.inr (.inl ⟨_, _, rfl, hans, hs.prompt hans, hne, rfl, rfl⟩))
  | edited hans note => exact .inr (.inr (.inr ⟨_, _, rfl, hans, hs.prompt hans, rfl, rfl⟩))
  | renamed hans hne hother note => exact ⟨_, _, rfl, hans, hs.prompt hans, rfl, hne, hother⟩
  | deleted hans note => exact ⟨_, _, rfl, hans, hs.prompt hans⟩
  | generated hans hne note => exact ⟨_, hans, rfl, hne⟩
  | locked j ha => exact ⟨rfl, j, ha⟩
  | rotated j ha => exact ⟨rfl, j, ha⟩

lemma Inv.tells (hs : Inv h s) {p : Popup} (hp : Pops s a p) :
    Told (h ++ [(s, a)]) p.copyValue := by
  have hsub : h ⊆ h ++ [(s, a)] := List.subset_append_left h _
  have hlast : (s, a) ∈ h ++ [(s, a)] := List.mem_append_right h (List.mem_singleton_self _)
  obtain ⟨hr, hvalue⟩ := hp
  obtain ⟨x, hx, rfl, hlisted, hreveals⟩ := hs.replies hr
  exact ⟨_, hlisted.mono hsub, ⟨x, hsub hx, hreveals⟩, (s, a), hlast, _, hr, hvalue⟩

theorem inv_step (hs : Inv h s) (hstep : step s a = some t) : Inv (h ++ [(s, a)]) t := by
  have hsub : h ⊆ h ++ [(s, a)] := List.subset_append_left h _
  have hlast : (s, a) ∈ h ++ [(s, a)] := List.mem_append_right h (List.mem_singleton_self _)
  obtain ⟨o, hlogs, ho⟩ := step_puts hstep
  have hcalls : t.calls = ((logs s).add o).calls := congrArg Logs.calls hlogs
  have hprompts : t.prompts = ((logs s).add o).prompts := congrArg Logs.prompts hlogs
  have hold : ∀ cw ∈ s.calls, ∃ x ∈ h ++ [(s, a)], Caused (h ++ [(s, a)]) x.1 x.2 cw.1 cw.2 := by
    intro cw hcw
    obtain ⟨x, hx, hc⟩ := hs.sent cw hcw
    exact ⟨x, hsub hx, hc.mono hsub⟩
  have hpopups : t.popups = ((logs s).add o).popups := congrArg Logs.popups hlogs
  refine ⟨knows_step hs.knows (fun cw hcw => hs.lists hcw) hstep, ?_, ?_, ?_⟩
  · rw [hcalls]
    cases o with
    | send c w =>
      intro cw hcw
      rcases List.mem_append.mp hcw with hcw | hcw
      · exact hold cw hcw
      · rw [List.mem_singleton.mp hcw]
        exact ⟨(s, a), hlast, (hs.caused ho).mono hsub⟩
    | silent | ask | popup | yank => exact hold
  · rw [hprompts]
    cases o with
    | ask p =>
      intro q hq
      rcases List.mem_append.mp hq with hq | hq
      · exact (hs.asked q hq).mono hsub
      · rw [List.mem_singleton.mp hq]
        exact hs.asks ho
    | silent | send | popup | yank => exact fun q hq => (hs.asked q hq).mono hsub
  · rw [hpopups]
    cases o with
    | popup p =>
      intro q hq
      rcases List.mem_append.mp hq with hq | hq
      · exact (hs.told q hq).mono hsub
      · rw [List.mem_singleton.mp hq]
        exact hs.tells ho
    | silent | send | ask | yank => exact fun q hq => (hs.told q hq).mono hsub

theorem inv_run {as : List Event} (hrun : run step .new as = some s) : Inv (past as) s := by
  have hall : Along step (fun _ _ => True) .new as := along_of_forall fun _ _ _ => trivial
  have hstep : ∀ (s : State) (h : Past) (a : Event) (t : State), Inv h s → True →
      step s a = some t → Inv (h ++ [(s, a)]) t := fun s h a t hs _ ht => inv_step hs ht
  exact @run_history_inv _ _ _ _ _ (fun h s a _ => h ++ [(s, a)]) (fun s h => Inv h s) hstep _ _ _ _
    inv_new hall hrun

/-- **Nothing of the panel's own accord.** A step sends one call at most. One that reads or changes
an entry names an entry that the agent has listed, and that was under the cursor when the user
pressed the key; a delete is confirmed, a rename goes to another name that was typed, a change of
the value or of the user leaves the other as it is. What goes to the register is what the agent
has answered for a listed entry that the user wanted copied, or shown. -/
theorem sends_caused {as : List Event} (hrun : run step .new as = some s)
    (hstep : step s a = some t) :
    (t.calls = s.calls ∨ ∃ c w, t.calls = s.calls ++ [(c, w)] ∧ Caused (past as) s a c w) ∧
      (t.yanked = s.yanked ∨
        ∃ value label, t.yanked = s.yanked ++ [(value, label)] ∧ Given (past as) s a value) := by
  have hs := inv_run hrun
  obtain ⟨o, hlogs, ho⟩ := step_puts hstep
  have hcalls : t.calls = ((logs s).add o).calls := congrArg Logs.calls hlogs
  have hyanked : t.yanked = ((logs s).add o).yanked := congrArg Logs.yanked hlogs
  rw [hcalls, hyanked]
  cases o with
  | silent | ask | popup => exact ⟨.inl rfl, .inl rfl⟩
  | send c w => exact ⟨.inr ⟨c, w, rfl, hs.caused ho⟩, .inl rfl⟩
  | yank value label =>
    refine ⟨.inl rfl, .inr ⟨value, label, rfl, ?_⟩⟩
    cases ho with
    | copied hr hvalue =>
      obtain ⟨x, hx, rfl, hlisted, hchooses⟩ := hs.replies hr
      exact .inl ⟨_, _, ⟨hlisted, x, hx, hchooses⟩, hr, hvalue⟩
    | popup ha hp hvalue =>
      rw [hvalue]
      exact .inr ⟨⟨_, _, ha⟩, hs.told _ (List.mem_of_getElem? hp)⟩

/-- A secret is added. -/
def adding : List Event :=
  [.openPanel, .reply 0 (.ok (.listing [plain "db/main"])) ⟨"+", 30⟩ drawn, .footer 0 .add,
    .answer 0 true " db/test "]

theorem sends_caused_adding : ∃ s t, run step .new adding = some s ∧
    step s (.answer 1 true "secret") = some t ∧
    (t.calls = s.calls ∨ ∃ c w, t.calls = s.calls ++ [(c, w)] ∧
      Caused (past adding) s (.answer 1 true "secret") c w) ∧
    (t.yanked = s.yanked ∨ ∃ value label, t.yanked = s.yanked ++ [(value, label)] ∧
      Given (past adding) s (.answer 1 true "secret") value) := by
  exact ⟨_, _, rfl, rfl, sends_caused rfl rfl⟩

end LvimKeyring.PanelCalls
