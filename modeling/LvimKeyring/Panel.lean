import Mathlib.Data.String.Basic
import LvimKeyring.Lib.Grouping
import LvimKeyring.Lib.Transition
import LvimKeyring.Rows

/-!
The wallet panel: a grouped list of the entries, with actions on the one under the cursor.

The panel keeps the last listing and a table from the names of its rows to entries. The surfaces,
prompts and popups are what it has put on the screen; which of them the user turns to, and when an
answer of the agent comes, is left to the events.
-/

namespace LvimKeyring.Panel

open Rows Grouping LuaPattern
open Server (Summary Reply)
open Params (MetaIn)

/-! ### Building the rows -/

def nameLe (a b : Summary) : Bool := decide (a.name ≤ b.name)

/-- By namespace, the namespaces and the entries of each sorted. -/
def grouped (entries : List Summary) : List (String × List Summary) :=
  groups (fun e => namespaceOf e.name) nameLe entries

structure Built where
  rows : List Row
  /-- The rows that are registered, the last one first. -/
  registry : List (String × Summary)
  /-- The entries shown, and all of them. -/
  counts : ℕ × ℕ

def upper (s : String) : String := String.ofList (s.toList.map Char.toUpper)

def buildSection (th : Theme) (collapsed : String → Bool) (g : String × List Summary) : Section :=
  let expanded := !collapsed g.1
  let children := if expanded then g.2.map fun e => entryRow th e (nameWidth th g.2) else []
  sectionRow th (sectionName g.1) (upper g.1) g.2.length expanded children (accent th g.1)
    (badgeGroup (groupSuffix th g.1))

def registered (s : Section) : List (String × Summary) := s.children.map fun r => (r.name, r.entry)

def buildRows (th : Theme) (entries : List Summary) (collapsed : String → Bool) : Built :=
  if entries = [] then
    ⟨[.empty ("No secrets yet — add one with " ++ th.addKey ++ ", or :LvimKeyring add.")], [], 0, 0⟩
  else
    let sections := (grouped entries).map (buildSection th collapsed)
    ⟨sections.map .section, (sections.flatMap registered).reverse,
      (sections.map fun s => s.children.length).sum, entries.length⟩

/-! ### The state -/

/-- A call of the API. -/
inductive Call
  | list
  | get (name : String)
  | totp (name : String)
  | set (name : String) (value : Option String) (info : Option MetaIn)
  | rename (src dst : String)
  | delete (name : String)
  | generate (storeAs : String)
  | lock
  | rotate
  deriving DecidableEq

/-- What is done with the answer. -/
inductive Waiting
  | opening
  | refreshing
  | revealing (e : Summary)
  | copying (e : Summary)
  /-- A change, and what is said of it. -/
  | storing (note : Option String)
  | locking
  | ignoring
  deriving DecidableEq

/-- An input, or the confirmation of a delete. -/
inductive Prompt
  | addName
  | addValue (name : String)
  | totpName
  | totpSecret (name : String)
  | changeValue (e : Summary)
  | editMeta (e : Summary)
  | rename (e : Summary)
  | delete (e : Summary)
  | generateInto
  deriving DecidableEq

def isTotp (e : Summary) : Bool := e.info.totp

/-- A popup, with what its `copy` yanks. -/
structure Popup where
  title : String
  text : String
  copyValue : String
  copyLabel : String
  deriving DecidableEq

inductive Level
  | info
  | warn
  deriving DecidableEq

/-- A surface of `ui.tabs`: its rows, the line of its cursor, whether it is on the screen, and
whether its callback is still to come. -/
structure Surface where
  rows : List Row
  cursor : ℕ
  valid : Bool
  owed : Bool

def Surface.line (f : Surface) : Option (String × Option Summary) :=
  (f.rows.flatMap Row.lines)[f.cursor]?

structure State where
  handle : Option ℕ
  /-- The surface whose tabs are mutated in place. -/
  tabs : Option ℕ
  entries : List Summary
  registry : List (String × Summary)
  collapsed : String → Bool
  counts : ℕ × ℕ
  surfaces : List Surface
  /-- What has been asked, and which of it is still to be answered. -/
  prompts : List Prompt
  pending : List ℕ
  /-- What has been called, and which calls are still to be answered. -/
  calls : List (Call × Waiting)
  unanswered : List ℕ
  popups : List Popup
  yanked : List (String × String)
  notices : List (Level × String)

def State.new : State :=
  ⟨none, none, [], [], fun _ => false, (0, 0), [], [], [], [], [], [], [], []⟩

/-- What `vim.trim` takes off. -/
def isSpace (c : Char) : Bool := (9 ≤ c.toNat && c.toNat ≤ 13) || c == ' '

def trim (s : String) : String :=
  String.ofList (((s.toList.dropWhile isSpace).reverse.dropWhile isSpace).reverse)

/-! ### What the panel does -/

def State.send (s : State) (c : Call) (w : Waiting) : State :=
  { s with calls := s.calls ++ [(c, w)], unanswered := s.calls.length :: s.unanswered }

def State.ask (s : State) (p : Prompt) : State :=
  { s with prompts := s.prompts ++ [p], pending := s.prompts.length :: s.pending }

def State.notify (s : State) (l : Level) (text : String) : State :=
  { s with notices := s.notices ++ [(l, "lvim-keyring: " ++ text)] }

/-- `state.handle and state.handle.valid()` -/
def State.live (s : State) : Bool :=
  (s.handle.bind fun k => s.surfaces[k]?).any (·.valid)

/-- The entry under the cursor. -/
def State.curEntry (s : State) : Option Summary :=
  (s.handle.bind fun k => s.surfaces[k]?).bind fun f =>
    f.line.bind fun line => s.registry.lookup line.1

def State.refresh (s : State) : State := if s.live then s.send .list .refreshing else s

def State.close (s : State) (k : ℕ) : State :=
  { s with surfaces := s.surfaces.modify k fun f => { f with valid := false } }

/-- `M.open` -/
def State.openPanel (s : State) : State :=
  let closed := if s.live then s.handle.elim s s.close else s
  { closed with handle := none }.send .list .opening

def State.reveal (s : State) (e : Summary) : State :=
  s.send (if isTotp e then .totp e.name else .get e.name) (.revealing e)

def State.copy (s : State) (e : Summary) : State :=
  s.send (if isTotp e then .totp e.name else .get e.name) (.copying e)

/-- The register, and the seconds after which it is cleared. -/
structure Clipboard where
  register : String
  clearSeconds : ℕ

def State.yank (s : State) (c : Clipboard) (value label : String) : State :=
  let later :=
    if 0 < c.clearSeconds then " (auto-clears in " ++ toString c.clearSeconds ++ "s)" else ""
  { s with yanked := s.yanked ++ [(value, label)] }.notify .info
    ("copied " ++ label ++ " to register " ++ c.register ++ later)

/-- A key on a row. -/
inductive Key
  | reveal
  | copy
  | totp
  | rename
  | delete
  | edit
  | change
  deriving DecidableEq

/-- An action of the footer. -/
inductive Footer
  | add
  | change
  | delete
  | generate
  | lock
  | rotate
  | help
  deriving DecidableEq

/-- With the entry under the cursor, if there is one. -/
def State.onEntry (s : State) (f : Summary → State) : State := s.curEntry.elim s f

/-- `wire_keys` -/
def State.press (s : State) : Key → State
  | .reveal => s.onEntry s.reveal
  | .copy => s.onEntry s.copy
  | .totp => s.ask .totpName
  | .rename => s.onEntry fun e => s.ask (.rename e)
  | .delete => s.onEntry fun e => s.ask (.delete e)
  | .edit => s.onEntry fun e => s.ask (.editMeta e)
  | .change => s.onEntry fun e => s.ask (.changeValue e)

/-- `on_current` -/
def State.onCurrent (s : State) (f : Summary → State) : State :=
  s.curEntry.elim (s.notify .warn "no entry under the cursor") f

/-- The footer of the surface `j`. -/
def State.runFooter (s : State) (j : ℕ) : Footer → State
  | .add => s.ask .addName
  | .change => s.onCurrent fun e => s.ask (.changeValue e)
  | .delete => s.onCurrent fun e => s.ask (.delete e)
  | .generate => s.ask .generateInto
  | .lock => (s.close j).send .lock .locking
  | .rotate => s.send .rotate .ignoring
  | .help => s

/-- `^kr_sec_(.+)$` -/
def sectionPattern : List (Item Char) :=
  lit "kr_sec_".toList ++ [.enter, .plus fun _ => true, .leave, .done]

/-- A header was toggled, and is now `expanded`. -/
def State.onToggle (s : State) (name : String) (expanded : Bool) : State :=
  match capture sectionPattern name with
  | some ns => { s with collapsed := Function.update s.collapsed ns (!expanded) }.refresh
  | none => s

/-- A prompt is answered. -/
def State.answered (s : State) (p : Prompt) (ok : Bool) (text : String) : State :=
  if !ok then s
  else
    match p with
    | .addName => if trim text = "" then s else s.ask (.addValue (trim text))
    | .addValue name => s.send (.set name (some text) none) (.storing (some ("stored " ++ name)))
    | .totpName => if trim text = "" then s else s.ask (.totpSecret (trim text))
    | .totpSecret name =>
      if trim text = "" then s
      else
        s.send (.set name (some (trim text)) (some ⟨none, none, none, none, some true⟩))
          (.storing (some ("stored TOTP " ++ name)))
    | .changeValue e =>
      if trim text = "" then s
      else
        s.send (.set e.name (some (trim text)) none) (.storing (some ("changed " ++ e.name)))
    | .editMeta e =>
      s.send (.set e.name none (some ⟨some text, none, none, none, none⟩)) (.storing none)
    | .rename e =>
      if trim text = "" ∨ trim text = e.name then s
      else s.send (.rename e.name (trim text)) (.storing none)
    | .delete e => s.send (.delete e.name) (.storing none)
    | .generateInto =>
      if trim text = "" then s
      else
        s.send (.generate (trim text)) (.storing (some ("generated + stored " ++ trim text)))

/-! ### Answers of the agent -/

/-- `res.entries or {}` -/
def entriesOf : Reply → List Summary
  | .listing list => list
  | _ => []

def valueOf : Reply → Option String
  | .secret value _ | .generated value => some value
  | _ => none

def State.rebuild (s : State) (th : Theme) (k : ℕ) : State :=
  let b := buildRows th s.entries s.collapsed
  { s with
    registry := b.registry
    counts := b.counts
    surfaces := s.surfaces.modify k fun f => { f with rows := b.rows } }

/-- A listing for the panel that is open. -/
def State.relisted (s : State) (th : Theme) (r : Reply) : State :=
  let s := { s with entries := entriesOf r }
  match s.live, s.tabs with
  | true, some k => s.rebuild th k
  | _, _ => s

/-- A listing for a panel that is to be opened. -/
def State.opened (s : State) (th : Theme) (r : Reply) : State :=
  let b := buildRows th (entriesOf r) s.collapsed
  { s with
    entries := entriesOf r
    registry := b.registry
    counts := b.counts
    surfaces := s.surfaces ++ [⟨b.rows, 0, true, true⟩]
    tabs := some s.surfaces.length
    handle := some s.surfaces.length }

def State.popup (s : State) (p : Popup) : State := { s with popups := s.popups ++ [p] }

def State.revealed (s : State) (e : Summary) (r : Reply) : State :=
  if isTotp e then
    match r with
    | .totp digits remaining _ =>
      s.popup ⟨e.name ++ "  (TOTP)", digits ++ "   ·   expires in " ++ toString remaining ++ "s",
        digits, e.name ++ " code"⟩
    | _ => s.notify .warn "no code"
  else s.popup ⟨e.name, (valueOf r).getD "", (valueOf r).getD "", e.name⟩

def State.copied (s : State) (c : Clipboard) (e : Summary) (r : Reply) : State :=
  if isTotp e then
    match r with
    | .totp digits _ _ => s.yank c digits (e.name ++ " code")
    | _ => s.notify .warn "no code"
  else
    match valueOf r with
    | some value => s.yank c value e.name
    | none => s.notify .warn "no value"

/-- The answer to a call. -/
def State.replied (s : State) (c : Clipboard) (th : Theme) : Waiting → Except String Reply → State
  | .locking, .ok _ => s.notify .info "locked"
  | .locking, .error _ => s
  | .ignoring, _ => s
  | _, .error err => s.notify .warn err
  | .opening, .ok r => s.opened th r
  | .refreshing, .ok r => s.relisted th r
  | .revealing e, .ok r => s.revealed e r
  | .copying e, .ok r => s.copied c e r
  | .storing note, .ok _ => (note.elim s fun text => s.notify .info text).refresh

/-! ### Steps -/

inductive Event
  /-- `M.open`, `M.refresh` and, by `:LvimKeyring add`, `M.add` are called. -/
  | openPanel
  | refresh
  | add
  /-- The cursor of a surface is moved, and a key, the footer or the row under it used. -/
  | move (j line : ℕ)
  | press (j : ℕ) (k : Key)
  | footer (j : ℕ) (a : Footer)
  | pick (j : ℕ)
  /-- The header that is the `i`th row of a surface. -/
  | toggle (j i : ℕ)
  | answer (id : ℕ) (ok : Bool) (text : String)
  | reply (id : ℕ) (result : Except String Reply) (c : Clipboard) (th : Theme)
  | copyPopup (i : ℕ) (c : Clipboard)
  /-- A surface leaves the screen, and its callback is run. -/
  | gone (j : ℕ)
  | callback (j : ℕ)

/-- A surface on the screen. -/
def State.shown (s : State) (j : ℕ) : Option Surface := s.surfaces[j]?.filter (·.valid)

def step (s : State) : Event → Option State
  | .openPanel => some s.openPanel
  | .refresh => some s.refresh
  | .add => some (s.ask .addName)
  | .move j line =>
    (s.shown j).map fun _ =>
      { s with surfaces := s.surfaces.modify j fun f => { f with cursor := line } }
  | .press j k => (s.shown j).map fun _ => s.press k
  | .footer j a => (s.shown j).map fun _ => s.runFooter j a
  | .pick j =>
    (s.shown j).bind fun f => f.line.bind fun line => line.2.map fun e => s.reveal e
  | .toggle j i =>
    (s.shown j).bind fun f =>
      match f.rows[i]? with
      | some (.section x) =>
        let flipped : State := { s with
          surfaces := s.surfaces.modify j fun f =>
            { f with rows := f.rows.set i (.section x.flip) } }
        some (flipped.onToggle x.name x.flip.expanded)
      | _ => none
  | .answer id ok text =>
    if id ∈ s.pending then
      s.prompts[id]?.map fun p => { s with pending := s.pending.erase id }.answered p ok text
    else none
  | .reply id result c th =>
    if id ∈ s.unanswered then
      s.calls[id]?.map fun cw =>
        { s with unanswered := s.unanswered.erase id }.replied c th cw.2 result
    else none
  | .copyPopup i c => s.popups[i]?.map fun p => s.yank c p.copyValue p.copyLabel
  | .gone j => (s.shown j).map fun _ => s.close j
  | .callback j =>
    match s.surfaces[j]? with
    | some f =>
      if f.owed && !f.valid then
        some { s with
          handle := none, tabs := none
          surfaces := s.surfaces.modify j fun f => { f with owed := false } }
      else none
    | none => none

section

variable {s t : State}

/-- A pick reveals the entry under the line it was made on. -/
theorem step_pick {j : ℕ} (h : step s (.pick j) = some t) :
    ∃ f name e, s.shown j = some f ∧ f.line = some (name, some e) ∧ t = s.reveal e := by
  obtain ⟨f, hf, h⟩ := Option.bind_eq_some_iff.mp h
  obtain ⟨⟨name, picked⟩, hline, h⟩ := Option.bind_eq_some_iff.mp h
  obtain ⟨e, rfl, rfl⟩ := Option.map_eq_some_iff.mp h
  exact ⟨f, name, e, hf, hline, rfl⟩

/-- A toggle flips a section of a shown panel, and then runs its handler. -/
theorem step_toggle {j i : ℕ} (h : step s (.toggle j i) = some t) :
    ∃ f x, s.shown j = some f ∧ f.rows[i]? = some (.section x) ∧
      t = State.onToggle { s with
        surfaces := s.surfaces.modify j fun f =>
          { f with rows := f.rows.set i (.section x.flip) } } x.name x.flip.expanded := by
  obtain ⟨f, hf, h⟩ := Option.bind_eq_some_iff.mp h
  cases hrow : f.rows[i]? with
  | none =>
    rw [hrow] at h
    cases h
  | some row =>
    rw [hrow] at h
    rcases row with label | x
    · cases h
    · cases h
      exact ⟨f, x, hf, hrow, rfl⟩

/-- An answer answers a prompt that is still pending. -/
theorem step_answer {id : ℕ} {ok : Bool} {text : String}
    (h : step s (.answer id ok text) = some t) :
    ∃ p, id ∈ s.pending ∧ s.prompts[id]? = some p ∧
      t = State.answered { s with pending := s.pending.erase id } p ok text := by
  simp only [step] at h
  split at h
  · next hid =>
    obtain ⟨p, hp, rfl⟩ := Option.map_eq_some_iff.mp h
    exact ⟨p, hid, hp, rfl⟩
  · cases h

theorem step_reply {id : ℕ} {result : Except String Reply} {c : Clipboard} {th : Theme}
    (h : step s (.reply id result c th) = some t) :
    ∃ call w, id ∈ s.unanswered ∧ s.calls[id]? = some (call, w) ∧
      t = State.replied { s with unanswered := s.unanswered.erase id } c th w result := by
  simp only [step] at h
  split at h
  · next hid =>
    obtain ⟨⟨call, w⟩, hcw, rfl⟩ := Option.map_eq_some_iff.mp h
    exact ⟨call, w, hid, hcw, rfl⟩
  · cases h

theorem step_callback {j : ℕ} (h : step s (.callback j) = some t) :
    ∃ f, s.surfaces[j]? = some f ∧ f.owed = true ∧ f.valid = false ∧
      t = { s with
        handle := none, tabs := none
        surfaces := s.surfaces.modify j fun f => { f with owed := false } } := by
  simp only [step] at h
  split at h
  · next f hf =>
    split at h
    · next howed =>
      simp only [Bool.and_eq_true, Bool.not_eq_true'] at howed
      cases h
      exact ⟨f, hf, howed.1, howed.2, rfl⟩
    · cases h
  · cases h

/-! ### What is left alone -/

/-- The part of the state that is about surfaces, and the entries on them. -/
structure Screen where
  handle : Option ℕ
  tabs : Option ℕ
  entries : List Summary
  registry : List (String × Summary)
  surfaces : List Surface

def screen (s : State) : Screen := ⟨s.handle, s.tabs, s.entries, s.registry, s.surfaces⟩

lemma screen_refresh (s : State) : screen s.refresh = screen s := by
  unfold State.refresh
  split <;> rfl

lemma screen_press (s : State) (k : Key) : screen (s.press k) = screen s := by
  unfold State.press State.onEntry
  cases s.curEntry <;> cases k <;> rfl

lemma screen_onCurrent (f : Summary → State) (hf : ∀ e, screen (f e) = screen s) :
    screen (s.onCurrent f) = screen s := by
  unfold State.onCurrent
  cases s.curEntry with
  | none => rfl
  | some e => exact hf e

lemma screen_footer (s : State) (j : ℕ) (b : Footer) :
    screen (s.runFooter j b) = screen s ∨ screen (s.runFooter j b) = screen (s.close j) := by
  cases b with
  | add | generate | rotate | help => exact .inl rfl
  | change => exact .inl (screen_onCurrent (fun e => s.ask (.changeValue e)) fun _ => rfl)
  | delete => exact .inl (screen_onCurrent (fun e => s.ask (.delete e)) fun _ => rfl)
  | lock => exact .inr rfl

lemma screen_answered (s : State) (p : Prompt) (ok : Bool) (text : String) :
    screen (s.answered p ok text) = screen s := by
  unfold State.answered
  split
  · rfl
  · cases p with
    | addValue | editMeta | delete => rfl
    | addName | totpName | totpSecret | changeValue | rename | generateInto =>
      simp only
      split <;> rfl

lemma screen_revealed (s : State) (e : Summary) (r : Reply) :
    screen (s.revealed e r) = screen s := by
  unfold State.revealed
  split
  · cases r <;> rfl
  · rfl

lemma screen_copied (s : State) (c : Clipboard) (e : Summary) (r : Reply) :
    screen (s.copied c e r) = screen s := by
  unfold State.copied
  split
  · cases r <;> rfl
  · split <;> rfl

lemma screen_replied (s : State) (c : Clipboard) (th : Theme) {w : Waiting}
    {result : Except String Reply} (h : ∀ r, result = .ok r → w ≠ .opening ∧ w ≠ .refreshing) :
    screen (s.replied c th w result) = screen s := by
  cases result with
  | error err => cases w <;> rfl
  | ok r =>
    cases w with
    | opening => exact absurd rfl (h r rfl).1
    | refreshing => exact absurd rfl (h r rfl).2
    | revealing e => exact screen_revealed s e r
    | copying e => exact screen_copied s c e r
    | storing note =>
      rw [State.replied, screen_refresh]
      cases note <;> rfl
    | locking | ignoring => rfl

end

end LvimKeyring.Panel
