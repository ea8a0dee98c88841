import Mathlib.Data.List.Count
import Mathlib.Logic.Function.Basic
import LvimKeyring.Lib.Transition

/-!
The prompts of one editor.

A flow begins with `prompt.unlock` and ends with the call of its callback. It is opened for a call
of the API, or for the agent's signal; only the signal asks whether one is open, and only for its
own. The answers to requests and to inputs may come in any order. Of `M.migrate` and `M.open` the
callback is the one they hand to `M.ensure_unlocked`.
-/

namespace LvimKeyring.OnePrompt

open Transition

/-! ### The editor -/

/-- Who a flow is open for. -/
inductive Owner
  | signal
  | caller (k : ℕ)
  deriving DecidableEq

/-- What a flow waits for. -/
inductive Stage
  | status
  /-- The new password, and the same once more. -/
  | asksNew
  | confirms (pw : String)
  | creating
  | asks
  | unlocking
  deriving DecidableEq

inductive Phase
  | fresh
  /-- `ensure_unlocked` has asked for the status. -/
  | checking
  | flow (stage : Stage)
  | returned
  deriving DecidableEq

/-- The result of `vault.status`. -/
structure Status where
  locked : Bool
  vaultExists : Bool

structure Ui where
  prompting : Bool
  unlocked : Bool
  phase : Owner → Phase
  /-- The callbacks that have been called: `cb(true)`, or `cb(false, err)`. -/
  log : List (ℕ × Except String Unit)
  /-- How often `vault.unlock_cancel` has been sent. -/
  cancels : ℕ

def Ui.new : Ui := ⟨false, false, fun _ => .fresh, [], 0⟩

/-- The answer to a `vault.status`. -/
abbrev Answer := Except String (Option Status)

namespace Ui

variable (s : Ui)

def enter (o : Owner) (p : Phase) : Ui := { s with phase := Function.update s.phase o p }

def callback (k : ℕ) (r : Except String Unit) : Ui :=
  { s.enter (.caller k) .returned with log := s.log ++ [(k, r)] }

/-- The callback of a flow. That of the signal releases the parked readers if there was no
unlock. -/
def close : Owner → Except String Unit → Ui
  | .signal, r =>
    { s.enter .signal .returned with
      prompting := false
      cancels := if r.isOk then s.cancels else s.cancels + 1 }
  | .caller k, r => s.callback k r

/-- `prompt.unlock` -/
def prompt (o : Owner) : Ui := s.enter o (.flow .status)

/-- `prompt.create` -/
def create (o : Owner) : Ui := s.enter o (.flow .asksNew)

/-- `prompt.unlock_existing` -/
def unlockExisting (o : Owner) : Ui := s.enter o (.flow .asks)

/-- `prompt.unlock`, when its status has come. -/
def decided (o : Owner) : Answer → Ui
  | .error e => s.close o (.error e)
  | .ok status => if status.any (!·.vaultExists) then s.create o else s.unlockExisting o

/-- What `M.status` makes of its answer. -/
def refresh : Answer → Ui
  | .ok (some status) => { s with unlocked := !status.locked }
  | _ => s

/-- `M.ensure_unlocked`, when its status has come. -/
def ensured (k : ℕ) : Answer → Ui
  | .error e => s.callback k (.error e)
  | .ok status => if status.any (!·.locked) then s.callback k (.ok ()) else s.prompt (.caller k)

/-- `M.migrate`, with so many candidates. -/
def migrate (k n : ℕ) : Ui :=
  if n = 0 then s.callback k (.ok ()) else s.enter (.caller k) .checking

/-- The handler of `vault.unlock_needed`. -/
def unlockNeeded : Ui :=
  if s.prompting || s.unlocked then s else { s with prompting := true }.prompt .signal

/-- An input is answered; nothing stands for its cancellation. -/
def entered (o : Owner) (value : Option String) : Option Ui :=
  match s.phase o with
  | .flow .asksNew =>
    match value with
    | none | some "" => some (s.close o (.error "cancelled"))
    | some pw => some (s.enter o (.flow (.confirms pw)))
  | .flow (.confirms pw) =>
    match value with
    | none => some (s.close o (.error "cancelled"))
    | some again => some (if again ≠ pw then s.create o else s.enter o (.flow .creating))
  | .flow .asks =>
    match value with
    | none | some "" => some (s.close o (.error "cancelled"))
    | some _ => some (s.enter o (.flow .unlocking))
  | _ => none

/-- A `vault.create` or a `vault.unlock` is answered. -/
def answered (o : Owner) (r : Except String Unit) : Option Ui :=
  match s.phase o with
  | .flow .creating => some (s.close o r)
  | .flow .unlocking =>
    match r with
    | .error _ => some (s.unlockExisting o)
    | .ok () => some (s.close o (.ok ()))
  | _ => none

end Ui

inductive Event
  /-- The calls of the API, by number. -/
  | unlock (k : ℕ)
  | ensureUnlocked (k : ℕ)
  | migrate (k n : ℕ)
  | openPanel (k : ℕ)
  | unlockNeeded
  | state (locked : Bool)
  /-- The answer to a `M.status`, to that of an `ensure_unlocked`, and to that of a flow. -/
  | status (r : Answer)
  | checked (k : ℕ) (r : Answer)
  | replied (o : Owner) (r : Answer)
  | entered (o : Owner) (value : Option String)
  | answered (o : Owner) (r : Except String Unit)

def step (s : Ui) : Event → Option Ui
  | .unlock k => if s.phase (.caller k) = .fresh then some (s.prompt (.caller k)) else none
  | .ensureUnlocked k | .openPanel k =>
    if s.phase (.caller k) = .fresh then some (s.enter (.caller k) .checking) else none
  | .migrate k n => if s.phase (.caller k) = .fresh then some (s.migrate k n) else none
  | .unlockNeeded => some s.unlockNeeded
  | .state locked => some { s with unlocked := !locked }
  | .status r => some (s.refresh r)
  | .checked k r =>
    if s.phase (.caller k) = .checking then some ((s.refresh r).ensured k r) else none
  | .replied o r => if s.phase o = .flow .status then some (s.decided o r) else none
  | .entered o value => s.entered o value
  | .answered o r => s.answered o r

/-! ### The statement -/

def Phase.isOpen : Phase → Bool
  | .flow _ => true
  | _ => false

/-- The caller waits to be called back. -/
def Phase.waits : Phase → Bool
  | .checking | .flow _ => true
  | _ => false

/-- How often the callback of a call has been called. -/
def Ui.calls (s : Ui) (k : ℕ) : ℕ := (s.log.map Prod.fst).count k

def AtMostOne (s : Ui) : Prop :=
  ∀ o o', (s.phase o).isOpen = true → (s.phase o').isOpen = true → o = o'

/-- The callback of a call is called when the call comes to its end, and never again. -/
structure CalledOnce (s s' : Ui) (k : ℕ) : Prop where
  waits : (s'.phase (.caller k)).waits = true → s'.calls k = 0
  ends : (s.phase (.caller k)).waits = true → (s'.phase (.caller k)).waits = false → s'.calls k = 1
  once : s'.calls k ≤ 1

/-- What is asked of one step. -/
def Proper (s : Ui) (e : Event) : Prop :=
  ∀ s', step s e = some s' → AtMostOne s' ∧ (∀ k, CalledOnce s s' k) ∧
    s'.prompting = (s'.phase .signal).isOpen

/-- The events that open a flow: a call of `M.unlock`, a status that does not say unlocked, and a
signal that is not dropped. -/
def opens (s : Ui) : Event → Bool
  | .unlock _ => true
  | .checked _ (.ok status) => !status.any (!·.locked)
  | .unlockNeeded => !(s.prompting || s.unlocked)
  | _ => false

/-- None of them comes while a flow is open. -/
def Alone (s : Ui) (e : Event) : Prop :=
  (step s e).isSome = true → opens s e = true → ∀ o, (s.phase o).isOpen = false

/-! ### What a step does -/

variable {s s' : Ui} {e : Event} {o : Owner} {k : ℕ}

/-- A step that opens no flow. -/
inductive Kept (s s' : Ui) : Prop
  | same (hphase : s'.phase = s.phase) (hlog : s'.log = s.log)
    (hflag : s'.prompting = s.prompting)
  | checks (k : ℕ) (hfresh : s.phase (.caller k) = .fresh)
    (hphase : s'.phase = Function.update s.phase (.caller k) .checking) (hlog : s'.log = s.log)
    (hflag : s'.prompting = s.prompting)
  | goes (o : Owner) (stage : Stage) (hopen : (s.phase o).isOpen = true)
    (hphase : s'.phase = Function.update s.phase o (.flow stage)) (hlog : s'.log = s.log)
    (hflag : s'.prompting = s.prompting)
  | returns (k : ℕ) (r : Except String Unit) (hold : s.phase (.caller k) ≠ .returned)
    (hphase : s'.phase = Function.update s.phase (.caller k) .returned)
    (hlog : s'.log = s.log ++ [(k, r)]) (hflag : s'.prompting = s.prompting)
  | closes (hphase : s'.phase = Function.update s.phase .signal .returned)
    (hlog : s'.log = s.log) (hflag : s'.prompting = false)

/-- A step that opens one. -/
inductive Opened (s s' : Ui) : Prop
  | caller (k : ℕ) (hold : s.phase (.caller k) = .fresh ∨ s.phase (.caller k) = .checking)
    (hphase : s'.phase = Function.update s.phase (.caller k) (.flow .status))
    (hlog : s'.log = s.log) (hflag : s'.prompting = s.prompting)
  | signal (hold : s.prompting = false)
    (hphase : s'.phase = Function.update s.phase .signal (.flow .status))
    (hlog : s'.log = s.log) (hflag : s'.prompting = true)

lemma refresh_spec (s : Ui) (r : Answer) :
    (s.refresh r).phase = s.phase ∧ (s.refresh r).log = s.log ∧
      (s.refresh r).prompting = s.prompting := by
  unfold Ui.refresh
  split <;> exact ⟨rfl, rfl, rfl⟩

lemma kept_close (h : (s.phase o).isOpen = true) (r : Except String Unit) :
    Kept s (s.close o r) := by
  cases o with
  | signal => exact .closes rfl rfl rfl
  | caller k =>
    refine .returns k r (fun hreturned => ?_) rfl rfl rfl
    rw [hreturned] at h
    cases h

lemma kept_decided (h : (s.phase o).isOpen = true) (r : Answer) : Kept s (s.decided o r) := by
  cases r with
  | error e => exact kept_close h _
  | ok status =>
    simp only [Ui.decided]
    split
    · exact .goes o .asksNew h rfl rfl rfl
    · exact .goes o .asks h rfl rfl rfl

lemma kept_entered {value : Option String} (hs : s.entered o value = some s') : Kept s s' := by
  simp only [Ui.entered] at hs
  split at hs
  · next hphase =>
    have hopen : (s.phase o).isOpen = true := by rw [hphase]; rfl
    split at hs <;> cases hs
    · exact kept_close hopen _
    · exact kept_close hopen _
    · exact .goes o _ hopen rfl rfl rfl
  · next pw hphase =>
    have hopen : (s.phase o).isOpen = true := by rw [hphase]; rfl
    split at hs <;> cases hs
    · exact kept_close hopen _
    · split
      · exact .goes o .asksNew hopen rfl rfl rfl
      · exact .goes o .creating hopen rfl rfl rfl
  · next hphase =>
    have hopen : (s.phase o).isOpen = true := by rw [hphase]; rfl
    split at hs <;> cases hs
    · exact kept_close hopen _
    · exact kept_close hopen _
    · exact .goes o .unlocking hopen rfl rfl rfl
  · cases hs

lemma kept_answered {r : Except String Unit} (hs : s.answered o r = some s') : Kept s s' := by
  simp only [Ui.answered] at hs
  split at hs
  · next hphase =>
    cases hs
    exact kept_close (by rw [hphase]; rfl) r
  · next hphase =>
    have hopen : (s.phase o).isOpen = true := by rw [hphase]; rfl
    split at hs <;> cases hs
    · exact .goes o .asks hopen rfl rfl rfl
    · exact kept_close hopen _
  · cases hs

lemma ensured_spec {u : Ui} (hold : s.phase (.caller k) = .checking) (r : Answer)
    (hu : u.phase = s.phase ∧ u.log = s.log ∧ u.prompting = s.prompting) :
    (opens s (.checked k r) = true ∧ Opened s (u.ensured k r)) ∨
      (opens s (.checked k r) = false ∧ Kept s (u.ensured k r)) := by
  obtain ⟨hphase, hlog, hflag⟩ := hu
  have hreturns (r' : Except String Unit) : Kept s (u.callback k r') := by
    refine .returns k r' (by rw [hold]; decide) ?_ ?_ hflag
    · simp only [Ui.callback, Ui.enter, hphase]
    · simp only [Ui.callback, hlog]
  cases r with
  | error e => exact .inr ⟨rfl, hreturns _⟩
  | ok status =>
    simp only [Ui.ensured, opens]
    cases status.any (!·.locked) with
    | true => exact .inr ⟨rfl, hreturns _⟩
    | false =>
      refine .inl ⟨rfl, .caller k (.inr hold) ?_ hlog hflag⟩
      show Function.update u.phase _ _ = _
      rw [hphase]

/-- A step opens a flow if its event does. -/
lemma step_spec (hs : step s e = some s') :
    (opens s e = true ∧ Opened s s') ∨ (opens s e = false ∧ Kept s s') := by
  cases e with
  -- `M.unlock` opens a prompt without a look at the flag.
  | unlock k =>
    simp only [step] at hs
    split at hs
    · next hfresh =>
      cases hs
      exact .inl ⟨rfl, .caller k (.inl hfresh) rfl rfl rfl⟩
    · cases hs
  | ensureUnlocked k | openPanel k =>
    simp only [step] at hs
    split at hs
    · next hfresh =>
      cases hs
      exact .inr ⟨rfl, .checks k hfresh rfl rfl rfl⟩
    · cases hs
  | migrate k n =>
    simp only [step] at hs
    split at hs
    · next hfresh =>
      cases hs
      refine .inr ⟨rfl, ?_⟩
      unfold Ui.migrate
      split
      · exact .returns k (.ok ()) (by rw [hfresh]; decide) rfl rfl rfl
      · exact .checks k hfresh rfl rfl rfl
    · cases hs
  | unlockNeeded =>
    cases hs
    unfold Ui.unlockNeeded
    split
    · next hdrop => exact .inr ⟨by rw [opens, hdrop]; rfl, .same rfl rfl rfl⟩
    · next hneeded =>
      have hfalse : (s.prompting || s.unlocked) = false := by simpa using hneeded
      have hdown := (Bool.or_eq_false_iff.mp hfalse).1
      exact .inl ⟨by rw [opens, hfalse]; rfl, .signal hdown rfl rfl rfl⟩
  | state locked =>
    cases hs
    exact .inr ⟨rfl, .same rfl rfl rfl⟩
  | status r =>
    cases hs
    obtain ⟨hphase, hlog, hflag⟩ := refresh_spec s r
    exact .inr ⟨rfl, .same hphase hlog hflag⟩
  | checked k r =>
    simp only [step] at hs
    split at hs
    · next hchecking =>
      cases hs
      exact ensured_spec hchecking r (refresh_spec s r)
    · cases hs
  | replied o r =>
    simp only [step] at hs
    split at hs
    · next hphase =>
      cases hs
      exact .inr ⟨rfl, kept_decided (by rw [hphase]; rfl) r⟩
    · cases hs
  | entered o value => exact .inr ⟨rfl, kept_entered hs⟩
  | answered o r => exact .inr ⟨rfl, kept_answered hs⟩

/-! ### What holds of every run -/

/-- The flag, and the callbacks. -/
structure Inv (s : Ui) : Prop where
  flag : s.prompting = (s.phase .signal).isOpen
  calls : ∀ k, s.calls k = if s.phase (.caller k) = .returned then 1 else 0

lemma inv_new : Inv .new := ⟨rfl, fun _ => rfl⟩

lemma calls_of_log (hlog : s'.log = s.log) (k : ℕ) : s'.calls k = s.calls k := by
  rw [Ui.calls, Ui.calls, hlog]

lemma calls_update (h : Inv s) {p : Phase} (hphase : s'.phase = Function.update s.phase o p)
    (hlog : s'.log = s.log) (hp : p ≠ .returned) (hold : s.phase o ≠ .returned) (k : ℕ) :
    s'.calls k = if s'.phase (.caller k) = .returned then 1 else 0 := by
  rw [calls_of_log hlog, h.calls, hphase]
  by_cases ho : .caller k = o
  · subst ho
    rw [Function.update_self, if_neg hp, if_neg hold]
  · rw [Function.update_of_ne ho]

lemma flag_caller (h : Inv s) {p : Phase}
    (hphase : s'.phase = Function.update s.phase (.caller k) p)
    (hflag : s'.prompting = s.prompting) : s'.prompting = (s'.phase .signal).isOpen := by
  have hne : Owner.signal ≠ .caller k := by simp
  rw [hflag, h.flag, hphase, Function.update_of_ne hne]

lemma inv_kept (h : Inv s) (hs : Kept s s') : Inv s' := by
  cases hs with
  | same hphase hlog hflag =>
    refine ⟨by rw [hflag, h.flag, hphase], fun k => ?_⟩
    rw [calls_of_log hlog, h.calls, hphase]
  | checks k hfresh hphase hlog hflag =>
    exact ⟨flag_caller h hphase hflag,
      calls_update h hphase hlog (by decide) (by rw [hfresh]; decide)⟩
  | goes o stage hopen hphase hlog hflag =>
    have hold : s.phase o ≠ .returned := by
      intro hreturned
      rw [hreturned] at hopen
      cases hopen
    refine ⟨?_, calls_update h hphase hlog (by simp) hold⟩
    cases o with
    | signal => rw [hflag, h.flag, hphase, Function.update_self, hopen]; rfl
    | caller k => exact flag_caller h hphase hflag
  | returns k r hold hphase hlog hflag =>
    refine ⟨flag_caller h hphase hflag, fun j => ?_⟩
    have hcount : s'.calls j = s.calls j + if j = k then 1 else 0 := by
      rw [Ui.calls, hlog, List.map_append, List.count_append, List.map_singleton,
        List.count_singleton]
      simp only [Ui.calls, beq_iff_eq, @eq_comm _ j k]
    rw [hcount, h.calls, hphase]
    by_cases hj : j = k
    · subst hj
      rw [if_neg hold, if_pos rfl, Function.update_self, if_pos rfl]
    · have hne : Owner.caller j ≠ .caller k := by simpa using hj
      rw [if_neg hj, Function.update_of_ne hne, Nat.add_zero]
  | closes hphase hlog hflag =>
    refine ⟨by rw [hflag, hphase, Function.update_self]; rfl, fun k => ?_⟩
    have hne : Owner.caller k ≠ .signal := by simp
    rw [calls_of_log hlog, h.calls, hphase, Function.update_of_ne hne]

lemma inv_opened (h : Inv s) (hs : Opened s s') : Inv s' := by
  cases hs with
  | caller k hold hphase hlog hflag =>
    refine ⟨flag_caller h hphase hflag, calls_update h hphase hlog (by simp) ?_⟩
    rcases hold with hold | hold <;> rw [hold] <;> decide
  | signal hold hphase hlog hflag =>
    refine ⟨by rw [hflag, hphase, Function.update_self]; rfl, fun k => ?_⟩
    have hne : Owner.caller k ≠ .signal := by simp
    rw [calls_of_log hlog, h.calls, hphase, Function.update_of_ne hne]

lemma inv_step (h : Inv s) (hs : step s e = some s') : Inv s' := by
  rcases step_spec hs with ⟨-, hopened⟩ | ⟨-, hkept⟩
  · exact inv_opened h hopened
  · exact inv_kept h hkept

lemma returned_step (hs : step s e = some s') (hk : (s.phase (.caller k)).waits = true)
    (hk' : (s'.phase (.caller k)).waits = false) : s'.phase (.caller k) = .returned := by
  have hupdate {o : Owner} {p : Phase} (hphase : s'.phase = Function.update s.phase o p) :
      s'.phase (.caller k) = p := by
    by_cases ho : .caller k = o
    · rw [hphase, ← ho, Function.update_self]
    · rw [hphase, Function.update_of_ne ho, hk] at hk'
      cases hk'
  have hwaits {p : Phase} (hp : p.waits = true) (hnew : s'.phase (.caller k) = p) : False := by
    rw [hnew, hp] at hk'
    cases hk'
  rcases step_spec hs with ⟨-, hopened⟩ | ⟨-, hkept⟩
  · cases hopened with
    | caller j hold hphase => exact (hwaits rfl (hupdate hphase)).elim
    | signal hold hphase => exact (hwaits rfl (hupdate hphase)).elim
  · cases hkept with
    | same hphase =>
      rw [hphase, hk] at hk'
      cases hk'
    | checks j hfresh hphase => exact (hwaits rfl (hupdate hphase)).elim
    | goes o stage hopen hphase => exact (hwaits rfl (hupdate hphase)).elim
    | returns j r hold hphase => exact hupdate hphase
    | closes hphase => exact hupdate hphase

lemma calledOnce_step (h : Inv s) (hs : step s e = some s') (k : ℕ) : CalledOnce s s' k := by
  have hcalls := (inv_step h hs).calls k
  refine ⟨fun hwaits => ?_, fun hwaits hdone => ?_, ?_⟩
  · rw [hcalls, if_neg]
    intro hreturned
    rw [hreturned] at hwaits
    cases hwaits
  · rw [hcalls, if_pos (returned_step hs hwaits hdone)]
  · rw [hcalls]
    split <;> decide

/-! ### One flow at a time -/

lemma open_update {o' : Owner} {p : Phase} (hphase : s'.phase = Function.update s.phase o' p)
    (ho : (s'.phase o).isOpen = true) : (o = o' ∧ p.isOpen = true) ∨ (s.phase o).isOpen = true := by
  by_cases heq : o = o'
  · rw [hphase, heq, Function.update_self] at ho
    exact .inl ⟨heq, ho⟩
  · rw [hphase, Function.update_of_ne heq] at ho
    exact .inr ho

lemma open_of_kept (hs : Kept s s') (ho : (s'.phase o).isOpen = true) :
    (s.phase o).isOpen = true := by
  cases hs with
  | same hphase => rwa [hphase] at ho
  | checks k hfresh hphase | returns k r hold hphase | closes hphase =>
    rcases open_update hphase ho with ⟨-, hp⟩ | hopen
    · cases hp
    · exact hopen
  | goes o' stage hopen hphase =>
    rcases open_update hphase ho with ⟨rfl, -⟩ | hopen
    · exact hopen
    · exact hopen

lemma exists_opened (h : Inv s) (hs : Opened s s') : ∃ o stage, (s.phase o).isOpen = false ∧
    s'.phase = Function.update s.phase o (.flow stage) := by
  cases hs with
  | caller k hold hphase =>
    refine ⟨.caller k, .status, ?_, hphase⟩
    rcases hold with hold | hold <;> rw [hold] <;> rfl
  | signal hold hphase => exact ⟨.signal, .status, by rw [← h.flag, hold], hphase⟩

lemma atMostOne_opened (h : Inv s) (hs : Opened s s') :
    AtMostOne s' ↔ ∀ o, (s.phase o).isOpen = false := by
  obtain ⟨o, stage, hclosed, hphase⟩ := exists_opened h hs
  constructor
  · intro hone o'
    by_contra hopen
    have hne : o' ≠ o := by
      rintro rfl
      exact hopen hclosed
    have hnew : (s'.phase o).isOpen = true := by rw [hphase, Function.update_self]; rfl
    have hold : (s'.phase o').isOpen = true := by
      rw [hphase, Function.update_of_ne hne]
      simpa using hopen
    exact hne (hone o' o hold hnew)
  · intro hnone o' o'' ho' ho''
    have honly {u : Owner} (hu : (s'.phase u).isOpen = true) : u = o := by
      rcases open_update hphase hu with ⟨heq, -⟩ | hopen
      · exact heq
      · rw [hnone u] at hopen
        cases hopen
    rw [honly ho', honly ho'']

lemma proper_iff (h : Inv s) (hone : AtMostOne s) : Proper s e ↔ Alone s e := by
  constructor
  · intro hproper hcan hopens
    obtain ⟨s', hs⟩ := Option.isSome_iff_exists.mp hcan
    rcases step_spec hs with ⟨-, hopened⟩ | ⟨hnot, -⟩
    · exact (atMostOne_opened h hopened).mp (hproper s' hs).1
    · rw [hnot] at hopens
      cases hopens
  · intro halone s' hs
    refine ⟨?_, calledOnce_step h hs, (inv_step h hs).flag⟩
    rcases step_spec hs with ⟨hopens, hopened⟩ | ⟨-, hkept⟩
    · exact (atMostOne_opened h hopened).mpr (halone (by rw [hs]; rfl) hopens)
    · exact fun o o' ho ho' => hone o o' (open_of_kept hkept ho) (open_of_kept hkept ho')

/-- **One prompt at a time** is what comes of every run in which nothing opens a flow while one is
open, and of no other. -/
theorem proper_iff_alone (es : List Event) :
    Along step Proper .new es ↔ Along step Alone .new es := by
  let Known : Ui → Prop := fun s => Inv s ∧ AtMostOne s
  have hstart : Known .new := ⟨inv_new, fun o o' ho => by cases ho⟩
  have hstep : ∀ s e s', Known s → Proper s e → step s e = some s' → Known s' :=
    fun s e s' hs hproper hs' => ⟨inv_step hs.1 hs', (hproper s' hs').1⟩
  constructor
  · intro h
    exact h.of_inv Known hstep (fun s e hs => (proper_iff hs.1 hs.2).mp) hstart
  · intro h
    refine h.of_inv Known (fun s e s' hs halone => hstep s e s' hs ?_)
      (fun s e hs => (proper_iff hs.1 hs.2).mpr) hstart
    exact (proper_iff hs.1 hs.2).mpr halone

/-- The flag and the callbacks are right on every run. -/
theorem called_once (es : List Event) : Along step (fun s e => ∀ s', step s e = some s' →
    (∀ k, CalledOnce s s' k) ∧ s'.prompting = (s'.phase .signal).isOpen) .new es := by
  have htrivial : Along step (fun _ _ => True) .new es := along_of_forall fun _ _ _ => trivial
  refine htrivial.of_inv Inv (fun s e s' h _ hs => inv_step h hs) (fun s e h _ s' hs => ?_) inv_new
  exact ⟨calledOnce_step h hs, (inv_step h hs).flag⟩

/-- Two callers of `ensure_unlocked` find the wallet locked. -/
def both : List Event :=
  [.ensureUnlocked 1, .ensureUnlocked 2, .checked 1 (.ok (some ⟨true, true⟩))]

theorem not_proper : ¬ Along step Proper .new (both ++ [.checked 2 (.ok (some ⟨true, true⟩))]) := by
  intro h
  have hproper := h.at_end rfl
  have hone := (hproper _ rfl).1 (.caller 1) (.caller 2) rfl rfl
  cases hone

end LvimKeyring.OnePrompt
