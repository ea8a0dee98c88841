import LvimKeyring.Lib.ListUpdate
import LvimKeyring.PanelRows

/-!
The panel on the screen is the one the panel's state is about.

When no panel is opened before the last one has left, with its callback run, a key acts on the
entry of the row it is pressed on.
-/

namespace LvimKeyring.PanelAlive

open Rows Panel PanelRows Transition ListUpdate
open Server (Summary Reply)

/-! ### The condition -/

/-- No surface is on the screen, and none still owes its callback. -/
def Bare (s : State) : Prop := ∀ f ∈ s.surfaces, f.valid = false ∧ f.owed = false

instance (s : State) : Decidable (Bare s) := inferInstanceAs (Decidable (∀ _ ∈ _, _))

/-- A listing has its names once, and opens a panel only where none is left. -/
def Orderly (s : State) : Event → Prop
  | .reply id (.ok r) _ _ =>
    Distinct (entriesOf r) ∧
      ((s.calls[id]?).any (fun cw => decide (cw.2 = .opening)) = true → Bare s)
  | _ => True

/-! ### What is on the screen -/

/-- A row whatever it is toggled to. -/
def settle : Row → Row
  | .empty label => .empty label
  | .section x => .section { x with expanded := false }

/-- The rows of a listing, but for headers that have been toggled since. -/
def Shows (es : List Summary) (rows : List Row) : Prop :=
  ∃ th collapsed, rows.map settle = (buildRows th es collapsed).rows.map settle

/-- A surface on the screen is the panel's: its handle, its tabs, its entries, its registry. No
other one owes a callback, which would make the panel forget it. -/
structure Owned (v : Screen) (j : ℕ) (f : Surface) : Prop where
  handle : v.handle = some j
  tabs : v.tabs = some j
  shows : Shows v.entries f.rows
  resolves : Resolves v.registry f.rows
  settled : ∀ i g, v.surfaces[i]? = some g → i ≠ j → g.owed = false

def Alive (v : Screen) : Prop := ∀ j f, v.surfaces[j]? = some f → f.valid = true → Owned v j f

variable {s t : State}

lemma shown_eq {j : ℕ} {f : Surface} :
    s.shown j = some f ↔ s.surfaces[j]? = some f ∧ f.valid = true := by
  unfold State.shown
  rw [Option.filter_eq_some_iff]

lemma settle_flip {rows : List Row} {i : ℕ} {x : Section} (hi : rows[i]? = some (.section x)) :
    (rows.set i (.section x.flip)).map settle = rows.map settle := by
  rw [List.map_set]
  apply List.ext_getElem?
  intro n
  rw [List.getElem?_set]
  split
  · next hin =>
    subst hin
    rw [List.getElem?_map, hi, List.length_map, if_pos (List.getElem?_eq_some_iff.mp hi).1]
    rfl
  · rfl

lemma Alive.modify {v : Screen} (h : Alive v) (k : ℕ) {g : Surface → Surface}
    (hvalid : ∀ f, (g f).valid = true → f.valid = true)
    (howed : ∀ f, (g f).owed = true → f.owed = true)
    (hrows : ∀ f, v.surfaces[k]? = some f → (g f).rows.map settle = f.rows.map settle ∧
      (Resolves v.registry f.rows → Resolves v.registry (g f).rows)) :
    Alive { v with surfaces := v.surfaces.modify k g } := by
  intro j f hf hon
  obtain ⟨f₀, hf₀, rfl⟩ := modify_eq.mp hf
  have hon₀ : f₀.valid = true := by
    split at hon
    · exact hvalid f₀ hon
    · exact hon
  have hown := h j f₀ hf₀ hon₀
  refine ⟨hown.handle, hown.tabs, ?_, ?_, fun i f' hf' hne => ?_⟩
  · split
    · next hk =>
      unfold Shows
      rw [(hrows f₀ (hk ▸ hf₀)).1]
      exact hown.shows
    · exact hown.shows
  · split
    · next hk => exact (hrows f₀ (hk ▸ hf₀)).2 hown.resolves
    · exact hown.resolves
  · obtain ⟨g₀, hg₀, rfl⟩ := modify_eq.mp hf'
    have hfalse := hown.settled i g₀ hg₀ hne
    split
    · by_contra htrue
      rw [howed g₀ (by simpa using htrue)] at hfalse
      cases hfalse
    · exact hfalse

lemma Alive.close (h : Alive (screen s)) (k : ℕ) : Alive (screen (s.close k)) :=
  h.modify k (fun _ hf => by cases hf) (fun _ hf => hf) fun _ _ => ⟨rfl, id⟩

lemma alive_of_none {v : Screen} (h : ∀ f ∈ v.surfaces, f.valid = false) : Alive v := by
  intro j f hf hon
  rw [h f (List.mem_of_getElem? hf)] at hon
  cases hon

lemma live_eq : s.live = true ↔ ∃ j f, s.handle = some j ∧ s.surfaces[j]? = some f ∧
    f.valid = true := by
  unfold State.live
  cases hh : s.handle with
  | none => simp
  | some j =>
    cases hf : s.surfaces[j]? with
    | none => simp [hf]
    | some f => simp [hf]

lemma Alive.footer (h : Alive (screen s)) (j : ℕ) (b : Footer) :
    Alive (screen (s.runFooter j b)) := by
  rcases screen_footer s j b with heq | heq
  · rw [heq]
    exact h
  · rw [heq]
    exact h.close j

lemma Alive.none_of_not_live (h : Alive (screen s)) (hlive : ¬ s.live = true) :
    ∀ f ∈ s.surfaces, f.valid = false := by
  intro f hf
  by_contra hon
  have hon : f.valid = true := by simpa using hon
  obtain ⟨j, hj⟩ := List.getElem?_of_mem hf
  exact hlive (live_eq.mpr ⟨j, f, (h j f hj hon).handle, hj, hon⟩)

lemma Alive.openPanel (h : Alive (screen s)) : Alive (screen s.openPanel) := by
  unfold State.openPanel
  by_cases hlive : s.live = true
  · obtain ⟨k, g, hk, hg, -⟩ := live_eq.mp hlive
    rw [if_pos hlive, hk]
    refine alive_of_none fun f hf => ?_
    change f ∈ s.surfaces.modify k _ at hf
    by_contra hon
    have hon : f.valid = true := by simpa using hon
    obtain ⟨j, hj⟩ := List.getElem?_of_mem hf
    obtain ⟨f₀, hf₀, rfl⟩ := modify_eq.mp hj
    split at hon
    · cases hon
    · next hkj => exact hkj (Option.some.inj (hk.symm.trans (h j f₀ hf₀ hon).handle))
  · rw [if_neg hlive]
    exact alive_of_none (h.none_of_not_live hlive)

lemma alive_opened (hbare : Bare s) (th : Theme) {r : Reply} (hdistinct : Distinct (entriesOf r)) :
    Alive (screen (s.opened th r)) := by
  intro j f hf hon
  change (s.surfaces ++ [_])[j]? = some f at hf
  rcases Nat.lt_or_ge j s.surfaces.length with hlt | hge
  · rw [List.getElem?_append_left hlt] at hf
    rw [(hbare f (List.mem_of_getElem? hf)).1] at hon
    cases hon
  · have hj : j = s.surfaces.length := by
      have hlen := (List.getElem?_eq_some_iff.mp hf).1
      simp only [List.length_append, List.length_singleton] at hlen
      omega
    subst hj
    rw [List.getElem?_concat_length] at hf
    cases hf
    refine ⟨rfl, rfl, ⟨th, s.collapsed, rfl⟩, resolves_buildRows th hdistinct s.collapsed,
      fun i g hg hne => ?_⟩
    change (s.surfaces ++ [_])[i]? = some g at hg
    have hlt : i < s.surfaces.length := by
      have hlen := (List.getElem?_eq_some_iff.mp hg).1
      simp only [List.length_append, List.length_singleton] at hlen
      omega
    rw [List.getElem?_append_left hlt] at hg
    exact (hbare g (List.mem_of_getElem? hg)).2

/-- A listing for the panel that is open. -/
lemma Alive.relisted (h : Alive (screen s)) (th : Theme) {r : Reply}
    (hdistinct : Distinct (entriesOf r)) : Alive (screen (s.relisted th r)) := by
  unfold State.relisted
  simp only
  split
  · next k hlive htabs =>
    obtain ⟨j, f, hj, hf, hon⟩ := live_eq.mp hlive
    change s.handle = some j at hj
    change s.surfaces[j]? = some f at hf
    change s.tabs = some k at htabs
    have hown := h j f hf hon
    obtain rfl : k = j := Option.some.inj (htabs.symm.trans hown.tabs)
    have hresolves := resolves_buildRows th hdistinct s.collapsed
    -- The registry is replaced together with the rows of the one surface there is.
    intro i g hg hgon
    change (s.surfaces.modify k _)[i]? = some g at hg
    obtain ⟨g₀, hg₀, rfl⟩ := modify_eq.mp hg
    have hg₀on : g₀.valid = true := by
      split at hgon
      · exact hgon
      · exact hgon
    have hik : k = i := Option.some.inj (hj.symm.trans (h i g₀ hg₀ hg₀on).handle)
    subst hik
    refine ⟨hj, htabs, ?_, ?_, fun i g hg hne => ?_⟩
    · rw [if_pos rfl]
      exact ⟨th, s.collapsed, rfl⟩
    · rw [if_pos rfl]
      exact hresolves
    · change (s.surfaces.modify k _)[i]? = some g at hg
      obtain ⟨g₁, hg₁, rfl⟩ := modify_eq.mp hg
      rw [if_neg (Ne.symm hne)]
      exact hown.settled i g₁ hg₁ hne
  · next hno =>
    refine alive_of_none fun f hf => ?_
    change f ∈ s.surfaces at hf
    by_contra hon
    have hon : f.valid = true := by simpa using hon
    obtain ⟨j, hj⟩ := List.getElem?_of_mem hf
    have hown := h j f hj hon
    exact hno j (live_eq.mpr ⟨j, f, hown.handle, hj, hon⟩) hown.tabs

lemma Alive.replied (h : Alive (screen s)) {c : Clipboard} {th : Theme} {w : Waiting}
    {result : Except String Reply} (hdistinct : ∀ r, result = .ok r → Distinct (entriesOf r))
    (hbare : ∀ r, result = .ok r → w = .opening → Bare s) :
    Alive (screen (s.replied c th w result)) := by
  by_cases hlists : ∀ r, result = .ok r → w ≠ .opening ∧ w ≠ .refreshing
  · rw [screen_replied s c th hlists]
    exact h
  · simp only [not_forall, not_and_or, not_not] at hlists
    obtain ⟨r, rfl, rfl | rfl⟩ := hlists
    · exact alive_opened (hbare r rfl rfl) th (hdistinct r rfl)
    · exact h.relisted th (hdistinct r rfl)

lemma Alive.toggle (h : Alive (screen s)) {j i : ℕ} {f : Surface} (hf : s.surfaces[j]? = some f)
    {x : Section} (hi : f.rows[i]? = some (.section x)) (name : String) (expanded : Bool) :
    Alive (screen (State.onToggle { s with
      surfaces := s.surfaces.modify j fun f => { f with rows := f.rows.set i (.section x.flip) } }
        name expanded)) := by
  have hflip : Alive (screen { s with
      surfaces :=
        s.surfaces.modify j fun f => { f with rows := f.rows.set i (.section x.flip) } }) := by
    refine h.modify j (fun _ hg => hg) (fun _ hg => hg) fun g hg => ?_
    obtain rfl : f = g := Option.some.inj (hf.symm.trans hg)
    exact ⟨settle_flip hi, fun hr => hr.flip hi⟩
  unfold State.onToggle
  split
  · rw [screen_refresh]
    exact hflip
  · exact hflip

theorem alive_step {a : Event} (h : Alive (screen s)) (hG : Orderly s a)
    (hstep : step s a = some t) :
    Alive (screen t) := by
  cases a with
  | openPanel =>
    cases hstep
    exact h.openPanel
  | refresh =>
    cases hstep
    rw [screen_refresh]
    exact h
  | add =>
    cases hstep
    exact h
  | move j line =>
    obtain ⟨f, -, rfl⟩ := Option.map_eq_some_iff.mp hstep
    exact h.modify j (fun _ hf => hf) (fun _ hf => hf) fun _ _ => ⟨rfl, id⟩
  | press j k =>
    obtain ⟨f, -, rfl⟩ := Option.map_eq_some_iff.mp hstep
    rw [screen_press]
    exact h
  | footer j b =>
    obtain ⟨f, -, rfl⟩ := Option.map_eq_some_iff.mp hstep
    exact h.footer j b
  | pick j =>
    obtain ⟨f, name, e, -, -, rfl⟩ := step_pick hstep
    exact h
  | toggle j i =>
    obtain ⟨f, x, hf, hrow, rfl⟩ := step_toggle hstep
    exact h.toggle (shown_eq.mp hf).1 hrow _ _
  | answer id ok text =>
    obtain ⟨p, -, -, rfl⟩ := step_answer hstep
    rw [screen_answered]
    exact h
  | reply id result c th =>
    obtain ⟨call, w, -, hcw, rfl⟩ := step_reply hstep
    have hs : Alive (screen { s with unanswered := s.unanswered.erase id }) := h
    -- `Orderly` has the two things a listing must bring: distinct names, and the panel that asked.
    refine hs.replied ?_ ?_
    · rintro r rfl
      exact hG.1
    · rintro r rfl hw
      exact hG.2 (by simp [hcw, hw])
  | copyPopup i c =>
    obtain ⟨p, -, rfl⟩ := Option.map_eq_some_iff.mp hstep
    exact h
  | gone j =>
    obtain ⟨f, -, rfl⟩ := Option.map_eq_some_iff.mp hstep
    exact h.close j
  | callback j =>
    obtain ⟨f, hf, howed, hoff, rfl⟩ := step_callback hstep
    -- No surface is left on the screen: one that is on it would owe no callback elsewhere.
    refine alive_of_none fun g hg => ?_
    by_contra hon
    have hon : g.valid = true := by simpa using hon
    obtain ⟨i, hi⟩ := List.getElem?_of_mem hg
    change (s.surfaces.modify j _)[i]? = some g at hi
    obtain ⟨g₀, hg₀, rfl⟩ := modify_eq.mp hi
    have hon₀ : g₀.valid = true := by
      split at hon
      · exact hon
      · exact hon
    by_cases hji : j = i
    · subst hji
      obtain rfl : f = g₀ := Option.some.inj (hf.symm.trans hg₀)
      rw [hoff] at hon₀
      cases hon₀
    · have hfalse := (h i g₀ hg₀ hon₀).settled j f hf hji
      rw [howed] at hfalse
      cases hfalse

lemma orderly_summaries (b : Vault.Body) {id : ℕ} {c : Clipboard} {th : Theme}
    (h : (s.calls[id]?).any (fun cw => decide (cw.2 = .opening)) = true → Bare s) :
    Orderly s (.reply id (.ok (.listing (Server.summaries b))) c th) := ⟨distinct_summaries b, h⟩

/-- A vault with two entries in two sections. -/
def stored : Vault.Body :=
  ⟨(Vault.Body.default.entries.insert "db/main" (Server.newEntry "x" 7)).insert "token"
    (Server.newEntry "y" 7)⟩

def listed : Except String Reply := .ok (.listing (Server.summaries stored))

/-- A panel is opened, read once more and moved in. -/
def browsed : List Event :=
  [.openPanel, .reply 0 listed ⟨"+", 30⟩ drawn, .refresh, .reply 1 listed ⟨"+", 30⟩ drawn,
    .move 0 1]

end LvimKeyring.PanelAlive
