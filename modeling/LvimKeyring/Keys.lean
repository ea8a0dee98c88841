import Mathlib.Data.List.Nodup
import LvimKeyring.EventLoop

/-!
The ids of the client's requests.

Every id is given out once, whichever connection its request goes to, and what is sent under an
id is what the callback that waits under it was given with.
-/

namespace LvimKeyring.EventLoop

open Rpc Crypto Transition

/-- The waiters a loop has still to tell. -/
def Frame.told : Frame → List Waiter
  | .waiters ws _ => ws
  | _ => []

namespace Client

/-- The waiters, those being told included. -/
def asked (c : Client) : List Waiter := c.waiters ++ c.stack.flatMap Frame.told

/-- The request is the one the callback was given with. -/
def Gives (c : Client) (k : ℕ) (method : String) (params : Json) : Prop :=
  ∃ ps, c.given[k]? = some (method, ps) ∧ params = ps.getD (.obj [])

/-- Ids are given out once, and what is sent under one is what was asked for. -/
structure Keyed (c : Client) : Prop where
  bounded : ∀ x ∈ c.issued, x.1 ≤ c.idSeq
  once : c.issued.Pairwise fun x y => x.1 ≠ y.1
  sent : ∀ p, ∀ s ∈ c.sent p, ∃ h, (s.id, h) ∈ c.issued ∧
    ∀ k, h = .request k → c.Gives k s.method s.params
  pending : ∀ x ∈ c.pending, x ∈ c.issued
  asked : ∀ k method params, .request k method params ∈ c.asked →
    c.given[k]? = some (method, params)

variable {N : Neovim} {env : Surroundings} {c c' : Client} {rest : List Frame}

lemma Keyed.mono (h : c.Keyed) (hissued : c'.issued = c.issued) (hseq : c'.idSeq = c.idSeq)
    (hsent : c'.sent = c.sent) (hgiven : c'.given = c.given)
    (hpending : ∀ x ∈ c'.pending, x ∈ c.pending) (hasked : ∀ w ∈ c'.asked, w ∈ c.asked) :
    c'.Keyed where
  bounded := by
    rw [hissued, hseq]
    exact h.bounded
  once := by
    rw [hissued]
    exact h.once
  sent := by
    intro p s hs
    rw [hsent] at hs
    obtain ⟨hd, hmem, hgives⟩ := h.sent p s hs
    refine ⟨hd, by rw [hissued]; exact hmem, fun k hk => ?_⟩
    rw [Gives, hgiven]
    exact hgives k hk
  pending := by
    intro x hx
    rw [hissued]
    exact h.pending x (hpending x hx)
  asked := by
    intro k method params hw
    rw [hgiven]
    exact h.asked k method params (hasked _ hw)

lemma Keyed.same_entry (h : c.Keyed) {id : ℕ} {hd hd' : Handler} (hx : (id, hd) ∈ c.issued)
    (hy : (id, hd') ∈ c.issued) : hd = hd' := by
  have hnodup : (c.issued.map Prod.fst).Nodup := List.pairwise_map.mpr h.once
  exact congrArg Prod.snd (List.inj_on_of_nodup_map hnodup hx hy rfl)

lemma keyed_issue {hd : Handler} {method : String} {params : Json} (h : c.Keyed)
    (hgives : ∀ k, hd = .request k → c.Gives k method params) :
    (c.issue hd method params).Keyed where
  bounded := by
    intro x hx
    rcases List.mem_append.mp hx with hx | hx
    · exact (h.bounded x hx).trans (Nat.le_succ _)
    · rw [List.mem_singleton.mp hx]
      exact le_rfl
  once := by
    refine List.pairwise_append.mpr ⟨h.once, List.pairwise_singleton _ _, fun x hx y hy => ?_⟩
    rw [List.mem_singleton.mp hy]
    have hle := h.bounded x hx
    omega
  sent := by
    intro p s hs
    have hcases : s ∈ c.sent p ∨ s = ⟨c.idSeq + 1, method, params⟩ := by
      simp only [issue, send] at hs
      cases hp : c.pipe with
      | none => exact .inl (by simpa [hp] using hs)
      | some q =>
        by_cases hpq : p = q
        · subst hpq
          simpa [hp] using hs
        · exact .inl (by simpa [hp, hpq] using hs)
    rcases hcases with hold | rfl
    · obtain ⟨hd', hmem, hg⟩ := h.sent p s hold
      exact ⟨hd', List.mem_append_left _ hmem, hg⟩
    · exact ⟨hd, List.mem_append_right _ (List.mem_singleton_self _), hgives⟩
  pending := by
    intro x hx
    rcases List.mem_append.mp hx with hx | hx
    · exact List.mem_append_left _ (h.pending x hx)
    · exact List.mem_append_right _ hx
  asked := h.asked

lemma keyed_tell {guarded : Bool} {w : Waiter} {r : Except Json Unit} (h : c.Keyed)
    (hw : ∀ k method params, w = .request k method params → c.given[k]? = some (method, params)) :
    (c.tell guarded w r).Keyed := by
  have hcall : ∀ call, (({ c with calls := c.calls ++ [call] } : Client).push
      (.user guarded)).Keyed := fun call =>
    h.mono rfl rfl rfl rfl (fun _ hx => hx) fun _ hx => hx
  cases w with
  | ensure k => exact hcall _
  | request k method params =>
    cases r with
    | error e => exact hcall _
    | ok u =>
      refine keyed_issue h fun j hj => ?_
      cases hj
      exact ⟨params, hw k method params rfl, rfl⟩

lemma keyed_teardown (h : c.Keyed) (err : Json) : (c.teardown err).Keyed :=
  h.mono rfl rfl rfl rfl (fun _ hx => by cases hx) fun _ hx => hx

lemma keyed_taken (h : c.Keyed) (r : Except Json Unit) (ready : Bool) :
    (({ c with waiters := [], connecting := false, ready } : Client).push
      (.waiters c.waiters r)).Keyed :=
  h.mono rfl rfl rfl rfl (fun _ hx => hx) fun _ hx => hx

lemma keyed_greeted (h : c.Keyed) (r : Answer) : (c.greeted N r).Keyed := by
  unfold greeted
  cases greeting N r with
  | error e => exact keyed_teardown (keyed_taken h (.error e) c.ready) e
  | ok u =>
    have htaken := keyed_taken h (.ok ()) true
    simp only
    split
    · exact htaken.mono rfl rfl rfl rfl (fun _ hx => hx) fun _ hx => hx
    · exact htaken

lemma keyed_settle {guarded : Bool} {hd : Handler} {r : Answer} (h : c.Keyed) :
    (c.settle N guarded hd r).Keyed := by
  cases hd with
  | handshake => exact keyed_greeted h r
  | request k => exact h.mono rfl rfl rfl rfl (fun _ hx => hx) fun _ hx => hx

lemma keyed_onRead (h : c.Keyed) (hs : c.stack = .reading :: rest) : (c.onRead N rest).Keyed := by
  unfold onRead
  split
  · refine h.mono rfl rfl rfl rfl (fun _ hx => hx) fun w hw => ?_
    rw [asked, hs]
    exact hw
  · have htail : ∀ tail, ({ c with readTail := tail } : Client).Keyed := fun _ =>
      h.mono rfl rfl rfl rfl (fun _ hx => hx) fun _ hx => hx
    simp only
    split
    · exact htail _
    · unfold onMessage
      split
      · split
        · exact htail _
        · split
          · exact htail _
          · exact keyed_settle ((htail _).mono rfl rfl rfl rfl
              (fun _ hx => List.mem_of_mem_eraseP hx) fun _ hx => hx)
      · split
        · split
          · exact (htail _).mono rfl rfl rfl rfl (fun _ hx => hx) fun _ hx => hx
          · exact htail _
        · exact htail _

lemma keyed_onConnected (h : c.Keyed) : c.onConnected.Keyed := by
  unfold onConnected
  split
  · exact h
  · rename_i p hp
    have hread : ({ c with pipes := Function.update c.pipes p .reading } : Client).Keyed :=
      h.mono rfl rfl rfl rfl (fun _ hx => hx) fun _ hx => hx
    exact keyed_issue hread fun k hk => by cases hk

lemma keyed_tryConnect {u : Purpose} {made : Bool} (h : c.Keyed) : (c.tryConnect u made).Keyed := by
  unfold tryConnect
  split <;> exact h.mono rfl rfl rfl rfl (fun _ hx => hx) fun _ hx => hx

lemma keyed_ensure {w : Waiter} (h : c.Keyed)
    (hw : ∀ k method params, w = .request k method params → c.given[k]? = some (method, params)) :
    (c.ensure w).Keyed := by
  unfold ensure
  split
  · exact keyed_tell h hw
  · have hjoin : ({ c with waiters := c.waiters ++ [w] } : Client).Keyed := by
      refine ⟨h.bounded, h.once, h.sent, h.pending, fun k method params hmem => ?_⟩
      simp only [Client.asked, List.append_assoc, List.mem_append, List.mem_singleton] at hmem
      rcases hmem with hmem | hmem | hmem
      · exact h.asked k method params (List.mem_append_left _ hmem)
      · exact hw k method params hmem.symm
      · exact h.asked k method params (List.mem_append_right _ hmem)
    simp only
    split
    · exact hjoin
    · exact hjoin.mono rfl rfl rfl rfl (fun _ hx => hx) fun _ hx => hx

lemma keyed_perform {t : Task} (h : c.Keyed) : (c.perform env t).Keyed := by
  cases t with
  | failed u surplus =>
    cases u with
    | first a =>
      simp only [perform]
      split
      · exact h.mono rfl rfl rfl rfl (fun _ hx => hx) fun _ hx => hx
      · exact keyed_teardown h _
    | retry a =>
      have hclose : (c.closeTimer a).Keyed :=
        h.mono rfl rfl rfl rfl (fun _ hx => hx) fun _ hx => hx
      simp only [perform]
      split
      · exact keyed_teardown hclose _
      · exact h
  | connected p u =>
    cases u with
    | first a => exact keyed_onConnected h
    | retry a => exact (keyed_onConnected h).mono rfl rfl rfl rfl (fun _ hx => hx) fun _ hx => hx
  | chunk p bytes => exact h.mono rfl rfl rfl rfl (fun _ hx => hx) fun _ hx => hx
  | ended p | readError p err => exact keyed_teardown h _
  | retry a =>
    simp only [perform]
    split
    · exact h
    · exact keyed_tryConnect h

lemma keyed_restack {f : Frame} (fs : List Frame) (h : c.Keyed) (hs : c.stack = f :: rest)
    (hf : ∀ w ∈ fs.flatMap Frame.told, w ∈ f.told) :
    ({ c with stack := fs ++ rest } : Client).Keyed := by
  refine h.mono rfl rfl rfl rfl (fun _ hx => hx) fun w hw => ?_
  simp only [asked, List.flatMap_append, List.mem_append, hs, List.flatMap_cons] at hw ⊢
  rcases hw with hw | hw | hw
  · exact .inl hw
  · exact .inr (.inl (hf w hw))
  · exact .inr (.inr hw)

lemma keyed_resume (h : c.Keyed) (hstep : c.resume N env = some c') : c'.Keyed := by
  cases resumed hstep with
  | told r rest hs => exact keyed_restack [] h hs fun _ hw => by cases hw
  | tell w ws r rest hs =>
    have hpop : ({ c with stack := .waiters ws r :: rest } : Client).Keyed :=
      keyed_restack [.waiters ws r] h hs fun v hv =>
        List.mem_cons_of_mem w (by simpa [Frame.told] using hv)
    refine keyed_tell hpop fun k method params hw => h.asked k method params ?_
    rw [Client.asked, hs, ← hw]
    exact List.mem_append_right _ (List.mem_append_left _ List.mem_cons_self)
  | dead err rest hs =>
    refine h.mono rfl rfl rfl rfl (fun _ hx => hx) fun w hw => ?_
    rw [Client.asked, hs]
    exact hw
  | reading rest hs => exact keyed_onRead h hs
  | refused a rest e hs | untimed a rest hs =>
    exact keyed_teardown (keyed_restack [] h hs fun _ hw => by cases hw) _
  | vetted a rest hs => exact keyed_restack [.dial a] h hs fun _ hw => by cases hw
  | dial a rest hs => exact keyed_tryConnect (keyed_restack [] h hs fun _ hw => by cases hw)
  | mkdir a rest hs => exact keyed_restack [.spawn a] h hs fun _ hw => by cases hw
  | spawn a rest hs =>
    have hpop : ({ c with stack := rest } : Client).Keyed :=
      keyed_restack [] h hs fun _ hw => by cases hw
    exact hpop.mono rfl rfl rfl rfl (fun _ hx => hx) fun _ hx => hx

lemma keyed_pick {id : ℕ} (h : c.Keyed) (hstep : c.pick N id = some c') : c'.Keyed := by
  obtain ⟨callbacks, err, rest, hd, hs, -, rfl⟩ := pick_cases hstep
  exact keyed_settle (keyed_restack [.dead _ err] h hs fun _ hw => by cases hw)

end Client

open Client

variable {N : Neovim} {c c' : Client}

lemma keyed_request {method : String} {params : Option Json} (h : c.Keyed) :
    (c.request method params).Keyed := by
  have hgiven : ({ c with given := c.given ++ [(method, params)] } : Client).Keyed := by
    have hold : ∀ (k : ℕ) x, c.given[k]? = some x →
        (c.given ++ [(method, params)])[k]? = some x := by
      intro k x hx
      have hlt : k < c.given.length := (List.getElem?_eq_some_iff.mp hx).1
      rw [List.getElem?_append_left hlt, hx]
    refine ⟨h.bounded, h.once, fun p s hs => ?_, h.pending, fun k m ps hw =>
      hold k _ (h.asked k m ps hw)⟩
    obtain ⟨hd, hmem, hgives⟩ := h.sent p s hs
    refine ⟨hd, hmem, fun k hk => ?_⟩
    obtain ⟨ps, hps, heq⟩ := hgives k hk
    exact ⟨ps, hold k _ hps, heq⟩
  refine keyed_ensure hgiven fun k m ps hw => ?_
  cases hw
  simp

lemma keyed_doAct {a : Act} (h : c.Keyed) (hstep : doAct c a = some c') : c'.Keyed := by
  cases a with
  | ensure =>
    cases hstep
    have hcount : ({ c with ensures := c.ensures + 1 } : Client).Keyed :=
      h.mono rfl rfl rfl rfl (fun _ hx => hx) fun _ hx => hx
    exact keyed_ensure hcount fun k m ps hw => by cases hw
  | request method params =>
    cases hstep
    exact keyed_request h
  | on method =>
    cases hstep
    exact h.mono rfl rfl rfl rfl (fun _ hx => hx) fun _ hx => hx
  | stop =>
    cases hstep
    exact keyed_teardown h _
  | ret =>
    obtain ⟨guarded, rest, hs, rfl⟩ := ret_cases hstep
    exact keyed_restack [] h hs fun _ hw => by cases hw
  | raise =>
    obtain ⟨fs, hfs, rfl⟩ := Option.map_eq_some_iff.mp hstep
    obtain hs | ⟨guarded, hs⟩ := Client.raise_cases hfs
    · refine h.mono rfl rfl rfl rfl (fun _ hx => hx) fun w hw => ?_
      rw [Client.asked, hs]
      exact hw
    · exact keyed_restack [] h hs fun _ hw => by cases hw

lemma keyed_loop {e : Event} (h : c.Keyed) (hstep : loop c e = some c') : c'.Keyed := by
  cases looped hstep with
  | scheduled env t queue hq =>
    have htail : ({ c with queue } : Client).Keyed :=
      h.mono rfl rfl rfl rfl (fun _ hx => hx) fun _ hx => hx
    exact keyed_perform htail
  | failed | connected | arrive | finish | fail | tick =>
    exact h.mono rfl rfl rfl rfl (fun _ hx => hx) fun _ hx => hx

lemma keyed_step {e : Event} (h : c.Keyed) (hstep : step N c e = some c') : c'.Keyed := by
  rcases step_cases hstep with ⟨a, -, -, hact⟩ | ⟨env, -, hres⟩ | ⟨id, -, hpick⟩ | ⟨-, hloop⟩
  · exact keyed_doAct h hact
  · exact keyed_resume h hres
  · exact keyed_pick h hpick
  · exact keyed_loop h hloop

lemma keyed_new : Client.new.Keyed where
  bounded x hx := by cases hx
  once := .nil
  sent p s hs := by cases hs
  pending x hx := by cases hx
  asked k method params hw := by cases hw

end LvimKeyring.EventLoop
