import Mathlib.Data.List.Perm.Basic
import LvimKeyring.Serving

/-!
The requests an agent has read, and their responses.

A request is written down when it is read, with the thread that serves it, and its reply when
that thread sends it. What is on the channels is compared with what has been written down.
-/

namespace LvimKeyring.Answering

open Rpc Vault Server Daemon Editors Transition

/-- A request that has been read, and the reply once it is out. -/
structure Served where
  thread : ℕ
  client : ℕ
  id : ℕ
  method : String
  params : Json
  reply : Option (Except Err Reply)

/-- The thread sends its reply. -/
def Served.hear (t : ℕ) (r : Except Err Reply) (s : Served) : Served :=
  if s.thread = t ∧ s.reply.isNone then { s with reply := some r } else s

variable {Key : Type}

/-- What is written down of a step. -/
def record (l : List Served) (d : Daemon.State Key) : Action → List Served
  | .request t c id method params => l ++ [⟨t, c, id, method, params, none⟩]
  | .run t _ _ =>
    match d.pc t with
    | .respond r => l.map (Served.hear t r)
    | _ => l
  | _ => l

/-- The id and the reply of a response line. -/
def response : Line → Option (ℕ × Except Err Reply)
  | .response id r => some (id, r)
  | .note _ => none

/-- The response a request has had, if it is one of the client. -/
def Served.response (c : ℕ) (s : Served) : Option (ℕ × Except Err Reply) :=
  if s.client = c then s.reply.map fun r => (s.id, r) else none

/-- The requests read and the responses sent agree. -/
structure Logged (d : Daemon.State Key) (l : List Served) : Prop where
  waits : ∀ s ∈ l, s.reply = none →
    serves (d.pc s.thread) = true ∧ d.origin s.thread = (s.client, s.id)
  busy : ∀ t, serves (d.pc t) = true → ∃ s ∈ l, s.thread = t ∧ s.reply = none
  alone : l.Pairwise fun s s' => s.thread = s'.thread → s.reply ≠ none
  said : ∀ c, ((d.shared.channel c).filterMap response).Perm (l.filterMap (Served.response c))

variable {L : Packages Key} {cfg : Config} {env : Env} {expired : Bool} {t : ℕ}
variable {d d' : Daemon.State Key} {l : List Served}

/-! ### A reply -/

lemma hear_of_ne {s : Served} {r : Except Err Reply} (h : s.thread ≠ t ∨ s.reply ≠ none) :
    s.hear t r = s := by
  unfold Served.hear
  rw [if_neg]
  rintro ⟨hthread, hnone⟩
  rcases h with h | h
  · exact h hthread
  · exact h (Option.isNone_iff_eq_none.mp hnone)

lemma hear_open {s : Served} {r : Except Err Reply} (ht : s.thread = t) (hs : s.reply = none) :
    s.hear t r = { s with reply := some r } := by
  unfold Served.hear
  rw [if_pos ⟨ht, by rw [hs]; rfl⟩]

lemma map_hear {s : Served} {l₁ l₂ : List Served} {r : Except Err Reply}
    (h : (l₁ ++ s :: l₂).Pairwise fun s s' => s.thread = s'.thread → s.reply ≠ none)
    (ht : s.thread = t) (hs : s.reply = none) :
    (l₁ ++ s :: l₂).map (Served.hear t r) = l₁ ++ { s with reply := some r } :: l₂ := by
  obtain ⟨-, hcons, hcross⟩ := List.pairwise_append.mp h
  have hafter := (List.pairwise_cons.mp hcons).1
  have h₁ : l₁.map (Served.hear t r) = l₁ := by
    refine (List.map_congr_left fun s' hs' => hear_of_ne ?_).trans (List.map_id l₁)
    by_cases hthread : s'.thread = t
    · exact .inr (hcross s' hs' s List.mem_cons_self (hthread.trans ht.symm))
    · exact .inl hthread
  have h₂ : l₂.map (Served.hear t r) = l₂ := by
    refine (List.map_congr_left fun s' hs' => hear_of_ne (.inl fun hthread => ?_)).trans
      (List.map_id l₂)
    exact hafter s' hs' (ht.trans hthread.symm) hs
  rw [List.map_append, List.map_cons, h₁, h₂, hear_open ht hs]

/-! ### A turn -/

lemma spoken_silent {sh : Shared Key} {p : Pc Key} {origin : ℕ × ℕ} (hp : ∀ r, p ≠ .respond r)
    (c : ℕ) : (spoken sh p origin c).filterMap response = [] := by
  cases p with
  | announceUnlocked k | announceLocked timer | signal op =>
    simp only [spoken]
    split <;> rfl
  | respond r => exact absurd rfl (hp r)
  | _ => rfl

lemma serves_turn (hstep : Daemon.step L cfg d (.run t env expired) = some d')
    (hp : ∀ r, d.pc t ≠ .respond r) (u : ℕ) : serves (d'.pc u) = serves (d.pc u) := by
  obtain ⟨p, hexec, hpc, hothers⟩ := step_run hstep
  by_cases hu : u = t
  · subst hu
    have hserving := exec_serving hexec
    rw [hpc, Bool.eq_iff_iff]
    refine ⟨hserving.born, fun hs => ?_⟩
    rcases hserving.stays hs with hs' | ⟨r, hr⟩
    · exact hs'
    · exact absurd hr (hp r)
  · rw [hothers u hu]
    split
    · exact serves_rouse _
    · rfl

lemma logged_silent (h : Logged d l) (hstep : Daemon.step L cfg d (.run t env expired) = some d')
    (hp : ∀ r, d.pc t ≠ .respond r) : Logged d' l := by
  have hserves := serves_turn hstep hp
  have horigin := origin_run hstep
  obtain ⟨p, hexec, -, -⟩ := step_run hstep
  refine ⟨fun s hs hnone => ?_, fun u hu => h.busy u ((hserves u).symm.trans hu), h.alone,
    fun c => ?_⟩
  · rw [hserves, horigin]
    exact h.waits s hs hnone
  · rw [exec_spoken hexec c, List.filterMap_append, spoken_silent hp, List.append_nil]
    exact h.said c

/-- A thread replies to the request it serves. -/
lemma logged_respond {r : Except Err Reply} (h : Logged d l)
    (hstep : Daemon.step L cfg d (.run t env expired) = some d') (hp : d.pc t = .respond r) :
    Logged d' (l.map (Served.hear t r)) := by
  obtain ⟨p, hexec, hpc, hothers⟩ := step_run hstep
  have horigin := origin_run hstep
  have hidle : p = .idle := by
    rw [hp] at hexec
    simp only [Pc.exec, Option.some.injEq, Prod.mk.injEq] at hexec
    exact hexec.2.symm
  have hsay : ∀ c, d'.shared.channel c = d.shared.channel c ++
      if c = (d.origin t).1 then [.response (d.origin t).2 r] else [] := by
    intro c
    rw [exec_spoken hexec c, hp]
    rfl
  have hpcs : ∀ u, u ≠ t → d'.pc u = d.pc u := by
    intro u hu
    rw [hothers u hu, hp]
    rfl
  obtain ⟨s, hs, hthread, hnone⟩ := h.busy t (by rw [hp]; rfl)
  have hown := (h.waits s hs hnone).2
  rw [hthread] at hown
  obtain ⟨l₁, l₂, rfl⟩ := List.append_of_mem hs
  rw [map_hear h.alone hthread hnone]
  -- Every other request of the record is where it was.
  have hother : ∀ s' ∈ l₁ ++ { s with reply := some r } :: l₂, s'.reply = none →
      s' ∈ l₁ ++ s :: l₂ ∧ s'.thread ≠ t := by
    intro s' hs' hs'none
    obtain ⟨-, hcons, hcross⟩ := List.pairwise_append.mp h.alone
    rcases List.mem_append.mp hs' with hs' | hs'
    · refine ⟨List.mem_append_left _ hs', fun heq => ?_⟩
      exact hcross s' hs' s List.mem_cons_self (heq.trans hthread.symm) hs'none
    · rcases List.mem_cons.mp hs' with rfl | hs'
      · cases hs'none
      · refine ⟨List.mem_append_right _ (List.mem_cons_of_mem _ hs'), fun heq => ?_⟩
        exact (List.pairwise_cons.mp hcons).1 s' hs' (hthread.trans heq.symm) hnone
  refine ⟨fun s' hs' hs'none => ?_, fun u hu => ?_, ?_, fun c => ?_⟩
  · obtain ⟨hmem, hne⟩ := hother s' hs' hs'none
    rw [hpcs _ hne, horigin]
    exact h.waits s' hmem hs'none
  · have hut : u ≠ t := by
      rintro rfl
      rw [hpc, hidle] at hu
      cases hu
    rw [hpcs u hut] at hu
    obtain ⟨s', hs', hs't, hs'none⟩ := h.busy u hu
    refine ⟨s', ?_, hs't, hs'none⟩
    rcases List.mem_append.mp hs' with hs' | hs'
    · exact List.mem_append_left _ hs'
    · rcases List.mem_cons.mp hs' with rfl | hs'
      · exact absurd (hs't.symm.trans hthread) hut
      · exact List.mem_append_right _ (List.mem_cons_of_mem _ hs')
  · obtain ⟨h₁, hcons, hcross⟩ := List.pairwise_append.mp h.alone
    refine List.pairwise_append.mpr ⟨h₁, List.pairwise_cons.mpr
      ⟨fun s' _ _ hnone' => (Option.some_ne_none r hnone').elim,
        (List.pairwise_cons.mp hcons).2⟩, ?_⟩
    intro s' hs' s'' hs'' heq
    rcases List.mem_cons.mp hs'' with rfl | hs''
    · exact hcross s' hs' s List.mem_cons_self heq
    · exact hcross s' hs' s'' (List.mem_cons_of_mem _ hs'') heq
  · -- The response is the last line on the channel of its client, and on no other channel.
    have hold := h.said c
    rw [hsay c, List.filterMap_append]
    by_cases hc : c = s.client
    · have hnew :
          (([.response (d.origin t).2 r] : List Line).filterMap response) = [(s.id, r)] := by
        rw [hown]
        rfl
      rw [hown, if_pos hc]
      rw [hown] at hnew
      rw [hnew]
      simp only [List.filterMap_append, List.filterMap_cons, Served.response, hc, if_true, hnone,
        Option.map_none, Option.map_some] at hold ⊢
      exact (hold.append_right _).trans (by
        rw [List.append_assoc]
        exact (List.perm_append_comm.append_left _).trans (by rfl))
    · have hown' : c ≠ (d.origin t).1 := by
        rw [hown]
        exact hc
      rw [if_neg hown', List.filterMap_nil, List.append_nil]
      simp only [List.filterMap_append, List.filterMap_cons, Served.response, if_neg (Ne.symm hc)]
        at hold ⊢
      exact hold

/-! ### A step -/

lemma logged_request {c id : ℕ} {method : String} {params : Json} (h : Logged d l)
    (hstep : Daemon.step L cfg d (.request t c id method params) = some d') :
    Logged d' (l ++ [⟨t, c, id, method, params, none⟩]) := by
  obtain ⟨hshared, hidle, hpc, horigin, -, hothers⟩ := request_threads hstep
  have hne : ∀ s ∈ l, s.reply = none → s.thread ≠ t := by
    intro s hs hnone heq
    have hserves := (h.waits s hs hnone).1
    rw [heq, hidle] at hserves
    cases hserves
  refine ⟨fun s hs hnone => ?_, fun u hu => ?_, ?_, fun b => ?_⟩
  · rcases List.mem_append.mp hs with hs | hs
    · have hst := hne s hs hnone
      rw [(hothers _ hst).1, (hothers _ hst).2]
      exact h.waits s hs hnone
    · rw [List.mem_singleton.mp hs]
      exact ⟨by rw [hpc]; rfl, horigin⟩
  · by_cases hut : u = t
    · exact ⟨_, List.mem_append_right _ (List.mem_singleton_self _), hut.symm, rfl⟩
    · rw [(hothers u hut).1] at hu
      obtain ⟨s, hs, hthread, hnone⟩ := h.busy u hu
      exact ⟨s, List.mem_append_left _ hs, hthread, hnone⟩
  · refine List.pairwise_append.mpr
      ⟨h.alone, List.pairwise_singleton _ _, fun s hs s' hs' heq => ?_⟩
    rw [List.mem_singleton.mp hs'] at heq
    exact fun hnone => hne s hs hnone heq
  · have hnew : ([⟨t, c, id, method, params, none⟩] : List Served).filterMap (Served.response b)
        = [] := by
      simp [Served.response]
    rw [hshared, List.filterMap_append, hnew, List.append_nil]
    exact h.said b

lemma logged_same (h : Logged d l) (hserves : ∀ u, serves (d'.pc u) = serves (d.pc u))
    (horigin : d'.origin = d.origin) (hchannel : d'.shared.channel = d.shared.channel) :
    Logged d' l := by
  refine ⟨fun s hs hnone => ?_, fun u hu => h.busy u ((hserves u).symm.trans hu), h.alone,
    fun c => ?_⟩
  · rw [hserves, horigin]
    exact h.waits s hs hnone
  · rw [hchannel]
    exact h.said c

theorem logged_step {a : Action} (h : Logged d l) (hstep : Daemon.step L cfg d a = some d') :
    Logged d' (record l d a) := by
  cases a with
  | run t env expired =>
    simp only [record]
    split
    · rename_i r hr
      exact logged_respond h hstep hr
    · rename_i hr
      exact logged_silent h hstep fun r heq => hr r heq
  | request t c id method params => exact logged_request h hstep
  | connect | disconnect =>
    cases stepped hstep
    exact logged_same h (fun _ => rfl) rfl rfl
  | tick t =>
    cases stepped hstep with
    | tick _ hidle =>
      refine logged_same h (fun u => ?_) rfl rfl
      by_cases hut : u = t
      · subst hut
        rw [hidle]
        simp [State.withPc, serves]
      · simp [State.withPc, Function.update_of_ne hut]
  | rouse t =>
    cases stepped hstep with
    | rouse _ op start hpc =>
      refine logged_same h (fun u => ?_) rfl rfl
      by_cases hut : u = t
      · subst hut
        rw [hpc]
        simp [State.withPc, serves]
      · simp [State.withPc, Function.update_of_ne hut]

lemma logged_start (fs : FileSystem) (clock : ℕ) : Logged (Daemon.start Key fs clock) [] where
  waits s hs := by cases hs
  busy t ht := by cases ht
  alone := .nil
  said _ := .nil

lemma record_kept {a : Action} {s : Served} (hs : s ∈ l) (hr : s.reply ≠ none) :
    s ∈ record l d a := by
  cases a with
  | request t c id method params => exact List.mem_append_left _ hs
  | run t env expired =>
    simp only [record]
    split
    · exact List.mem_map.mpr ⟨s, hs, hear_of_ne (.inr hr)⟩
    · exact hs
  | connect | disconnect | tick | rouse => exact hs

lemma record_mem {a : Action} {s : Served} (hs : s ∈ record l d a) :
    (∃ s' ∈ l, s'.client = s.client ∧ s'.id = s.id ∧ s'.method = s.method ∧ s'.params = s.params) ∨
      a = .request s.thread s.client s.id s.method s.params := by
  have hsame : s ∈ l → ∃ s' ∈ l, s'.client = s.client ∧ s'.id = s.id ∧ s'.method = s.method ∧
      s'.params = s.params := fun h => ⟨s, h, rfl, rfl, rfl, rfl⟩
  cases a with
  | request t c id method params =>
    rcases List.mem_append.mp hs with hs | hs
    · exact .inl (hsame hs)
    · rw [List.mem_singleton.mp hs]
      exact .inr rfl
  | run t env expired =>
    left
    simp only [record] at hs
    split at hs
    · obtain ⟨s', hs', rfl⟩ := List.mem_map.mp hs
      unfold Served.hear
      split
      · exact ⟨s', hs', rfl, rfl, rfl, rfl⟩
      · exact ⟨s', hs', rfl, rfl, rfl, rfl⟩
    · exact hsame hs
  | connect | disconnect | tick | rouse => exact .inl (hsame hs)

lemma Logged.responded (h : Logged d l) {c id : ℕ} {r : Except Err Reply}
    (hr : .response id r ∈ d.shared.channel c) :
    ∃ s ∈ l, s.client = c ∧ s.id = id ∧ s.reply = some r := by
  have hmem : (id, r) ∈ l.filterMap (Served.response c) :=
    (h.said c).mem_iff.mp (List.mem_filterMap.mpr ⟨_, hr, rfl⟩)
  obtain ⟨s, hs, heq⟩ := List.mem_filterMap.mp hmem
  unfold Served.response at heq
  split at heq
  · rename_i hc
    obtain ⟨r', hr', hpair⟩ := Option.map_eq_some_iff.mp heq
    cases hpair
    exact ⟨s, hs, hc, rfl, hr'⟩
  · cases heq

end LvimKeyring.Answering
