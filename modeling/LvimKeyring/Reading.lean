import Mathlib.Data.List.TakeWhile
import LvimKeyring.Keys

/-!
What a step of the client does to what has been read, written and answered.

Nothing written or registered is ever taken back. Bytes are read when their chunk has its turn,
a line leaves them in one piece, and a callback gets a result from the line of its id only.
-/

namespace LvimKeyring.EventLoop

open Rpc Crypto Transition

/-- The result a callback of a request is called with. -/
def Call.result : Call → Option (ℕ × Option Json)
  | .answered k (.ok v) => some (k, v)
  | _ => none

/-- The bytes a task has to read. -/
def Task.bytes : Task → Bytes
  | .chunk _ bytes => bytes
  | _ => []

/-- Those of them from a pipe. -/
def Task.from (p : ℕ) : Task → Bytes
  | .chunk q bytes => if q = p then bytes else []
  | _ => []

namespace Client

def results (c : Client) : List (ℕ × Option Json) := c.calls.filterMap Call.result

/-- What has arrived on a pipe and has not been read. -/
def chunks (p : ℕ) (c : Client) : Bytes := c.queue.flatMap (Task.from p)

/-- Nothing is read and no result comes. -/
structure Quiet (c c' : Client) : Prop where
  sent : ∀ p, c.sent p <+: c'.sent p
  issued : c.issued <+: c'.issued
  given : c.given <+: c'.given
  results : c'.results = c.results
  tail : c'.readTail = c.readTail ∨ c'.readTail = []
  chunks : ∀ p, c'.chunks p = c.chunks p
  queue : ∀ t ∈ c'.queue, t.bytes = [] ∨ t ∈ c.queue

variable {N : Neovim} {env : Surroundings} {c c' c'' : Client} {rest : List Frame}

lemma Quiet.refl (c : Client) : Quiet c c where
  sent _ := List.prefix_rfl
  issued := List.prefix_rfl
  given := List.prefix_rfl
  results := rfl
  tail := .inl rfl
  chunks _ := rfl
  queue _ h := .inr h

lemma Quiet.trans (h : Quiet c c') (h' : Quiet c' c'') : Quiet c c'' where
  sent p := (h.sent p).trans (h'.sent p)
  issued := h.issued.trans h'.issued
  given := h.given.trans h'.given
  results := h'.results.trans h.results
  tail := by
    rcases h'.tail with heq | heq
    · rw [heq]
      exact h.tail
    · exact .inr heq
  chunks p := (h'.chunks p).trans (h.chunks p)
  queue t ht := (h'.queue t ht).elim .inl (h.queue t)

lemma Quiet.of_same (hsent : c'.sent = c.sent) (hissued : c'.issued = c.issued)
    (hgiven : c'.given = c.given) (hcalls : c'.calls = c.calls) (htail : c'.readTail = c.readTail)
    (hqueue : c'.queue = c.queue) : Quiet c c' where
  sent p := hsent ▸ List.prefix_rfl
  issued := hissued ▸ List.prefix_rfl
  given := hgiven ▸ List.prefix_rfl
  results := by simp only [Client.results, hcalls]
  tail := .inl htail
  chunks p := by simp only [Client.chunks, hqueue]
  queue t ht := by
    rw [hqueue] at ht
    exact .inr ht

lemma quiet_issue (h : Handler) (method : String) (params : Json) :
    Quiet c (c.issue h method params) where
  sent p := by
    simp only [issue, send]
    cases c.pipe with
    | none => exact List.prefix_rfl
    | some q =>
      by_cases hpq : p = q
      · subst hpq
        simp
      · simp [hpq]
  issued := List.prefix_append _ _
  given := List.prefix_rfl
  results := rfl
  tail := .inl rfl
  chunks _ := rfl
  queue _ h := .inr h

lemma quiet_call {call : Call} (h : call.result = none) (f : Frame) :
    Quiet c (({ c with calls := c.calls ++ [call] } : Client).push f) where
  sent _ := List.prefix_rfl
  issued := List.prefix_rfl
  given := List.prefix_rfl
  results := by simp [results, push, h]
  tail := .inl rfl
  chunks _ := rfl
  queue _ h := .inr h

lemma quiet_tell (guarded : Bool) (w : Waiter) (r : Except Json Unit) :
    Quiet c (c.tell guarded w r) := by
  cases w with
  | ensure k => exact quiet_call rfl _
  | request k method params =>
    cases r with
    | error e => exact quiet_call rfl _
    | ok u => exact quiet_issue _ _ _

lemma quiet_teardown (err : Json) : Quiet c (c.teardown err) where
  sent _ := List.prefix_rfl
  issued := List.prefix_rfl
  given := List.prefix_rfl
  results := rfl
  tail := .inr rfl
  chunks _ := rfl
  queue _ h := .inr h

lemma quiet_push (f : Frame) : Quiet c (c.push f) := .of_same rfl rfl rfl rfl rfl rfl

lemma quiet_greeted (r : Answer) : Quiet c (c.greeted N r) := by
  unfold greeted
  cases greeting N r with
  | error e =>
    have htaken : Quiet c (({ c with waiters := [], connecting := false } : Client).push
        (.waiters c.waiters (.error e))) := .of_same rfl rfl rfl rfl rfl rfl
    exact htaken.trans (quiet_teardown e)
  | ok u =>
    simp only
    split <;> exact .of_same rfl rfl rfl rfl rfl rfl

lemma quiet_settle_error (guarded : Bool) (h : Handler) (e : Json) :
    Quiet c (c.settle N guarded h (.error e)) := by
  cases h with
  | handshake =>
    change Quiet c (c.greeted N (.error e))
    exact quiet_greeted _
  | request k => exact quiet_call rfl _

lemma quiet_ensure (w : Waiter) : Quiet c (c.ensure w) := by
  unfold ensure
  split
  · exact quiet_tell _ _ _
  · simp only
    split <;> exact .of_same rfl rfl rfl rfl rfl rfl

lemma quiet_onConnected : Quiet c c.onConnected := by
  unfold onConnected
  split
  · exact .refl c
  · rename_i p hp
    have hread : Quiet c { c with pipes := Function.update c.pipes p .reading } :=
      .of_same rfl rfl rfl rfl rfl rfl
    exact hread.trans (quiet_issue _ _ _)

lemma quiet_schedule {t : Task} (h : t.bytes = []) : Quiet c (c.schedule t) where
  sent _ := List.prefix_rfl
  issued := List.prefix_rfl
  given := List.prefix_rfl
  results := rfl
  tail := .inl rfl
  chunks p := by
    have hnone : Task.from p t = [] := by
      cases t with
      | chunk q bytes =>
        have hb : bytes = [] := h
        simp [Task.from, hb]
      | _ => rfl
    simp [chunks, schedule, hnone]
  queue u hu := by
    rcases List.mem_append.mp hu with hu | hu
    · exact .inr hu
    · rw [List.mem_singleton.mp hu]
      exact .inl h

lemma quiet_tryConnect (u : Purpose) (made : Bool) : Quiet c (c.tryConnect u made) := by
  unfold tryConnect
  split
  · exact .of_same rfl rfl rfl rfl rfl rfl
  · exact quiet_schedule rfl

/-- A scheduled function reads its own bytes, and no others. -/
lemma quiet_perform (t : Task) :
    Quiet { c with readTail := c.readTail ++ t.bytes } (c.perform env t) := by
  have hself : t.bytes = [] → { c with readTail := c.readTail ++ t.bytes } = c := by
    intro hb
    rw [hb, List.append_nil]
  cases t with
  | failed u surplus =>
    rw [hself rfl]
    cases u with
    | first a =>
      simp only [perform]
      split
      · exact quiet_push _
      · exact quiet_teardown _
    | retry a =>
      simp only [perform]
      split
      · have hclose : Quiet c (c.closeTimer a) := .of_same rfl rfl rfl rfl rfl rfl
        exact hclose.trans (quiet_teardown _)
      · exact .refl c
  | connected p u =>
    rw [hself rfl]
    cases u with
    | first a => exact quiet_onConnected
    | retry a => exact quiet_onConnected.trans (.of_same rfl rfl rfl rfl rfl rfl)
  | chunk p bytes => exact .of_same rfl rfl rfl rfl rfl rfl
  | ended p | readError p err =>
    rw [hself rfl]
    exact quiet_teardown _
  | retry a =>
    rw [hself rfl]
    simp only [perform]
    split
    · exact .refl c
    · exact quiet_tryConnect _ _

/-! ### A line -/

/-- What comes of the line that is read off. -/
inductive Heard (N : Neovim) (c : Client) (line tail : Bytes) (c' : Client) : Prop
  | nothing (h : Quiet { c with readTail := tail } c')
  | answer (msg i : Json) (id k : ℕ) (hmsg : message N line = some msg)
    (hid : field msg "id" = some i) (hkey : key i = some id)
    (hpending : (id, .request k) ∈ c.pending)
    (h : Quiet { c with
      readTail := tail
      calls := c.calls ++ [.answered k (answer msg)] } c')

lemma heard_onMessage {line tail : Bytes} {msg : Json} (hmsg : message N line = some msg) :
    Heard N c line tail (({ c with readTail := tail } : Client).onMessage N msg) := by
  unfold onMessage
  split
  · rename_i i hid
    split
    · exact .nothing (.refl _)
    · rename_i id hkey
      split
      · exact .nothing (.refl _)
      · rename_i hd hl
        have hforget : Quiet ({ c with readTail := tail } : Client)
            (({ c with readTail := tail } : Client).forget id) := .of_same rfl rfl rfl rfl rfl rfl
        cases hd with
        | handshake => exact .nothing (hforget.trans (quiet_greeted _))
        | request k =>
          exact .answer msg i id k hmsg hid hkey (mem_of_lookup hl)
            (.of_same rfl rfl rfl rfl rfl rfl)
  · split
    · split
      · exact .nothing (quiet_push _)
      · exact .nothing (.refl _)
    · exact .nothing (.refl _)

lemma heard_onRead {line tail : Bytes} (hsplit : splitLine c.readTail = some (line, tail)) :
    Heard N c line tail (c.onRead N rest) := by
  simp only [onRead, hsplit]
  split
  · exact .nothing (.refl _)
  · rename_i msg hmsg
    exact heard_onMessage hmsg

end Client

open Client

variable {N : Neovim} {c c' : Client}

/-! ### A step -/

/-- What a step reads, and what it brings. -/
inductive Effect (N : Neovim) (c : Client) (e : Event) (c' : Client) : Prop
  | arrive (p : ℕ) (bytes : Bytes) (he : e = .arrive p bytes)
    (h : c' = c.schedule (.chunk p bytes))
  | task (env : Surroundings) (t : Task) (queue : List Task) (he : e = .scheduled env)
    (hq : c.queue = t :: queue)
    (h : Quiet { c with queue, readTail := c.readTail ++ t.bytes } c')
  | line (env : Surroundings) (line tail : Bytes) (he : e = .resume env)
    (hsplit : splitLine c.readTail = some (line, tail)) (h : Heard N c line tail c')
  | other (harrive : ∀ p bytes, e ≠ .arrive p bytes) (htask : ∀ env, e ≠ .scheduled env)
    (h : Quiet c c')

lemma effect_resume {env : Surroundings} (hstep : c.resume N env = some c') :
    Effect N c (.resume env) c' := by
  have hother : Quiet c c' → Effect N c (.resume env) c' := fun h =>
    .other (fun _ _ heq => by cases heq) (fun _ heq => by cases heq) h
  have hstack : ∀ fs, Quiet c { c with stack := fs } := fun _ => .of_same rfl rfl rfl rfl rfl rfl
  cases resumed hstep with
  | told | vetted | mkdir => exact hother (hstack _)
  | tell w ws r rest => exact hother ((hstack _).trans (quiet_tell _ w r))
  | dead | spawn => exact hother (.of_same rfl rfl rfl rfl rfl rfl)
  | reading rest =>
    cases hsplit : splitLine c.readTail with
    | none =>
      refine hother ?_
      simp only [onRead, hsplit]
      exact hstack _
    | some lt => exact .line env lt.1 lt.2 rfl hsplit (heard_onRead hsplit)
  | refused | untimed => exact hother ((hstack _).trans (quiet_teardown _))
  | dial a rest => exact hother ((hstack _).trans (quiet_tryConnect _ _))

lemma quiet_pick {id : ℕ} (hstep : c.pick N id = some c') : Quiet c c' := by
  obtain ⟨callbacks, err, rest, hd, -, -, rfl⟩ := pick_cases hstep
  have hstack : ∀ fs, Quiet c { c with stack := fs } := fun _ => .of_same rfl rfl rfl rfl rfl rfl
  exact (hstack _).trans (quiet_settle_error _ _ _)

lemma quiet_doAct {a : Act} (hstep : doAct c a = some c') : Quiet c c' := by
  cases a with
  | ensure =>
    cases hstep
    have hcount : Quiet c { c with ensures := c.ensures + 1 } := .of_same rfl rfl rfl rfl rfl rfl
    exact hcount.trans (quiet_ensure _)
  | request method params =>
    cases hstep
    have hgiven : Quiet c { c with given := c.given ++ [(method, params)] } :=
      ⟨fun _ => List.prefix_rfl, List.prefix_rfl, List.prefix_append _ _, rfl, .inl rfl,
        fun _ => rfl, fun _ h => .inr h⟩
    exact hgiven.trans (quiet_ensure _)
  | on method =>
    cases hstep
    exact .of_same rfl rfl rfl rfl rfl rfl
  | stop =>
    cases hstep
    exact quiet_teardown _
  | ret =>
    obtain ⟨guarded, rest, -, rfl⟩ := ret_cases hstep
    exact .of_same rfl rfl rfl rfl rfl rfl
  | raise =>
    obtain ⟨fs, -, rfl⟩ := Option.map_eq_some_iff.mp hstep
    exact .of_same rfl rfl rfl rfl rfl rfl

lemma effect_loop {e : Event} (hstep : loop c e = some c') : Effect N c e c' := by
  have hother {e : Event} {x : Client} {t : Task} (harrive : ∀ p bytes, e ≠ .arrive p bytes)
      (htask : ∀ env, e ≠ .scheduled env) (ht : t.bytes = []) (hx : Quiet c x) :
      Effect N c e (x.schedule t) := .other harrive htask (hx.trans (quiet_schedule ht))
  cases looped hstep with
  | failed | connected | finish | fail | tick =>
    refine hother (fun _ _ heq => by cases heq) (fun _ heq => by cases heq) rfl ?_
    exact .of_same rfl rfl rfl rfl rfl rfl
  | arrive p bytes => exact .arrive p bytes rfl rfl
  | scheduled env t queue hq =>
    exact .task env t queue rfl hq (quiet_perform (c := { c with queue }) t)

theorem effect_step {e : Event} (hstep : step N c e = some c') : Effect N c e c' := by
  rcases step_cases hstep with ⟨a, rfl, -, hact⟩ | ⟨env, rfl, hres⟩ | ⟨id, rfl, hpick⟩ | ⟨-, hloop⟩
  · exact .other (fun _ _ heq => by cases heq) (fun _ heq => by cases heq) (quiet_doAct hact)
  · exact effect_resume hres
  · exact .other (fun _ _ heq => by cases heq) (fun _ heq => by cases heq) (quiet_pick hpick)
  · exact effect_loop hloop

lemma effect_grows {e : Event} (h : Effect N c e c') : (∀ p, c.sent p <+: c'.sent p) ∧
    c.issued <+: c'.issued ∧ c.given <+: c'.given := by
  cases h with
  | arrive p bytes he heq =>
    subst heq
    exact ⟨fun _ => List.prefix_rfl, List.prefix_rfl, List.prefix_rfl⟩
  | task env t queue he hq h => exact ⟨h.sent, h.issued, h.given⟩
  | line env line tail he hsplit h =>
    cases h with
    | nothing h => exact ⟨h.sent, h.issued, h.given⟩
    | answer msg i id k hmsg hid hkey hpending h => exact ⟨h.sent, h.issued, h.given⟩
  | other harrive htask h => exact ⟨h.sent, h.issued, h.given⟩

lemma splitLine_eq_some {bs line tail : Bytes} (h : splitLine bs = some (line, tail)) :
    bs = line ++ newline :: tail ∧ newline ∉ line := by
  unfold splitLine at h
  split at h
  · cases h
  · rename_i b rest hdrop
    cases h
    have hb : b = newline := by
      have hhead := List.head_dropWhile_not (fun b => decide (b ≠ newline))
        (by rw [hdrop]; exact List.cons_ne_nil b tail)
      simp only [hdrop, List.head_cons] at hhead
      simpa using hhead
    refine ⟨?_, fun hmem => ?_⟩
    · have happ := List.takeWhile_append_dropWhile (p := (· ≠ newline)) (l := bs)
      rw [hdrop, hb] at happ
      exact happ.symm
    · simpa using List.all_eq_true.mp List.all_takeWhile newline hmem

lemma splitLine_eq_none {bs : Bytes} (h : splitLine bs = none) : newline ∉ bs := by
  unfold splitLine at h
  split at h
  · rename_i hdrop
    intro hmem
    have hall := List.dropWhile_eq_nil_iff.mp hdrop newline hmem
    simp at hall
  · cases h

end LvimKeyring.EventLoop
