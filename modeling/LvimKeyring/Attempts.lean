import LvimKeyring.EventLoop

/-!
The attempts of the client to connect, by their numbers.

An attempt goes on as a frame of `M.ensure`, as a connect, as a scheduled function or as a
timer. While the client counts as connecting without a pipe, its last attempt goes on in one
of these ways, and whoever waits for the connection waits for that attempt.
-/

namespace LvimKeyring.EventLoop

open Rpc Crypto Transition

/-- The attempt a frame, or a task, goes on with. -/
def Frame.attempt : Frame → Option ℕ
  | .vet a | .dial a | .mkdir a | .spawn a => some a
  | _ => none

def Task.attempt : Task → Option ℕ
  | .failed u _ | .connected _ u => some u.attempt
  | .retry a => some a
  | _ => none

def Frame.isDead : Frame → Bool
  | .dead _ _ => true
  | _ => false

namespace Link

/-- No attempt is known that has not been begun. -/
structure Bounded (l : Link) : Prop where
  frames : ∀ f ∈ l.stack, ∀ a, f.attempt = some a → a < l.attempts
  tasks : ∀ t ∈ l.queue, ∀ a, t.attempt = some a → a < l.attempts
  dials : ∀ u ∈ l.dials, u.attempt < l.attempts
  timers : ∀ a, (l.timers a).active = true → a < l.attempts

/-- The attempt goes on: in its own frames, in its first connect or what is scheduled after
it, or by its timer. -/
def Underway (l : Link) (a : ℕ) : Prop :=
  (∃ f ∈ l.stack, f.attempt = some a) ∨
  (∃ p, l.pipes p = .connecting ∧ l.dials[p]? = some (.first a)) ∨
  (∃ surplus, .failed (.first a) surplus ∈ l.queue) ∨
  (l.timers a).active = true

/-- What holds of the attempts between any two steps. -/
structure Tried (l : Link) : Prop extends Bounded l where
  waiting : l.waiters ≠ [] → l.connecting = true ∨ ∃ f ∈ l.stack, f.isDead = true
  last : l.connecting = true → l.pipe = none → ∃ a, a + 1 = l.attempts ∧ l.Underway a
  /-- The pipe of the last attempt stays until its `on_connected` has been called. -/
  fresh : l.connecting = true → ∀ p u, .connected p u ∈ l.queue → u.attempt + 1 = l.attempts →
    l.pipe ≠ none

/-! ### Frames come and go -/

variable {l : Link} {fs : List Frame} {f : Frame} {a : ℕ}

/-- The attempts of some frames go on in the others. -/
def Covers (fs gs : List Frame) : Prop :=
  ∀ f ∈ gs, ∀ a, f.attempt = some a → ∃ g ∈ fs, g.attempt = some a

lemma Bounded.restack (h : l.Bounded) (hnew : Covers l.stack fs) :
    Bounded { l with stack := fs } where
  frames f hf a ha := by
    obtain ⟨g, hg, hga⟩ := hnew f hf a ha
    exact h.frames g hg a hga
  tasks := h.tasks
  dials := h.dials
  timers := h.timers

lemma Underway.restack (h : l.Underway a) (hold : Covers fs l.stack) :
    Underway { l with stack := fs } a := by
  rcases h with ⟨f, hf, ha⟩ | hrest
  · exact .inl (hold f hf a ha)
  · exact .inr hrest

lemma Tried.restack (h : l.Tried) (hnew : Covers l.stack fs) (hold : Covers fs l.stack)
    (hdead : ∀ f ∈ l.stack, f.isDead = true → ∃ g ∈ fs, g.isDead = true) :
    Tried { l with stack := fs } where
  toBounded := h.toBounded.restack hnew
  waiting hw := by
    rcases h.waiting hw with hconn | ⟨f, hf, hfd⟩
    · exact .inl hconn
    · exact .inr (hdead f hf hfd)
  last hconn hpipe := by
    obtain ⟨a, ha, hu⟩ := h.last hconn hpipe
    exact ⟨a, ha, hu.restack hold⟩
  fresh := h.fresh

lemma Underway.pop (h : l.Underway a) (hs : l.stack = f :: fs) (hf : f.attempt ≠ some a) :
    Underway { l with stack := fs } a := by
  rcases h with ⟨g, hg, ha⟩ | hrest
  · rw [hs] at hg
    rcases List.mem_cons.mp hg with rfl | hg
    · exact absurd ha hf
    · exact .inl ⟨g, hg, ha⟩
  · exact .inr hrest

lemma covers_cons (fs : List Frame) : Covers (f :: fs) fs :=
  fun g hg _ ha => ⟨g, List.mem_cons_of_mem f hg, ha⟩

lemma covers_of_none (hf : f.attempt = none) (fs : List Frame) : Covers fs (f :: fs) := by
  intro g hg a ha
  rcases List.mem_cons.mp hg with rfl | hg
  · rw [hf] at ha
    cases ha
  · exact ⟨g, hg, ha⟩

lemma Covers.trans {gs hs : List Frame} (h : Covers fs gs) (h' : Covers gs hs) : Covers fs hs := by
  intro f hf a ha
  obtain ⟨g, hg, hga⟩ := h' f hf a ha
  exact h g hg a hga

lemma Bounded.push (h : l.Bounded) (hf : f.attempt = none) :
    Bounded { l with stack := f :: l.stack } := h.restack (covers_of_none hf _)

lemma Tried.push (h : l.Tried) (hf : f.attempt = none) : Tried { l with stack := f :: l.stack } :=
  h.restack (covers_of_none hf _) (covers_cons _) fun g hg hd => ⟨g, List.mem_cons_of_mem f hg, hd⟩

lemma Bounded.pop (h : l.Bounded) (hs : l.stack = f :: fs) : Bounded { l with stack := fs } := by
  refine h.restack ?_
  rw [hs]
  exact covers_cons fs

lemma Tried.pop (h : l.Tried) (hs : l.stack = f :: fs) (hf : f.attempt = none)
    (hd : f.isDead = false) : Tried { l with stack := fs } := by
  refine h.restack ?_ ?_ ?_
  · rw [hs]
    exact covers_cons fs
  · rw [hs]
    exact covers_of_none hf fs
  · intro g hg hgd
    rw [hs] at hg
    rcases List.mem_cons.mp hg with rfl | hg
    · rw [hd] at hgd
      cases hgd
    · exact ⟨g, hg, hgd⟩

lemma Tried.waiting_pop (h : l.Tried) (hs : l.stack = f :: fs) (hd : f.isDead = false)
    (hw : l.waiters ≠ []) : l.connecting = true ∨ ∃ g ∈ fs, g.isDead = true := by
  rcases h.waiting hw with hconn | ⟨g, hg, hgd⟩
  · exact .inl hconn
  · rw [hs] at hg
    rcases List.mem_cons.mp hg with rfl | hg
    · rw [hd] at hgd
      cases hgd
    · exact .inr ⟨g, hg, hgd⟩

lemma covers_swap {g : Frame} (h : f.attempt = g.attempt) (fs : List Frame) :
    Covers (g :: fs) (f :: fs) := by
  intro k hk a ha
  rcases List.mem_cons.mp hk with rfl | hk
  · exact ⟨g, List.mem_cons_self, h ▸ ha⟩
  · exact ⟨k, List.mem_cons_of_mem g hk, ha⟩

lemma Tried.swap {g : Frame} (h : l.Tried) (hs : l.stack = f :: fs) (hfg : f.attempt = g.attempt)
    (hd : f.isDead = false) : Tried { l with stack := g :: fs } := by
  refine h.restack ?_ ?_ fun k hk hkd => ?_
  · rw [hs]
    exact covers_swap hfg.symm fs
  · rw [hs]
    exact covers_swap hfg fs
  · rw [hs] at hk
    rcases List.mem_cons.mp hk with rfl | hk
    · rw [hd] at hkd
      cases hkd
    · exact ⟨k, List.mem_cons_of_mem g hk, hkd⟩

lemma Bounded.tried (h : l.Bounded) (hconn : l.connecting = false)
    (hw : l.waiters ≠ [] → ∃ f ∈ l.stack, f.isDead = true) : l.Tried where
  toBounded := h
  waiting hne := .inr (hw hne)
  last hc := by
    rw [hconn] at hc
    cases hc
  fresh hc := by
    rw [hconn] at hc
    cases hc

end Link

/-! ### The functions of the client -/

variable {N : Neovim} {env : Surroundings} {c c' : Client} {rest : List Frame}

namespace Client

open Link

lemma tried_teardown (h : c.Bounded) (err : Json) : (c.teardown err).Tried := by
  have hb : (c.teardown err).Bounded := by
    have hpush := h.push (f := .dead c.pending err) rfl
    exact ⟨hpush.frames, hpush.tasks, hpush.dials, hpush.timers⟩
  exact hb.tried rfl fun _ => ⟨_, List.mem_cons_self, rfl⟩

lemma tell_toLink (guarded : Bool) (w : Waiter) (r : Except Json Unit) (c : Client) :
    (c.tell guarded w r).toLink = c.toLink ∨
      (c.tell guarded w r).toLink = { c.toLink with stack := .user guarded :: c.stack } := by
  cases w with
  | ensure k => exact .inr rfl
  | request k method params =>
    cases r with
    | error e => exact .inr rfl
    | ok u => exact .inl rfl

lemma tried_tell {guarded : Bool} {w : Waiter} {r : Except Json Unit} (h : c.Tried) :
    (c.tell guarded w r).Tried := by
  rcases tell_toLink guarded w r c with heq | heq <;> rw [heq]
  · exact h
  · exact h.push rfl

lemma tried_greeted (h : c.Bounded) (r : Answer) : (c.greeted N r).Tried := by
  unfold greeted
  cases greeting N r with
  | error e =>
    have hpush := h.push (f := .waiters c.waiters (.error e)) rfl
    have htold : Bounded (({ c with waiters := [], connecting := false } : Client).push
        (.waiters c.waiters (.error e))).toLink :=
      ⟨hpush.frames, hpush.tasks, hpush.dials, hpush.timers⟩
    exact tried_teardown htold e
  | ok u =>
    have hpush := h.push (f := .waiters c.waiters (.ok ())) rfl
    have hready : Tried ({ c.toLink with
        stack := .waiters c.waiters (.ok ()) :: c.stack
        waiters := []
        connecting := false } : Link) :=
      Bounded.tried ⟨hpush.frames, hpush.tasks, hpush.dials, hpush.timers⟩ rfl
        fun hne => absurd rfl hne
    simp only
    split
    · exact hready.push rfl
    · exact hready

lemma tried_settle {guarded : Bool} {h : Handler} {r : Answer} (ht : c.Tried) :
    (c.settle N guarded h r).Tried := by
  cases h with
  | handshake => exact tried_greeted ht.toBounded r
  | request k => exact ht.push rfl

lemma tried_onMessage {msg : Json} (h : c.Tried) : (c.onMessage N msg).Tried := by
  unfold onMessage
  split
  · split
    · exact h
    · split
      · exact h
      · exact tried_settle h
  · split
    · split
      · exact h.push rfl
      · exact h
    · exact h

lemma tried_onRead (h : c.Tried) (hs : c.stack = .reading :: rest) : (c.onRead N rest).Tried := by
  unfold onRead
  split
  · exact h.pop hs rfl rfl
  · simp only
    split
    · exact h
    · exact tried_onMessage h

lemma underway_tryConnect {u : Purpose} {made : Bool} {a : ℕ} (h : c.Underway a) :
    (c.tryConnect u made).Underway a := by
  unfold tryConnect
  split
  · rcases h with hframe | ⟨p, hp, ha⟩ | hrest
    · exact .inl hframe
    · have hlt : p < c.dials.length := (List.getElem?_eq_some_iff.mp ha).1
      refine .inr (.inl ⟨p, ?_, ?_⟩)
      · exact (Function.update_of_ne hlt.ne _ _).trans hp
      · exact (List.getElem?_append_left hlt).trans ha
    · exact .inr (.inr hrest)
  · rcases h with hframe | hconnect | ⟨surplus, ht⟩ | htimer
    · exact .inl hframe
    · exact .inr (.inl hconnect)
    · exact .inr (.inr (.inl ⟨surplus, List.mem_append_left _ ht⟩))
    · exact .inr (.inr (.inr htimer))

lemma bounded_tryConnect {u : Purpose} {made : Bool} (h : c.Bounded) (hu : u.attempt < c.attempts) :
    (c.tryConnect u made).Bounded := by
  unfold tryConnect
  split
  · refine ⟨h.frames, h.tasks, fun v hv => ?_, h.timers⟩
    rcases List.mem_append.mp hv with hv | hv
    · exact h.dials v hv
    · rw [List.mem_singleton.mp hv]
      exact hu
  · refine ⟨h.frames, fun t ht a ha => ?_, h.dials, h.timers⟩
    rcases List.mem_append.mp ht with ht | ht
    · exact h.tasks t ht a ha
    · rw [List.mem_singleton.mp ht] at ha
      cases ha
      exact hu

lemma underway_tryConnect_first {made : Bool} {a : ℕ} :
    (c.tryConnect (.first a) made).Underway a := by
  unfold tryConnect
  split
  · refine .inr (.inl ⟨c.dials.length, Function.update_self _ _ _, ?_⟩)
    simp
  · exact .inr (.inr (.inl ⟨false, List.mem_append_right _ (List.mem_singleton_self _)⟩))

/-- A connect is begun; it is the first of its attempt, or the attempt goes on without it. -/
lemma tried_tryConnect {u : Purpose} {made : Bool} (hb : c.Bounded) (hu : u.attempt < c.attempts)
    (hw : c.waiters ≠ [] → c.connecting = true ∨ ∃ f ∈ c.stack, f.isDead = true)
    (hl : c.connecting = true → c.pipe = none →
      ∃ a, a + 1 = c.attempts ∧ (c.Underway a ∨ u = .first a))
    (hf : c.connecting = true → ∀ p v, .connected p v ∈ c.queue → v.attempt + 1 = c.attempts →
      c.pipe ≠ none) : (c.tryConnect u made).Tried := by
  have hsame : (c.tryConnect u made).waiters = c.waiters ∧ (c.tryConnect u made).stack = c.stack ∧
      (c.tryConnect u made).connecting = c.connecting ∧ (c.tryConnect u made).pipe = c.pipe ∧
      (c.tryConnect u made).attempts = c.attempts := by
    unfold tryConnect
    split <;> exact ⟨rfl, rfl, rfl, rfl, rfl⟩
  obtain ⟨hwaiters, hstack, hconnecting, hpipe, hattempts⟩ := hsame
  refine ⟨bounded_tryConnect hb hu, ?_, ?_, ?_⟩
  · rw [hwaiters, hstack, hconnecting]
    exact hw
  · rw [hconnecting, hpipe, hattempts]
    intro hc hp
    obtain ⟨a, ha, hunder | rfl⟩ := hl hc hp
    · exact ⟨a, ha, underway_tryConnect hunder⟩
    · exact ⟨a, ha, underway_tryConnect_first⟩
  · rw [hconnecting, hpipe, hattempts]
    intro hc p v hv
    have hold : .connected p v ∈ c.queue := by
      unfold tryConnect at hv
      split at hv
      · exact hv
      · rcases List.mem_append.mp hv with hv | hv
        · exact hv
        · cases List.mem_singleton.mp hv
    exact hf hc p v hold

lemma tried_schedule {t : Task} (h : c.Tried) (hb : ∀ a, t.attempt = some a → a < c.attempts)
    (ht : ∀ p u, t ≠ .connected p u) : (c.schedule t).Tried where
  frames := h.frames
  tasks s hs a ha := by
    rcases List.mem_append.mp hs with hs | hs
    · exact h.tasks s hs a ha
    · rw [List.mem_singleton.mp hs] at ha
      exact hb a ha
  dials := h.dials
  timers := h.timers
  waiting := h.waiting
  last hc hp := by
    obtain ⟨a, ha, hframe | hconnect | ⟨surplus, hmem⟩ | htimer⟩ := h.last hc hp
    · exact ⟨a, ha, .inl hframe⟩
    · exact ⟨a, ha, .inr (.inl hconnect)⟩
    · exact ⟨a, ha, .inr (.inr (.inl ⟨surplus, List.mem_append_left _ hmem⟩))⟩
    · exact ⟨a, ha, .inr (.inr (.inr htimer))⟩
  fresh hc p u hu := by
    rcases List.mem_append.mp hu with hu | hu
    · exact h.fresh hc p u hu
    · exact absurd (List.mem_singleton.mp hu).symm (ht p u)

lemma tried_setPipe {p : ℕ} {s : Pipe} (h : c.Tried) (hp : c.pipes p ≠ .connecting) :
    Tried { c.toLink with pipes := Function.update c.pipes p s } where
  frames := h.frames
  tasks := h.tasks
  dials := h.dials
  timers := h.timers
  waiting := h.waiting
  last hc hn := by
    obtain ⟨a, ha, hframe | ⟨q, hq, hd⟩ | hrest⟩ := h.last hc hn
    · exact ⟨a, ha, .inl hframe⟩
    · refine ⟨a, ha, .inr (.inl ⟨q, (Function.update_of_ne ?_ _ _).trans hq, hd⟩)⟩
      intro heq
      rw [heq] at hq
      exact hp hq
    · exact ⟨a, ha, .inr (.inr hrest)⟩
  fresh := h.fresh

lemma tried_onConnected (h : c.Tried) : c.onConnected.Tried := by
  unfold onConnected
  split
  · exact h
  · rename_i p hp
    refine ⟨⟨h.frames, h.tasks, h.dials, h.timers⟩, h.waiting, fun _ hn => ?_, h.fresh⟩
    have hsome : c.pipe = none := hn
    rw [hp] at hsome
    cases hsome

lemma bounded_closeTimer {a : ℕ} (h : c.Bounded) : (c.closeTimer a).Bounded := by
  refine ⟨h.frames, h.tasks, h.dials, fun b hb => ?_⟩
  by_cases hab : b = a
  · subst hab
    simp [closeTimer] at hb
  · exact h.timers b (by simpa [closeTimer, hab] using hb)

lemma tried_closeTimer {a : ℕ} (h : c.Tried)
    (ha : c.connecting = true → c.pipe = none → a + 1 ≠ c.attempts) : (c.closeTimer a).Tried where
  toBounded := bounded_closeTimer h.toBounded
  waiting := h.waiting
  last hc hn := by
    obtain ⟨b, hb, hframe | hconnect | hfailed | htimer⟩ := h.last hc hn
    · exact ⟨b, hb, .inl hframe⟩
    · exact ⟨b, hb, .inr (.inl hconnect)⟩
    · exact ⟨b, hb, .inr (.inr (.inl hfailed))⟩
    · have hne : b ≠ a := by
        rintro rfl
        exact ha hc hn hb
      refine ⟨b, hb, .inr (.inr (.inr ?_))⟩
      simpa [closeTimer, hne] using htimer
  fresh := h.fresh

/-! ### A step -/

lemma tried_ensure {w : Waiter} (h : c.Tried) : (c.ensure w).Tried := by
  unfold ensure
  split
  · exact tried_tell h
  · simp only
    split
    · rename_i hconn
      exact ⟨⟨h.frames, h.tasks, h.dials, h.timers⟩, fun _ => .inl hconn, h.last, h.fresh⟩
    · have hb : Bounded ({ c.toLink with
          waiters := c.waiters ++ [w]
          connecting := true
          attempts := c.attempts + 1
          stack := .vet c.attempts :: c.stack } : Link) := by
        refine ⟨fun f hf a ha => ?_, fun t ht a ha => Nat.lt_succ_of_lt (h.tasks t ht a ha),
          fun u hu => Nat.lt_succ_of_lt (h.dials u hu),
          fun a ha => Nat.lt_succ_of_lt (h.timers a ha)⟩
        rcases List.mem_cons.mp hf with rfl | hf
        · cases ha
          exact Nat.lt_succ_self _
        · exact Nat.lt_succ_of_lt (h.frames f hf a ha)
      refine ⟨hb, fun _ => .inl rfl,
        fun _ _ => ⟨c.attempts, rfl, .inl ⟨_, List.mem_cons_self, rfl⟩⟩,
        fun _ p u ht hu => ?_⟩
      -- No attempt before this one has its number.
      have hlt := h.tasks _ ht _ rfl
      exact absurd (Nat.succ.inj hu) hlt.ne

lemma bounded_tail {t : Task} {queue : List Task} (h : c.Bounded) (hq : c.queue = t :: queue) :
    Bounded { c.toLink with queue } := by
  refine ⟨h.frames, fun s hs => h.tasks s ?_, h.dials, h.timers⟩
  rw [hq]
  exact List.mem_cons_of_mem t hs

lemma tried_tail {t : Task} {queue : List Task} (h : c.Tried) (hq : c.queue = t :: queue)
    (ht : ∀ a s, t ≠ .failed (.first a) s) : Tried { c.toLink with queue } where
  toBounded := bounded_tail h.toBounded hq
  waiting := h.waiting
  last hc hn := by
    obtain ⟨a, ha, hframe | hconnect | ⟨surplus, hmem⟩ | htimer⟩ := h.last hc hn
    · exact ⟨a, ha, .inl hframe⟩
    · exact ⟨a, ha, .inr (.inl hconnect)⟩
    · rw [hq] at hmem
      rcases List.mem_cons.mp hmem with heq | hmem
      · exact absurd heq.symm (ht a surplus)
      · exact ⟨a, ha, .inr (.inr (.inl ⟨surplus, hmem⟩))⟩
    · exact ⟨a, ha, .inr (.inr (.inr htimer))⟩
  fresh hc p u hu := h.fresh hc p u (by rw [hq]; exact List.mem_cons_of_mem t hu)

lemma tried_perform {t : Task} {queue : List Task} (h : c.Tried) (hq : c.queue = t :: queue) :
    (({ c with queue } : Client).perform env t).Tried := by
  have hb := bounded_tail h.toBounded hq
  have hmem : t ∈ c.queue := by
    rw [hq]
    exact List.mem_cons_self
  cases t with
  | failed u surplus =>
    cases u with
    -- The first connect of an attempt; the agent is started when it has failed.
    | first a =>
      simp only [perform]
      split
      · refine ⟨⟨fun f hf b hfb => ?_, hb.tasks, hb.dials, hb.timers⟩, fun hw => ?_,
          fun hc hn => ?_, fun hc p u hu => ?_⟩
        · rcases List.mem_cons.mp hf with rfl | hf
          · cases hfb
            exact h.tasks _ hmem _ rfl
          · exact h.frames f hf b hfb
        · rcases h.waiting hw with hconn | ⟨f, hf, hd⟩
          · exact .inl hconn
          · exact .inr ⟨f, List.mem_cons_of_mem _ hf, hd⟩
        · obtain ⟨b, hlast, ⟨f, hf, hfb⟩ | hconnect | ⟨s, hs⟩ | htimer⟩ := h.last hc hn
          · exact ⟨b, hlast, .inl ⟨f, List.mem_cons_of_mem _ hf, hfb⟩⟩
          · exact ⟨b, hlast, .inr (.inl hconnect)⟩
          · rw [hq] at hs
            rcases List.mem_cons.mp hs with heq | hs
            · cases heq
              exact ⟨a, hlast, .inl ⟨.mkdir a, List.mem_cons_self, rfl⟩⟩
            · exact ⟨b, hlast, .inr (.inr (.inl ⟨s, hs⟩))⟩
          · exact ⟨b, hlast, .inr (.inr (.inr htimer))⟩
        · exact h.fresh hc p u (by rw [hq]; exact List.mem_cons_of_mem _ hu)
      · exact tried_teardown hb _
    | retry a =>
      simp only [perform]
      split
      · exact tried_teardown (bounded_closeTimer hb) _
      · exact tried_tail h hq fun _ _ heq => by cases heq
  | connected p u =>
    have htail := tried_tail h hq fun _ _ heq => by cases heq
    cases u with
    | first a => exact tried_onConnected htail
    | retry a =>
      -- `on_connected` comes before the timer is closed, and leaves the pipe of the attempt.
      refine tried_closeTimer (tried_onConnected htail) fun hc hn hlast => ?_
      have hsame : ∀ c : Client, c.onConnected.connecting = c.connecting ∧
          c.onConnected.pipe = c.pipe ∧ c.onConnected.attempts = c.attempts := by
        intro c
        unfold onConnected
        split <;> exact ⟨rfl, rfl, rfl⟩
      obtain ⟨hconn, hpipe, hatt⟩ := hsame { c with queue }
      rw [hconn] at hc
      rw [hpipe] at hn
      rw [hatt] at hlast
      exact h.fresh hc p _ hmem hlast hn
  | chunk p bytes => exact (tried_tail h hq fun _ _ heq => by cases heq).push rfl
  | ended p => exact tried_teardown hb _
  | readError p err => exact tried_teardown hb _
  | retry a =>
    have htail := tried_tail h hq fun _ _ heq => by cases heq
    simp only [perform]
    split
    · exact htail
    · exact tried_tryConnect hb (h.tasks _ hmem a rfl) htail.waiting
        (fun hc hn => by
          obtain ⟨b, hlast, hu⟩ := htail.last hc hn
          exact ⟨b, hlast, .inl hu⟩) htail.fresh

lemma tried_resume (h : c.Tried) (hstep : c.resume N env = some c') : c'.Tried := by
  cases resumed hstep with
  | told r rest hs => exact h.pop hs rfl rfl
  | tell w ws r rest hs =>
    have hpop : Tried { c.toLink with stack := .waiters ws r :: rest } :=
      (h.pop hs rfl rfl).push rfl
    exact tried_tell hpop
  -- `teardown` takes the waiters along, and tells them in its second loop.
  | dead err rest hs =>
    have hb := (h.toBounded.pop hs).push (f := .waiters c.waiters (.error err)) rfl
    refine ⟨⟨hb.frames, hb.tasks, hb.dials, hb.timers⟩, fun hw => absurd rfl hw, fun hc hn => ?_,
      h.fresh⟩
    obtain ⟨a, ha, hu⟩ := h.last hc hn
    have hcover : Covers (.waiters c.waiters (.error err) :: rest) c.stack := by
      rw [hs]
      exact (covers_cons rest).trans (covers_of_none rfl rest)
    exact ⟨a, ha, hu.restack hcover⟩
  | reading rest hs => exact tried_onRead h hs
  | refused a rest e hs | untimed a rest hs =>
    exact tried_teardown (c := { c with stack := rest }) (h.toBounded.pop hs) _
  | vetted a rest hs | mkdir a rest hs => exact h.swap hs rfl rfl
  | dial a rest hs =>
    have hmem : Frame.dial a ∈ c.stack := by
      rw [hs]
      exact List.mem_cons_self
    refine tried_tryConnect (h.toBounded.pop hs) (h.frames _ hmem a rfl) (h.waiting_pop hs rfl)
      (fun hc hn => ?_) h.fresh
    -- The dialled attempt may be the last one; then its connect has just been made.
    obtain ⟨b, hb, hu⟩ := h.last hc hn
    by_cases hab : a = b
    · exact ⟨b, hb, .inr (congrArg Purpose.first hab)⟩
    · exact ⟨b, hb, .inl (hu.pop hs fun heq => hab (Option.some.inj heq))⟩
  | spawn a rest hs =>
    have hmem : Frame.spawn a ∈ c.stack := by
      rw [hs]
      exact List.mem_cons_self
    have hb := h.toBounded.pop hs
    refine ⟨⟨hb.frames, hb.tasks, hb.dials, fun b hact => ?_⟩, h.waiting_pop hs rfl,
      fun hc hn => ?_, h.fresh⟩
    · by_cases hab : b = a
      · exact hab ▸ h.frames _ hmem a rfl
      · exact h.timers b (by simpa [hab] using hact)
    · obtain ⟨b, hb, hu⟩ := h.last hc hn
      refine ⟨b, hb, ?_⟩
      by_cases hab : a = b
      · subst hab
        exact .inr (.inr (.inr (by simp)))
      · obtain hframe | hconnect | hfailed | htimer :=
          hu.pop hs fun heq => hab (Option.some.inj heq)
        · exact .inl hframe
        · exact .inr (.inl hconnect)
        · exact .inr (.inr (.inl hfailed))
        · exact .inr (.inr (.inr (by simpa [Ne.symm hab] using htimer)))

lemma tried_pick {id : ℕ} (h : c.Tried) (hstep : c.pick N id = some c') : c'.Tried := by
  obtain ⟨callbacks, err, rest, hd, hs, -, rfl⟩ := pick_cases hstep
  have hcover : ∀ cs ds : List (ℕ × Handler),
      Covers (.dead cs err :: rest) (.dead ds err :: rest) :=
    fun cs ds => (covers_cons rest).trans (covers_of_none rfl rest)
  have hpop :
      Tried { c.toLink with stack := .dead (callbacks.eraseP (·.1 == id)) err :: rest } := by
    refine h.restack ?_ ?_ fun f _ _ => ⟨_, List.mem_cons_self, rfl⟩
    · rw [hs]
      exact hcover _ _
    · rw [hs]
      exact hcover _ _
  exact tried_settle hpop

end Client

open Link

lemma tried_doAct {a : Act} (h : c.Tried) (hstep : doAct c a = some c') : c'.Tried := by
  cases a with
  | ensure =>
    cases hstep
    exact Client.tried_ensure h
  | request method params =>
    cases hstep
    exact Client.tried_ensure h
  | on method =>
    cases hstep
    exact h
  | stop =>
    cases hstep
    exact Client.tried_teardown h.toBounded _
  | ret =>
    obtain ⟨guarded, rest, hs, rfl⟩ := ret_cases hstep
    exact h.pop hs rfl rfl
  | raise =>
    obtain ⟨fs, hfs, rfl⟩ := Option.map_eq_some_iff.mp hstep
    obtain hs | ⟨guarded, hs⟩ := Client.raise_cases hfs
    · exact (h.pop hs rfl rfl).pop rfl rfl rfl
    · exact h.pop hs rfl rfl

lemma tried_loop {e : Event} (h : c.Tried) (hstep : loop c e = some c') : c'.Tried := by
  cases looped hstep with
  | failed p failed u hu hp hfailed =>
    refine ⟨⟨h.frames, fun t ht a ha => ?_, h.dials, h.timers⟩, h.waiting, fun hc hn => ?_,
      fun hc q v hv => ?_⟩
    · rcases List.mem_append.mp ht with ht | ht
      · exact h.tasks t ht a ha
      · rw [List.mem_singleton.mp ht] at ha
        cases ha
        exact h.dials u (List.mem_of_getElem? hu)
    · obtain ⟨a, ha, hframe | ⟨q, hq, hd⟩ | ⟨s, hs⟩ | htimer⟩ := h.last hc hn
      · exact ⟨a, ha, .inl hframe⟩
      · -- The first connect of the last attempt is what has failed, or still goes on.
        by_cases hqp : q = p
        · subst hqp
          rw [hu] at hd
          cases hd
          exact ⟨a, ha, .inr (.inr (.inl
            ⟨_, List.mem_append_right _ (List.mem_singleton_self _)⟩))⟩
        · exact ⟨a, ha, .inr (.inl ⟨q, (Function.update_of_ne hqp _ _).trans hq, hd⟩)⟩
      · exact ⟨a, ha, .inr (.inr (.inl ⟨s, List.mem_append_left _ hs⟩))⟩
      · exact ⟨a, ha, .inr (.inr (.inr htimer))⟩
    · rcases List.mem_append.mp hv with hv | hv
      · exact h.fresh hc q v hv
      · cases List.mem_singleton.mp hv
  | connected p u hu hp hpipe =>
    refine ⟨⟨h.frames, fun t ht a ha => ?_, h.dials, h.timers⟩, h.waiting,
      fun _ hn => (Option.some_ne_none p hn).elim, fun _ _ _ _ _ => Option.some_ne_none p⟩
    rcases List.mem_append.mp ht with ht | ht
    · exact h.tasks t ht a ha
    · rw [List.mem_singleton.mp ht] at ha
      cases ha
      exact h.dials u (List.mem_of_getElem? hu)
  | arrive p bytes hp hne =>
    exact Client.tried_schedule h (fun a ha => by cases ha) fun _ _ heq => by cases heq
  | finish p hp | fail p err hp =>
    have hset : c.pipes p ≠ .connecting := by
      rw [hp]
      decide
    exact Client.tried_schedule (Client.tried_setPipe h hset) (fun a ha => by cases ha)
      fun _ _ heq => by cases heq
  | tick a hact =>
    have hset : Tried { c.toLink with
        timers := Function.update c.timers a ⟨(c.timers a).tries + 1, true⟩ } := by
      refine ⟨⟨h.frames, h.tasks, h.dials, fun b hb => ?_⟩, h.waiting, fun hc hn => ?_, h.fresh⟩
      · by_cases hab : b = a
        · exact hab ▸ h.timers a hact
        · exact h.timers b (by simpa [hab] using hb)
      · obtain ⟨b, hb, hframe | hconnect | hfailed | htimer⟩ := h.last hc hn
        · exact ⟨b, hb, .inl hframe⟩
        · exact ⟨b, hb, .inr (.inl hconnect)⟩
        · exact ⟨b, hb, .inr (.inr (.inl hfailed))⟩
        · refine ⟨b, hb, .inr (.inr (.inr ?_))⟩
          by_cases hab : b = a
          · simp [hab]
          · simpa [hab] using htimer
    exact Client.tried_schedule hset (fun b hb => by cases hb; exact h.timers a hact)
      fun _ _ heq => by cases heq
  | scheduled env t queue hq => exact Client.tried_perform h hq

/-- Every step keeps the attempts in order. -/
theorem tried_step {e : Event} (h : c.Tried) (hstep : step N c e = some c') : c'.Tried := by
  rcases step_cases hstep with ⟨a, -, -, hact⟩ | ⟨env, -, hres⟩ | ⟨id, -, hpick⟩ | ⟨-, hloop⟩
  · exact tried_doAct h hact
  · exact Client.tried_resume h hres
  · exact Client.tried_pick h hpick
  · exact tried_loop h hloop

lemma tried_new : Client.new.Tried where
  frames f hf := by cases hf
  tasks t ht := by cases ht
  dials u hu := by cases hu
  timers a ha := by cases ha
  waiting hw := absurd rfl hw
  last hc := by cases hc
  fresh hc := by cases hc

theorem tried_run {es : List Event} (hrun : run (step N) .new es = some c) : c.Tried := by
  have hkeep : ∀ s e t, Tried s.toLink → True → step N s e = some t → Tried t.toLink :=
    fun _ _ _ h _ hstep => tried_step h hstep
  exact run_inv hkeep tried_new (along_of_forall fun _ _ _ => trivial) hrun

end LvimKeyring.EventLoop
