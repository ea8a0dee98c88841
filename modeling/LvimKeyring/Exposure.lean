import LvimKeyring.Attempts

/-!
When the client may still connect without another check of the socket's directory.

An attempt checks once, and connects at once, after its agent has been started, and at the ticks
of its timer. When no attempt is past its check, none of the client's steps connects, and the
next to be past it has made one.
-/

namespace LvimKeyring.EventLoop

open Rpc Crypto Transition

/-- The frame has a connect before it, with no check in between. -/
def Frame.onward : Frame → Bool
  | .dial _ | .mkdir _ | .spawn _ => true
  | _ => false

def Task.onward : Task → Bool
  | .failed (.first _) _ | .retry _ => true
  | _ => false

def Purpose.isFirst : Purpose → Bool
  | .first _ => true
  | .retry _ => false

/-- Some attempt may still connect without another check. -/
def Link.exposed (l : Link) : Bool :=
  l.stack.any Frame.onward || l.queue.any Task.onward ||
    (List.range l.dials.length).any
      (fun p => l.pipes p = .connecting && (l.dials[p]?).any Purpose.isFirst) ||
    (List.range l.attempts).any fun a => (l.timers a).active

/-- The ways for it to do so. -/
structure Link.Sealed (l : Link) : Prop where
  frames : ∀ f ∈ l.stack, f.onward = false
  tasks : ∀ t ∈ l.queue, t.onward = false
  pipes : ∀ p a, l.pipes p = .connecting → l.dials[p]? ≠ some (.first a)
  timers : ∀ a, (l.timers a).active = false

lemma Link.Bounded.exposed_eq_false {l : Link} (h : l.Bounded) :
    l.exposed = false ↔ l.Sealed := by
  unfold Link.exposed
  simp only [Bool.or_eq_false_iff, List.any_eq_false, List.mem_range, Bool.and_eq_true,
    decide_eq_true_eq, Bool.not_eq_true]
  constructor
  · rintro ⟨⟨⟨hframes, htasks⟩, hpipes⟩, htimers⟩
    refine ⟨hframes, htasks, fun p a hp hd => ?_, fun a => ?_⟩
    · have hlt : p < l.dials.length := (List.getElem?_eq_some_iff.mp hd).1
      exact hpipes p hlt ⟨hp, by rw [hd]; rfl⟩
    · cases ha : (l.timers a).active with
      | false => rfl
      | true =>
        rw [← ha]
        exact htimers a (h.timers a ha)
  · intro hs
    refine ⟨⟨⟨hs.frames, hs.tasks⟩, fun p hp hand => ?_⟩, fun a _ => hs.timers a⟩
    obtain ⟨u, hu, hfirst⟩ := (Option.any_eq_true _ _).mp hand.2
    cases u with
    | first a => exact hs.pipes p a hand.1 hu
    | retry a => cases hfirst

namespace Link

variable {l : Link} {f : Frame} {fs : List Frame}

lemma Sealed.restack (h : l.Sealed) (hfs : ∀ f ∈ fs, f.onward = false) :
    Sealed { l with stack := fs } := ⟨hfs, h.tasks, h.pipes, h.timers⟩

lemma Sealed.push (h : l.Sealed) (hf : f.onward = false) :
    Sealed { l with stack := f :: l.stack } :=
  h.restack (List.forall_mem_cons.mpr ⟨hf, h.frames⟩)

lemma Sealed.pop (h : l.Sealed) (hs : l.stack = f :: fs) : Sealed { l with stack := fs } := by
  refine h.restack fun g hg => h.frames g ?_
  rw [hs]
  exact List.mem_cons_of_mem f hg

lemma Sealed.setPipe (h : l.Sealed) {p : ℕ} {s : Pipe} (hs : s ≠ .connecting) :
    Sealed { l with pipes := Function.update l.pipes p s } := by
  refine ⟨h.frames, h.tasks, fun q a hq => ?_, h.timers⟩
  by_cases hqp : q = p
  · subst hqp
    exact absurd ((Function.update_self _ _ _).symm.trans hq) hs
  · exact h.pipes q a ((Function.update_of_ne hqp _ _).symm.trans hq)

lemma Sealed.schedule (h : l.Sealed) {t : Task} (ht : t.onward = false) :
    Sealed { l with queue := l.queue ++ [t] } := by
  refine ⟨h.frames, fun u hu => ?_, h.pipes, h.timers⟩
  rcases List.mem_append.mp hu with hu | hu
  · exact h.tasks u hu
  · rw [List.mem_singleton.mp hu]
    exact ht

end Link

/-! ### The functions of the client -/

namespace Client

open Link

variable {N : Neovim} {env : Surroundings} {c c' : Client} {rest : List Frame}

/-- No attempt gets past its check, and no connect is begun. -/
def Rests (c c' : Client) : Prop := c'.Sealed ∧ c'.dials = c.dials

lemma rests_teardown (h : c.Sealed) (err : Json) : Rests c (c.teardown err) := by
  refine ⟨?_, rfl⟩
  have hpush := h.push (f := .dead c.pending err) rfl
  unfold teardown
  cases hp : c.pipe with
  | none => exact ⟨hpush.frames, hpush.tasks, hpush.pipes, hpush.timers⟩
  | some p =>
    have hclosed := hpush.setPipe (p := p) (s := .closed) (by decide)
    exact ⟨hclosed.frames, hclosed.tasks, hclosed.pipes, hclosed.timers⟩

lemma rests_tell {guarded : Bool} {w : Waiter} {r : Except Json Unit} (h : c.Sealed) :
    Rests c (c.tell guarded w r) := by
  rcases tell_toLink guarded w r c with heq | heq <;> rw [Rests, heq]
  · exact ⟨h, rfl⟩
  · exact ⟨h.push rfl, rfl⟩

lemma rests_greeted (h : c.Sealed) (r : Answer) : Rests c (c.greeted N r) := by
  unfold greeted
  cases greeting N r with
  | error e =>
    have hpush := h.push (f := .waiters c.waiters (.error e)) rfl
    have htaken : Sealed (({ c with waiters := [], connecting := false } : Client).push
        (.waiters c.waiters (.error e))).toLink :=
      ⟨hpush.frames, hpush.tasks, hpush.pipes, hpush.timers⟩
    exact rests_teardown htaken e
  | ok u =>
    have hpush := h.push (f := .waiters c.waiters (.ok ())) rfl
    have hready : Sealed ({ c.toLink with
        stack := .waiters c.waiters (.ok ()) :: c.stack
        waiters := []
        connecting := false } : Link) :=
      ⟨hpush.frames, hpush.tasks, hpush.pipes, hpush.timers⟩
    simp only
    split
    · exact ⟨hready.push rfl, rfl⟩
    · exact ⟨hready, rfl⟩

lemma rests_settle {guarded : Bool} {hd : Handler} {r : Answer} (h : c.Sealed) :
    Rests c (c.settle N guarded hd r) := by
  cases hd with
  | handshake => exact rests_greeted h r
  | request k => exact ⟨h.push rfl, rfl⟩

lemma rests_onRead (h : c.Sealed) (hs : c.stack = .reading :: rest) :
    Rests c (c.onRead N rest) := by
  unfold onRead
  split
  · exact ⟨h.pop hs, rfl⟩
  · simp only
    split
    · exact ⟨h, rfl⟩
    · unfold onMessage
      split
      · split
        · exact ⟨h, rfl⟩
        · split
          · exact ⟨h, rfl⟩
          · exact rests_settle h
      · split
        · split
          · exact ⟨h.push rfl, rfl⟩
          · exact ⟨h, rfl⟩
        · exact ⟨h, rfl⟩

lemma rests_onConnected (h : c.Sealed) : Rests c c.onConnected := by
  unfold onConnected
  split
  · exact ⟨h, rfl⟩
  · rename_i p hp
    have hread := h.setPipe (p := p) (s := .reading) (by decide)
    exact ⟨⟨hread.frames, hread.tasks, hread.pipes, hread.timers⟩, rfl⟩

lemma sealed_closeTimer {a : ℕ} (h : c.Sealed) : (c.closeTimer a).Sealed := by
  refine ⟨h.frames, h.tasks, h.pipes, fun b => ?_⟩
  by_cases hb : b = a
  · subst hb
    simp [closeTimer]
  · simpa [closeTimer, hb] using h.timers b

lemma rests_ensure {w : Waiter} (h : c.Sealed) : Rests c (c.ensure w) := by
  unfold ensure
  split
  · exact rests_tell h
  · simp only
    split
    · exact ⟨⟨h.frames, h.tasks, h.pipes, h.timers⟩, rfl⟩
    · have hpush := h.push (f := .vet c.attempts) rfl
      exact ⟨⟨hpush.frames, hpush.tasks, hpush.pipes, hpush.timers⟩, rfl⟩

lemma rests_perform {t : Task} (h : c.Sealed) (ht : t.onward = false) :
    Rests c (c.perform env t) := by
  cases t with
  | failed u surplus =>
    cases u with
    | first a => cases ht
    | retry a =>
      simp only [perform]
      split
      · exact rests_teardown (sealed_closeTimer h) _
      · exact ⟨h, rfl⟩
  | connected p u =>
    cases u with
    | first a => exact rests_onConnected h
    | retry a =>
      obtain ⟨hs, hd⟩ := rests_onConnected h
      exact ⟨sealed_closeTimer hs, hd⟩
  | chunk p bytes => exact ⟨h.push rfl, rfl⟩
  | ended p | readError p err => exact rests_teardown h _
  | retry a => cases ht

lemma rests_resume (h : c.Sealed) (hstep : c.resume N env = some c')
    (hvet : ∀ a rest u, c.stack = .vet a :: rest → env.vetted ≠ .ok u) : Rests c c' := by
  cases resumed hstep with
  | told r rest hs => exact ⟨h.pop hs, rfl⟩
  | tell w ws r rest hs => exact rests_tell ((h.pop hs).push rfl)
  | dead err rest hs =>
    have hpush := (h.pop hs).push (f := .waiters c.waiters (.error err)) rfl
    exact ⟨⟨hpush.frames, hpush.tasks, hpush.pipes, hpush.timers⟩, rfl⟩
  | reading rest hs => exact rests_onRead h hs
  | refused a rest e hs => exact rests_teardown (c := { c with stack := rest }) (h.pop hs) _
  | vetted a rest hs hok => exact absurd hok (hvet a rest () hs)
  | dial a rest hs | mkdir a rest hs | spawn a rest hs | untimed a rest hs =>
    have hf := h.frames _ (by rw [hs]; exact List.mem_cons_self)
    cases hf

lemma rests_pick {id : ℕ} (h : c.Sealed) (hstep : c.pick N id = some c') : Rests c c' := by
  obtain ⟨callbacks, err, rest, hd, hs, -, rfl⟩ := pick_cases hstep
  exact rests_settle ((h.pop hs).push rfl)

end Client

open Client

variable {N : Neovim} {c c' : Client}

lemma rests_doAct {a : Act} (h : c.Sealed) (hstep : doAct c a = some c') : Rests c c' := by
  cases a with
  | ensure | request method params =>
    cases hstep
    exact rests_ensure h
  | on method =>
    cases hstep
    exact ⟨h, rfl⟩
  | stop =>
    cases hstep
    exact rests_teardown h _
  | ret =>
    obtain ⟨guarded, rest, hs, rfl⟩ := ret_cases hstep
    exact ⟨h.pop hs, rfl⟩
  | raise =>
    obtain ⟨fs, hfs, rfl⟩ := Option.map_eq_some_iff.mp hstep
    obtain hs | ⟨guarded, hs⟩ := raise_cases hfs
    · exact ⟨(h.pop hs).pop rfl, rfl⟩
    · exact ⟨h.pop hs, rfl⟩

lemma rests_loop {e : Event} (h : c.Sealed) (hstep : loop c e = some c') : Rests c c' := by
  cases looped hstep with
  | failed p failed u hu hp =>
    have htask : (Task.failed u c.pipe.isSome).onward = false := by
      cases u with
      | first a => exact absurd hu (h.pipes p a hp)
      | retry a => rfl
    exact ⟨(h.setPipe (by decide)).schedule htask, rfl⟩
  | connected p u =>
    have hwon := (h.setPipe (p := p) (s := .connected) (by decide)).schedule
      (t := .connected p u) rfl
    exact ⟨⟨hwon.frames, hwon.tasks, hwon.pipes, hwon.timers⟩, rfl⟩
  | arrive => exact ⟨h.schedule rfl, rfl⟩
  | finish | fail => exact ⟨(h.setPipe (by decide)).schedule rfl, rfl⟩
  | tick a ha =>
    rw [h.timers a] at ha
    cases ha
  | scheduled env t queue hq =>
    have hmem : ∀ u ∈ queue, u ∈ c.queue := fun u hu => by
      rw [hq]
      exact List.mem_cons_of_mem t hu
    have hrest : Link.Sealed ({ c.toLink with queue } : Link) :=
      ⟨h.frames, fun u hu => h.tasks u (hmem u hu), h.pipes, h.timers⟩
    exact rests_perform (c := { c with queue }) hrest
      (h.tasks t (by rw [hq]; exact List.mem_cons_self))

/-- When no attempt is past its check, none gets there without one, and none connects. -/
theorem rests_step {e : Event} (h : c.Sealed) (hstep : step N c e = some c')
    (hvet : ∀ env a rest u, e = .resume env → c.stack = .vet a :: rest → env.vetted ≠ .ok u) :
    Rests c c' := by
  rcases step_cases hstep with ⟨a, -, -, hact⟩ | ⟨env, rfl, hres⟩ | ⟨id, -, hpick⟩ | ⟨-, hloop⟩
  · exact rests_doAct h hact
  · exact rests_resume h hres fun a rest u hs => hvet env a rest u rfl hs
  · exact rests_pick h hpick
  · exact rests_loop h hloop

/-! ### The pipe -/

namespace Client

variable {env : Surroundings} {rest : List Frame}

/-- There is no other pipe than before, and the connects that were begun are known. -/
structure Kept (c c' : Client) : Prop where
  pipe : c'.pipe = c.pipe ∨ c'.pipe = none
  dials : c.dials <+: c'.dials

lemma Kept.of_same (hpipe : c'.pipe = c.pipe) (hdials : c'.dials = c.dials) : Kept c c' where
  pipe := .inl hpipe
  dials := hdials ▸ List.prefix_rfl

lemma Kept.trans {c'' : Client} (h : Kept c c') (h' : Kept c' c'') : Kept c c'' where
  pipe := by
    rcases h'.pipe with heq | heq
    · rw [heq]
      exact h.pipe
    · exact .inr heq
  dials := h.dials.trans h'.dials

lemma kept_teardown (err : Json) : Kept c (c.teardown err) := ⟨.inr rfl, List.prefix_rfl⟩

lemma kept_tell (guarded : Bool) (w : Waiter) (r : Except Json Unit) :
    Kept c (c.tell guarded w r) := by
  have hlink : (c.tell guarded w r).pipe = c.pipe ∧ (c.tell guarded w r).dials = c.dials := by
    rcases tell_toLink guarded w r c with heq | heq <;> rw [heq] <;> exact ⟨rfl, rfl⟩
  exact .of_same hlink.1 hlink.2

lemma kept_greeted (r : Answer) : Kept c (c.greeted N r) := by
  unfold greeted
  cases greeting N r with
  | error e => exact ⟨.inr rfl, List.prefix_rfl⟩
  | ok u =>
    simp only
    split <;> exact .of_same rfl rfl

lemma kept_settle (guarded : Bool) (hd : Handler) (r : Answer) :
    Kept c (c.settle N guarded hd r) := by
  cases hd with
  | handshake => exact kept_greeted r
  | request k => exact .of_same rfl rfl

lemma kept_onRead : Kept c (c.onRead N rest) := by
  unfold onRead
  split
  · exact .of_same rfl rfl
  · simp only
    split
    · exact .of_same rfl rfl
    · unfold onMessage
      split
      · split
        · exact .of_same rfl rfl
        · split
          · exact .of_same rfl rfl
          · refine Kept.trans ?_ (kept_settle _ _ _)
            exact .of_same rfl rfl
      · split
        · split <;> exact .of_same rfl rfl
        · exact .of_same rfl rfl

lemma kept_onConnected : Kept c c.onConnected := by
  unfold onConnected
  split <;> exact .of_same rfl rfl

lemma kept_tryConnect (u : Purpose) (made : Bool) : Kept c (c.tryConnect u made) := by
  unfold tryConnect
  split
  · exact ⟨.inl rfl, List.prefix_append _ _⟩
  · exact .of_same rfl rfl

lemma kept_ensure (w : Waiter) : Kept c (c.ensure w) := by
  unfold ensure
  split
  · exact kept_tell _ _ _
  · simp only
    split <;> exact .of_same rfl rfl

lemma kept_perform (t : Task) : Kept c (c.perform env t) := by
  cases t with
  | failed u surplus =>
    cases u with
    | first a =>
      simp only [perform]
      split
      · exact .of_same rfl rfl
      · exact kept_teardown _
    | retry a =>
      simp only [perform]
      split
      · refine Kept.trans ?_ (kept_teardown _)
        exact .of_same rfl rfl
      · exact .of_same rfl rfl
  | connected p u =>
    cases u with
    | first a => exact kept_onConnected
    | retry a => exact kept_onConnected.trans (.of_same rfl rfl)
  | chunk p bytes => exact .of_same rfl rfl
  | ended p | readError p err => exact kept_teardown _
  | retry a =>
    simp only [perform]
    split
    · exact .of_same rfl rfl
    · exact kept_tryConnect _ _

lemma kept_resume (hstep : c.resume N env = some c') : Kept c c' := by
  have hstack : ∀ fs, Kept c { c with stack := fs } := fun _ => .of_same rfl rfl
  cases resumed hstep with
  | told | dead | vetted | mkdir | spawn => exact .of_same rfl rfl
  | tell w ws r rest => exact (hstack _).trans (kept_tell _ w r)
  | reading rest => exact kept_onRead
  | refused | untimed => exact (hstack _).trans (kept_teardown _)
  | dial a rest => exact (hstack _).trans (kept_tryConnect _ _)

lemma kept_pick {id : ℕ} (hstep : c.pick N id = some c') : Kept c c' := by
  obtain ⟨callbacks, err, rest, hd, -, -, rfl⟩ := pick_cases hstep
  refine Kept.trans ?_ (kept_settle _ _ _)
  exact .of_same rfl rfl

lemma kept_doAct {a : Act} (hstep : doAct c a = some c') : Kept c c' := by
  cases a with
  | ensure | request method params =>
    cases hstep
    refine Kept.trans ?_ (kept_ensure _)
    exact .of_same rfl rfl
  | on method =>
    cases hstep
    exact .of_same rfl rfl
  | stop =>
    cases hstep
    exact kept_teardown _
  | ret =>
    obtain ⟨guarded, rest, -, rfl⟩ := ret_cases hstep
    exact .of_same rfl rfl
  | raise =>
    obtain ⟨fs, -, rfl⟩ := Option.map_eq_some_iff.mp hstep
    exact .of_same rfl rfl

end Client

/-- A connect wins, or the pipe is none that was not there before. -/
theorem kept_step {e : Event} (hstep : step N c e = some c') :
    Kept c c' ∨ ∃ p, e = .connected p false ∧ p < c.dials.length ∧ c'.pipe = some p ∧
      c'.dials = c.dials := by
  rcases step_cases hstep with ⟨a, -, -, hact⟩ | ⟨env, -, hres⟩ | ⟨id, -, hpick⟩ | ⟨-, hloop⟩
  · exact .inl (kept_doAct hact)
  · exact .inl (kept_resume hres)
  · exact .inl (kept_pick hpick)
  · cases looped hloop with
    | connected p u hu => exact .inr ⟨p, rfl, (List.getElem?_eq_some_iff.mp hu).1, rfl, rfl⟩
    | failed | arrive | finish | fail | tick => exact .inl (.of_same rfl rfl)
    | scheduled env t =>
      refine .inl (Kept.trans ?_ (kept_perform t))
      exact .of_same rfl rfl

end LvimKeyring.EventLoop
