import LvimKeyring.Lib.Lines
import LvimKeyring.Reading

/-!
What the client makes of the stream of one connection, however it is cut into chunks.

The bytes that have arrived are, at any time, the lines that have been read off, the tail, and
the chunks that wait. A callback may wait, and then another `on_read` goes on with the tail; it
may raise an error, and then its own `on_read` is over.
-/

namespace LvimKeyring.Framing

open Rpc Crypto EventLoop EventLoop.Client Transition

/-! ### The statement -/

def isReading : Frame → Bool
  | .reading => true
  | _ => false

/-- Some `on_read` has not come to its end. -/
def reads (c : Client) : Bool := c.stack.any isReading

/-- What `on_read` finds in the first line of the tail. -/
def next (N : Neovim) (tail : Bytes) : Option Json :=
  (splitLine tail).bind fun lt => message N lt.1

/-- The bytes that have arrived, and the messages that were dispatched. -/
def hear (N : Neovim) (g : Bytes × List Json) (c : Client) (e : Event) (_ : Client) :
    Bytes × List Json :=
  match e, c.stack with
  | .arrive _ bytes, _ => (g.1 ++ bytes, g.2)
  | .resume _, .reading :: _ => (g.1, g.2 ++ (next N c.readTail).toList)
  | _, _ => g

/-- The messages are those of the complete lines of the stream, in their order, and the tail is what
follows the last newline. -/
def Framed (N : Neovim) (stream : Bytes) (messages : List Json) (tail : Bytes) : Prop :=
  ∃ lines, (∀ l ∈ lines, newline ∉ l) ∧ newline ∉ tail ∧
    stream = Lines.stream newline lines ++ tail ∧ messages = lines.filterMap (message N)

/-- The connection is there, and nothing of its stream is. -/
structure Begins (p : ℕ) (c : Client) : Prop where
  pipe : c.pipe = some p
  tail : c.readTail = []
  queue : ∀ t ∈ c.queue, t.bytes = []

/-- `on_read` has been given all that has arrived, and is done. -/
structure Idle (p : ℕ) (c : Client) : Prop where
  chunks : c.chunks p = []
  reads : reads c = false

/-- Bytes arrive on no other connection. -/
def ofPipe (p : ℕ) : Event → Bool
  | .arrive q _ => q = p
  | _ => true

/-- A run of the client on one connection, up to its teardown at the latest. -/
structure OnPipe (N : Neovim) (p : ℕ) (c₀ : Client) (es : List Event) : Prop where
  begins : Begins p c₀
  own : ∀ e ∈ es, ofPipe p e = true
  stands : Throughout (step N) (fun c => c.pipe = some p) c₀ es

/-- What is asked of one run: whenever `on_read` is done with what has arrived, it has made of the
stream what there is to be made of it. -/
def FramesAlike (N : Neovim) (p : ℕ) (c₀ : Client) (es : List Event) : Prop :=
  Throughout (track (step N) (hear N))
    (fun x => Idle p x.2 → Framed N x.1.1 x.1.2 x.2.readTail) (([], []), c₀) es

/-- An error ends an `on_read` that had more lines to read, and no other `on_read` will read them:
none is below it on the stack, and no chunk waits. -/
def strands (p : ℕ) (c : Client) : Event → Bool
  | .act .raise =>
    match c.stack with
    | .user false :: .reading :: rest =>
      newline ∈ c.readTail && !rest.any isReading && c.chunks p = []
    | _ => false
  | _ => false

/-! ### What the client's functions do to what is being read -/

/-- As long as the connection stands, the tail and the chunks stay, and so does every `on_read`. -/
structure Stays (c c' : Client) : Prop where
  chunks : ∀ p, c'.chunks p = c.chunks p
  queue : ∀ t ∈ c'.queue, t.bytes = [] ∨ t ∈ c.queue
  pipe : c'.pipe = c.pipe ∨ c'.pipe = none
  kept : c'.pipe = none ∨ c'.readTail = c.readTail ∧ (reads c = true → reads c' = true)

variable {N : Neovim} {env : Surroundings} {p : ℕ} {c c' c'' : Client} {rest : List Frame}

lemma Stays.trans (h : Stays c c') (h' : Stays c' c'') : Stays c c'' where
  chunks p := (h'.chunks p).trans (h.chunks p)
  queue t ht := (h'.queue t ht).elim .inl (h.queue t)
  pipe := by
    rcases h'.pipe with heq | heq
    · rw [heq]
      exact h.pipe
    · exact .inr heq
  kept := by
    rcases h'.kept with hnone | ⟨htail', hreads'⟩
    · exact .inl hnone
    · rcases h.kept with hnone | ⟨htail, hreads⟩
      · refine .inl ?_
        rcases h'.pipe with heq | heq
        · rw [heq, hnone]
        · exact heq
      · exact .inr ⟨htail'.trans htail, fun hr => hreads' (hreads hr)⟩

lemma reads_of_suffix (h : c.stack <:+ c'.stack) (hr : reads c = true) : reads c' = true := by
  obtain ⟨f, hf, hfr⟩ := List.any_eq_true.mp hr
  exact List.any_eq_true.mpr ⟨f, h.subset hf, hfr⟩

lemma Stays.of_same (hqueue : c'.queue = c.queue) (hpipe : c'.pipe = c.pipe)
    (htail : c'.readTail = c.readTail) (hstack : c.stack <:+ c'.stack) : Stays c c' where
  chunks p := by simp only [Client.chunks, hqueue]
  queue t ht := by
    rw [hqueue] at ht
    exact .inr ht
  pipe := .inl hpipe
  kept := .inr ⟨htail, reads_of_suffix hstack⟩

lemma Stays.refl (c : Client) : Stays c c := .of_same rfl rfl rfl List.suffix_rfl

lemma stays_teardown (err : Json) : Stays c (c.teardown err) :=
  ⟨fun _ => rfl, fun _ h => .inr h, .inr rfl, .inl rfl⟩

lemma stays_push (f : Frame) : Stays c (c.push f) := .of_same rfl rfl rfl (List.suffix_cons _ _)

lemma stays_issue (h : Handler) (method : String) (params : Json) :
    Stays c (c.issue h method params) := .of_same rfl rfl rfl List.suffix_rfl

lemma stays_schedule {t : Task} (h : t.bytes = []) : Stays c (c.schedule t) :=
  have hquiet := quiet_schedule (c := c) h
  ⟨hquiet.chunks, hquiet.queue, .inl rfl, .inr ⟨rfl, id⟩⟩

lemma stays_tell (guarded : Bool) (w : Waiter) (r : Except Json Unit) :
    Stays c (c.tell guarded w r) := by
  cases w with
  | ensure k => exact .of_same rfl rfl rfl (List.suffix_cons _ _)
  | request k method params =>
    cases r with
    | error e => exact .of_same rfl rfl rfl (List.suffix_cons _ _)
    | ok u => exact stays_issue _ _ _

lemma stays_greeted (r : Answer) : Stays c (c.greeted N r) := by
  unfold greeted
  cases greeting N r with
  | error e => exact ⟨fun _ => rfl, fun _ h => .inr h, .inr rfl, .inl rfl⟩
  | ok u =>
    simp only
    split
    · exact .of_same rfl rfl rfl ((List.suffix_cons _ _).trans (List.suffix_cons _ _))
    · exact .of_same rfl rfl rfl (List.suffix_cons _ _)

lemma stays_settle (guarded : Bool) (h : Handler) (r : Answer) :
    Stays c (c.settle N guarded h r) := by
  cases h with
  | handshake => exact stays_greeted r
  | request k => exact .of_same rfl rfl rfl (List.suffix_cons _ _)

lemma stays_onMessage (msg : Json) : Stays c (c.onMessage N msg) := by
  unfold onMessage
  split
  · split
    · exact .refl c
    · rename_i id hkey
      split
      · exact .refl c
      · have hforget : Stays c (c.forget id) := .of_same rfl rfl rfl List.suffix_rfl
        exact hforget.trans (stays_settle _ _ _)
  · split
    · split
      · exact stays_push _
      · exact .refl c
    · exact .refl c

lemma stays_onRead {line tail : Bytes} (hsplit : splitLine c.readTail = some (line, tail)) :
    Stays { c with readTail := tail } (c.onRead N rest) := by
  simp only [onRead, hsplit]
  split
  · exact .refl _
  · exact stays_onMessage _

lemma stays_ensure (w : Waiter) : Stays c (c.ensure w) := by
  unfold ensure
  split
  · exact stays_tell _ _ _
  · simp only
    split
    · exact .of_same rfl rfl rfl List.suffix_rfl
    · exact .of_same rfl rfl rfl (List.suffix_cons _ _)

lemma stays_onConnected : Stays c c.onConnected := by
  unfold onConnected
  split
  · exact .refl c
  · exact .of_same rfl rfl rfl List.suffix_rfl

lemma stays_tryConnect (u : Purpose) (made : Bool) : Stays c (c.tryConnect u made) := by
  unfold tryConnect
  split
  · exact .of_same rfl rfl rfl List.suffix_rfl
  · exact stays_schedule rfl

lemma stays_perform (t : Task) :
    Stays { c with readTail := c.readTail ++ t.bytes } (c.perform env t) := by
  have hself : t.bytes = [] → { c with readTail := c.readTail ++ t.bytes } = c := by
    intro hb
    rw [hb, List.append_nil]
  cases t with
  | failed u surplus =>
    rw [hself rfl]
    cases u with
    | first a =>
      simp only [perform]
      split
      · exact stays_push _
      · exact stays_teardown _
    | retry a =>
      simp only [perform]
      split
      · have hclose : Stays c (c.closeTimer a) := .of_same rfl rfl rfl List.suffix_rfl
        exact hclose.trans (stays_teardown _)
      · exact .refl c
  | connected p u =>
    rw [hself rfl]
    cases u with
    | first a => exact stays_onConnected
    | retry a => exact stays_onConnected.trans (.of_same rfl rfl rfl List.suffix_rfl)
  | chunk p bytes => exact stays_push _
  | ended p | readError p err =>
    rw [hself rfl]
    exact stays_teardown _
  | retry a =>
    rw [hself rfl]
    simp only [perform]
    split
    · exact .refl c
    · exact stays_tryConnect _ _

lemma reads_perform {t : Task} (h : t.bytes ≠ []) : reads (c.perform env t) = true := by
  cases t with
  | chunk p bytes => rfl
  | _ => exact absurd rfl h

lemma stays_restack {f : Frame} {fs : List Frame} (hs : c.stack = f :: rest)
    (hf : isReading f = false) (hfs : rest <:+ fs) : Stays c { c with stack := fs } where
  chunks _ := rfl
  queue _ h := .inr h
  pipe := .inl rfl
  kept := by
    refine .inr ⟨rfl, fun hr => ?_⟩
    have hrest : rest.any isReading = true := by simpa [reads, hs, hf] using hr
    exact reads_of_suffix (c := { c with stack := rest }) hfs hrest

/-! ### A step -/

/-- What a step does to what is being read. -/
inductive Turn (N : Neovim) (c : Client) (e : Event) (c' : Client) : Prop
  | arrive (p : ℕ) (bytes : Bytes) (he : e = .arrive p bytes)
    (h : c' = c.schedule (.chunk p bytes))
  | task (env : Surroundings) (t : Task) (queue : List Task) (he : e = .scheduled env)
    (hq : c.queue = t :: queue) (hreads : t.bytes ≠ [] → reads c' = true)
    (h : Stays { c with queue, readTail := c.readTail ++ t.bytes } c')
  | line (env : Surroundings) (rest : List Frame) (line tail : Bytes) (he : e = .resume env)
    (hs : c.stack = .reading :: rest) (hsplit : splitLine c.readTail = some (line, tail))
    (h : Stays { c with readTail := tail } c')
  | ended (env : Surroundings) (rest : List Frame) (he : e = .resume env)
    (hs : c.stack = .reading :: rest) (hsplit : splitLine c.readTail = none)
    (h : c' = { c with stack := rest })
  | raised (rest : List Frame) (he : e = .act .raise)
    (hs : c.stack = .user false :: .reading :: rest)
    (h : c' = { c with stack := rest })
  | other (hear : ∀ g, hear N g c e c' = g) (h : Stays c c')

lemma turn_resume (hstep : c.resume N env = some c') : Turn N c (.resume env) c' := by
  have hother : ∀ {f fs}, c.stack = f :: fs → isReading f = false → Stays c c' →
      Turn N c (.resume env) c' := by
    intro f fs hs hf h
    refine .other (fun g => ?_) h
    simp only [hear, hs]
    cases f with
    | reading => cases hf
    | _ => rfl
  cases resumed hstep with
  | told r rest hs => exact hother hs rfl (stays_restack hs rfl List.suffix_rfl)
  | tell w ws r rest hs =>
    exact hother hs rfl ((stays_restack hs rfl (List.suffix_cons _ _)).trans (stays_tell _ _ _))
  | dead err rest hs =>
    have hpopped : Stays c { c with stack := .waiters c.waiters (.error err) :: rest } :=
      stays_restack hs rfl (List.suffix_cons _ _)
    exact hother hs rfl (hpopped.trans (.of_same rfl rfl rfl List.suffix_rfl))
  | reading rest hs =>
    cases hsplit : splitLine c.readTail with
    | none =>
      refine .ended env rest rfl hs hsplit ?_
      simp only [onRead, hsplit]
    | some lt => exact .line env rest lt.1 lt.2 rfl hs hsplit (stays_onRead hsplit)
  | refused a rest e hs | untimed a rest hs =>
    exact hother hs rfl ((stays_restack hs rfl List.suffix_rfl).trans (stays_teardown _))
  | vetted a rest hs | mkdir a rest hs =>
    exact hother hs rfl (stays_restack hs rfl (List.suffix_cons _ _))
  | dial a rest hs =>
    exact hother hs rfl ((stays_restack hs rfl List.suffix_rfl).trans (stays_tryConnect _ _))
  | spawn a rest hs =>
    have hpopped : Stays c { c with stack := rest } := stays_restack hs rfl List.suffix_rfl
    exact hother hs rfl (hpopped.trans (.of_same rfl rfl rfl List.suffix_rfl))

lemma stays_pick {id : ℕ} (hstep : c.pick N id = some c') : Stays c c' := by
  obtain ⟨callbacks, err, rest, hd, hs, -, rfl⟩ := pick_cases hstep
  exact (stays_restack hs rfl (List.suffix_cons _ _)).trans (stays_settle _ _ _)

lemma turn_doAct {a : Act} (hstep : doAct c a = some c') : Turn N c (.act a) c' := by
  cases a with
  | ensure =>
    cases hstep
    have hcount : Stays c { c with ensures := c.ensures + 1 } :=
      .of_same rfl rfl rfl List.suffix_rfl
    exact .other (fun _ => rfl) (hcount.trans (stays_ensure _))
  | request method params =>
    cases hstep
    have hgiven : Stays c { c with given := c.given ++ [(method, params)] } :=
      .of_same rfl rfl rfl List.suffix_rfl
    exact .other (fun _ => rfl) (hgiven.trans (stays_ensure _))
  | on method =>
    cases hstep
    exact .other (fun _ => rfl) (.of_same rfl rfl rfl List.suffix_rfl)
  | stop =>
    cases hstep
    exact .other (fun _ => rfl) (stays_teardown _)
  | ret =>
    obtain ⟨guarded, rest, hs, rfl⟩ := ret_cases hstep
    exact .other (fun _ => rfl) (stays_restack hs rfl List.suffix_rfl)
  | raise =>
    obtain ⟨fs, hfs, rfl⟩ := Option.map_eq_some_iff.mp hstep
    obtain hs | ⟨guarded, hs⟩ := raise_cases hfs
    · exact .raised fs rfl hs rfl
    · exact .other (fun _ => rfl) (stays_restack hs rfl List.suffix_rfl)

lemma turn_loop {e : Event} (hpipe : c.pipe = some p) (hstep : loop c e = some c') :
    Turn N c e c' := by
  cases looped hstep with
  | connected q u hu hq hnone =>
    rw [hpipe] at hnone
    cases hnone
  | arrive q bytes => exact .arrive q bytes rfl rfl
  | failed q failed u =>
    have hclosed : Stays c { c with pipes := Function.update c.pipes q .closed } :=
      .of_same rfl rfl rfl List.suffix_rfl
    exact .other (fun _ => rfl) (hclosed.trans (stays_schedule rfl))
  | finish q | fail q err =>
    have hended : Stays c { c with pipes := Function.update c.pipes q .ended } :=
      .of_same rfl rfl rfl List.suffix_rfl
    exact .other (fun _ => rfl) (hended.trans (stays_schedule rfl))
  | tick a =>
    have htick : Stays c { c with
        timers := Function.update c.timers a ⟨(c.timers a).tries + 1, true⟩ } :=
      .of_same rfl rfl rfl List.suffix_rfl
    exact .other (fun _ => rfl) (htick.trans (stays_schedule rfl))
  | scheduled env t queue hq =>
    exact .task env t queue rfl hq reads_perform (stays_perform (c := { c with queue }) t)

lemma turn_step {e : Event} (hpipe : c.pipe = some p) (hstep : step N c e = some c') :
    Turn N c e c' := by
  rcases step_cases hstep with ⟨a, rfl, -, hact⟩ | ⟨env, rfl, hres⟩ | ⟨id, rfl, hpick⟩ | ⟨-, hloop⟩
  · exact turn_doAct hact
  · exact turn_resume hres
  · exact .other (fun _ => rfl) (stays_pick hpick)
  · exact turn_loop hpipe hloop

/-! ### The stream so far -/

/-- The stream so far is the lines that were read off, the tail, and what waits to be read. -/
structure Reassembled (N : Neovim) (p : ℕ) (g : Bytes × List Json) (c : Client) : Prop where
  lines : ∃ lines, (∀ l ∈ lines, newline ∉ l) ∧
    g.1 = Lines.stream newline lines ++ (c.readTail ++ c.chunks p) ∧
    g.2 = lines.filterMap (message N)
  watched : newline ∈ c.readTail → reads c = true ∨ c.chunks p ≠ []
  own : ∀ t ∈ c.queue, t.bytes = t.from p

lemma from_eq_nil {t : Task} (h : t.bytes = []) : t.from p = [] := by
  cases t with
  | chunk q bytes =>
    have hb : bytes = [] := h
    simp [Task.from, hb]
  | _ => rfl

variable {g : Bytes × List Json}

lemma Begins.reassembled (h : Begins p c) : Reassembled N p ([], []) c where
  lines := by
    have hchunks : c.chunks p = [] := by
      refine List.flatMap_eq_nil_iff.mpr fun t ht => ?_
      exact from_eq_nil (h.queue t ht)
    refine ⟨[], fun _ hl => (by cases hl), ?_, rfl⟩
    rw [h.tail, hchunks]
    rfl
  watched hmem := by
    rw [h.tail] at hmem
    cases hmem
  own t ht := by rw [h.queue t ht, from_eq_nil (h.queue t ht)]

lemma Reassembled.stays (h : Reassembled N p g c) (hs : Stays c c') (hpipe : c'.pipe = some p) :
    Reassembled N p g c' := by
  obtain ⟨htail, hreads⟩ := hs.kept.resolve_left (by rw [hpipe]; exact Option.some_ne_none p)
  refine ⟨?_, fun hmem => ?_, fun t ht => ?_⟩
  · rw [htail, hs.chunks]
    exact h.lines
  · rw [htail] at hmem
    rw [hs.chunks]
    exact (h.watched hmem).imp_left hreads
  · rcases hs.queue t ht with hb | hmem
    · rw [hb, from_eq_nil hb]
    · exact h.own t hmem

lemma Reassembled.arrive (h : Reassembled N p g c) (bytes : Bytes) :
    Reassembled N p (g.1 ++ bytes, g.2) (c.schedule (.chunk p bytes)) := by
  have hchunks : (c.schedule (.chunk p bytes)).chunks p = c.chunks p ++ bytes := by
    simp [Client.chunks, schedule, Task.from]
  refine ⟨?_, fun hmem => ?_, fun t ht => ?_⟩
  · obtain ⟨lines, hnl, hstream, hmessages⟩ := h.lines
    refine ⟨lines, hnl, ?_, hmessages⟩
    rw [hchunks, hstream]
    simp [schedule]
  · refine (h.watched hmem).imp_right fun hne hnil => hne ?_
    rw [hchunks] at hnil
    exact (List.append_eq_nil_iff.mp hnil).1
  · rcases List.mem_append.mp ht with ht | ht
    · exact h.own t ht
    · rw [List.mem_singleton.mp ht]
      simp [Task.bytes, Task.from]

lemma Reassembled.task (h : Reassembled N p g c) {t : Task} {queue : List Task}
    (hq : c.queue = t :: queue) (hreads : t.bytes ≠ [] → reads c' = true)
    (hs : Stays { c with queue, readTail := c.readTail ++ t.bytes } c') (hpipe : c'.pipe = some p) :
    Reassembled N p g c' := by
  have hown : t.bytes = t.from p := h.own t (by rw [hq]; exact List.mem_cons_self)
  have hchunks : c.chunks p = t.bytes ++ ({ c with queue } : Client).chunks p := by
    simp [Client.chunks, hq, hown]
  obtain ⟨lines, hnl, hstream, hmessages⟩ := h.lines
  -- The tail has the bytes now, and there is an `on_read` if there are any.
  by_cases hb : t.bytes = []
  · have hself : Reassembled N p g { c with queue, readTail := c.readTail ++ t.bytes } := by
      rw [hb, List.nil_append] at hchunks
      rw [hb, List.append_nil]
      refine ⟨⟨lines, hnl, ?_, hmessages⟩, fun hmem => ?_, fun u hu => h.own u ?_⟩
      · rw [hstream, hchunks]
      · have hwatched := h.watched hmem
        rw [hchunks] at hwatched
        exact hwatched
      · rw [hq]
        exact List.mem_cons_of_mem t hu
    exact hself.stays hs hpipe
  · obtain ⟨htail, -⟩ := hs.kept.resolve_left (by rw [hpipe]; exact Option.some_ne_none p)
    refine ⟨⟨lines, hnl, ?_, hmessages⟩, fun _ => .inl (hreads hb), fun u hu => ?_⟩
    · rw [hstream, htail, hs.chunks, hchunks, List.append_assoc]
      rfl
    · rcases hs.queue u hu with hnone | hmem
      · rw [hnone, from_eq_nil hnone]
      · exact h.own u (by rw [hq]; exact List.mem_cons_of_mem t hmem)

lemma Reassembled.line (h : Reassembled N p g c) {line tail : Bytes}
    (hs : c.stack = .reading :: rest) (hsplit : splitLine c.readTail = some (line, tail)) :
    Reassembled N p (g.1, g.2 ++ (next N c.readTail).toList) { c with readTail := tail } := by
  obtain ⟨heq, hline⟩ := splitLine_eq_some hsplit
  obtain ⟨lines, hnl, hstream, hmessages⟩ := h.lines
  refine ⟨⟨lines ++ [line], fun l hl => ?_, ?_, ?_⟩, fun _ => .inl ?_, h.own⟩
  · rcases List.mem_append.mp hl with hl | hl
    · exact hnl l hl
    · rw [List.mem_singleton.mp hl]
      exact hline
  · rw [hstream, heq, Lines.stream_append, Lines.stream_cons]
    simp [Client.chunks]
  · rw [hmessages, List.filterMap_append]
    simp only [next, hsplit, Option.bind_some, List.filterMap_cons, List.filterMap_nil]
    cases message N line <;> rfl
  · simp [reads, hs, isReading]

lemma reassembled_step {e : Event} (h : Reassembled N p g c) (hpipe : c.pipe = some p)
    (hown : ofPipe p e = true) (hspared : strands p c e = false) (hpipe' : c'.pipe = some p)
    (hstep : step N c e = some c') : Reassembled N p (hear N g c e c') c' := by
  cases turn_step hpipe hstep with
  | arrive q bytes he hc' =>
    subst he hc'
    obtain rfl : q = p := by simpa [ofPipe] using hown
    exact h.arrive bytes
  | task env t queue he hq hreads hs =>
    subst he
    exact h.task hq hreads hs hpipe'
  | line env rest line tail he hs hsplit hstays =>
    subst he
    simp only [hear, hs]
    exact (h.line hs hsplit).stays hstays hpipe'
  | ended env rest he hs hsplit hc' =>
    subst he hc'
    simp only [hear, hs, next, hsplit, Option.bind_none, Option.toList_none, List.append_nil]
    exact ⟨h.lines, fun hmem => absurd hmem (splitLine_eq_none hsplit), h.own⟩
  | raised rest he hs hc' =>
    subst he hc'
    refine ⟨h.lines, fun hmem => ?_, h.own⟩
    have hmem : newline ∈ c.readTail := hmem
    simp only [strands, hs, hmem, decide_true, Bool.true_and, Bool.and_eq_false_iff,
      Bool.not_eq_false', decide_eq_false_iff_not] at hspared
    exact hspared
  | other hear hs =>
    rw [hear]
    exact h.stays hs hpipe'

lemma Reassembled.framed (h : Reassembled N p g c) (hidle : Idle p c) :
    Framed N g.1 g.2 c.readTail := by
  obtain ⟨lines, hnl, hstream, hmessages⟩ := h.lines
  refine ⟨lines, hnl, fun hmem => ?_, ?_, hmessages⟩
  · rcases h.watched hmem with hreads | hchunks
    · rw [hidle.reads] at hreads
      cases hreads
    · exact hchunks hidle.chunks
  · rw [hstream, hidle.chunks, List.append_nil]

lemma exists_of_strands {e : Event} (h : strands p c e = true) :
    ∃ c', step N c e = some c' ∧ Idle p c' ∧ newline ∈ c'.readTail := by
  unfold strands at h
  split at h
  · split at h
    · rename_i rest hs
      simp only [Bool.and_eq_true, decide_eq_true_eq, Bool.not_eq_true'] at h
      refine ⟨{ c with stack := rest }, ?_, ⟨h.2, h.1.2⟩, h.1.1⟩
      simp only [step, yields, hs, doAct, raise, Option.map_some, if_true]
    · cases h
  · cases h

lemma spared_of_framesAlike {x : (Bytes × List Json) × Client} {es : List Event}
    (h : Throughout (track (step N) (hear N))
      (fun x => Idle p x.2 → Framed N x.1.1 x.1.2 x.2.readTail) x es) :
    Along (step N) (fun c e => strands p c e = false) x.2 es := by
  refine along_of_track (h.next.mono fun x e hnext => ?_)
  by_contra hstrands
  rw [Bool.not_eq_false] at hstrands
  obtain ⟨c', hstep, hidle, hmem⟩ := exists_of_strands (N := N) hstrands
  obtain ⟨lines, -, htail, -⟩ := hnext (hear N x.1 x.2 e c', c')
    (by simp only [track, hstep, Option.map_some]) hidle
  exact htail hmem

/-- However the stream of a connection is cut into chunks, and whatever the callbacks do, its lines
are dispatched once and in order, if and only if no error strands one. -/
theorem framesAlike_iff {c₀ : Client} {es : List Event} (h : OnPipe N p c₀ es) :
    FramesAlike N p c₀ es ↔ Along (step N) (fun c e => strands p c e = false) c₀ es := by
  constructor
  · exact spared_of_framesAlike
  · intro hspared
    have hsteps := ((h.stands.along.and h.stands.next).and
      (along_of_forall fun e he _ => h.own e he)).and hspared
    have hframed : ∀ x : (Bytes × List Json) × Client, Reassembled N p x.1 x.2 → Idle p x.2 →
        Framed N x.1.1 x.1.2 x.2.readTail := fun x hx => hx.framed
    refine throughout_inv ?_ hframed h.begins.reassembled (along_track ([], []) hsteps)
    rintro x e y hx ⟨⟨⟨hpipe, hnext⟩, hown⟩, hspare⟩ hy
    obtain ⟨c', hc', rfl⟩ := Option.map_eq_some_iff.mp hy
    exact reassembled_step hx hpipe hown hspare (hnext c' hc') hc'

open Sample

/-- An attempt up to where its connect goes through. -/
def opening : List Event := [.act .ensure, .resume fine, .resume fine, .connected 0 false]

/-- The handshake is done, and a request is under way. -/
def asking : List Event :=
  [.scheduled fine, .arrive 0 (line 0), .scheduled fine, .resume fine, .resume fine, .act .ret,
    .resume fine, .resume fine, .act (.request "vault.status" none)]

/-- The answer comes twice. The callback waits until all has come and been read, and raises. -/
def waited : List Event :=
  asking ++ [.arrive 0 (line 1 ++ (line 1).take 5), .scheduled fine, .resume fine,
    .arrive 0 ((line 1).drop 5), .scheduled fine, .resume fine, .resume fine, .act .raise]

theorem framesAlike_waited : ∃ c₀, run (step neovim) .new opening = some c₀ ∧
    FramesAlike neovim 0 c₀ waited := by
  have hstart : (run (step neovim) .new opening).any (fun c₀ => decide ((c₀.pipe = some 0 ∧
      c₀.readTail = [] ∧ ∀ t ∈ c₀.queue, t.bytes = []) ∧
      Throughout (step neovim) (fun c => c.pipe = some 0) c₀ waited ∧
      Along (step neovim) (fun c e => strands 0 c e = false) c₀ waited)) = true := by
    decide +kernel
  obtain ⟨c₀, hc₀, hall⟩ := (Option.any_eq_true _ _).mp hstart
  obtain ⟨⟨hpipe, htail, hqueue⟩, hstands, hspared⟩ := of_decide_eq_true hall
  exact ⟨c₀, hc₀,
    (framesAlike_iff ⟨⟨hpipe, htail, hqueue⟩, by decide +kernel, hstands⟩).mpr hspared⟩

/-- The same in one chunk, and the callback raises at once. -/
def raised : List Event :=
  asking ++ [.arrive 0 (line 1 ++ line 1), .scheduled fine, .resume fine, .act .raise]

theorem not_framesAlike : ¬ ∀ as c₀ p es, run (step neovim) .new as = some c₀ →
    OnPipe neovim p c₀ es → FramesAlike neovim p c₀ es := by
  intro h
  have hstart : (run (step neovim) .new opening).any (fun c₀ => decide ((c₀.pipe = some 0 ∧
      c₀.readTail = [] ∧ ∀ t ∈ c₀.queue, t.bytes = []) ∧
      Throughout (step neovim) (fun c => c.pipe = some 0) c₀ raised ∧
      ¬ Along (step neovim) (fun c e => strands 0 c e = false) c₀ raised)) = true := by
    decide +kernel
  obtain ⟨c₀, hc₀, hall⟩ := (Option.any_eq_true _ _).mp hstart
  obtain ⟨⟨hpipe, htail, hqueue⟩, hstands, hstrands⟩ := of_decide_eq_true hall
  have hrun : OnPipe neovim 0 c₀ raised := ⟨⟨hpipe, htail, hqueue⟩, by decide +kernel, hstands⟩
  exact hstrands (spared_of_framesAlike (h opening c₀ 0 raised hc₀ hrun))

end LvimKeyring.Framing
