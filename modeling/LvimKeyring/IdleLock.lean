import LvimKeyring.Sample

/-!
The idle auto-lock, with an exact clock.

The timer ticks and then sleeps for the whole seconds the tick returns. A request is dispatched
at once and carried out at any later time. Times are in nanoseconds.
-/

namespace LvimKeyring.IdleLock

open Rpc Params Crypto Vault Server Transition

variable {Key : Type}

/-! ### The daemon and its clock -/

structure Timed (Key : Type) where
  now : ℕ
  world : World Key
  nextTick : ℕ
  /-- The calls that have been dispatched and not been carried out. -/
  pending : List Call

inductive Event
  /-- Time passes, up to the moment the timer wakes at most. -/
  | pass (d : ℕ)
  | request (env : Env) (method : String) (params : Json)
  | carryOut (i : ℕ) (env : Env)
  | tick

/-- The timeout, in nanoseconds. -/
def timeout (cfg : Config) : ℕ := cfg.lockTimeout * nanos

variable (L : Packages Key) (cfg : Config)

def step (x : Timed Key) : Event → Option (Timed Key)
  | .pass d => if x.now + d ≤ x.nextTick then some { x with now := x.now + d } else none
  | .request env method params =>
    let env := { env with clock := x.now }
    let world := if touches method then touch env x.world else x.world
    match prepare env.random method params with
    | .ok c => some { x with world, pending := x.pending ++ [c] }
    | .error _ => some { x with world }
  | .carryOut i env =>
    match x.pending[i]? with
    | none => none
    | some c =>
      some { x with
        world := (exec L cfg { env with clock := x.now } x.world c).world
        pending := x.pending.eraseIdx i }
  | .tick =>
    if x.nextTick = x.now then
      let (world, _, secs) := autolockTick cfg x.now x.world
      some { x with world, nextTick := x.now + secs * nanos }
    else none

/-- A daemon that has just been started: the timer ticks at once. -/
def start (fs : FileSystem) (clock : ℕ) : Timed Key :=
  ⟨clock, ⟨fs, Inner.new Key clock⟩, clock, []⟩

/-! ### The last use and the session -/

/-- The call installs a session when it succeeds. -/
def opens : Call → Bool
  | .create _ | .unlock _ | .rotate _ _ => true
  | _ => false

/-- When a request last counted as use, and when the session was installed. -/
structure Marks where
  used : Option ℕ
  installed : Option ℕ

def Marks.note (g : Marks) (x : Timed Key) : Event → Timed Key → Marks
  | .request _ method _, _ => if touches method then { g with used := some x.now } else g
  | .carryOut i env, _ =>
    match x.pending[i]? with
    | some c =>
      if opens c ∧ (exec L cfg { env with clock := x.now } x.world c).reply.isOk then
        { g with installed := some x.now }
      else g
    | none => g
  | .pass _, _ | .tick, _ => g

/-! ### What a call does to the session -/

variable {L cfg} {env : Env} {w : World Key}

variable (L cfg env w) in
lemma exec_activity (c : Call) :
    (exec L cfg env w c).world.inner.lastActivity = w.inner.lastActivity := by
  cases c with
  | create password =>
    simp only [exec, Server.create]
    split <;> rfl
  | unlock password =>
    simp only [exec, Server.unlock]
    split <;> rfl
  | rotate old new =>
    simp only [exec, Server.rotate]
    split <;> rfl
  | session wait op =>
    obtain ⟨session, -, hinner⟩ := withSession_inner L cfg env wait op w
    rw [exec, hinner]
  | hello | status | lock | unlockCancel | bare => rfl

variable (L cfg env w) in
/-- A vault that is unlocked was so before, or has been opened by the call. -/
lemma exec_unlocked (c : Call) (h : (exec L cfg env w c).world.inner.session.isSome = true) :
    w.inner.session.isSome = true ∨ opens c = true ∧ (exec L cfg env w c).reply.isOk = true := by
  cases c with
  | create password =>
    simp only [exec, Server.create] at h ⊢
    split
    · rename_i fs e he
      rw [he] at h
      exact .inl h
    · exact .inr ⟨rfl, rfl⟩
  | unlock password =>
    simp only [exec, Server.unlock] at h ⊢
    split
    · exact .inr ⟨rfl, rfl⟩
    · rename_i e he
      rw [he] at h
      exact .inl h
  | rotate old new =>
    simp only [exec, Server.rotate] at h ⊢
    split
    · rename_i fs e he
      rw [he] at h
      exact .inl h
    · exact .inr ⟨rfl, rfl⟩
  | session wait op =>
    left
    simp only [exec, withSession] at h
    split at h
    · exact h
    · rename_i s hs
      rw [hs]
      rfl
  | lock => cases h
  | hello | status | unlockCancel | bare => exact .inl h

lemma touches_of_opens {c : Call} (h : opens c = true) : touches c.method = true := by
  cases c with
  | create | unlock | rotate => simp [touches, Call.method]
  | _ => cases h

/-! ### The bound -/

/-- Where the clock, the last use, the session and the next tick stand to each other. -/
structure Bounded (cfg : Config) (g : Marks) (x : Timed Key) : Prop where
  used : ∀ a, g.used = some a → x.world.inner.lastActivity = a
  past : x.world.inner.lastActivity ≤ x.now
  ahead : x.now ≤ x.nextTick
  asked : ∀ c ∈ x.pending, opens c = true → g.used.isSome = true
  installed : ∀ i, g.installed = some i → i ≤ x.now
  known : x.world.inner.session.isSome = true → g.used.isSome = true ∧ g.installed.isSome = true
  soon : x.nextTick ≤ max (x.world.inner.lastActivity + timeout cfg) x.now + nanos
  due : x.world.inner.session.isSome = true → ∀ i, g.installed = some i →
    x.nextTick ≤ max (x.world.inner.lastActivity + timeout cfg) i + nanos

lemma bounded_start (cfg : Config) (fs : FileSystem) (clock : ℕ) :
    Bounded cfg ⟨none, none⟩ (start fs clock : Timed Key) where
  used a h := by cases h
  past := le_rfl
  ahead := le_rfl
  asked c hc := by cases hc
  installed i h := by cases h
  known h := by cases h
  soon := by
    have hle : clock ≤ max (clock + timeout cfg) clock := Nat.le_max_right _ _
    simp only [start]
    omega
  due h := by cases h

variable {g : Marks} {x y : Timed Key}

lemma bounded_pass (hx : Bounded cfg g x) {d : ℕ} (h : step L cfg x (.pass d) = some y) :
    Bounded cfg g y := by
  simp only [step] at h
  split at h <;> cases h
  rename_i hd
  have hpast := hx.past
  have hsoon := hx.soon
  refine { hx with past := ?_, ahead := hd, installed := fun i hi => ?_, soon := ?_ }
  · simp only
    omega
  · have hi' := hx.installed i hi
    simp only
    omega
  · simp only
    omega

lemma bounded_touch (hx : Bounded cfg g x) :
    Bounded cfg { g with used := some x.now }
      { x with world := touch { env with clock := x.now } x.world } := by
  have hpast := hx.past
  have hsoon := hx.soon
  refine ⟨fun a ha => Option.some.inj ha, le_rfl, hx.ahead, fun _ _ _ => rfl, hx.installed,
    fun h => ⟨rfl, (hx.known h).2⟩, ?_, fun h i hi => ?_⟩
  · simp only [touch]
    omega
  · have hdue := hx.due h i hi
    simp only [touch]
    omega

lemma bounded_request (hx : Bounded cfg g x) {method : String} {params : Json}
    (h : step L cfg x (.request env method params) = some y) :
    Bounded cfg (g.note L cfg x (.request env method params) y) y := by
  have htouched : Bounded cfg (g.note L cfg x (.request env method params) y)
      { x with world :=
        if touches method then touch { env with clock := x.now } x.world else x.world } := by
    simp only [Marks.note]
    split
    · exact bounded_touch hx
    · exact hx
  simp only [step] at h
  split at h <;> cases h
  · rename_i c hc
    refine { htouched with asked := fun c' hc' hopens => ?_ }
    rcases List.mem_append.mp hc' with hold | hnew
    · exact htouched.asked c' hold hopens
    · rw [List.mem_singleton.mp hnew] at hopens
      have htouches := touches_of_opens hopens
      rw [← prepare_method hc] at htouches
      simp [Marks.note, htouches]
  · exact htouched

lemma bounded_carryOut (hx : Bounded cfg g x) {i : ℕ}
    (h : step L cfg x (.carryOut i env) = some y) :
    Bounded cfg (g.note L cfg x (.carryOut i env) y) y := by
  simp only [step] at h
  split at h <;> cases h
  rename_i c hc
  simp only [Marks.note, hc]
  have hactivity := exec_activity L cfg { env with clock := x.now } x.world c
  have hunlocked := exec_unlocked L cfg { env with clock := x.now } x.world c
  generalize exec L cfg { env with clock := x.now } x.world c = o at hactivity hunlocked
  have hpast := hx.past
  have hsoon := hx.soon
  have hasked : ∀ c' ∈ x.pending.eraseIdx i, opens c' = true → g.used.isSome = true :=
    fun c' hc' => hx.asked c' (List.mem_of_mem_eraseIdx hc')
  split
  · -- a session is installed now
    rename_i hopen
    refine ⟨fun a ha => ?_, ?_, hx.ahead, hasked, fun j hj => ?_, fun _ => ⟨?_, rfl⟩, ?_, ?_⟩
    · rw [← hx.used a ha]
      exact hactivity
    · rw [← hactivity] at hpast
      exact hpast
    · exact (Option.some.inj hj).ge
    · exact hx.asked c (List.mem_of_getElem? hc) hopen.1
    · rw [← hactivity] at hsoon
      exact hsoon
    · rintro - j hj
      rw [← Option.some.inj hj]
      rw [← hactivity] at hsoon
      exact hsoon
  · rename_i hclosed
    have hbefore : o.world.inner.session.isSome = true → x.world.inner.session.isSome = true :=
      fun h => (hunlocked h).resolve_right hclosed
    refine ⟨fun a ha => ?_, ?_, hx.ahead, hasked, hx.installed, fun h => hx.known (hbefore h), ?_,
      fun h j hj => ?_⟩
    · rw [← hx.used a ha]
      exact hactivity
    · rw [← hactivity] at hpast
      exact hpast
    · rw [← hactivity] at hsoon
      exact hsoon
    · have hdue := hx.due (hbefore h) j hj
      rw [← hactivity] at hdue
      exact hdue

lemma sleep_le {now last limit : ℕ} (hpast : last ≤ now) (hidle : now - last < limit) :
    now + max ((limit - (now - last)) / nanos) 1 * nanos ≤ last + limit + nanos := by
  have hdiv : (limit - (now - last)) / nanos * nanos ≤ limit - (now - last) :=
    Nat.div_mul_le_self _ _
  by_cases hzero : (limit - (now - last)) / nanos = 0
  · rw [hzero]
    simp only [Nat.zero_le, sup_of_le_right, one_mul]
    omega
  · rw [Nat.max_eq_left (Nat.one_le_iff_ne_zero.mpr hzero)]
    omega

/-- What a tick does: nothing while the vault is locked, and otherwise it locks it or sleeps on. -/
inductive Ticked (cfg : Config) (now : ℕ) (w : World Key) : World Key → ℕ → Prop
  | locked (h : w.inner.session = none) : Ticked cfg now w w 1
  | locks (h : w.inner.session.isSome = true)
    (hidle : timeout cfg ≤ now - w.inner.lastActivity) : Ticked cfg now w (w.withSession none) 1
  | waits (h : w.inner.session.isSome = true) (hidle : now - w.inner.lastActivity < timeout cfg) :
    Ticked cfg now w w (max ((timeout cfg - (now - w.inner.lastActivity)) / nanos) 1)

lemma ticked (hT : 0 < cfg.lockTimeout) (now : ℕ) (w : World Key) :
    Ticked cfg now w (autolockTick cfg now w).1 (autolockTick cfg now w).2.2 := by
  have hne : cfg.lockTimeout ≠ 0 := hT.ne'
  unfold autolockTick
  simp only [hne, false_or]
  split
  · rename_i hlocked
    exact .locked (Option.isNone_iff_eq_none.mp hlocked)
  · rename_i hunlocked
    have hsome : w.inner.session.isSome = true := by
      rw [← Option.not_isNone]
      exact Bool.not_eq_true' _ |>.mpr (Bool.eq_false_iff.mpr hunlocked)
    split
    · rename_i hidle
      exact .locks hsome hidle
    · rename_i hidle
      exact .waits hsome (Nat.lt_of_not_le hidle)

lemma bounded_tick (hT : 0 < cfg.lockTimeout) (hx : Bounded cfg g x)
    (h : step L cfg x .tick = some y) : Bounded cfg g y := by
  simp only [step] at h
  split at h <;> cases h
  have hpast := hx.past
  have hticked := ticked hT x.now x.world
  generalize autolockTick cfg x.now x.world = r at hticked
  obtain ⟨w, notes, secs⟩ := r
  simp only at hticked ⊢
  cases hticked with
  | locked hlocked =>
    refine { hx with ahead := ?_, soon := ?_, due := fun h => ?_ }
    · simp only
      omega
    · simp only
      omega
    · simp only [hlocked, Option.isSome_none, Bool.false_eq_true] at h
  | locks hunlocked hidle =>
    refine ⟨hx.used, hx.past, ?_, hx.asked, hx.installed, fun h => ?_, ?_, fun h => ?_⟩
    · simp only
      omega
    · cases h
    · simp only [World.withSession]
      omega
    · cases h
  | waits hunlocked hidle =>
    have hsleep := sleep_le hpast hidle
    refine { hx with ahead := ?_, soon := ?_, due := fun _ i hi => ?_ }
    · simp only
      omega
    · simp only
      omega
    · simp only
      omega

/-- **The idle auto-lock keeps its bound**: at every moment of every run at which the vault is
unlocked, no more than a second has passed since the timeout after the last use, or since the
session was installed if that was later. And a tick that locks comes after the timeout. -/
theorem boundHolds (L : Packages Key) (cfg : Config) (hT : 0 < cfg.lockTimeout) (fs : FileSystem)
    (clock : ℕ) (es : List Event) (x : Timed Key)
    (hrun : run (step L cfg) (start fs clock) es = some x) (g : Marks)
    (hg : g = history (step L cfg) (Marks.note L cfg) ⟨none, none⟩ (start fs clock) es) :
    (x.world.inner.session.isSome = true → ∃ a i, g.used = some a ∧ g.installed = some i ∧
      x.now ≤ max (a + timeout cfg) i + nanos) ∧
      ∀ y, step L cfg x .tick = some y → x.world.inner.session.isSome = true →
        y.world.inner.session = none → ∃ a, g.used = some a ∧ a + timeout cfg ≤ x.now := by
  have hstep : ∀ x g e y, Bounded cfg g x → True → step L cfg x e = some y →
      Bounded cfg (g.note L cfg x e y) y := by
    intro x g e y hx _ h
    cases e with
    | pass d => exact bounded_pass hx h
    | request env method params => exact bounded_request hx h
    | carryOut i env => exact bounded_carryOut hx h
    | tick => exact bounded_tick hT hx h
  have hx : Bounded cfg g x := by
    rw [hg]
    exact run_history_inv hstep (bounded_start cfg fs clock)
      (along_of_forall fun _ _ _ => trivial) hrun
  constructor
  · intro hunlocked
    obtain ⟨hused, hinstalled⟩ := hx.known hunlocked
    obtain ⟨a, ha⟩ := Option.isSome_iff_exists.mp hused
    obtain ⟨i, hi⟩ := Option.isSome_iff_exists.mp hinstalled
    refine ⟨a, i, ha, hi, ?_⟩
    calc x.now ≤ x.nextTick := hx.ahead
      _ ≤ max (x.world.inner.lastActivity + timeout cfg) i + nanos := hx.due hunlocked i hi
      _ = max (a + timeout cfg) i + nanos := by rw [hx.used a ha]
  · intro y hy hunlocked hlocked
    obtain ⟨a, ha⟩ := Option.isSome_iff_exists.mp (hx.known hunlocked).1
    refine ⟨a, ha, ?_⟩
    simp only [step] at hy
    split at hy <;> cases hy
    have hpast := hx.past
    have hticked := ticked hT x.now x.world
    generalize autolockTick cfg x.now x.world = r at hticked hlocked
    obtain ⟨w, notes, secs⟩ := r
    simp only at hticked hlocked
    rw [← hx.used a ha]
    cases hticked with
    | locked h | waits h =>
      rw [hlocked] at hunlocked
      cases hunlocked
    | locks _ hidle => omega

/-- A vault is created half a second after the request, and left alone until the timer wakes. -/
def leftAlone : List Event :=
  [.tick, .request Sample.env "vault.create" (.obj [("password", .str "pw")]), .pass (nanos / 2),
    .carryOut 0 Sample.env, .pass (nanos / 2), .tick, .pass (899 * nanos)]

theorem boundHolds_leftAlone :
    ∃ x, run (step Sample.packages Sample.config) (start (fun _ => none) 0) leftAlone = some x ∧
      ∃ g, g = history (step Sample.packages Sample.config)
          (Marks.note Sample.packages Sample.config) ⟨none, none⟩
          (start (fun _ => none) 0) leftAlone ∧
        (∃ a i, g.used = some a ∧ g.installed = some i ∧
          x.now ≤ max (a + timeout Sample.config) i + nanos) ∧
        ∃ y, step Sample.packages Sample.config x .tick = some y ∧ y.world.inner.session = none ∧
          ∃ a, g.used = some a ∧ a + timeout Sample.config ≤ x.now := by
  have hends : (run (step Sample.packages Sample.config) (start (fun _ => none) 0) leftAlone).any
      (fun x => x.world.inner.session.isSome && (step Sample.packages Sample.config x .tick).any
        fun y => y.world.inner.session.isNone) = true := by decide +kernel
  obtain ⟨x, hrun, hx⟩ := (Option.any_eq_true _ _).mp hends
  obtain ⟨hunlocked, hlocks⟩ := Bool.and_eq_true_iff.mp hx
  obtain ⟨y, hy, hlocked⟩ := (Option.any_eq_true _ _).mp hlocks
  have hnone := Option.isNone_iff_eq_none.mp hlocked
  obtain ⟨hbound, hafter⟩ := boundHolds Sample.packages Sample.config (by decide) (fun _ => none) 0
    leftAlone x hrun _ rfl
  exact ⟨x, hrun, _, rfl, hbound hunlocked, y, hy, hnone, hafter y hy hunlocked hnone⟩

end LvimKeyring.IdleLock
