import LvimKeyring.Lib.Disk
import LvimKeyring.Lib.Transition

/-!
The daemon processes of one user, from `serve_socket` to their exit.

A lock of `flock` belongs to a file and not to a name, and the socket file is removed by its
name, at the start of a process and on every way out of it. What keeps the processes apart is
that the lock file keeps its name and that a socket file is removed under the lock only.
-/

namespace LvimKeyring.Host

open Transition

/-- The characters of a path from its end, without slashes and `.` components that end it. -/
def trimEnd : List Char → List Char
  | '/' :: cs => trimEnd cs
  | '.' :: '/' :: cs => trimEnd cs
  | cs => cs

/-- `Path::with_extension`: what follows the last dot of the file name is replaced, unless that
dot begins it, and a path without a file name is left as it is. -/
def withExtension (path ext : String) : String :=
  let chars := trimEnd path.toList.reverse
  let name := chars.takeWhile (· ≠ '/')
  if name = [] ∨ name = ['.'] ∨ name = ['.', '.'] then path
  else
    let before := (name.dropWhile (· ≠ '.')).drop 1
    let stem := if before = [] then name else before
    .ofList ((chars.drop name.length).reverse ++ stem.reverse ++ '.' :: ext.toList)

def lockPath (path : String) : String := withExtension path "lock"

/-- Where a process is in `serve_socket`, with the lock file it has open and its socket file. -/
inductive Stage
  | absent
  | opening
  | locking (lock : ℕ)
  /-- It has the lock, and is about to remove what has the name of its socket. -/
  | clearing (lock : ℕ)
  | binding (lock : ℕ)
  | listening (lock sock : ℕ)
  | serving (lock sock : ℕ)
  | gone
  deriving DecidableEq

/-- Where a task that ends the process is: the last client's, the linger timer's or that of
SIGTERM. -/
inductive Leaving
  | idle
  | locking
  | unlinking
  | exiting
  deriving DecidableEq

structure State where
  disk : Disk String UInt8
  holder : ℕ → Option ℕ
  stage : ℕ → Stage
  leaving : ℕ → ℕ → Leaving

/-- A step of process `p`; `ok` says whether its system call succeeds. -/
inductive Event
  | spawn (p : ℕ)
  | openLock (p : ℕ) (ok : Bool)
  | flock (p : ℕ)
  | clear (p : ℕ) (ok : Bool)
  | bind (p : ℕ) (ok : Bool)
  | listen (p : ℕ) (ok : Bool)
  | leave (p k : ℕ)
  | lock (p k : ℕ)
  | unlink (p k : ℕ) (ok : Bool)
  | exit (p k : ℕ)
  | crash (p : ℕ)

def Event.process : Event → ℕ
  | .spawn p | .openLock p _ | .flock p | .clear p _ | .bind p _ | .listen p _ | .leave p _
  | .lock p _ | .unlink p _ _ | .exit p _ | .crash p => p

/-- The process whose wallet is locked on the way out. -/
def Event.locks : Event → Option ℕ
  | .lock p _ => some p
  | _ => none

namespace Stage

def alive : Stage → Bool
  | .absent | .gone => false
  | _ => true

/-- The lock file the process has open. -/
def opened : Stage → Option ℕ
  | .locking lock | .clearing lock | .binding lock | .listening lock _ | .serving lock _ =>
    some lock
  | _ => none

/-- The lock file whose lock the process has. -/
def held : Stage → Option ℕ
  | .clearing lock | .binding lock | .listening lock _ | .serving lock _ => some lock
  | _ => none

/-- The socket file the process has bound. -/
def bound : Stage → Option ℕ
  | .listening _ sock | .serving _ sock => some sock
  | _ => none

/-- Before its `flock`. -/
def early : Stage → Bool
  | .absent | .opening | .locking _ => true
  | _ => false

def serves : Stage → Bool
  | .serving _ _ => true
  | _ => false

end Stage

lemma opened_of_held {st : Stage} {lock : ℕ} (hst : st.held = some lock) :
    st.opened = some lock := by
  cases st with
  | clearing | binding | listening | serving => exact hst
  | absent | opening | locking | gone => cases hst

lemma held_of_bound {st : Stage} {file : ℕ} (hst : st.bound = some file) : st.held.isSome := by
  cases st with
  | listening | serving => rfl
  | absent | opening | locking | clearing | binding | gone => cases hst

lemma held_of_serves {st : Stage} (hst : st.serves = true) : st.held.isSome := by
  cases st with
  | serving => rfl
  | absent | opening | locking | clearing | binding | listening | gone => cases hst

namespace State

def withStage (h : State) (p : ℕ) (st : Stage) : State :=
  { h with stage := Function.update h.stage p st }

/-- The end of a process, after which the kernel takes its locks away. -/
def die (h : State) (p : ℕ) : State :=
  { h with
    stage := Function.update h.stage p .gone
    holder := fun i => if h.holder i = some p then none else h.holder i }

def withLeaving (h : State) (p k : ℕ) (l : Leaving) : State :=
  { h with leaving := Function.update h.leaving p (Function.update (h.leaving p) k l) }

/-- `remove_file`, whose error nobody looks at. -/
def removeFile (h : State) (path : String) (ok : Bool) : State :=
  if ok then { h with disk := h.disk.remove path } else h

end State

/-- One step, process `p` having been started with the socket path `sock p`. -/
def step (sock : ℕ → String) (h : State) : Event → Option State
  | .spawn p => if h.stage p = .absent then some (h.withStage p .opening) else none
  | .openLock p ok =>
    if h.stage p = .opening then
      if ok then
        let (disk, lock) := h.disk.openCreate (lockPath (sock p))
        some ({ h with disk }.withStage p (.locking lock))
      else some (h.die p)
    else none
  | .flock p =>
    match h.stage p with
    | .locking lock =>
      if h.holder lock = none then
        some ({ h with holder := Function.update h.holder lock (some p) }.withStage p
          (.clearing lock))
      -- Another live daemon holds the lock and owns the socket.
      else some (h.die p)
    | _ => none
  | .clear p ok =>
    match h.stage p with
    | .clearing lock => some ((h.removeFile (sock p) ok).withStage p (.binding lock))
    | _ => none
  | .bind p ok =>
    match h.stage p with
    | .binding lock =>
      if ok ∧ h.disk.name (sock p) = none then
        let (disk, file) := h.disk.openTrunc (sock p)
        some ({ h with disk }.withStage p (.listening lock file))
      else some (h.die p)
    | _ => none
  | .listen p ok =>
    match h.stage p with
    | .listening lock file =>
      some (if ok then h.withStage p (.serving lock file) else h.die p)
    | _ => none
  | .leave p k =>
    if (h.stage p).serves ∧ h.leaving p k = .idle then some (h.withLeaving p k .locking) else none
  | .lock p k =>
    if (h.stage p).serves ∧ h.leaving p k = .locking then some (h.withLeaving p k .unlinking)
    else none
  | .unlink p k ok =>
    if (h.stage p).serves ∧ h.leaving p k = .unlinking then
      some ((h.removeFile (sock p) ok).withLeaving p k .exiting)
    else none
  | .exit p k =>
    if (h.stage p).serves ∧ h.leaving p k = .exiting then some (h.die p) else none
  | .crash p => if (h.stage p).alive then some (h.die p) else none

/-- The machine before any daemon has been started. -/
def start (disk : Disk String UInt8) : State where
  disk
  holder _ := none
  stage _ := .absent
  leaving _ _ := .idle

/-! ### The statement -/

/-- At most one process is between its successful `flock` and its exit. -/
def Exclusive (h : State) : Prop :=
  ∀ p q, (h.stage p).held.isSome → (h.stage q).held.isSome → p = q

/-- The step removes no socket file that a live process other than its own has bound. -/
def Spares (sock : ℕ → String) (h : State) (e : Event) : Prop :=
  ∀ h', step sock h e = some h' → ∀ q file path, q ≠ e.process →
    (h.stage q).bound = some file → h.disk.name path = some file → h'.disk.name path = some file

/-! ### What a step does -/

variable {sock : ℕ → String} {h h' : State} {p : ℕ}

/-- How process `p` moves on: it takes the lock of its lock file, or dies, or has what locks it
had. -/
inductive Advance (h h' : State) (p : ℕ) : Prop
  | rest (hheld : (h'.stage p).held = (h.stage p).held) (hholder : h'.holder = h.holder)
    (hearly : (h'.stage p).early = true → (h.stage p).early = true)
  | flock (lock : ℕ) (hlocking : h.stage p = .locking lock) (hfree : h.holder lock = none)
    (hclearing : h'.stage p = .clearing lock)
    (hholder : h'.holder = Function.update h.holder lock (some p))
  | die (hgone : h'.stage p = .gone)
    (hholder : ∀ q lock, q ≠ p → h.holder lock = some q → h'.holder lock = some q)

/-- What a step of process `p` can do. -/
structure Effect (sock : ℕ → String) (h h' : State) (p : ℕ) : Prop where
  others : ∀ q, q ≠ p → h'.stage q = h.stage q
  advance : Advance h h' p
  opened : ∀ lock, (h'.stage p).opened = some lock → (h.stage p).opened = some lock ∨
    h'.disk.name (lockPath (sock p)) = some lock
  name : ∀ path file, h.disk.name path = some file → h'.disk.name path = some file ∨
    path = sock p ∧ (h.stage p).held.isSome

lemma removeFile_name {path other : String} {ok : Bool} (hne : other ≠ path) :
    (h.removeFile path ok).disk.name other = h.disk.name other := by
  cases ok with
  | true => exact Disk.remove_name_of_ne hne
  | false => rfl

@[simp] lemma removeFile_stage {path : String} {ok : Bool} :
    (h.removeFile path ok).stage = h.stage := by
  cases ok <;> rfl

@[simp] lemma removeFile_holder {path : String} {ok : Bool} :
    (h.removeFile path ok).holder = h.holder := by
  cases ok <;> rfl

@[simp] lemma withStage_self (st : Stage) : (h.withStage p st).stage p = st :=
  Function.update_self _ _ _

lemma effect_die (sock : ℕ → String) (h : State) (p : ℕ) : Effect sock h (h.die p) p where
  others _ hq := Function.update_of_ne hq _ _
  advance := by
    refine .die (Function.update_self _ _ _) fun q lock hq hholder => ?_
    have hne : h.holder lock ≠ some p := by
      rw [hholder]
      exact fun heq => hq (Option.some.inj heq)
    exact (if_neg hne).trans hholder
  opened lock hlock := by
    simp only [State.die, Function.update_self] at hlock
    cases hlock
  name _ _ hname := .inl hname

lemma effect_withStage {st : Stage} (hheld : st.held = (h.stage p).held)
    (hearly : st.early = true → (h.stage p).early = true)
    (hopened : ∀ lock, st.opened = some lock → (h.stage p).opened = some lock) :
    Effect sock h (h.withStage p st) p where
  others _ hq := Function.update_of_ne hq _ _
  advance := .rest (by rw [withStage_self, hheld]) rfl (by rw [withStage_self]; exact hearly)
  opened lock hlock := .inl (hopened lock (by rwa [withStage_self] at hlock))
  name _ _ hname := .inl hname

lemma effect_withLeaving (sock : ℕ → String) (h : State) (p k : ℕ) (l : Leaving) :
    Effect sock h (h.withLeaving p k l) p :=
  ⟨fun _ _ => rfl, .rest rfl rfl id, fun _ => .inl, fun _ _ => .inl⟩

lemma Effect.after_removeFile {ok : Bool}
    (heffect : Effect sock (h.removeFile (sock p) ok) h' p)
    (hheld : (h.stage p).held.isSome) : Effect sock h h' p where
  others q hq := by rw [heffect.others q hq, removeFile_stage]
  advance := by
    cases heffect.advance with
    | rest hh hholder hearly =>
      rw [removeFile_stage] at hh hearly
      exact .rest hh (hholder.trans removeFile_holder) hearly
    | flock lock hlocking =>
      rw [removeFile_stage] at hlocking
      rw [hlocking] at hheld
      cases hheld
    | die hgone hholder =>
      rw [removeFile_holder] at hholder
      exact .die hgone hholder
  opened lock hlock := by
    have hopened := heffect.opened lock hlock
    rwa [removeFile_stage] at hopened
  name path file hname := by
    by_cases hpath : path = sock p
    · exact .inr ⟨hpath, hheld⟩
    · have hkept := heffect.name path file (by rw [removeFile_name hpath, hname])
      rwa [removeFile_stage] at hkept

lemma effect_openLock {ok : Bool} (hs : step sock h (.openLock p ok) = some h') :
    Effect sock h h' p := by
  simp only [step] at hs
  split at hs
  · rename_i hopening
    split at hs <;> cases hs
    · refine ⟨fun q hq => Function.update_of_ne hq _ _, .rest ?_ rfl fun _ => ?_,
        fun lock hlock => ?_,
        fun path file hname => .inl (Disk.openCreate_keeps hname)⟩
      · rw [withStage_self, hopening]
        rfl
      · rw [hopening]
        rfl
      · rw [withStage_self] at hlock
        cases hlock
        exact .inr (Disk.openCreate_name h.disk (lockPath (sock p)))
    · exact effect_die sock h p
  · cases hs

lemma effect_flock (hs : step sock h (.flock p) = some h') : Effect sock h h' p := by
  simp only [step] at hs
  split at hs
  · rename_i lock hlocking
    split at hs <;> cases hs
    · rename_i hfree
      refine ⟨fun q hq => Function.update_of_ne hq _ _,
        .flock lock hlocking hfree (withStage_self _) rfl, fun i hi => ?_, fun _ _ => .inl⟩
      rw [withStage_self] at hi
      rw [hlocking]
      exact .inl hi
    · exact effect_die sock h p
  · cases hs

lemma effect_bind {ok : Bool} (hs : step sock h (.bind p ok) = some h') : Effect sock h h' p := by
  simp only [step] at hs
  split at hs
  · rename_i lock hbinding
    split at hs <;> cases hs
    · rename_i hfree
      refine ⟨fun q hq => Function.update_of_ne hq _ _, .rest ?_ rfl fun hearly => ?_,
        fun i hi => ?_, fun path file hname => .inl ?_⟩
      · rw [withStage_self, hbinding]
        rfl
      · rw [withStage_self] at hearly
        cases hearly
      · rw [withStage_self] at hi
        rw [hbinding]
        exact .inl hi
      · have hne : path ≠ sock p := by
          rintro rfl
          rw [hfree.2] at hname
          cases hname
        exact (Disk.openTrunc_name_of_ne hne).trans hname
    · exact effect_die sock h p
  · cases hs

theorem step_effect {e : Event} (hs : step sock h e = some h') : Effect sock h h' e.process := by
  cases e with
  | openLock p ok => exact effect_openLock hs
  | flock p => exact effect_flock hs
  | bind p ok => exact effect_bind hs
  | spawn p =>
    simp only [step] at hs
    split at hs <;> cases hs
    rename_i habsent
    refine effect_withStage (p := p) ?_ (fun _ => ?_) (fun _ hlock => by cases hlock) <;>
      rw [habsent] <;> rfl
  | clear p ok =>
    simp only [step] at hs
    split at hs <;> cases hs
    rename_i lock hclearing
    have hnext : Effect sock (h.removeFile (sock p) ok)
        ((h.removeFile (sock p) ok).withStage p (.binding lock)) p := by
      refine effect_withStage ?_ (fun hearly => by cases hearly) (fun i hi => ?_) <;>
        rw [removeFile_stage, hclearing]
      · rfl
      · exact hi
    exact hnext.after_removeFile (by rw [hclearing]; rfl)
  | listen p ok =>
    simp only [step] at hs
    split at hs
    · rename_i lock file hlistening
      cases ok with
      | true =>
        cases hs
        refine effect_withStage (p := p) ?_ (fun hearly => by cases hearly) (fun i hi => ?_) <;>
          rw [hlistening]
        · rfl
        · exact hi
      | false =>
        cases hs
        exact effect_die sock h p
    · cases hs
  | leave p k | lock p k =>
    simp only [step] at hs
    split at hs <;> cases hs
    exact effect_withLeaving sock h p k _
  | unlink p k ok =>
    simp only [step] at hs
    split at hs <;> cases hs
    rename_i hserves
    -- The removal is by path, also where the name is another process's by now.
    exact (effect_withLeaving sock _ p k _).after_removeFile (held_of_serves hserves.1)
  | exit p k | crash p =>
    simp only [step] at hs
    split at hs <;> cases hs
    exact effect_die sock h p

lemma flock_of_clearing {e : Event} {lock other : ℕ} (hs : step sock h e = some h')
    (hlocking : h.stage e.process = .locking lock)
    (hclearing : h'.stage e.process = .clearing other) : e = .flock e.process := by
  cases e with
  | flock p => rfl
  | crash p =>
    simp only [step] at hs
    split at hs <;> cases hs
    simp [State.die, Event.process] at hclearing
  | _ =>
    simp only [Event.process] at hlocking
    simp [step, hlocking, Stage.serves] at hs

/-! ### The invariant -/

/-- The lock a process is past its `flock` on it has. -/
def Held (h : State) : Prop := ∀ p lock, (h.stage p).held = some lock → h.holder lock = some p

/-- A lock file keeps its name while a process has it open. -/
def Named (sock : ℕ → String) (h : State) : Prop :=
  ∀ p lock, (h.stage p).opened = some lock → h.disk.name (lockPath (sock p)) = some lock

theorem held_step {e : Event} (hheld : Held h) (hs : step sock h e = some h') : Held h' := by
  intro q lock hq
  have heffect := step_effect hs
  by_cases hqp : q = e.process
  · subst hqp
    cases heffect.advance with
    | rest hh hholder =>
      rw [hholder]
      exact hheld _ lock (hh ▸ hq)
    | flock i hlocking hfree hclearing hholder =>
      rw [hclearing] at hq
      cases hq
      rw [hholder, Function.update_self]
    | die hgone =>
      rw [hgone] at hq
      cases hq
  · rw [heffect.others q hqp] at hq
    have hold := hheld q lock hq
    cases heffect.advance with
    | rest hh hholder => rwa [hholder]
    | flock i hlocking hfree hclearing hholder =>
      have hne : lock ≠ i := by
        rintro rfl
        rw [hfree] at hold
        cases hold
      rwa [hholder, Function.update_of_ne hne]
    | die hgone hholder => exact hholder q lock hqp hold

theorem named_step (hsock : ∀ p q, lockPath (sock q) ≠ sock p) {e : Event} (hnamed : Named sock h)
    (hs : step sock h e = some h') : Named sock h' := by
  intro q lock hq
  have heffect := step_effect hs
  have hkeeps (hold : h.disk.name (lockPath (sock q)) = some lock) :
      h'.disk.name (lockPath (sock q)) = some lock := by
    rcases heffect.name _ lock hold with hname | ⟨hpath, -⟩
    · exact hname
    · exact absurd hpath (hsock e.process q)
  by_cases hqp : q = e.process
  · subst hqp
    rcases heffect.opened lock hq with hold | hname
    · exact hkeeps (hnamed _ lock hold)
    · exact hname
  · rw [heffect.others q hqp] at hq
    exact hkeeps (hnamed q lock hq)

lemma Held.same (hheld : Held h) (hnamed : Named sock h) {q : ℕ}
    (hpath : lockPath (sock p) = lockPath (sock q)) (hp : (h.stage p).held.isSome)
    (hq : (h.stage q).held.isSome) : p = q := by
  obtain ⟨i, hi⟩ := Option.isSome_iff_exists.mp hp
  obtain ⟨j, hj⟩ := Option.isSome_iff_exists.mp hq
  have hname := hnamed p i (opened_of_held hi)
  rw [hpath, hnamed q j (opened_of_held hj)] at hname
  have hholder := hheld p i hi
  rw [← Option.some.inj hname, hheld q j hj] at hholder
  exact (Option.some.inj hholder).symm

lemma held_start (disk : Disk String UInt8) : Held (start disk) := fun _ _ hi => by cases hi

lemma named_start (sock : ℕ → String) (disk : Disk String UInt8) : Named sock (start disk) :=
  fun _ _ hi => by cases hi

theorem inv_run (hsock : ∀ p q, lockPath (sock q) ≠ sock p) {disk : Disk String UInt8}
    {es : List Event} (hrun : run (step sock) (start disk) es = some h) :
    Held h ∧ Named sock h := by
  have hany : Along (step sock) (fun _ _ => True) (start disk) es :=
    along_of_forall fun _ _ _ => trivial
  have hinv : ∀ h e h', (Held h ∧ Named sock h) → True → step sock h e = some h' →
      Held h' ∧ Named sock h' := by
    intro h e h' hinv _ hs
    exact ⟨held_step hinv.1 hs, named_step hsock hinv.2 hs⟩
  exact run_inv hinv ⟨held_start disk, named_start sock disk⟩ hany hrun

/-- Of any number of daemons started on one socket path, at most one is past its `flock` at any
time, and no other process removes the socket file it has bound. -/
theorem singleton (path : String) (hlock : lockPath path ≠ path) (disk : Disk String UInt8)
    (es : List Event) (h : State) (hrun : run (step fun _ => path) (start disk) es = some h) :
    Exclusive h ∧ ∀ e, Spares (fun _ => path) h e := by
  obtain ⟨hheld, hnamed⟩ := inv_run (fun _ _ => hlock) hrun
  refine ⟨fun p q hp hq => hheld.same hnamed rfl hp hq, fun e h' hs q file r hq hbound hname => ?_⟩
  rcases (step_effect hs).name r file hname with hkept | ⟨-, hremoves⟩
  · exact hkept
  · exact absurd (hheld.same hnamed rfl (held_of_bound hbound) hremoves) hq

/-- The first daemon binds its socket, a second one defers to it, the first is killed, and a
third one clears what it left and exits when its last client does. -/
def handedOn : List Event :=
  [.spawn 0, .openLock 0 true, .flock 0, .clear 0 false, .bind 0 true, .spawn 1, .spawn 2,
    .openLock 1 true, .listen 0 true, .openLock 2 true, .flock 1, .crash 0, .flock 2,
    .clear 2 true, .bind 2 true, .listen 2 true, .leave 2 0, .lock 2 0, .unlink 2 0 true]

theorem singleton_handedOn : ∃ h,
    run (step fun _ => "agent.sock") (start .empty) handedOn = some h ∧
      h.stage 1 = .gone ∧ (h.stage 2).serves = true ∧
      Exclusive h ∧ ∀ e, Spares (fun _ => "agent.sock") h e := by
  have hend : (run (step fun _ => "agent.sock") (start .empty) handedOn).map
      (fun h => (h.stage 1, h.stage 2)) = some (.gone, .serving 0 2) := by
    decide +kernel
  obtain ⟨h, hrun, hstages⟩ := Option.map_eq_some_iff.mp hend
  have hstage₂ : h.stage 2 = .serving 0 2 := congrArg Prod.snd hstages
  exact ⟨h, hrun, congrArg Prod.fst hstages, by rw [hstage₂]; rfl,
    singleton "agent.sock" (by decide +kernel) .empty handedOn h hrun⟩

end LvimKeyring.Host
