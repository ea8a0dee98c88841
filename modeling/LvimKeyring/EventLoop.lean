import Mathlib.Logic.Function.Basic
import LvimKeyring.Crypto
import LvimKeyring.Lib.Transition
import LvimKeyring.Rpc

/-!
The Lua client: its connection, the requests on it, and the event loop that drives it.

Neovim runs one piece of Lua at a time. What runs is a stack of frames: the client's own
functions, each cut where a system call of it or a callback may let something happen, and
the callbacks they call, which are anything. A callback that waits lets the loop run, so
what libuv and `vim.schedule` have in store may come whenever the topmost frame is a
callback or the stack is empty.
-/

namespace LvimKeyring.EventLoop

open Rpc Crypto Transition

/-! ### Values -/

/-- What `tonumber` makes of a value: how it prints, and whether it lies below an integer. -/
structure Number where
  text : String
  below : ℤ → Bool

/-- What the client uses of Neovim. -/
structure Neovim where
  /-- `vim.json.decode`, nothing where it raises. -/
  decode : Bytes → Option Json
  tonumber : Option Json → Option Number

def field (j : Json) (name : String) : Option Json :=
  match j with
  | .obj kvs => kvs.lookup name
  | _ => none

def isTable : Json → Bool
  | .obj _ | .arr _ => true
  | _ => false

/-- Everything but `nil` and `false`. -/
def truthy : Option Json → Bool
  | none | some (.bool false) => false
  | _ => true

/-- An id as a key of the pending table. -/
def key : Json → Option ℕ
  | .num n => if 0 ≤ n then some n.toNat else none
  | _ => none

/-- What a callback of `M.request` is called with. -/
abbrev Answer := Except Json (Option Json)

/-- The answer a response carries. -/
def answer (msg : Json) : Answer :=
  if truthy (field msg "ok") then .ok (field msg "result")
  else .error (((field msg "error").filter fun e => truthy (some e)).getD (.str "unknown error"))

/-- `PROTO_MIN` -/
def protoMin : ℤ := 1

/-- What the handshake makes of the answer to `rpc.hello`. -/
def greeting (N : Neovim) : Answer → Except Json Unit
  | .error e => .error e
  | .ok none => .error (.str "handshake failed")
  | .ok (some result) =>
    if !isTable result then .error (.str "handshake failed")
    else
      let proto := N.tonumber (field result "proto")
      if proto.elim true (·.below protoMin) then
        .error (.str ("backend protocol " ++ proto.elim "nil" (·.text) ++ " is too old (need ≥ "
          ++ toString protoMin ++ ")"))
      else .ok ()

/-! ### Lines -/

def newline : UInt8 := 10

def isSpace (b : UInt8) : Bool := b = 32 || (9 ≤ b && b ≤ 13)

/-- `vim.trim` -/
def trim (bs : Bytes) : Bytes := ((bs.dropWhile isSpace).reverse.dropWhile isSpace).reverse

/-- The first line, and what follows its newline. -/
def splitLine (bs : Bytes) : Option (Bytes × Bytes) :=
  match bs.dropWhile (· ≠ newline) with
  | [] => none
  | _ :: rest => some (bs.takeWhile (· ≠ newline), rest)

/-- The message of a line, if it is one. -/
def message (N : Neovim) (line : Bytes) : Option Json :=
  if trim line = [] then none else (N.decode (trim line)).filter isTable

/-! ### The client -/

/-- An entry of `ensure_waiters`: a callback of `M.ensure`, or the one `M.request` gives it. -/
inductive Waiter
  | ensure (k : ℕ)
  | request (k : ℕ) (method : String) (params : Option Json)

/-- An entry of the pending table. -/
inductive Handler
  | handshake
  | request (k : ℕ)
  deriving DecidableEq

/-- What a connect is for: the first one of an attempt, or one from its retry timer. -/
inductive Purpose
  | first (attempt : ℕ)
  | retry (attempt : ℕ)
  deriving DecidableEq

def Purpose.attempt : Purpose → ℕ
  | .first a | .retry a => a

inductive Pipe
  | unused
  | connecting
  | connected
  | reading
  | ended
  | closed
  deriving DecidableEq

/-- The retry timer of an attempt. -/
structure Timer where
  tries : ℕ
  active : Bool
  deriving DecidableEq

/-- What `vim.schedule` has been given. -/
inductive Task
  /-- `cb(false)`; the connect is surplus when it is over after another pipe has won. -/
  | failed (purpose : Purpose) (surplus : Bool)
  /-- `on_connected` and `cb(true)` -/
  | connected (p : ℕ) (purpose : Purpose)
  | chunk (p : ℕ) (bytes : Bytes)
  | ended (p : ℕ)
  | readError (p : ℕ) (err : String)
  | retry (attempt : ℕ)
  deriving DecidableEq

inductive Frame
  /-- A callback or a handler, called under `pcall` or not. -/
  | user (guarded : Bool)
  /-- The loop over the waiters, and what they are told. -/
  | waiters (ws : List Waiter) (r : Except Json Unit)
  /-- The two loops of `teardown`. -/
  | dead (callbacks : List (ℕ × Handler)) (err : Json)
  | reading
  /-- `M.ensure`: about to check the directory of the socket, and about to connect. -/
  | vet (attempt : ℕ)
  | dial (attempt : ℕ)
  /-- The first connect of an attempt has failed: about to make the directory, and about to
  start the agent and the timer. -/
  | mkdir (attempt : ℕ)
  | spawn (attempt : ℕ)

/-- A request as it is written. -/
structure Sent where
  id : ℕ
  method : String
  params : Json

/-- A call of a callback given to `M.ensure` or to `M.request`. -/
inductive Call
  | ensured (k : ℕ) (r : Except Json Unit)
  | answered (k : ℕ) (r : Answer)

/-- The connection, the attempts to get one, and what the loop and the stack have of them. -/
structure Link where
  pipe : Option ℕ
  connecting : Bool
  waiters : List Waiter
  pipes : ℕ → Pipe
  dials : List Purpose
  timers : ℕ → Timer
  queue : List Task
  stack : List Frame
  /-- How many attempts to connect were begun, and how many before the last teardown. -/
  attempts : ℕ
  torn : ℕ

structure Client extends Link where
  ready : Bool
  readTail : Bytes
  idSeq : ℕ
  pending : List (ℕ × Handler)
  issued : List (ℕ × Handler)
  handlers : List String
  sent : ℕ → List Sent
  /-- What `M.request` was called with, in the order of its calls. -/
  given : List (String × Option Json)
  ensures : ℕ
  calls : List Call

def Client.new : Client where
  pipe := none
  connecting := false
  waiters := []
  pipes _ := .unused
  dials := []
  timers _ := ⟨0, false⟩
  queue := []
  stack := []
  attempts := 0
  torn := 0
  ready := false
  readTail := []
  idSeq := 0
  pending := []
  issued := []
  handlers := []
  sent _ := []
  given := []
  ensures := 0
  calls := []

/-- What the system calls of a frame or a task return. -/
structure Surroundings where
  /-- `socket_dir_secure` -/
  vetted : Except Json Unit
  binary : Bool
  pipe : Bool
  timer : Bool

namespace Client

def push (f : Frame) (c : Client) : Client := { c with stack := f :: c.stack }

def schedule (t : Task) (c : Client) : Client := { c with queue := c.queue ++ [t] }

/-- Without a pipe, nothing is sent. -/
def send (s : Sent) (c : Client) : Client :=
  { c with sent := c.pipe.elim c.sent fun p => Function.update c.sent p (c.sent p ++ [s]) }

/-- A request gets an id, its callback an entry in the pending table, and it is sent. -/
def issue (h : Handler) (method : String) (params : Json) (c : Client) : Client :=
  let id := c.idSeq + 1
  ({ c with
    idSeq := id
    pending := c.pending ++ [(id, h)]
    issued := c.issued ++ [(id, h)] } : Client).send ⟨id, method, params⟩

def teardown (err : Json) (c : Client) : Client :=
  { c with
    ready := false
    connecting := false
    readTail := []
    pipes := c.pipe.elim c.pipes fun p => Function.update c.pipes p .closed
    pipe := none
    pending := []
    stack := .dead c.pending err :: c.stack
    torn := c.attempts }

/-- A callback of `M.ensure` is called. The one of `M.request` calls the callback it was given
only to hand on an error. -/
def tell (guarded : Bool) (w : Waiter) (r : Except Json Unit) (c : Client) : Client :=
  match w, r with
  | .ensure k, r => ({ c with calls := c.calls ++ [.ensured k r] } : Client).push (.user guarded)
  | .request k _ _, .error e =>
    ({ c with calls := c.calls ++ [.answered k (.error e)] } : Client).push (.user guarded)
  | .request k method params, .ok () => c.issue (.request k) method (params.getD (.obj []))

/-- The callback of the handshake. -/
def greeted (N : Neovim) (r : Answer) (c : Client) : Client :=
  let ws := c.waiters
  let c := { c with waiters := [], connecting := false }
  match greeting N r with
  | .error e => (c.push (.waiters ws (.error e))).teardown e
  | .ok () =>
    let c := ({ c with ready := true } : Client).push (.waiters ws (.ok ()))
    if "vault.state" ∈ c.handlers then c.push (.user true) else c

/-- A pending callback is called; `teardown` calls it under `pcall`. -/
def settle (N : Neovim) (guarded : Bool) (h : Handler) (r : Answer) (c : Client) : Client :=
  match h with
  | .handshake => c.greeted N r
  | .request k => ({ c with calls := c.calls ++ [.answered k r] } : Client).push (.user guarded)

/-- The entry under an id leaves the pending table. -/
def forget (id : ℕ) (c : Client) : Client :=
  { c with pending := c.pending.eraseP (·.1 == id) }

def onMessage (N : Neovim) (msg : Json) (c : Client) : Client :=
  match field msg "id" with
  | some i =>
    match key i with
    | none => c
    | some id =>
      match c.pending.lookup id with
      | none => c
      | some h => (c.forget id).settle N false h (answer msg)
  | none =>
    match field msg "method" with
    | some (.str m) => if m ∈ c.handlers then c.push (.user true) else c
    | _ => c

/-- One turn of the loop of `on_read`, the frame of which is on top of the rest. -/
def onRead (N : Neovim) (rest : List Frame) (c : Client) : Client :=
  match splitLine c.readTail with
  | none => { c with stack := rest }
  | some (line, tail) =>
    let c := { c with readTail := tail }
    match message N line with
    | none => c
    | some msg => c.onMessage N msg

def onConnected (c : Client) : Client :=
  match c.pipe with
  | none => c
  | some p =>
    ({ c with pipes := Function.update c.pipes p .reading } : Client).issue .handshake "rpc.hello"
      (.obj [])

def tryConnect (purpose : Purpose) (made : Bool) (c : Client) : Client :=
  if made then
    { c with
      pipes := Function.update c.pipes c.dials.length .connecting
      dials := c.dials ++ [purpose] }
  else c.schedule (.failed purpose false)

def ensure (w : Waiter) (c : Client) : Client :=
  if c.ready ∧ c.pipe.isSome then c.tell false w (.ok ())
  else
    let c := { c with waiters := c.waiters ++ [w] }
    if c.connecting then c
    else ({ c with connecting := true, attempts := c.attempts + 1 } : Client).push (.vet c.attempts)

def request (method : String) (params : Option Json) (c : Client) : Client :=
  ({ c with given := c.given ++ [(method, params)] } : Client).ensure
    (.request c.given.length method params)

def stop (c : Client) : Client := c.teardown (.str "client stopped")

/-- The timer of an attempt is stopped and closed. -/
def closeTimer (a : ℕ) (c : Client) : Client :=
  { c with timers := Function.update c.timers a ⟨(c.timers a).tries, false⟩ }

/-- A scheduled function. To close a timer a second time raises an error, which ends it. -/
def perform (env : Surroundings) (c : Client) : Task → Client
  | .failed (.first a) _ =>
    if env.binary then c.push (.mkdir a) else c.teardown (.str "daemon binary not found")
  | .failed (.retry a) _ =>
    if 25 ≤ (c.timers a).tries ∧ (c.timers a).active then
      (c.closeTimer a).teardown
        (.str "could not connect to the keyring agent after spawning it")
    else c
  | .connected _ (.first _) => c.onConnected
  | .connected _ (.retry a) => c.onConnected.closeTimer a
  | .chunk _ bytes => ({ c with readTail := c.readTail ++ bytes } : Client).push .reading
  | .ended _ => c.teardown (.str "keyring agent disconnected")
  | .readError _ err => c.teardown (.str ("read error: " ++ err))
  | .retry a => if c.pipe.isSome then c else c.tryConnect (.retry a) env.pipe

/-- The client's own function on top of the stack goes on. -/
def resume (N : Neovim) (env : Surroundings) (c : Client) : Option Client :=
  match c.stack with
  | [] | .user _ :: _ | .dead (_ :: _) _ :: _ => none
  | .waiters [] _ :: rest => some { c with stack := rest }
  | .waiters (w :: ws) r :: rest =>
    some (({ c with stack := .waiters ws r :: rest } : Client).tell true w r)
  | .dead [] err :: rest =>
    some { c with waiters := [], stack := .waiters c.waiters (.error err) :: rest }
  | .reading :: rest => some (c.onRead N rest)
  | .vet a :: rest =>
    match env.vetted with
    | .error e => some (({ c with stack := rest } : Client).teardown e)
    | .ok () => some { c with stack := .dial a :: rest }
  | .dial a :: rest => some (({ c with stack := rest } : Client).tryConnect (.first a) env.pipe)
  | .mkdir a :: rest => some { c with stack := .spawn a :: rest }
  | .spawn a :: rest =>
    let c := { c with stack := rest }
    if env.timer then some { c with timers := Function.update c.timers a ⟨0, true⟩ }
    else
      some (c.teardown (.str "could not create the retry timer for the keyring agent"))

/-- `for _, cb in pairs(dead)`, which comes to the callbacks in any order. -/
def pick (N : Neovim) (id : ℕ) (c : Client) : Option Client :=
  match c.stack with
  | .dead callbacks err :: rest =>
    (callbacks.lookup id).map fun h =>
      ({ c with stack := .dead (callbacks.eraseP (·.1 == id)) err :: rest } : Client).settle N
        true h (.error err)
  | _ => none

/-- A callback is left with an error, which goes up to the next `pcall`. -/
def raise : List Frame → Option (List Frame)
  | .user false :: .reading :: rest => some rest
  | .user _ :: rest => some rest
  | _ => none

/-- The user, or the loop, may have a turn. -/
def yields (c : Client) : Bool :=
  match c.stack with
  | [] | .user _ :: _ => true
  | _ => false

end Client

/-- What a user of the client does, and the callbacks among it. -/
inductive Act
  | ensure
  | request (method : String) (params : Option Json)
  | on (method : String)
  | stop
  | ret
  | raise

inductive Event
  | act (a : Act)
  | resume (env : Surroundings)
  | pick (id : ℕ)
  | connected (p : ℕ) (failed : Bool)
  | arrive (p : ℕ) (bytes : Bytes)
  | finish (p : ℕ)
  | fail (p : ℕ) (err : String)
  | tick (attempt : ℕ)
  /-- The first of the scheduled functions is called. -/
  | scheduled (env : Surroundings)

def doAct (c : Client) : Act → Option Client
  | .ensure => some (({ c with ensures := c.ensures + 1 } : Client).ensure (.ensure c.ensures))
  | .request method params => some (c.request method params)
  | .on method => some { c with handlers := method :: c.handlers }
  | .stop => some c.stop
  | .ret =>
    match c.stack with
    | .user _ :: rest => some { c with stack := rest }
    | _ => none
  | .raise => (Client.raise c.stack).map fun stack => { c with stack }

/-- What libuv calls, and what is scheduled. -/
def loop (c : Client) : Event → Option Client
  | .connected p failed =>
    match c.dials[p]? with
    | none => none
    | some purpose =>
      if c.pipes p ≠ .connecting then none
      else if failed ∨ c.pipe.isSome then
        some (({ c with pipes := Function.update c.pipes p .closed } : Client).schedule
          (.failed purpose c.pipe.isSome))
      else
        some (({ c with pipe := some p, pipes := Function.update c.pipes p .connected } :
          Client).schedule (.connected p purpose))
  | .arrive p bytes =>
    if c.pipes p = .reading ∧ bytes ≠ [] then some (c.schedule (.chunk p bytes)) else none
  | .finish p =>
    if c.pipes p = .reading then
      some (({ c with pipes := Function.update c.pipes p .ended } : Client).schedule (.ended p))
    else none
  | .fail p err =>
    if c.pipes p = .reading then
      some (({ c with pipes := Function.update c.pipes p .ended } : Client).schedule
        (.readError p err))
    else none
  | .tick a =>
    if (c.timers a).active then
      some (({ c with timers := Function.update c.timers a ⟨(c.timers a).tries + 1, true⟩ } :
        Client).schedule (.retry a))
    else none
  | .scheduled env =>
    match c.queue with
    | [] => none
    | t :: queue => some (({ c with queue } : Client).perform env t)
  | _ => none

def step (N : Neovim) (c : Client) : Event → Option Client
  | .act a => if c.yields then doAct c a else none
  | .resume env => c.resume N env
  | .pick id => c.pick N id
  | e => if c.yields then loop c e else none

/-! ### What a turn does -/

namespace Client

variable {N : Neovim} {env : Surroundings} {c c' : Client}

/-- What the client does when the function on top of its stack goes on. -/
inductive Resumed (N : Neovim) (env : Surroundings) (c : Client) : Client → Prop
  | told (r : Except Json Unit) (rest : List Frame) (hs : c.stack = .waiters [] r :: rest) :
    Resumed N env c { c with stack := rest }
  | tell (w : Waiter) (ws : List Waiter) (r : Except Json Unit) (rest : List Frame)
    (hs : c.stack = .waiters (w :: ws) r :: rest) :
    Resumed N env c (({ c with stack := .waiters ws r :: rest } : Client).tell true w r)
  | dead (err : Json) (rest : List Frame) (hs : c.stack = .dead [] err :: rest) :
    Resumed N env c { c with waiters := [], stack := .waiters c.waiters (.error err) :: rest }
  | reading (rest : List Frame) (hs : c.stack = .reading :: rest) :
    Resumed N env c (c.onRead N rest)
  | refused (a : ℕ) (rest : List Frame) (e : Json) (hs : c.stack = .vet a :: rest)
    (hvet : env.vetted = .error e) :
    Resumed N env c (({ c with stack := rest } : Client).teardown e)
  | vetted (a : ℕ) (rest : List Frame) (hs : c.stack = .vet a :: rest)
    (hvet : env.vetted = .ok ()) : Resumed N env c { c with stack := .dial a :: rest }
  | dial (a : ℕ) (rest : List Frame) (hs : c.stack = .dial a :: rest) :
    Resumed N env c (({ c with stack := rest } : Client).tryConnect (.first a) env.pipe)
  | mkdir (a : ℕ) (rest : List Frame) (hs : c.stack = .mkdir a :: rest) :
    Resumed N env c { c with stack := .spawn a :: rest }
  | spawn (a : ℕ) (rest : List Frame) (hs : c.stack = .spawn a :: rest)
    (htimer : env.timer = true) :
    Resumed N env c
      { c with stack := rest, timers := Function.update c.timers a ⟨0, true⟩ }
  | untimed (a : ℕ) (rest : List Frame) (hs : c.stack = .spawn a :: rest)
    (htimer : env.timer = false) :
    Resumed N env c (({ c with stack := rest } : Client).teardown
      (.str "could not create the retry timer for the keyring agent"))

lemma resumed (hstep : c.resume N env = some c') : Resumed N env c c' := by
  unfold resume at hstep
  split at hstep
  · cases hstep
  · cases hstep
  · cases hstep
  · next r rest hs =>
    cases hstep
    exact .told r rest hs
  · next w ws r rest hs =>
    cases hstep
    exact .tell w ws r rest hs
  · next err rest hs =>
    cases hstep
    exact .dead err rest hs
  · next rest hs =>
    cases hstep
    exact .reading rest hs
  · next a rest hs =>
    split at hstep <;> cases hstep
    · next e hvet => exact .refused a rest e hs hvet
    · next hvet => exact .vetted a rest hs hvet
  · next a rest hs =>
    cases hstep
    exact .dial a rest hs
  · next a rest hs =>
    cases hstep
    exact .mkdir a rest hs
  · next a rest hs =>
    simp only at hstep
    split at hstep <;> cases hstep
    · next htimer => exact .spawn a rest hs htimer
    · next htimer => exact .untimed a rest hs (Bool.eq_false_iff.mpr htimer)

lemma pick_cases {id : ℕ} (hstep : c.pick N id = some c') : ∃ callbacks err rest h,
    c.stack = .dead callbacks err :: rest ∧ callbacks.lookup id = some h ∧
    c' = ({ c with stack := .dead (callbacks.eraseP (·.1 == id)) err :: rest } : Client).settle N
      true h (.error err) := by
  unfold pick at hstep
  split at hstep
  · next callbacks err rest hs =>
    obtain ⟨h, hl, rfl⟩ := Option.map_eq_some_iff.mp hstep
    exact ⟨callbacks, err, rest, h, hs, hl, rfl⟩
  · cases hstep

lemma raise_cases {fs fs' : List Frame} (h : raise fs = some fs') :
    fs = .user false :: .reading :: fs' ∨ ∃ guarded, fs = .user guarded :: fs' := by
  unfold raise at h
  split at h <;> cases h
  · exact .inl rfl
  · exact .inr ⟨_, rfl⟩

end Client

lemma ret_cases {c c' : Client} (h : doAct c .ret = some c') :
    ∃ guarded rest, c.stack = .user guarded :: rest ∧ c' = { c with stack := rest } := by
  simp only [doAct] at h
  split at h <;> cases h
  next guarded rest hs => exact ⟨guarded, rest, hs, rfl⟩

/-- What an event of the loop does. -/
inductive Looped (c : Client) : Event → Client → Prop
  | failed (p : ℕ) (failed : Bool) (u : Purpose) (hu : c.dials[p]? = some u)
    (hp : c.pipes p = .connecting) (hfailed : failed = true ∨ c.pipe.isSome = true) :
    Looped c (.connected p failed)
      (({ c with pipes := Function.update c.pipes p .closed } : Client).schedule
        (.failed u c.pipe.isSome))
  | connected (p : ℕ) (u : Purpose) (hu : c.dials[p]? = some u) (hp : c.pipes p = .connecting)
    (hpipe : c.pipe = none) :
    Looped c (.connected p false)
      (({ c with pipe := some p, pipes := Function.update c.pipes p .connected } :
        Client).schedule (.connected p u))
  | arrive (p : ℕ) (bytes : Bytes) (hp : c.pipes p = .reading) (hne : bytes ≠ []) :
    Looped c (.arrive p bytes) (c.schedule (.chunk p bytes))
  | finish (p : ℕ) (hp : c.pipes p = .reading) :
    Looped c (.finish p)
      (({ c with pipes := Function.update c.pipes p .ended } : Client).schedule (.ended p))
  | fail (p : ℕ) (err : String) (hp : c.pipes p = .reading) :
    Looped c (.fail p err)
      (({ c with pipes := Function.update c.pipes p .ended } : Client).schedule
        (.readError p err))
  | tick (a : ℕ) (ha : (c.timers a).active = true) :
    Looped c (.tick a)
      (({ c with timers := Function.update c.timers a ⟨(c.timers a).tries + 1, true⟩ } :
        Client).schedule (.retry a))
  | scheduled (env : Surroundings) (t : Task) (queue : List Task) (hq : c.queue = t :: queue) :
    Looped c (.scheduled env) (({ c with queue } : Client).perform env t)

lemma looped {c c' : Client} {e : Event} (h : loop c e = some c') : Looped c e c' := by
  cases e with
  | act | resume | pick => cases h
  | connected p failed =>
    simp only [loop] at h
    split at h
    · cases h
    · next u hu =>
      split at h
      · cases h
      · next hp =>
        split at h <;> cases h
        · next hfailed => exact .failed p failed u hu (not_not.mp hp) hfailed
        · next hfailed =>
          obtain ⟨hwon, hpipe⟩ := not_or.mp hfailed
          obtain rfl : failed = false := by simpa using hwon
          exact .connected p u hu (not_not.mp hp) (by simpa using hpipe)
  | arrive p bytes =>
    simp only [loop] at h
    split at h <;> cases h
    next harrive => exact .arrive p bytes harrive.1 harrive.2
  | finish p =>
    simp only [loop] at h
    split at h <;> cases h
    next hp => exact .finish p hp
  | fail p err =>
    simp only [loop] at h
    split at h <;> cases h
    next hp => exact .fail p err hp
  | tick a =>
    simp only [loop] at h
    split at h <;> cases h
    next ha => exact .tick a ha
  | scheduled env =>
    simp only [loop] at h
    split at h <;> cases h
    next t queue hq => exact .scheduled env t queue hq

/-! ### What was given to `M.request` stays as it is -/

namespace Client

variable {N : Neovim} {env : Surroundings} {c c' : Client}

lemma given_tell (guarded : Bool) (w : Waiter) (r : Except Json Unit) :
    (c.tell guarded w r).given = c.given := by
  cases w with
  | ensure k => rfl
  | request k method params => cases r <;> rfl

lemma given_greeted (r : Answer) : (c.greeted N r).given = c.given := by
  unfold greeted
  cases greeting N r with
  | error e => rfl
  | ok u =>
    simp only
    split <;> rfl

lemma given_settle (guarded : Bool) (h : Handler) (r : Answer) :
    (c.settle N guarded h r).given = c.given := by
  cases h with
  | handshake => exact given_greeted r
  | request k => rfl

lemma given_onRead (rest : List Frame) : (c.onRead N rest).given = c.given := by
  unfold onRead
  split
  · rfl
  · simp only
    split
    · rfl
    · unfold onMessage
      split
      · split
        · rfl
        · split
          · rfl
          · exact given_settle _ _ _
      · split
        · split <;> rfl
        · rfl

lemma given_ensure (w : Waiter) : (c.ensure w).given = c.given := by
  unfold ensure
  split
  · exact given_tell _ _ _
  · simp only
    split <;> rfl

lemma given_onConnected : c.onConnected.given = c.given := by
  unfold onConnected
  split <;> rfl

lemma given_tryConnect (u : Purpose) (made : Bool) : (c.tryConnect u made).given = c.given := by
  unfold tryConnect
  split <;> rfl

lemma given_perform (t : Task) : (c.perform env t).given = c.given := by
  cases t with
  | failed u surplus =>
    cases u with
    | first a | retry a =>
      simp only [perform]
      split <;> rfl
  | connected p u =>
    cases u with
    | first a | retry a => exact given_onConnected
  | chunk p bytes | ended p | readError p err => rfl
  | retry a =>
    simp only [perform]
    split
    · rfl
    · exact given_tryConnect _ _

lemma given_resume (hstep : c.resume N env = some c') : c'.given = c.given := by
  cases resumed hstep with
  | tell w ws r rest => exact given_tell _ w r
  | reading rest => exact given_onRead rest
  | dial a rest => exact given_tryConnect _ _
  | told | dead | refused | vetted | mkdir | spawn | untimed => rfl

lemma given_pick {id : ℕ} (hstep : c.pick N id = some c') : c'.given = c.given := by
  obtain ⟨callbacks, err, rest, h, -, -, rfl⟩ := pick_cases hstep
  exact given_settle _ _ _

end Client

lemma given_loop {c c' : Client} {e : Event} (hstep : loop c e = some c') : c'.given = c.given := by
  cases looped hstep with
  | scheduled env t => exact Client.given_perform t
  | failed | connected | arrive | finish | fail | tick => rfl

lemma step_cases {N : Neovim} {c c' : Client} {e : Event} (h : step N c e = some c') :
    (∃ a, e = .act a ∧ c.yields = true ∧ doAct c a = some c') ∨
    (∃ env, e = .resume env ∧ c.resume N env = some c') ∨
    (∃ id, e = .pick id ∧ c.pick N id = some c') ∨
    (c.yields = true ∧ loop c e = some c') := by
  unfold step at h
  split at h
  · rename_i a
    split at h
    · rename_i hy
      exact .inl ⟨a, rfl, hy, h⟩
    · cases h
  · rename_i env
    exact .inr (.inl ⟨env, rfl, h⟩)
  · rename_i id
    exact .inr (.inr (.inl ⟨id, rfl, h⟩))
  · split at h
    · rename_i hy
      exact .inr (.inr (.inr ⟨hy, h⟩))
    · cases h

/-! ### A Neovim that reads the first answers -/

namespace Sample

/-- The answer to an `rpc.hello`. -/
def hello (id : ℕ) : Json :=
  .obj [("id", .num id), ("ok", .bool true), ("result", .obj [("proto", .num 1)])]

def known : List (String × Json) :=
  [("\x7b\"id\":1,\"ok\":true,\"result\":\x7b\"proto\":1\x7d\x7d", hello 1),
    ("\x7b\"id\":2,\"ok\":true,\"result\":\x7b\"proto\":1\x7d\x7d", hello 2)]

def neovim : Neovim where
  decode bytes := (known.find? fun tj => asBytes tj.1 = bytes).map (·.2)
  tonumber
    | some (.num n) => some ⟨toString n, fun m => n < m⟩
    | _ => none

/-- The bytes of one of the answers. -/
def line (n : ℕ) : Bytes := (known[n]?.elim [] fun tj => asBytes tj.1) ++ [newline]

/-- The directory is private, the binary is there, and nothing fails. -/
def fine : Surroundings := ⟨.ok (), true, true, true⟩

/-- An attempt whose first connect goes through, and whose handshake is answered. -/
def greet : List Event :=
  [.connected 0 false, .scheduled fine, .arrive 0 (line 0), .scheduled fine, .resume fine]

end Sample

end LvimKeyring.EventLoop
