import LvimKeyring.Lib.Result
import LvimKeyring.Params
import LvimKeyring.Totp
import LvimKeyring.Vault

/-!
Request dispatch and the live agent state, one request at a time.

A request is first prepared (its parameters are decoded and the checks that need no session
are made) and then executed against the state and the file system. What the environment
contributes to it (the clocks, fresh random bytes, which file-system calls fail) is an input.
-/

namespace LvimKeyring.Server

open Rpc Params Crypto Vault

/-- How long a call parks for an unlock, in seconds. -/
def unlockWait : ℕ := 120

/-- Static configuration. -/
structure Config where
  vaultPath : String
  kdf : KdfParams
  /-- Idle auto-lock timeout in seconds; zero is never. -/
  lockTimeout : ℕ
  linger : ℕ
  persist : Bool

/-- Every package the daemon is built on. -/
structure Packages (Key : Type) extends Library Key where
  totp : Totp.Packages

/-- The shared state of the daemon. -/
structure Inner (Key : Type) where
  session : Option (Session Key)
  failCount : ℕ
  /-- Time of the last request that counts as use, in nanoseconds. -/
  lastActivity : ℕ
  unlockGen : UInt64

def Inner.new (Key : Type) (clock : ℕ) : Inner Key := ⟨none, 0, clock, 0⟩

def Inner.isLocked {Key : Type} (i : Inner Key) : Bool := i.session.isNone

/-- What the environment contributes to one request. -/
structure Env where
  /-- Unix time in seconds, and a monotonic clock in nanoseconds. -/
  now : ℕ
  clock : ℕ
  salt : Salt
  nonce : Nonce
  random : ℕ → UInt8
  io : Faults

/-! ### Replies -/

/-- The value-free view of an entry. -/
structure EntryMeta where
  user : Option String
  url : Option String
  notes : Option String
  tags : List String
  totp : Bool
  created : ℕ
  updated : ℕ
  deriving DecidableEq

structure Summary where
  name : String
  info : EntryMeta
  created : ℕ
  updated : ℕ
  deriving DecidableEq

def entryMeta (e : Entry) : EntryMeta :=
  ⟨e.user, e.url, e.notes, e.tags, e.totp, e.created, e.updated⟩

/-- The summaries of a body, in the order of the names. -/
def summaries (b : Body) : List Summary :=
  b.entries.toList.map fun ne => ⟨ne.1, entryMeta ne.2, ne.2.created, ne.2.updated⟩

inductive Reply
  | unit
  | hello (locked vaultExists : Bool) (entries : Option (List Summary))
  | status (locked vaultExists : Bool) (entries : Option (List Summary)) (autolockIn : Option ℕ)
  | listing (list : List Summary)
  | secret (value : String) (info : EntryMeta)
  | generated (value : String)
  | totp (digits : String) (remaining period : ℕ)
  deriving DecidableEq

def optJson {α : Type} (f : α → Json) : Option α → Json
  | some a => f a
  | none => .null

def EntryMeta.toJson (m : EntryMeta) : Json :=
  .obj [("user", optJson .str m.user), ("url", optJson .str m.url),
    ("notes", optJson .str m.notes), ("tags", .arr (m.tags.map .str)), ("totp", .bool m.totp),
    ("created", .num m.created), ("updated", .num m.updated)]

def Summary.toJson (s : Summary) : Json :=
  .obj [("name", .str s.name), ("meta", s.info.toJson), ("created", .num s.created),
    ("updated", .num s.updated)]

/-- A field that is left out when there is no value for it. -/
def optField {α : Type} (name : String) (f : α → Json) : Option α → List (String × Json)
  | some a => [(name, f a)]
  | none => []

def Reply.toJson : Reply → Json
  | .unit => .obj []
  | .hello locked vaultExists entries =>
    .obj ([("proto", .num Rpc.proto), ("locked", .bool locked),
      ("vault_exists", .bool vaultExists)] ++
      optField "entries" (fun l => .arr (l.map Summary.toJson)) entries)
  | .status locked vaultExists entries autolockIn =>
    .obj ([("locked", .bool locked), ("vault_exists", .bool vaultExists)] ++
      optField "entries" (fun l => .arr (l.map Summary.toJson)) entries ++
      optField "autolock_in_s" (fun n => .num n) autolockIn)
  | .listing list => .obj [("entries", .arr (list.map Summary.toJson))]
  | .secret value info => .obj [("value", .str value), ("meta", info.toJson)]
  | .generated value => .obj [("value", .str value)]
  | .totp digits remaining period =>
    .obj [("code", .str digits), ("remaining", .num remaining), ("period", .num period)]

/-- A notification broadcast to every client. -/
inductive Note
  | state (locked : Bool)
  | unlockNeeded
  deriving DecidableEq

def Note.toJson : Note → Json
  | .state locked => notification "vault.state" (.obj [("locked", .bool locked)])
  | .unlockNeeded => notification "vault.unlock_needed" (.obj [])

/-! ### What runs on the unlocked session -/

/-- `trim().is_empty()`. -/
def isBlank (s : String) : Bool := s.toList.all Totp.isWhitespace

def nonEmpty (s : String) : Option String := if s = "" then none else some s

/-- Absent fields are left unchanged; an empty text removes the field. -/
def applyMeta (e : Entry) (m : MetaIn) : Entry :=
  let e := match m.user with
    | some u => { e with user := nonEmpty u }
    | none => e
  let e := match m.url with
    | some u => { e with url := nonEmpty u }
    | none => e
  let e := match m.notes with
    | some n => { e with notes := nonEmpty n }
    | none => e
  let e := match m.tags with
    | some t => { e with tags := t }
    | none => e
  match m.totp with
  | some t => { e with totp := t }
  | none => e

def applyMeta? (e : Entry) : Option MetaIn → Entry
  | some m => applyMeta e m
  | none => e

lemma value_applyMeta? (e : Entry) (m : Option MetaIn) : (applyMeta? e m).value = e.value := by
  cases m with
  | none => rfl
  | some m =>
    obtain ⟨user, url, notes, tags, totp⟩ := m
    cases user <;> cases url <;> cases notes <;> cases tags <;> cases totp <;> rfl

def newEntry (value : String) (ts : ℕ) : Entry :=
  { value, user := none, url := none, notes := none, tags := [], totp := false, created := ts,
    updated := ts }

/-- The session part of a `secret.*` request. -/
inductive Op
  | get (name : String)
  | set (p : SetParam)
  | delete (name : String)
  | rename (src dst : String)
  | list
  | generate (name value : String)
  | totp (name : String)
  deriving DecidableEq

/-- Whether the operation goes through `read_session`, which does not save. -/
def Op.reads : Op → Bool
  | .get _ | .list | .totp _ => true
  | .set _ | .delete _ | .rename _ _ | .generate _ _ => false

def secretGet (name : String) (b : Body) : Except Err (Body × Reply) :=
  match b.entries[name]? with
  | none => .error (.noSecret name)
  | some e => .ok (b, .secret e.value (entryMeta e))

def secretSet (p : SetParam) (ts : ℕ) (b : Body) : Except Err (Body × Reply) :=
  match b.entries[p.name]? with
  | some e =>
    -- a meta-only update keeps the stored value
    let e := { e with value := p.value.getD e.value }
    let e := applyMeta? e p.info
    .ok (⟨b.entries.insert p.name { e with updated := ts }⟩, .unit)
  | none =>
    match p.value with
    | none => .error .needsValue
    | some value => .ok (⟨b.entries.insert p.name (applyMeta? (newEntry value ts) p.info)⟩, .unit)

def secretDelete (name : String) (b : Body) : Except Err (Body × Reply) :=
  match b.entries[name]? with
  | none => .error (.noSecret name)
  | some _ => .ok (⟨b.entries.erase name⟩, .unit)

def secretRename (src dst : String) (b : Body) : Except Err (Body × Reply) :=
  match b.entries[dst]? with
  | some _ => .error (.alreadyExists dst)
  | none =>
    match b.entries[src]? with
    | none => .error (.noSecret src)
    | some e => .ok (⟨(b.entries.erase src).insert dst e⟩, .unit)

/-- An existing name keeps everything but its value and `updated`. -/
def secretGenerate (name value : String) (ts : ℕ) (b : Body) : Except Err (Body × Reply) :=
  match b.entries[name]? with
  | some e => .ok (⟨b.entries.insert name { e with value, updated := ts }⟩, .generated value)
  | none => .ok (⟨b.entries.insert name (newEntry value ts)⟩, .generated value)

def secretTotp (T : Totp.Packages) (name : String) (now : ℕ) (b : Body) :
    Except Err (Body × Reply) :=
  match b.entries[name]? with
  | none => .error (.noSecret name)
  | some e =>
    match Totp.code T e.value now 30 6 with
    | .error err => .error err
    | .ok code => .ok (b, .totp code (30 - now % 30) 30)

/-- The operation on the body of the session, at a time. -/
def Op.run (T : Totp.Packages) (now : ℕ) (b : Body) : Op → Except Err (Body × Reply)
  | .get name => secretGet name b
  | .set p => secretSet p now b
  | .delete name => secretDelete name b
  | .rename src dst => secretRename src dst b
  | .list => .ok (b, .listing (summaries b))
  | .generate name value => secretGenerate name value now b
  | .totp name => secretTotp T name now b

lemma run_reads {T : Totp.Packages} {now : ℕ} {op : Op} {b b' : Body} {r : Reply}
    (hop : op.reads = true) (h : op.run T now b = .ok (b', r)) : b' = b := by
  cases op with
  | get name =>
    simp only [Op.run, secretGet] at h
    split at h <;> cases h
    rfl
  | list =>
    cases h
    rfl
  | totp name =>
    simp only [Op.run, secretTotp] at h
    split at h
    · cases h
    · split at h <;> cases h
      rfl
  | set | delete | rename | generate => cases hop

/-! ### Preparing a request -/

def alnum : List Char := "ABCDEFGHIJKLMNOPQRSTUVWXYZabcdefghijklmnopqrstuvwxyz0123456789".toList

def sym : List Char := "!@#$%^&*()-_=+[]\x7b\x7d;:,.?".toList

/-- A random password over the alphanumerics and, with `symbols`, the punctuation. -/
def generatePassword (random : ℕ → UInt8) (length : ℕ) (symbols : Bool) : String :=
  let alphabet := if symbols then alnum ++ sym else alnum
  let n := min (max length 1) 512
  String.ofList ((List.range n).map fun i =>
    alphabet.getD ((random i).toNat % alphabet.length) 'A')

/-- A request that has been decoded and passed the checks that need no session. -/
inductive Call
  | hello
  | status
  | create (password : String)
  | unlock (password : String)
  | lock
  | unlockCancel
  | rotate (oldPassword newPassword : String)
  | session (wait : Bool) (op : Op)
  /-- A `secret.generate` that stores nothing. -/
  | bare (value : String)
  deriving DecidableEq

def decoded {α : Type} (r : Except DecodeError α) : Except Err α := r.mapError .decode

def prepareSet (params : Json) : Except Err Call := do
  let p ← decoded (SetParam.fromValue params)
  if isBlank p.name then .error .emptyName else .ok (.session p.wait (.set p))

def prepareRename (params : Json) : Except Err Call := do
  let p ← decoded (RenameParam.fromValue params)
  if isBlank p.dst then .error .emptyNewName else .ok (.session p.wait (.rename p.src p.dst))

def prepareGenerate (random : ℕ → UInt8) (params : Json) : Call :=
  let p := orDefault (GenerateParam.fromValue params) ⟨none, none, none⟩
  let value := generatePassword random (p.length.getD 24) (p.symbols.getD true)
  match p.storeAs.filter fun n => !isBlank n with
  -- storing waits for an unlock whatever the request says
  | some name => .session true (.generate name value)
  | none => .bare value

/-- The part of a handler before it touches the state. -/
def prepare (random : ℕ → UInt8) (method : String) (params : Json) : Except Err Call :=
  match method with
  | "rpc.hello" => .ok .hello
  | "vault.create" => do
    let p ← decoded (PasswordParam.fromValue params)
    return .create p.password
  | "vault.unlock" => do
    let p ← decoded (PasswordParam.fromValue params)
    return .unlock p.password
  | "vault.lock" => .ok .lock
  | "vault.unlock_cancel" => .ok .unlockCancel
  | "vault.status" => .ok .status
  | "vault.rotate" => do
    let p ← decoded (RotateParam.fromValue params)
    return .rotate p.oldPassword p.newPassword
  | "secret.get" => do
    let p ← decoded (NameParam.fromValue params)
    return .session p.wait (.get p.name)
  | "secret.set" => prepareSet params
  | "secret.delete" => do
    let p ← decoded (NameParam.fromValue params)
    return .session p.wait (.delete p.name)
  | "secret.rename" => prepareRename params
  | "secret.list" =>
    let p := orDefault (WaitParam.fromValue params) ⟨true⟩
    .ok (.session p.wait .list)
  | "secret.generate" => .ok (prepareGenerate random params)
  | "secret.totp" => do
    let p ← decoded (NameParam.fromValue params)
    return .session p.wait (.totp p.name)
  | other => .error (.unknownMethod other)

/-- The method a call is made by. -/
def Call.method : Call → String
  | .hello => "rpc.hello"
  | .status => "vault.status"
  | .create _ => "vault.create"
  | .unlock _ => "vault.unlock"
  | .lock => "vault.lock"
  | .unlockCancel => "vault.unlock_cancel"
  | .rotate _ _ => "vault.rotate"
  | .session _ (.get _) => "secret.get"
  | .session _ (.set _) => "secret.set"
  | .session _ (.delete _) => "secret.delete"
  | .session _ (.rename _ _) => "secret.rename"
  | .session _ .list => "secret.list"
  | .session _ (.generate _ _) | .bare _ => "secret.generate"
  | .session _ (.totp _) => "secret.totp"

open Result in
/-- A request that is prepared is a call of its method. -/
theorem prepare_method {random : ℕ → UInt8} {method : String} {params : Json} {c : Call}
    (h : prepare random method params = .ok c) : method = c.method := by
  unfold prepare at h
  split at h
  case h_1 | h_4 | h_5 | h_6 | h_12 =>
    cases h
    rfl
  case h_2 | h_3 | h_7 | h_8 | h_10 | h_14 =>
    simp only [bind_eq_ok, pure_eq_ok] at h
    obtain ⟨p, -, rfl⟩ := h
    rfl
  case h_9 | h_11 =>
    simp only [prepareSet, prepareRename, bind_eq_ok] at h
    obtain ⟨p, -, h⟩ := h
    split at h <;> cases h
    rfl
  case h_13 =>
    cases h
    simp only [prepareGenerate]
    split <;> rfl
  case h_15 => cases h

/-- Whether a request counts as use of the vault. -/
def touches (method : String) : Bool :=
  method != "vault.status" && method != "rpc.hello" && method != "vault.lock" &&
    method != "vault.unlock_cancel"

/-! ### Executing a call -/

structure World (Key : Type) where
  fs : FileSystem
  inner : Inner Key

/-- What a handler leaves behind: the state, its answer, what it broadcast, and how long it
slept before answering, in seconds. -/
structure Outcome (Key : Type) where
  world : World Key
  reply : Except Err Reply
  sent : List Note
  slept : ℕ

variable {Key : Type}

def World.withSession (w : World Key) (s : Option (Session Key)) : World Key :=
  { w with inner := { w.inner with session := s } }

def Outcome.of (w : World Key) (reply : Except Err Reply) (sent : List Note) : Outcome Key :=
  ⟨w, reply, sent, 0⟩

/-- A session is installed, the failures are forgotten, and every client is told. -/
def install (w : World Key) (s : Session Key) (reply : Reply) : Outcome Key :=
  .of { w with inner := { w.inner with session := some s, failCount := 0 } } (.ok reply)
    [.state false]

def maxFails : ℕ := 2 ^ 32 - 1

/-- The growing delay after a refused unlock: 1, 2, 4, 8, 16 seconds. -/
def backoff (n : ℕ) : ℕ := 1 <<< min (n - 1) 4

def lock (w : World Key) : World Key × Bool := (w.withSession none, w.inner.session.isSome)

def doLock (w : World Key) : Outcome Key :=
  let (w', was) := lock w
  .of w' (.ok .unit) (if was then [.state true] else [])

variable (L : Packages Key) (cfg : Config) (env : Env)

def create (password : String) (w : World Key) : Outcome Key :=
  match Vault.create L.toLibrary env.io w.fs cfg.vaultPath (asBytes password) cfg.kdf env.salt
    env.nonce with
  | (fs, .error e) => .of { w with fs } (.error e) []
  | (fs, .ok s) => install { w with fs } s .unit

def unlock (password : String) (w : World Key) : Outcome Key :=
  match Vault.unlock L.toLibrary env.io w.fs cfg.vaultPath (asBytes password) with
  | .ok s => install w s (.listing (summaries s.body))
  | .error e =>
    let n := min (w.inner.failCount + 1) maxFails
    { world := { w with inner := { w.inner with failCount := n } }
      reply := .error e
      sent := []
      slept := backoff n }

def rotate (oldPassword newPassword : String) (w : World Key) : Outcome Key :=
  match Vault.rotate L.toLibrary env.io w.fs cfg.vaultPath (asBytes oldPassword)
    (asBytes newPassword) cfg.kdf env.salt env.nonce with
  | (fs, .error e) => .of { w with fs } (.error e) []
  | (fs, .ok s) => install { w with fs } s .unit

def nanos : ℕ := 10 ^ 9

/-- The whole seconds left before the idle auto-lock. -/
def autolockIn (w : World Key) : Option ℕ :=
  if cfg.lockTimeout = 0 ∨ w.inner.isLocked then none
  else some ((cfg.lockTimeout * nanos - (env.clock - w.inner.lastActivity)) / nanos)

def status (w : World Key) : Reply :=
  .status w.inner.isLocked (fileExists w.fs cfg.vaultPath)
    (w.inner.session.map fun s => summaries s.body) (autolockIn cfg env w)

def hello (w : World Key) : Reply :=
  .hello w.inner.isLocked (fileExists w.fs cfg.vaultPath)
    (w.inner.session.map fun s => summaries s.body)

/-- `with_session` and `read_session`. Handled alone, a call that parks is not woken: it
gives up after `unlockWait`. -/
def withSession (wait : Bool) (op : Op) (w : World Key) : Outcome Key :=
  match w.inner.session with
  | none =>
    { world := w
      reply := .error .locked
      sent := if wait then [.unlockNeeded] else []
      slept := if wait then unlockWait else 0 }
  | some s =>
    match op.run L.totp env.now s.body with
    | .error e => .of w (.error e) []
    | .ok (body, r) =>
      if op.reads then .of w (.ok r) []
      else
        -- the session has changed by the time it is saved
        let s' := { s with body }
        match save L.toLibrary env.io w.fs cfg.vaultPath s' env.nonce with
        | (fs, .error e) => .of ({ w with fs }.withSession (some s')) (.error e) []
        | (fs, .ok ()) => .of ({ w with fs }.withSession (some s')) (.ok r) []

lemma withSession_inner (wait : Bool) (op : Op) (w : World Key) :
    ∃ session, session.isNone = w.inner.session.isNone ∧
      (withSession L cfg env wait op w).world.inner = { w.inner with session } := by
  unfold withSession
  split
  · exact ⟨w.inner.session, rfl, rfl⟩
  · rename_i s hs
    split
    · exact ⟨w.inner.session, rfl, rfl⟩
    · split
      · exact ⟨w.inner.session, rfl, rfl⟩
      · simp only
        split <;> exact ⟨_, by rw [hs]; rfl, rfl⟩

lemma withSession_isNone (wait : Bool) (op : Op) (w : World Key) :
    (withSession L cfg env wait op w).world.inner.session.isNone = w.inner.session.isNone := by
  obtain ⟨session, hsession, hinner⟩ := withSession_inner L cfg env wait op w
  rw [hinner, ← hsession]

def exec (w : World Key) : Call → Outcome Key
  | .hello => .of w (.ok (hello cfg w)) []
  | .status => .of w (.ok (status cfg env w)) []
  | .create password => create L cfg env password w
  | .unlock password => unlock L cfg env password w
  | .lock => doLock w
  | .unlockCancel =>
    .of { w with inner := { w.inner with unlockGen := w.inner.unlockGen + 1 } } (.ok .unit) []
  | .rotate oldPassword newPassword => rotate L cfg env oldPassword newPassword w
  | .session wait op => withSession L cfg env wait op w
  | .bare value => .of w (.ok (.generated value)) []

def touch (w : World Key) : World Key :=
  { w with inner := { w.inner with lastActivity := env.clock } }

def dispatch (w : World Key) (method : String) (params : Json) : Outcome Key :=
  let w := if touches method then touch env w else w
  match prepare env.random method params with
  | .error e => .of w (.error e) []
  | .ok call => exec L cfg env w call

/-- The idle timer's tick: the vault is locked when it has been idle past the timeout. The
last component is the number of seconds until the next tick. -/
def autolockTick (cfg : Config) (clock : ℕ) (w : World Key) : World Key × List Note × ℕ :=
  if cfg.lockTimeout = 0 ∨ w.inner.isLocked then (w, [], 1)
  else
    let idle := clock - w.inner.lastActivity
    if cfg.lockTimeout * nanos ≤ idle then
      let (w', was) := lock w
      (w', if was then [.state true] else [], 1)
    else (w, [], max ((cfg.lockTimeout * nanos - idle) / nanos) 1)

/-- The response line of a request. -/
def respond (serde : DecodeError → String) (id : ℕ) : Except Err Reply → Json
  | .ok r => responseOk id r.toJson
  | .error e => responseErr id (e.text serde)

end LvimKeyring.Server
