import Mathlib.Data.String.Basic
import LvimKeyring.Lib.OrderedMap
import LvimKeyring.Server

/-!
What the wallet is for: a finite map from names to secrets under a master password.

The store knows nothing of files, keys or sessions. Locking and unlocking turn a flag, and
what can be refused is a wrong password, a locked store, and an operation that does not fit
the map.
-/

namespace LvimKeyring.Wallet

open Rpc Params Vault Server

abbrev Secrets := Finmap fun _ : String => Entry

structure Store where
  secrets : Secrets
  /-- The master password, once there is a vault. -/
  password : Option String
  locked : Bool
  lastUse : ℕ

def Store.new (clock : ℕ) : Store := ⟨∅, none, true, clock⟩

/-! ### The operations on the map -/

/-- An absent text keeps the old one, and an empty one removes it. -/
def keep (old : Option String) : Option String → Option String
  | none => old
  | some t => if t = "" then none else some t

/-- Metadata over an entry. -/
def amend (e : Entry) (m : Option MetaIn) : Entry :=
  { e with
    user := keep e.user (m.bind (·.user))
    url := keep e.url (m.bind (·.url))
    notes := keep e.notes (m.bind (·.notes))
    tags := (m.bind (·.tags)).getD e.tags
    totp := (m.bind (·.totp)).getD e.totp }

def fresh (value : String) (now : ℕ) : Entry := ⟨value, none, none, none, [], false, now, now⟩

/-- An upsert that never moves `created`. -/
def Secrets.set (p : SetParam) (now : ℕ) (m : Secrets) : Except Err Secrets :=
  match m.lookup p.name, p.value with
  | some e, v =>
    .ok (m.insert p.name { amend { e with value := v.getD e.value } p.info with updated := now })
  | none, some v => .ok (m.insert p.name (amend (fresh v now) p.info))
  | none, none => .error .needsValue

def Secrets.delete (name : String) (m : Secrets) : Except Err Secrets :=
  if name ∈ m then .ok (m.erase name) else .error (.noSecret name)

/-- To a free name only. -/
def Secrets.rename (src dst : String) (m : Secrets) : Except Err Secrets :=
  if dst ∈ m then .error (.alreadyExists dst)
  else
    match m.lookup src with
    | none => .error (.noSecret src)
    | some e => .ok ((m.erase src).insert dst e)

def Secrets.generate (name value : String) (now : ℕ) (m : Secrets) : Secrets :=
  match m.lookup name with
  | some e => m.insert name { e with value, updated := now }
  | none => m.insert name (fresh value now)

/-- The summaries, sorted by name. -/
def Secrets.listing (m : Secrets) : List Summary :=
  m.keys.sort.filterMap fun name =>
    (m.lookup name).map fun e => ⟨name, entryMeta e, e.created, e.updated⟩

def Secrets.get (name : String) (m : Secrets) : Except Err Reply :=
  match m.lookup name with
  | none => .error (.noSecret name)
  | some e => .ok (.secret e.value (entryMeta e))

def Secrets.totp (T : Totp.Packages) (name : String) (now : ℕ) (m : Secrets) : Except Err Reply :=
  match m.lookup name with
  | none => .error (.noSecret name)
  | some e => (Totp.code T e.value now 30 6).map fun code => .totp code (30 - now % 30) 30

/-- An operation on the map, with its answer. -/
def Secrets.apply (T : Totp.Packages) (now : ℕ) (m : Secrets) : Op → Except Err (Secrets × Reply)
  | .get name => (Secrets.get name m).map fun r => (m, r)
  | .set p => (Secrets.set p now m).map fun m' => (m', .unit)
  | .delete name => (Secrets.delete name m).map fun m' => (m', .unit)
  | .rename src dst => (Secrets.rename src dst m).map fun m' => (m', .unit)
  | .list => .ok (m, .listing (Secrets.listing m))
  | .generate name value => .ok (Secrets.generate name value now m, .generated value)
  | .totp name => (Secrets.totp T name now m).map fun r => (m, r)

lemma keep_none (old : Option String) : keep old none = old := rfl

/-- Setting a name that is there moves neither `created` nor what the request leaves out. -/
theorem Secrets.set_present {p : SetParam} {now : ℕ} {m : Secrets} {e : Entry}
    (h : m.lookup p.name = some e) :
    ∃ m' e', Secrets.set p now m = .ok m' ∧ m'.lookup p.name = some e' ∧
      e'.created = e.created ∧ (p.value = none → e'.value = e.value) ∧
        (p.info = none → { e' with value := e.value, updated := e.updated } = e) := by
  simp only [Secrets.set, h]
  refine ⟨_, _, rfl, Finmap.lookup_insert m, rfl, fun hv => ?_, fun hi => ?_⟩
  · simp [amend, hv]
  · simp [amend, hi, keep_none]

/-- A rename moves the entry as it is, to a name that was free. -/
theorem Secrets.rename_ok {src dst : String} {m m' : Secrets}
    (h : Secrets.rename src dst m = .ok m') :
    dst ∉ m ∧ ∃ e, m.lookup src = some e ∧ m' = (m.erase src).insert dst e := by
  unfold Secrets.rename at h
  split at h
  · cases h
  · rename_i hdst
    split at h
    · cases h
    · rename_i e he
      exact ⟨hdst, e, he, (Except.ok.inj h).symm⟩

/-! ### The store -/

/-- The settings the answers depend on: the vault path and the idle timeout are repeated in
them, and new passwords are refused when the cost parameters are. -/
structure Settings where
  path : String
  lockTimeout : ℕ
  refused : Option Err

def Store.autolockIn (st : Settings) (clock : ℕ) (a : Store) : Option ℕ :=
  if st.lockTimeout = 0 ∨ a.locked then none
  else some ((st.lockTimeout * nanos - (clock - a.lastUse)) / nanos)

def Store.entries (a : Store) : Option (List Summary) :=
  if a.locked then none else some (Secrets.listing a.secrets)

def Store.create (st : Settings) (password : String) (a : Store) : Store × Except Err Reply :=
  match a.password, st.refused with
  | some _, _ => (a, .error (.vaultExists st.path))
  | none, some e => (a, .error e)
  | none, none => ({ a with secrets := ∅, password := some password, locked := false }, .ok .unit)

def Store.unlock (password : String) (a : Store) : Store × Except Err Reply :=
  match a.password with
  | none => (a, .error (.readVault noSuchFile))
  | some pw =>
    if password = pw then ({ a with locked := false }, .ok (.listing (Secrets.listing a.secrets)))
    else (a, .error .wrongPassword)

def Store.rotate (st : Settings) (old new : String) (a : Store) : Store × Except Err Reply :=
  match a.password with
  | none => (a, .error (.readVault noSuchFile))
  | some pw =>
    if old = pw then
      match st.refused with
      | some e => (a, .error e)
      | none => ({ a with password := some new, locked := false }, .ok .unit)
    else (a, .error .wrongPassword)

def Store.session (T : Totp.Packages) (now : ℕ) (op : Op) (a : Store) :
    Store × Except Err Reply :=
  if a.locked then (a, .error .locked)
  else
    match Secrets.apply T now a.secrets op with
    | .error e => (a, .error e)
    | .ok (m, r) => ({ a with secrets := m }, .ok r)

def Store.call (T : Totp.Packages) (st : Settings) (env : Env) (a : Store) :
    Call → Store × Except Err Reply
  | .hello => (a, .ok (.hello a.locked a.password.isSome a.entries))
  | .status =>
    (a, .ok (.status a.locked a.password.isSome a.entries (a.autolockIn st env.clock)))
  | .create password => a.create st password
  | .unlock password => a.unlock password
  | .lock => ({ a with locked := true }, .ok .unit)
  | .unlockCancel => (a, .ok .unit)
  | .rotate old new => a.rotate st old new
  | .session _ op => a.session T env.now op
  | .bare value => (a, .ok (.generated value))

def Store.handle (T : Totp.Packages) (st : Settings) (env : Env) (a : Store) (method : String)
    (params : Json) : Store × Except Err Reply :=
  let a := if touches method then { a with lastUse := env.clock } else a
  match prepare env.random method params with
  | .error e => (a, .error e)
  | .ok call => a.call T st env call

/-- The idle timer locks the store. -/
def Store.tick (st : Settings) (clock : ℕ) (a : Store) : Store :=
  if st.lockTimeout ≠ 0 ∧ st.lockTimeout * nanos ≤ clock - a.lastUse then { a with locked := true }
  else a

/-- Unlocking succeeds with the current password and with no other. -/
theorem Store.unlock_ok_iff {password : String} {a : Store} :
    (∃ r, (a.unlock password).2 = .ok r) ↔ a.password = some password := by
  unfold Store.unlock
  cases hp : a.password with
  | none => simp
  | some pw =>
    by_cases h : password = pw
    · simp [h]
    · simp [h, Ne.symm h]

/-- Only a create and the operations on the map touch the map. -/
theorem Store.call_secrets {T : Totp.Packages} {st : Settings} {env : Env} {a : Store}
    {call : Call} (hc : ∀ password, call ≠ .create password)
    (hs : ∀ wait op, call ≠ .session wait op) :
    (a.call T st env call).1.secrets = a.secrets := by
  cases call with
  | create password => exact absurd rfl (hc password)
  | session wait op => exact absurd rfl (hs wait op)
  | unlock password =>
    simp only [Store.call, Store.unlock]
    split
    · rfl
    · split <;> rfl
  | rotate old new =>
    simp only [Store.call, Store.rotate]
    split
    · rfl
    · split
      · split <;> rfl
      · rfl
  | hello | status | lock | unlockCancel | bare => rfl

def Store.restart (clock : ℕ) (a : Store) : Store := { a with locked := true, lastUse := clock }

end LvimKeyring.Wallet
