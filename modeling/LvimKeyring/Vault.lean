import LvimKeyring.Crypto
import LvimKeyring.Lib.LittleEndian

/-!
The vault file and the unlocked session.

The file is a header (magic, version, KDF id, cost parameters, salt, nonce) followed by the
sealed body. It is written to a temporary file that is then renamed over it, and the file it
replaces is kept as a backup. A call of the file system may fail; which one, and how much of
a write got done, is an input.
-/

namespace LvimKeyring.Vault

open Crypto LittleEndian Result

/-- One stored secret. -/
structure Entry where
  value : String
  user : Option String
  url : Option String
  notes : Option String
  tags : List String
  totp : Bool
  created : ℕ
  updated : ℕ
  deriving DecidableEq

/-- The decrypted body: the whole entry map. -/
structure Body where
  entries : Std.ExtTreeMap String Entry
  deriving DecidableEq

def Body.default : Body := ⟨∅⟩

/-- The packages the vault is built on: those of the crypto, and the JSON codec of the body. -/
structure Library (Key : Type) extends Primitives Key where
  toVec : Body → Except String Bytes
  fromSlice : Bytes → Except String Body

/-- What is assumed of them: `Crypto.Ideal`, and that a body survives the codec. -/
structure Library.Ideal {Key : Type} (L : Library Key) : Prop where
  crypto : Crypto.Ideal L.toPrimitives
  serializes : ∀ b, ∃ bytes, L.toVec b = .ok bytes
  roundTrip : ∀ {b bytes}, L.toVec b = .ok bytes → L.fromSlice bytes = .ok b

/-- An unlocked vault: the body, and what it takes to seal it again. -/
structure Session (Key : Type) where
  body : Body
  key : Key
  salt : Salt
  params : KdfParams
  deriving DecidableEq

/-! ### The file format -/

/-- `LVKR`. -/
def magic : Bytes := [76, 86, 75, 82]

def version : UInt8 := 0x01

def kdfArgon2id : UInt8 := 0x01

/-- The span the associated data covers. -/
def aadLen : ℕ := 4 + 1 + 1 + 4 + 4 + 4 + saltLen

def headerLen : ℕ := aadLen + nonceLen

/-- The header through the salt. -/
def aad (params : KdfParams) (salt : Salt) : Bytes :=
  magic ++ [version, kdfArgon2id] ++ toLe 4 params.mCost.toNat ++ toLe 4 params.tCost.toNat ++
    toLe 4 params.pCost.toNat ++ salt.toList

/-- Parsed header fields. -/
structure Header where
  params : KdfParams
  salt : Salt
  nonce : Nonce
  deriving DecidableEq

/-- `n` bytes of `raw` from position `a`. -/
def slice (raw : Bytes) (a n : ℕ) : Bytes := (raw.drop a).take n

def array (raw : Bytes) (a n : ℕ) (h : a + n ≤ raw.length) : List.Vector UInt8 n :=
  ⟨slice raw a n, by simp only [slice, List.length_take, List.length_drop]; omega⟩

def u32At (raw : Bytes) (a : ℕ) : UInt32 := UInt32.ofNat (ofLe (slice raw a 4))

/-- Split a vault file into its header fields and the ciphertext. -/
def parse (raw : Bytes) : Except Err (Header × Bytes) :=
  if h : raw.length < headerLen then .error .truncated
  else if slice raw 0 4 ≠ magic then .error .badMagic
  else if raw.getD 4 0 ≠ version then .error (.badVersion (raw.getD 4 0))
  else if raw.getD 5 0 ≠ kdfArgon2id then .error (.badKdf (raw.getD 5 0))
  else
    .ok ({ params := ⟨u32At raw 6, u32At raw 10, u32At raw 14⟩
           salt := array raw 18 saltLen (by unfold headerLen aadLen saltLen at *; omega)
           nonce := array raw aadLen nonceLen (by unfold headerLen at h; omega) },
      raw.drop headerLen)

/-! ### The file system -/

/-- The regular files, by path. -/
abbrev FileSystem := String → Option Bytes

inductive FsCall
  | read | createDirAll | openTemp | writeAll | syncAll | copy | rename
  deriving DecidableEq

/-- The calls that fail, with the error of each, and how many bytes a failing write or copy
leaves in its target, if it gets as far as opening it. -/
structure Faults where
  fails : FsCall → Option String
  torn : Option ℕ

/-- Every call succeeds. -/
def Faults.none : Faults := ⟨fun _ => .none, .none⟩

def noSuchFile : String := "No such file or directory (os error 2)"

/-- `fs::read`. -/
def readFile (io : Faults) (fs : FileSystem) (path : String) : Except Err Bytes :=
  match io.fails .read, fs path with
  | some e, _ => .error (.readVault e)
  | none, some raw => .ok raw
  | none, none => .error (.readVault noSuchFile)

/-- Whether a vault file exists at `path`. -/
def fileExists (fs : FileSystem) (path : String) : Bool := (fs path).isSome

def tmpPath (path : String) : String := path ++ ".tmp"

def bakPath (path : String) : String := path ++ ".bak"

/-- Only the empty path and a root have no parent directory. -/
def hasParent (path : String) : Bool := path.toList.any (· != '/')

/-- The file-system part of `write`. A failing copy is ignored. -/
def store (io : Faults) (fs : FileSystem) (path : String) (out : Bytes) :
    FileSystem × Except Err Unit :=
  match if hasParent path then io.fails .createDirAll else none with
  | some e => (fs, .error (.createDir e))
  | none =>
  match io.fails .openTemp with
  | some e => (fs, .error (.openTemp e))
  | none =>
  match io.fails .writeAll with
  | some e =>
    (Function.update fs (tmpPath path) (some (out.take (io.torn.getD 0))), .error (.writeTemp e))
  | none =>
  let written := Function.update fs (tmpPath path) (some out)
  match io.fails .syncAll with
  | some e => (written, .error (.fsyncTemp e))
  | none =>
  let kept :=
    match written path, io.fails .copy, io.torn with
    | none, _, _ => written
    | some old, none, _ => Function.update written (bakPath path) (some old)
    | some old, some _, some n => Function.update written (bakPath path) (some (old.take n))
    | some _, some _, none => written
  match io.fails .rename with
  | some e => (kept, .error (.replace e))
  | none => (Function.update (Function.update kept path (some out)) (tmpPath path) none, .ok ())

/-! ### Create, unlock, save, rotate -/

variable {Key : Type} (L : Library Key)

/-- The complete bytes of a vault file. -/
def render (s : Session Key) (nonce : Nonce) : Except Err Bytes := do
  let json ← (L.toVec s.body).mapError .serialize
  let ciphertext ← aeadSeal L.toPrimitives s.key nonce (aad s.params s.salt) json
  return aad s.params s.salt ++ nonce.toList ++ ciphertext

/-- Serialize a session's body, seal it under the session's key, and replace the file. -/
def write (io : Faults) (fs : FileSystem) (path : String) (s : Session Key) (nonce : Nonce) :
    FileSystem × Except Err Unit :=
  match render L s nonce with
  | .error e => (fs, .error e)
  | .ok out => store io fs path out

/-- The end of `create` and `rotate`: write the file, then hand out the session. -/
def writeNew (io : Faults) (fs : FileSystem) (path : String) (s : Session Key) (nonce : Nonce) :
    FileSystem × Except Err (Session Key) :=
  let (fs', r) := write L io fs path s nonce
  (fs', r.map fun _ => s)

/-- `create`, once the file is known to be absent. -/
def createAbsent (io : Faults) (fs : FileSystem) (path : String) (password : Bytes)
    (params : KdfParams) (salt : Salt) (nonce : Nonce) :
    FileSystem × Except Err (Session Key) :=
  match deriveKey L.toPrimitives password salt params with
  | .error e => (fs, .error e)
  | .ok key => writeNew L io fs path ⟨Body.default, key, salt, params⟩ nonce

/-- Create a new vault at `path`, which must not exist. -/
def create (io : Faults) (fs : FileSystem) (path : String) (password : Bytes)
    (params : KdfParams) (salt : Salt) (nonce : Nonce) :
    FileSystem × Except Err (Session Key) :=
  if fileExists fs path then (fs, .error (.vaultExists path))
  else createAbsent L io fs path password params salt nonce

/-- Open the ciphertext of a file under a key that has been derived. -/
def openBody (key : Key) (header : Header) (ciphertext : Bytes) : Except Err (Session Key) := do
  let plain ← aeadOpen L.toPrimitives key header.nonce (aad header.params header.salt) ciphertext
  let body ← (L.fromSlice plain).mapError .invalidBody
  return ⟨body, key, header.salt, header.params⟩

/-- Unlock the vault at `path`; the cost parameters are those of its header. -/
def unlock (io : Faults) (fs : FileSystem) (path : String) (password : Bytes) :
    Except Err (Session Key) := do
  let raw ← readFile io fs path
  let (header, ciphertext) ← parse raw
  let key ← deriveKey L.toPrimitives password header.salt header.params
  openBody L key header ciphertext

/-- Persist a live session under its own key. -/
def save (io : Faults) (fs : FileSystem) (path : String) (s : Session Key) (nonce : Nonce) :
    FileSystem × Except Err Unit :=
  write L io fs path s nonce

/-- `rotate`, once the old password has been authenticated: the entries of the session read,
sealed under a fresh salt and the new password. -/
def rotateRead (io : Faults) (fs : FileSystem) (path : String) (current : Session Key)
    (newPassword : Bytes) (newParams : KdfParams) (salt : Salt) (nonce : Nonce) :
    FileSystem × Except Err (Session Key) :=
  match deriveKey L.toPrimitives newPassword salt newParams with
  | .error e => (fs, .error e)
  | .ok key => writeNew L io fs path ⟨⟨current.body.entries⟩, key, salt, newParams⟩ nonce

/-- Change the master password, the cost parameters, or both. -/
def rotate (io : Faults) (fs : FileSystem) (path : String) (oldPassword newPassword : Bytes)
    (newParams : KdfParams) (salt : Salt) (nonce : Nonce) :
    FileSystem × Except Err (Session Key) :=
  match unlock L io fs path oldPassword with
  | .error e => (fs, .error e)
  | .ok current => rotateRead L io fs path current newPassword newParams salt nonce

end LvimKeyring.Vault
