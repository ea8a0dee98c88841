import LvimKeyring.Rpc

/-!
The parameter structs of the requests.
-/

namespace LvimKeyring.Params

open Rpc

structure PasswordParam where
  password : String
  deriving DecidableEq

def PasswordParam.fromValue : Decoder PasswordParam := fun j => do
  let p ← visitStruct "PasswordParam" [.of "password" decodeString .required] j
  return ⟨← require p "password" decodeString⟩

structure RotateParam where
  oldPassword : String
  newPassword : String
  deriving DecidableEq

def RotateParam.fromValue : Decoder RotateParam := fun j => do
  let p ← visitStruct "RotateParam"
    [.of "old_password" decodeString .required, .of "new_password" decodeString .required] j
  return ⟨← require p "old_password" decodeString, ← require p "new_password" decodeString⟩

/-- A request parks on a locked vault unless it says `"wait": false`. -/
def defaultTrue : Bool := true

def waitField : Field := .of "wait" decodeBool .default

structure NameParam where
  name : String
  wait : Bool
  deriving DecidableEq

def NameParam.fromValue : Decoder NameParam := fun j => do
  let p ← visitStruct "NameParam" [.of "name" decodeString .required, waitField] j
  return ⟨← require p "name" decodeString, ← optional p "wait" decodeBool defaultTrue⟩

structure RenameParam where
  src : String
  dst : String
  wait : Bool
  deriving DecidableEq

def RenameParam.fromValue : Decoder RenameParam := fun j => do
  let p ← visitStruct "RenameParam"
    [.of "from" decodeString .required, .of "to" decodeString .required, waitField] j
  return ⟨← require p "from" decodeString, ← require p "to" decodeString,
    ← optional p "wait" decodeBool defaultTrue⟩

/-- Metadata a `set` may carry. -/
structure MetaIn where
  user : Option String
  url : Option String
  notes : Option String
  tags : Option (List String)
  totp : Option Bool
  deriving DecidableEq

def MetaIn.fromValue : Decoder MetaIn := fun j => do
  let text : Decoder (Option String) := decodeOption decodeString
  let tags : Decoder (Option (List String)) := decodeOption (decodeList decodeString)
  let flag : Decoder (Option Bool) := decodeOption decodeBool
  let p ← visitStruct "MetaIn" [.of "user" text .option, .of "url" text .option,
    .of "notes" text .option, .of "tags" tags .option, .of "totp" flag .option] j
  return ⟨← optional p "user" text none, ← optional p "url" text none,
    ← optional p "notes" text none, ← optional p "tags" tags none,
    ← optional p "totp" flag none⟩

structure SetParam where
  name : String
  value : Option String
  info : Option MetaIn
  wait : Bool
  deriving DecidableEq

def SetParam.fromValue : Decoder SetParam := fun j => do
  let p ← visitStruct "SetParam" [.of "name" decodeString .required,
    .of "value" (decodeOption decodeString) .default,
    .of "meta" (decodeOption MetaIn.fromValue) .default, waitField] j
  return ⟨← require p "name" decodeString,
    ← optional p "value" (decodeOption decodeString) none,
    ← optional p "meta" (decodeOption MetaIn.fromValue) none,
    ← optional p "wait" decodeBool defaultTrue⟩

structure WaitParam where
  wait : Bool
  deriving DecidableEq

def WaitParam.fromValue : Decoder WaitParam := fun j => do
  let p ← visitStruct "WaitParam" [waitField] j
  return ⟨← optional p "wait" decodeBool defaultTrue⟩

structure GenerateParam where
  length : Option ℕ
  symbols : Option Bool
  storeAs : Option String
  deriving DecidableEq

def GenerateParam.fromValue : Decoder GenerateParam := fun j => do
  let p ← visitStruct "GenerateParam" [.of "length" (decodeOption decodeUsize) .option,
    .of "symbols" (decodeOption decodeBool) .option,
    .of "store_as" (decodeOption decodeString) .option] j
  return ⟨← optional p "length" (decodeOption decodeUsize) none,
    ← optional p "symbols" (decodeOption decodeBool) none,
    ← optional p "store_as" (decodeOption decodeString) none⟩

/-- `unwrap_or_default`: parameters that do not decode count as absent ones. -/
def orDefault {α : Type} (r : Except DecodeError α) (dflt : α) : α :=
  match r with
  | .ok a => a
  | .error _ => dflt

end LvimKeyring.Params
