import Mathlib.Algebra.Group.Int.Defs
import Mathlib.Tactic.Common

/-!
The value tree of the wire format, and how a request's parameters are decoded from it.

A parameter struct is decoded as its derived deserializer does it: from an object, field by
field in the object's own order, or from an array, field by field in the struct's order.
-/

namespace LvimKeyring.Rpc

/-- A JSON value. A number is an integer or, when it is none, the bits of a double. -/
inductive Json
  | null
  | bool (b : Bool)
  | num (n : ℤ)
  | float (bits : UInt64)
  | str (s : String)
  | arr (items : List Json)
  | obj (fields : List (String × Json))

/-- What a deserializer found where it expected something else. -/
inductive Unexpected
  | null
  | bool (b : Bool)
  | num (n : ℤ)
  | float (bits : UInt64)
  | str (s : String)
  | seq
  | map
  deriving DecidableEq

def Json.unexpected : Json → Unexpected
  | .null => .null
  | .bool b => .bool b
  | .num n => .num n
  | .float f => .float f
  | .str s => .str s
  | .arr _ => .seq
  | .obj _ => .map

/-- An error of the derived deserializers. -/
inductive DecodeError
  | invalidType (got : Unexpected) (expected : String)
  | invalidValue (got : Unexpected) (expected : String)
  | invalidLength (n : ℕ) (expected : String)
  | missingField (name : String)
  | duplicateField (name : String)
  deriving DecidableEq

/-- A decoder of one value. -/
abbrev Decoder (α : Type) := Json → Except DecodeError α

def decodeString : Decoder String
  | .str s => .ok s
  | j => .error (.invalidType j.unexpected "a string")

def decodeBool : Decoder Bool
  | .bool b => .ok b
  | j => .error (.invalidType j.unexpected "a boolean")

/-- An unsigned integer of `w` bits. -/
def decodeUint (w : ℕ) (expected : String) : Decoder ℕ
  | .num n =>
    if 0 ≤ n ∧ n < 2 ^ w then .ok n.toNat
    else .error (.invalidValue (.num n) expected)
  | j => .error (.invalidType j.unexpected expected)

def decodeUsize : Decoder ℕ := decodeUint 64 "usize"

def decodeOption {α : Type} (dec : Decoder α) : Decoder (Option α)
  | .null => .ok none
  | j => (dec j).map some

def decodeList {α : Type} (dec : Decoder α) : Decoder (List α)
  | .arr items => items.mapM dec
  | j => .error (.invalidType j.unexpected "a sequence")

/-! ### Structs -/

/-- What stands for a field that is absent: nothing, `None` from an object only, or a
declared default. -/
inductive Absent
  | required
  | option
  | default
  deriving DecidableEq

/-- A field of a parameter struct: its name, the check its value has to pass, and what an
absent one means. -/
structure Field where
  name : String
  check : Decoder Unit
  absent : Absent

def Field.of {α : Type} (name : String) (dec : Decoder α) (absent : Absent) : Field where
  name := name
  check j := (dec j).map fun _ => ()
  absent := absent

/-- The values of the fields present, by name. -/
abbrev Present := String → Option Json

lemma mem_of_lookup {α β : Type} [BEq α] [LawfulBEq α] {entries : List (α × β)} {a : α} {b : β}
    (h : entries.lookup a = some b) : (a, b) ∈ entries := by
  obtain ⟨l₁, l₂, rfl, -⟩ := List.lookup_eq_some_iff.mp h
  exact List.mem_append_right _ List.mem_cons_self

/-- `visit_map`: an unknown key is ignored, a known one is decoded where it stands. -/
def visitMap (fs : List Field) (kvs : List (String × Json)) : Except DecodeError Present := do
  kvs.forM fun kv =>
    match fs.find? (·.name == kv.1) with
    | some f => f.check kv.2
    | none => .ok ()
  return fun name => kvs.lookup name

/-- `visit_seq`: the elements are the fields in the order of their declaration. -/
def visitSeq (expected : String) (total : ℕ) :
    ℕ → List Field → List Json → Except DecodeError Present
  | _, [], [] => .ok fun _ => none
  | _, [], _ :: _ => .error (.invalidLength total "fewer elements in array")
  | i, f :: fs, [] =>
    if f.absent = .default then visitSeq expected total (i + 1) fs []
    else .error (.invalidLength i expected)
  | i, f :: fs, j :: js => do
    f.check j
    let rest ← visitSeq expected total (i + 1) fs js
    return fun name => if name = f.name then some j else rest name

/-- The fields of a struct, from an object or from an array. -/
def visitStruct (name : String) (fs : List Field) : Decoder Present
  | .obj kvs => visitMap fs kvs
  | .arr items =>
    let elements := if fs.length = 1 then " element" else " elements"
    visitSeq ("struct " ++ name ++ " with " ++ toString fs.length ++ elements) items.length 0 fs
      items
  | j => .error (.invalidType j.unexpected ("struct " ++ name))

def require {α : Type} (p : Present) (name : String) (dec : Decoder α) : Except DecodeError α :=
  match p name with
  | some j => dec j
  | none => .error (.missingField name)

def optional {α : Type} (p : Present) (name : String) (dec : Decoder α) (dflt : α) :
    Except DecodeError α :=
  match p name with
  | some j => dec j
  | none => .ok dflt

/-! ### The envelope -/

/-- The protocol version the handshake reports. -/
def proto : ℕ := 1

/-- A response line: the result, or the error's text. -/
def responseOk (id : ℕ) (result : Json) : Json :=
  .obj [("id", .num id), ("ok", .bool true), ("result", result)]

def responseErr (id : ℕ) (error : String) : Json :=
  .obj [("id", .num id), ("ok", .bool false), ("error", .str error)]

/-- A notification line. -/
def notification (method : String) (params : Json) : Json :=
  .obj [("method", .str method), ("params", params)]

end LvimKeyring.Rpc
