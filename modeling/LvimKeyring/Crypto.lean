import Mathlib.Data.Vector.Basic
import LvimKeyring.Lib.Result
import LvimKeyring.Rpc

/-!
Key derivation and authenticated encryption, and the errors of the daemon.

Argon2id and XChaCha20-Poly1305 are packages; they enter as parameters, and the key they
exchange is opaque. The daemon's own part is the order of its checks and the errors it makes
of theirs.
-/

namespace LvimKeyring

open Rpc Result

abbrev Bytes := List UInt8

/-- `as_bytes` of a string. -/
def asBytes (s : String) : Bytes := s.toUTF8.data.toList

lemma asBytes_injective : Function.Injective asBytes := by
  intro s t h
  have hb : s.toByteArray = t.toByteArray := ByteArray.ext (Array.toList_inj.mp h)
  exact String.toByteArray_inj.mp hb

/-- Every error a handler can answer with. -/
inductive Err
  | decode (e : DecodeError)
  | unknownMethod (name : String)
  | locked
  | emptyName
  | emptyNewName
  | noSecret (name : String)
  | alreadyExists (name : String)
  | needsValue
  | vaultExists (path : String)
  | readVault (io : String)
  | truncated
  | badMagic
  | badVersion (v : UInt8)
  | badKdf (id : UInt8)
  | invalidKdf
  | argon2Params (e : String)
  | keyDerivation (e : String)
  | encryption
  | wrongPassword
  | invalidBody (e : String)
  | serialize (e : String)
  | createDir (io : String)
  | openTemp (io : String)
  | writeTemp (io : String)
  | fsyncTemp (io : String)
  | replace (io : String)
  | totpParams
  | totpSecret
  deriving DecidableEq

/-- The text of an error; `serde` prints those of the deserializers. -/
def Err.text (serde : DecodeError → String) : Err → String
  | .decode e => serde e
  | .unknownMethod name => "unknown method '" ++ name ++ "'"
  | .locked => "locked"
  | .emptyName => "secret name cannot be empty"
  | .emptyNewName => "new name cannot be empty"
  | .noSecret name => "no secret named '" ++ name ++ "'"
  | .alreadyExists name => "a secret named '" ++ name ++ "' already exists"
  | .needsValue => "a new secret needs a value"
  | .vaultExists path => "a vault already exists at " ++ path
  | .readVault io => "read vault: " ++ io
  | .truncated => "vault file is truncated"
  | .badMagic => "not a keyring vault file (bad magic)"
  | .badVersion v => "unsupported vault version " ++ toString v
  | .badKdf id => "unsupported KDF id " ++ toString id
  | .invalidKdf => "invalid KDF parameters"
  | .argon2Params e => "argon2 params: " ++ e
  | .keyDerivation e => "key derivation failed: " ++ e
  | .encryption => "encryption failed"
  | .wrongPassword => "wrong master password (or the vault file is corrupt)"
  | .invalidBody e => "vault body is not valid: " ++ e
  | .serialize e => "serialize: " ++ e
  | .createDir io => "create vault dir: " ++ io
  | .openTemp io => "open temp vault: " ++ io
  | .writeTemp io => "write temp vault: " ++ io
  | .fsyncTemp io => "fsync temp vault: " ++ io
  | .replace io => "replace vault: " ++ io
  | .totpParams => "invalid TOTP parameters"
  | .totpSecret => "not a valid base32 TOTP secret"

namespace Crypto

def saltLen : ℕ := 16

def nonceLen : ℕ := 24

abbrev Salt := List.Vector UInt8 saltLen
abbrev Nonce := List.Vector UInt8 nonceLen

/-- Argon2id cost parameters. -/
structure KdfParams where
  mCost : UInt32
  tCost : UInt32
  pCost : UInt32
  deriving DecidableEq

def KdfParams.default : KdfParams := ⟨64 * 1024, 3, 4⟩

/-- The packages the crypto rests on. -/
structure Primitives (Key : Type) where
  /-- `argon2::Params::new` with a 32-byte output. -/
  argon2Params : KdfParams → Except String Unit
  /-- `hash_password_into`. -/
  argon2Hash : Bytes → Salt → KdfParams → Except String Key
  /-- XChaCha20-Poly1305 under a key and a nonce: the associated data, then the message. -/
  encrypt : Key → Nonce → Bytes → Bytes → Option Bytes
  decrypt : Key → Nonce → Bytes → Bytes → Option Bytes

variable {Key : Type} (P : Primitives Key)

/-- Refuse parameters that would panic Argon2 or defeat it. -/
def KdfParams.validate (p : KdfParams) : Except Err Unit :=
  if p.mCost < 8 ∨ p.tCost < 1 ∨ p.pCost < 1 then .error .invalidKdf else .ok ()

def deriveKey (password : Bytes) (salt : Salt) (params : KdfParams) : Except Err Key := do
  params.validate
  (P.argon2Params params).mapError .argon2Params
  (P.argon2Hash password salt params).mapError .keyDerivation

def aeadSeal (key : Key) (nonce : Nonce) (aad plaintext : Bytes) : Except Err Bytes :=
  match P.encrypt key nonce aad plaintext with
  | some c => .ok c
  | none => .error .encryption

/-- A wrong key, a tampered body and an altered header all fail here. -/
def aeadOpen (key : Key) (nonce : Nonce) (aad ciphertext : Bytes) : Except Err Bytes :=
  match P.decrypt key nonce aad ciphertext with
  | some m => .ok m
  | none => .error .wrongPassword

/-- What is assumed of the packages: sealing always succeeds and opening undoes it, a
ciphertext opens under one key at most, whether a key can be derived depends on the cost
parameters alone, and two passwords never derive the same key. -/
structure Ideal : Prop where
  encrypts : ∀ key nonce aad m, ∃ c, P.encrypt key nonce aad m = some c
  decrypts : ∀ {key nonce aad m c}, P.encrypt key nonce aad m = some c →
    P.decrypt key nonce aad c = some m
  one_key : ∀ {key key' nonce aad c m m'}, P.decrypt key nonce aad c = some m →
    P.decrypt key' nonce aad c = some m' → key' = key
  kdf_params : ∀ {pw salt params e} (pw' salt'), P.argon2Hash pw salt params = .error e →
    P.argon2Hash pw' salt' params = .error e
  kdf_inj : ∀ {pw pw' salt params key}, P.argon2Hash pw salt params = .ok key →
    P.argon2Hash pw' salt params = .ok key → pw' = pw

variable {P}

lemma deriveKey_eq_ok {pw : Bytes} {salt : Salt} {params : KdfParams} {key : Key} :
    deriveKey P pw salt params = .ok key ↔ params.validate = .ok () ∧
      P.argon2Params params = .ok () ∧ P.argon2Hash pw salt params = .ok key := by
  simp only [deriveKey, bind_eq_ok, mapError_eq_ok]
  constructor
  · rintro ⟨_, hv, _, hp, hk⟩
    exact ⟨hv, hp, hk⟩
  · rintro ⟨hv, hp, hk⟩
    exact ⟨(), hv, (), hp, hk⟩

lemma Ideal.deriveKey_error (h : Ideal P) {pw : Bytes} {salt : Salt} {params : KdfParams} {e : Err}
    (he : deriveKey P pw salt params = .error e) (pw' : Bytes) (salt' : Salt) :
    deriveKey P pw' salt' params = .error e := by
  simp only [deriveKey, bind_eq_error, mapError_eq_ok, mapError_eq_error] at he ⊢
  rcases he with hv | ⟨u, hv, hp | ⟨w, hp, e', hk, rfl⟩⟩
  · exact .inl hv
  · exact .inr ⟨u, hv, .inl hp⟩
  · exact .inr ⟨u, hv, .inr ⟨w, hp, e', h.kdf_params pw' salt' hk, rfl⟩⟩

lemma Ideal.deriveKey_inj (h : Ideal P) {pw pw' : Bytes} {salt : Salt} {params : KdfParams}
    {key : Key} (h1 : deriveKey P pw salt params = .ok key)
    (h2 : deriveKey P pw' salt params = .ok key) : pw' = pw :=
  h.kdf_inj (deriveKey_eq_ok.mp h1).2.2 (deriveKey_eq_ok.mp h2).2.2

lemma aeadOpen_eq_ok {key : Key} {nonce : Nonce} {aad c m : Bytes} :
    aeadOpen P key nonce aad c = .ok m ↔ P.decrypt key nonce aad c = some m := by
  unfold aeadOpen
  cases P.decrypt key nonce aad c <;> simp

lemma aeadSeal_eq_ok {key : Key} {nonce : Nonce} {aad m c : Bytes} :
    aeadSeal P key nonce aad m = .ok c ↔ P.encrypt key nonce aad m = some c := by
  unfold aeadSeal
  cases P.encrypt key nonce aad m <;> simp

lemma Ideal.open_seal (h : Ideal P) {key : Key} {nonce : Nonce} {aad m c : Bytes}
    (hs : aeadSeal P key nonce aad m = .ok c) : aeadOpen P key nonce aad c = .ok m :=
  aeadOpen_eq_ok.mpr (h.decrypts (aeadSeal_eq_ok.mp hs))

lemma Ideal.open_key (h : Ideal P) {key key' : Key} {nonce : Nonce} {aad c m m' : Bytes}
    (h1 : aeadOpen P key nonce aad c = .ok m) (h2 : aeadOpen P key' nonce aad c = .ok m') :
    key' = key :=
  h.one_key (aeadOpen_eq_ok.mp h1) (aeadOpen_eq_ok.mp h2)

end Crypto

end LvimKeyring
