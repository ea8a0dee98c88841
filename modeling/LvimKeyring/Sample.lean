import LvimKeyring.Lib.Codec
import LvimKeyring.Lib.OrderedMap
import LvimKeyring.Daemon
import LvimKeyring.Sealing

/-!
One instance of the packages that meets every assumption made of them.

A key spells out what it was derived from, and a ciphertext is a tag that spells out the key,
the nonce and the associated data, followed by the message. The bodies of a short list are
serialized as the JSON text they have; the others get a binary code.
-/

namespace LvimKeyring.Sample

open Crypto LittleEndian Vault Server Daemon

abbrev Key := Bytes

def frame : Codec Bytes := .list .byte

/-! ### Keys and ciphertexts -/

def argon2Params (p : KdfParams) : Except String Unit :=
  if p.mCost.toNat < 8 * p.pCost.toNat then .error "memory cost is too small" else .ok ()

def argon2Hash (password : Bytes) (salt : Salt) (p : KdfParams) : Except String Key :=
  .ok (frame.enc password ++ (salt.toList ++ toLe 4 p.mCost.toNat ++ toLe 4 p.tCost.toNat ++
    toLe 4 p.pCost.toNat))

def tag (key : Key) (nonce : Nonce) (aad : Bytes) : Bytes :=
  frame.enc key ++ (frame.enc nonce.toList ++ frame.enc aad)

def encrypt (key : Key) (nonce : Nonce) (aad m : Bytes) : Option Bytes :=
  some (tag key nonce aad ++ m)

def decrypt (key : Key) (nonce : Nonce) (aad c : Bytes) : Option Bytes :=
  if tag key nonce aad <+: c then some (c.drop (tag key nonce aad).length) else none

def primitives : Primitives Key := ⟨argon2Params, argon2Hash, encrypt, decrypt⟩

lemma decrypt_eq_some {key : Key} {nonce : Nonce} {aad c m : Bytes} :
    decrypt key nonce aad c = some m ↔ c = tag key nonce aad ++ m := by
  unfold decrypt
  constructor
  · intro h
    split at h
    · rename_i hpre
      obtain ⟨t, rfl⟩ := hpre
      simpa using h
    · cases h
  · rintro rfl
    simp

theorem primitives_ideal : Crypto.Ideal primitives where
  encrypts key nonce aad m := ⟨_, rfl⟩
  decrypts h := decrypt_eq_some.mpr (Option.some.inj h).symm
  one_key h h' := by
    have hc := decrypt_eq_some.mp h
    rw [decrypt_eq_some.mp h'] at hc
    simp only [tag, List.append_assoc] at hc
    exact (frame.enc_prefix hc).1
  kdf_params _ _ h := by cases h
  kdf_inj h h' := by
    have hk := (Except.ok.inj h').trans (Except.ok.inj h).symm
    exact (frame.enc_prefix hk).1

/-! ### Bodies -/

/-- The bodies the runs below come to, with their JSON text. -/
def known : List (Body × String) :=
  [(Body.default, "\x7b\"entries\":\x7b\x7d\x7d"),
    (⟨.ofList [("a", newEntry "x" 7)]⟩,
      "\x7b\"entries\":\x7b\"a\":\x7b\"value\":\"x\",\"created\":7,\"updated\":7\x7d\x7d\x7d")]

def entryCodec : Codec Entry :=
  Codec.ofInverse (.prod .string <| .prod (.option .string) <| .prod (.option .string) <|
      .prod (.option .string) <| .prod (.list .string) <| .prod .bool <| .prod .nat .nat)
    (fun e => (e.value, e.user, e.url, e.notes, e.tags, e.totp, e.created, e.updated))
    (fun (value, user, url, notes, tags, totp, created, updated) =>
      ⟨value, user, url, notes, tags, totp, created, updated⟩)
    fun _ => rfl

def bodyCodec : Codec Body :=
  Codec.ofInverse (.list (.prod .string entryCodec)) (fun b => b.entries.toList)
    (fun l => ⟨.ofList l⟩) fun b => by rw [OrderedMap.ofList_toList]

def fromSlice (bytes : Bytes) : Except String Body :=
  match known.find? fun bt => asBytes bt.2 = bytes, bytes with
  | some bt, _ => .ok bt.1
  | none, 0 :: rest =>
    match bodyCodec.dec rest with
    | some (b, []) => .ok b
    | _ => .error "expected value at line 1 column 1"
  | none, _ => .error "expected value at line 1 column 1"

def toVec (b : Body) : Except String Bytes :=
  match known.lookup b with
  | some text => .ok (asBytes text)
  | none => .ok (0 :: bodyCodec.enc b)

lemma fromSlice_known {b : Body} {text : String} (h : known.lookup b = some text) :
    fromSlice (asBytes text) = .ok b := by
  have hall : ∀ bt ∈ known, fromSlice (asBytes bt.2) = .ok bt.1 := by decide +kernel
  exact hall (b, text) (Rpc.mem_of_lookup h)

lemma fromSlice_code (b : Body) : fromSlice (0 :: bodyCodec.enc b) = .ok b := by
  have hall : ∀ bt ∈ known, (asBytes bt.2).head? = some 123 := by decide +kernel
  have hnone : known.find? (fun bt => asBytes bt.2 = 0 :: bodyCodec.enc b) = none := by
    refine List.find?_eq_none.mpr fun bt hbt heq => ?_
    have hhead := hall bt hbt
    rw [of_decide_eq_true heq] at hhead
    cases hhead
  have hdec : bodyCodec.dec (bodyCodec.enc b) = some (b, []) := by
    simpa using bodyCodec.dec_enc b []
  simp only [fromSlice, hnone, hdec]

def library : Library Key := { primitives with toVec, fromSlice }

theorem library_ideal : library.Ideal where
  crypto := primitives_ideal
  serializes b := by
    simp only [library, toVec]
    cases known.lookup b <;> exact ⟨_, rfl⟩
  roundTrip {b bytes} h := by
    simp only [library, toVec] at h ⊢
    cases hk : known.lookup b with
    | some text =>
      rw [hk] at h
      rw [← Except.ok.inj h]
      exact fromSlice_known hk
    | none =>
      rw [hk] at h
      rw [← Except.ok.inj h]
      exact fromSlice_code b

def totp : Totp.Packages := ⟨fun c => [c.toUpper], fun bs => if bs = [] then some [] else none,
  fun _ _ => List.Vector.replicate 20 0⟩

def packages : Packages Key := { library with totp }

/-! ### A daemon -/

def config : Config := ⟨"/home/u/keyring.vault", .default, 900, 0, false⟩

def env : Env where
  now := 7
  clock := 0
  salt := .replicate _ 1
  nonce := .replicate _ 2
  random _ := 0
  io := .none

/-- A vault just created, and the session it is created with. -/
def created : World Key :=
  (dispatch packages config env ⟨fun _ => none, Inner.new Key 0⟩ "vault.create"
    (.obj [("password", .str "pw")])).world

def session : Session Key where
  body := .default
  key := frame.enc (asBytes "pw") ++ (env.salt.toList ++ toLe 4 65536 ++ toLe 4 3 ++ toLe 4 4)
  salt := env.salt
  params := .default

lemma created_session : created.inner.session = some session := by decide +kernel

lemma created_holds : Holds packages.toLibrary created.fs config.vaultPath session := by
  decide +kernel

/-! ### Runs of the daemon -/

/-- The daemon on the vault just created. -/
abbrev started : State Key := Daemon.start Key created.fs 0

abbrev step : State Key → Action → Option (State Key) := Daemon.step packages config

/-- So many sections of one thread. -/
def turns (t n : ℕ) : List Action := List.replicate n (.run t env false)

/-- A request of the first client to connect, served by a thread from start to end. -/
def served (t : ℕ) (method : String) (params : List (String × Rpc.Json)) (n : ℕ) : List Action :=
  .request t 1 t method (.obj params) :: turns t n

/-- The actions of runs on the sample daemon: they meet no fault. -/
def Plain (methods : List String) (a : Action) : Prop := a.faultless ∧ a.only methods

variable {methods : List String}

lemma plain_turns (t n : ℕ) : ∀ a ∈ turns t n, Plain methods a := by
  intro a ha
  rw [List.eq_of_mem_replicate ha]
  exact ⟨rfl, trivial⟩

lemma plain_served {method : String} (h : method ∈ methods) (t n : ℕ)
    (params : List (String × Rpc.Json)) : ∀ a ∈ served t method params n, Plain methods a :=
  List.forall_mem_cons.mpr ⟨⟨trivial, h⟩, plain_turns t n⟩

end LvimKeyring.Sample
