import LvimKeyring.Sample

/-!
Tamper evidence of the vault file.

`write` is the only caller of `seal`, so an ideal cipher opens nothing but the ciphertexts of
writes. The associated data is not read from the file but made again from the fields parsed;
as parsing leaves no byte unread, and equal associated data comes from equal fields, a file
that opens is one that was written, to the byte.
-/

namespace LvimKeyring.Vault

open Crypto Result

/-- A call of `seal`: the key, the nonce, the associated data and the message. -/
structure SealCall (Key : Type) where
  key : Key
  nonce : Nonce
  aad : Bytes
  plaintext : Bytes

/-- The ideal cipher: a ciphertext opens only if sealing produced it in one of these calls, for
the same key, nonce and associated data. -/
def Authentic {Key : Type} (P : Primitives Key) (calls : Set (SealCall Key)) : Prop :=
  ∀ key nonce ad c m, P.decrypt key nonce ad c = some m →
    ∃ m', ⟨key, nonce, ad, m'⟩ ∈ calls ∧ P.encrypt key nonce ad m' = some c

variable {Key : Type} (L : Library Key)

/-- The calls of `seal` that these calls of `write` make, whatever becomes of the file: a call
of `write` is given by the session and the nonce drawn for it. -/
def sealCalls (writes : Set (Session Key × Nonce)) : Set (SealCall Key) :=
  {c | ∃ w ∈ writes, c.key = w.1.key ∧ c.nonce = w.2 ∧ c.aad = aad w.1.params w.1.salt ∧
    L.toVec w.1.body = .ok c.plaintext}

/-- The complete bytes of one of these writes. -/
def Written (writes : Set (Session Key × Nonce)) (raw : Bytes) : Prop :=
  ∃ w ∈ writes, render L w.1 w.2 = .ok raw

/-- A file was written with the key that the password derives from its own salt and costs. -/
def WrittenUnder (writes : Set (Session Key × Nonce)) (password raw : Bytes) : Prop :=
  ∃ w ∈ writes, render L w.1 w.2 = .ok raw ∧
    (∃ ct, parse raw = .ok (⟨w.1.params, w.1.salt, w.2⟩, ct)) ∧
    deriveKey L.toPrimitives password w.1.salt w.1.params = .ok w.1.key

variable {L} {writes : Set (Session Key × Nonce)}

lemma WrittenUnder.written {password raw : Bytes} (h : WrittenUnder L writes password raw) :
    Written L writes raw := by
  obtain ⟨w, hw, hrender, -, -⟩ := h
  exact ⟨w, hw, hrender⟩

lemma written_of_open (hauth : Authentic L.toPrimitives (sealCalls L writes)) {key : Key}
    {header : Header} {raw ct plain : Bytes} (hparse : parse raw = .ok (header, ct))
    (hopen : aeadOpen L.toPrimitives key header.nonce (aad header.params header.salt) ct
      = .ok plain) :
    ∃ w ∈ writes, w.1.key = key ∧ header = ⟨w.1.params, w.1.salt, w.2⟩ ∧
      render L w.1 w.2 = .ok raw := by
  obtain ⟨json, ⟨w, hw, hkey, hnonce, haad, hjson⟩, hseal⟩ :=
    hauth _ _ _ _ _ (aeadOpen_eq_ok.mp hopen)
  simp only at hkey hnonce haad hjson
  obtain ⟨hparams, hsalt⟩ := aad_injective haad
  have hheader : header = ⟨w.1.params, w.1.salt, w.2⟩ := by
    rw [← hparams, ← hsalt, ← hnonce]
  refine ⟨w, hw, hkey.symm, hheader, ?_⟩
  rw [hkey, hnonce, haad] at hseal
  refine render_eq_ok.mpr ⟨json, ct, hjson, aeadSeal_eq_ok.mpr hseal, ?_⟩
  rw [layout_of_parse hparse, hheader]

/-- A file that `unlock` accepts was written, byte for byte, under the password's key; so a
file that is none of those written is refused. -/
theorem unlock_written (hauth : Authentic L.toPrimitives (sealCalls L writes)) (io : Faults)
    (fs : FileSystem) (path : String) (password : Bytes) :
    (∀ s, unlock L io fs path password = .ok s →
      ∃ raw, fs path = some raw ∧ WrittenUnder L writes password raw) ∧
    (∀ raw, fs path = some raw → ¬ Written L writes raw →
      ∃ e, unlock L io fs path password = .error e) := by
  have haccept : ∀ s, unlock L io fs path password = .ok s →
      ∃ raw, fs path = some raw ∧ WrittenUnder L writes password raw := by
    intro s hs
    obtain ⟨-, hkey, hholds⟩ := unlock_eq_ok.mp hs
    obtain ⟨raw, header, ct, hraw, hparse, hbody⟩ := holds_iff.mp hholds
    obtain ⟨-, hsalt, hparams, plain, hopen, -⟩ := openBody_eq_ok.mp hbody
    obtain ⟨w, hw, hwkey, rfl, hrender⟩ := written_of_open hauth hparse hopen
    rw [hsalt, hparams, ← hwkey] at hkey
    exact ⟨raw, hraw, w, hw, hrender, ⟨ct, hparse⟩, hkey⟩
  refine ⟨haccept, fun raw hraw hnot => ?_⟩
  cases hs : unlock L io fs path password with
  | error e => exact ⟨e, rfl⟩
  | ok s =>
    obtain ⟨raw', hraw', hunder⟩ := haccept s hs
    rw [hraw] at hraw'
    cases hraw'
    exact absurd hunder.written hnot

/-! ### One file written -/

section Once

open Sample

/-- The message of the sample's vault. -/
def emptyText : Bytes := asBytes "\x7b\"entries\":\x7b\x7d\x7d"

/-- The sample's packages, after the one write that created its vault. -/
def sealedOnce : Library Sample.Key :=
  { library with
    decrypt := fun key nonce ad c =>
      if key = session.key ∧ nonce = env.nonce ∧ ad = aad session.params session.salt ∧
          encrypt key nonce ad emptyText = some c then some emptyText
      else none }

/-- The file of that write. -/
def sealedFile : Bytes :=
  aad session.params session.salt ++ env.nonce.toList ++
    (tag session.key env.nonce (aad session.params session.salt) ++ emptyText)

/-- The file with a bit of its memory cost flipped. -/
def tampered : Bytes := sealedFile.modify 6 (· ^^^ 1)

lemma sealedOnce_authentic :
    Authentic sealedOnce.toPrimitives (sealCalls sealedOnce {(session, env.nonce)}) := by
  have hjson : sealedOnce.toVec session.body = .ok emptyText := by decide +kernel
  intro key nonce ad c m h
  simp only [sealedOnce] at h
  split at h
  · rename_i hcall
    obtain ⟨hkey, hnonce, had, hc⟩ := hcall
    exact ⟨emptyText, ⟨_, rfl, hkey, hnonce, had, hjson⟩, hc⟩
  · cases h

/-- The file opens with the password it was created with, and the altered one does not. -/
theorem unlock_written_once :
    (unlock sealedOnce .none (fun _ => some sealedFile) "v" (asBytes "pw") = .ok session ∧
      WrittenUnder sealedOnce {(session, env.nonce)} (asBytes "pw") sealedFile) ∧
    ∃ e, unlock sealedOnce .none (fun _ => some tampered) "v" (asBytes "pw") = .error e := by
  have hopens : unlock sealedOnce .none (fun _ => some sealedFile) "v" (asBytes "pw")
      = .ok session := by
    decide +kernel
  have hnot : ¬ Written sealedOnce {(session, env.nonce)} tampered := by
    rintro ⟨w, rfl, hrender⟩
    revert hrender
    decide +kernel
  obtain ⟨raw, hraw, hunder⟩ :=
    (unlock_written sealedOnce_authentic .none (fun _ => some sealedFile) "v"
      (asBytes "pw")).1 session hopens
  cases hraw
  exact ⟨⟨hopens, hunder⟩, (unlock_written sealedOnce_authentic .none (fun _ => some tampered) "v"
    (asBytes "pw")).2 tampered rfl hnot⟩

end Once

end LvimKeyring.Vault
