import LvimKeyring.Vault

/-!
What a vault file holds: the session it opens to under that session's own key.

Unlocking is finding that session and deriving its key from the password; a successful write
makes the file hold the session written, and a failed one leaves the vault file alone. Under
the assumptions on the packages a file holds one session at most.
-/

namespace LvimKeyring.Vault

open Crypto LittleEndian Result

/-! ### Reading back the header -/

lemma slice_append (pre mid post : Bytes) {a n : ℕ} (ha : pre.length = a) (hn : mid.length = n) :
    slice (pre ++ (mid ++ post)) a n = mid := by
  subst ha hn
  simp [slice]

lemma aad_length (params : KdfParams) (salt : Salt) : (aad params salt).length = aadLen := by
  have hs : salt.toList.length = saltLen := salt.toList_length
  simp [aad, magic, aadLen, hs]
  omega

/-- Parsing undoes the layout of the header. -/
theorem parse_layout (params : KdfParams) (salt : Salt) (nonce : Nonce) (ct : Bytes) :
    parse (aad params salt ++ nonce.toList ++ ct) = .ok (⟨params, salt, nonce⟩, ct) := by
  have hn : nonce.toList.length = nonceLen := nonce.toList_length
  have hs : salt.toList.length = saltLen := salt.toList_length
  generalize hraw : aad params salt ++ nonce.toList ++ ct = raw
  have hlen : ¬ raw.length < headerLen := by
    rw [← hraw, List.length_append, List.length_append, aad_length, hn, headerLen]
    omega
  -- Each field is the slice behind the fields before it.
  have hm : slice raw 6 4 = toLe 4 params.mCost.toNat := by
    have h := slice_append (magic ++ [version, kdfArgon2id]) (toLe 4 params.mCost.toNat)
      (toLe 4 params.tCost.toNat ++ (toLe 4 params.pCost.toNat ++
        (salt.toList ++ (nonce.toList ++ ct)))) (a := 6) rfl (toLe_length 4 params.mCost.toNat)
    simpa [← hraw, aad] using h
  have ht : slice raw 10 4 = toLe 4 params.tCost.toNat := by
    have h := slice_append (magic ++ [version, kdfArgon2id] ++ toLe 4 params.mCost.toNat)
      (toLe 4 params.tCost.toNat)
      (toLe 4 params.pCost.toNat ++ (salt.toList ++ (nonce.toList ++ ct))) (a := 10)
      (by simp [magic]) (toLe_length 4 params.tCost.toNat)
    simpa [← hraw, aad] using h
  have hp : slice raw 14 4 = toLe 4 params.pCost.toNat := by
    have h := slice_append (magic ++ [version, kdfArgon2id] ++ toLe 4 params.mCost.toNat ++
        toLe 4 params.tCost.toNat) (toLe 4 params.pCost.toNat)
      (salt.toList ++ (nonce.toList ++ ct)) (a := 14) (by simp [magic])
      (toLe_length 4 params.pCost.toNat)
    simpa [← hraw, aad] using h
  have hsalt : slice raw 18 saltLen = salt.toList := by
    have h := slice_append (magic ++ [version, kdfArgon2id] ++ toLe 4 params.mCost.toNat ++
        toLe 4 params.tCost.toNat ++ toLe 4 params.pCost.toNat) salt.toList
      (nonce.toList ++ ct) (a := 18) (by simp [magic]) hs
    simpa [← hraw, aad] using h
  have hnonce : slice raw aadLen nonceLen = nonce.toList := by
    rw [← hraw, List.append_assoc]
    exact slice_append _ _ _ (aad_length params salt) hn
  have hbody : raw.drop headerLen = ct := by
    have hl : (aad params salt ++ nonce.toList).length = headerLen := by
      rw [List.length_append, aad_length, hn, headerLen]
    rw [← hraw, ← hl, List.drop_left]
  have h0 : slice raw 0 4 = magic := by
    rw [← hraw]
    simp [slice, aad, magic]
  have h4 : raw.getD 4 0 = version := by
    rw [← hraw]
    simp [aad, magic]
  have h5 : raw.getD 5 0 = kdfArgon2id := by
    rw [← hraw]
    simp [aad, magic]
  have ha : array raw 18 saltLen (by unfold headerLen aadLen saltLen at *; omega) = salt :=
    List.Vector.eq _ _ hsalt
  have hb : array raw aadLen nonceLen (by unfold headerLen at hlen; omega) = nonce :=
    List.Vector.eq _ _ hnonce
  simp only [parse, hlen, h0, h4, h5, ha, hb, hbody, u32At, hm, ht, hp, uint32_ofLe_toLe,
    ne_eq, not_true_eq_false, if_false, dite_false]

lemma slice_append_drop (raw : Bytes) (a n : ℕ) :
    slice raw a n ++ raw.drop (a + n) = raw.drop a := by
  rw [slice, ← List.drop_drop, List.take_append_drop]

lemma toLe_u32At (raw : Bytes) (a : ℕ) (h : a + 4 ≤ raw.length) :
    toLe 4 (u32At raw a).toNat = slice raw a 4 := by
  have hlen : (slice raw a 4).length = 4 := by
    simp only [slice, List.length_take, List.length_drop]
    omega
  have hlt : ofLe (slice raw a 4) < 2 ^ 32 := by
    have h4 := ofLe_lt (slice raw a 4)
    rw [hlen] at h4
    omega
  have hval : (u32At raw a).toNat = ofLe (slice raw a 4) := by
    rw [u32At, UInt32.toNat_ofNat']
    exact Nat.mod_eq_of_lt hlt
  have hle := toLe_ofLe (slice raw a 4)
  rw [hlen] at hle
  rw [hval, hle]

lemma drop_eq_getD_cons {raw : Bytes} {a : ℕ} (h : a < raw.length) :
    raw.drop a = raw.getD a 0 :: raw.drop (a + 1) := by
  rw [List.drop_eq_getElem_cons h, List.getD_eq_getElem?_getD, List.getElem?_eq_getElem h,
    Option.getD_some]

/-- What parses is laid out as the fields it parses to: no byte of it is left unread. -/
theorem layout_of_parse {raw ct : Bytes} {header : Header} (h : parse raw = .ok (header, ct)) :
    raw = aad header.params header.salt ++ header.nonce.toList ++ ct := by
  unfold parse at h
  split at h
  · cases h
  rename_i hlen
  have hlong : 58 ≤ raw.length := by
    unfold headerLen aadLen saltLen nonceLen at hlen
    omega
  -- The checks of `parse`, in its order: length, magic, version and key derivation.
  split at h
  · cases h
  rename_i hmagic
  split at h
  · cases h
  rename_i hversion
  split at h
  · cases h
  rename_i hkdf
  cases h
  have h0 : raw = slice raw 0 4 ++ raw.drop 4 := by
    have h := slice_append_drop raw 0 4
    rw [List.drop_zero] at h
    exact h.symm
  have h4 : raw.drop 4 = raw.getD 4 0 :: raw.drop 5 := drop_eq_getD_cons (by omega)
  have h5 : raw.drop 5 = raw.getD 5 0 :: raw.drop 6 := drop_eq_getD_cons (by omega)
  have h6 : raw.drop 6 = slice raw 6 4 ++ raw.drop 10 := (slice_append_drop raw 6 4).symm
  have h10 : raw.drop 10 = slice raw 10 4 ++ raw.drop 14 := (slice_append_drop raw 10 4).symm
  have h14 : raw.drop 14 = slice raw 14 4 ++ raw.drop 18 := (slice_append_drop raw 14 4).symm
  have h18 : raw.drop 18 = slice raw 18 saltLen ++ raw.drop aadLen :=
    (slice_append_drop raw 18 saltLen).symm
  have h34 : raw.drop aadLen = slice raw aadLen nonceLen ++ raw.drop headerLen :=
    (slice_append_drop raw aadLen nonceLen).symm
  have hsalt : (array raw 18 saltLen (by unfold saltLen; omega)).toList
      = slice raw 18 saltLen := rfl
  have hnonce : (array raw aadLen nonceLen (by unfold aadLen saltLen nonceLen; omega)).toList
      = slice raw aadLen nonceLen := rfl
  conv_lhs => rw [h0, h4, h5, h6, h10, h14, h18, h34, not_not.mp hmagic, not_not.mp hversion,
    not_not.mp hkdf]
  simp only [aad, hsalt, hnonce, toLe_u32At raw 6 (by omega),
    toLe_u32At raw 10 (by omega), toLe_u32At raw 14 (by omega),
    List.append_assoc, List.cons_append, List.nil_append]

lemma aad_injective {params params' : KdfParams} {salt salt' : Salt}
    (h : aad params salt = aad params' salt') : params = params' ∧ salt = salt' := by
  have hp := parse_layout params salt (.replicate _ 0) []
  rw [h, parse_layout] at hp
  cases hp
  exact ⟨rfl, rfl⟩

/-! ### What a file holds -/

variable {Key : Type} (L : Library Key)

/-- The session a file opens to under a key. -/
def reopen (fs : FileSystem) (path : String) (key : Key) : Except Err (Session Key) := do
  let raw ← readFile .none fs path
  let (header, ciphertext) ← parse raw
  openBody L key header ciphertext

/-- The vault file opens, under the session's key, to the session itself. -/
def Holds (fs : FileSystem) (path : String) (s : Session Key) : Prop :=
  reopen L fs path s.key = .ok s

instance [DecidableEq Key] (fs : FileSystem) (path : String) (s : Session Key) :
    Decidable (Holds L fs path s) :=
  match h : reopen L fs path s.key with
  | .error e => isFalse fun h' => by rw [Holds, h] at h'; cases h'
  | .ok t => decidable_of_iff (t = s) (by rw [Holds, h, Except.ok.injEq])

variable {L}

lemma readFile_eq_ok {io : Faults} {fs : FileSystem} {path : String} {raw : Bytes} :
    readFile io fs path = .ok raw ↔ io.fails .read = none ∧ fs path = some raw := by
  unfold readFile
  cases io.fails .read <;> cases fs path <;> simp

lemma openBody_eq_ok {key : Key} {header : Header} {ct : Bytes} {s : Session Key} :
    openBody L key header ct = .ok s ↔ s.key = key ∧ s.salt = header.salt ∧
      s.params = header.params ∧ ∃ plain,
        aeadOpen L.toPrimitives key header.nonce (aad header.params header.salt) ct = .ok plain ∧
          L.fromSlice plain = .ok s.body := by
  simp only [openBody, bind_eq_ok, mapError_eq_ok, pure_eq_ok]
  constructor
  · rintro ⟨plain, hopen, body, hbody, rfl⟩
    exact ⟨rfl, rfl, rfl, plain, hopen, hbody⟩
  · rintro ⟨rfl, hs, hp, plain, hopen, hbody⟩
    refine ⟨plain, hopen, s.body, hbody, ?_⟩
    rw [← hs, ← hp]

lemma holds_iff {fs : FileSystem} {path : String} {s : Session Key} :
    Holds L fs path s ↔ ∃ raw header ct, fs path = some raw ∧ parse raw = .ok (header, ct) ∧
      openBody L s.key header ct = .ok s := by
  simp only [Holds, reopen, bind_eq_ok, readFile_eq_ok, Faults.none, true_and, Prod.exists,
    exists_and_left]

lemma Holds.congr {fs fs' : FileSystem} {path : String} {s : Session Key}
    (h : Holds L fs path s) (hfs : fs' path = fs path) : Holds L fs' path s := by
  obtain ⟨raw, header, ct, hraw, hparse, hopen⟩ := holds_iff.mp h
  exact holds_iff.mpr ⟨raw, header, ct, hfs.trans hraw, hparse, hopen⟩

lemma Holds.fileExists {fs : FileSystem} {path : String} {s : Session Key}
    (h : Holds L fs path s) : fileExists fs path = true := by
  obtain ⟨raw, header, ct, hraw, -, -⟩ := holds_iff.mp h
  simp [Vault.fileExists, hraw]

lemma unlock_congr {fs fs' : FileSystem} {path : String} (hfs : fs' path = fs path) (io : Faults)
    (pw : Bytes) : unlock L io fs' path pw = unlock L io fs path pw := by
  simp only [unlock, readFile, hfs]

/-- Unlocking succeeds with the session the file holds, and exactly when the password
derives that session's key. -/
theorem unlock_eq_ok {io : Faults} {fs : FileSystem} {path : String} {pw : Bytes}
    {s : Session Key} :
    unlock L io fs path pw = .ok s ↔ io.fails .read = none ∧
      deriveKey L.toPrimitives pw s.salt s.params = .ok s.key ∧ Holds L fs path s := by
  simp only [unlock, bind_eq_ok, readFile_eq_ok, holds_iff, Prod.exists]
  constructor
  · rintro ⟨raw, ⟨hio, hraw⟩, header, ct, hparse, key, hkey, hopen⟩
    obtain ⟨hk, hs, hp, -⟩ := openBody_eq_ok.mp hopen
    rw [hk, hs, hp]
    exact ⟨hio, hkey, raw, header, ct, hraw, hparse, hopen⟩
  · rintro ⟨hio, hkey, raw, header, ct, hraw, hparse, hopen⟩
    obtain ⟨-, hs, hp, -⟩ := openBody_eq_ok.mp hopen
    rw [hs, hp] at hkey
    exact ⟨raw, ⟨hio, hraw⟩, header, ct, hparse, s.key, hkey, hopen⟩

/-- A file holds one session at most. -/
theorem Holds.unique (hL : L.Ideal) {fs : FileSystem} {path : String} {s t : Session Key}
    (hs : Holds L fs path s) (ht : Holds L fs path t) : t = s := by
  obtain ⟨raw, header, ct, hraw, hparse, hopen⟩ := holds_iff.mp hs
  obtain ⟨raw', header', ct', hraw', hparse', hopen'⟩ := holds_iff.mp ht
  obtain rfl : raw' = raw := Option.some.inj (hraw'.symm.trans hraw)
  obtain ⟨rfl, rfl⟩ : header' = header ∧ ct' = ct := by
    rw [hparse] at hparse'
    cases hparse'
    exact ⟨rfl, rfl⟩
  obtain ⟨-, -, -, plain, hplain, -⟩ := openBody_eq_ok.mp hopen
  obtain ⟨-, -, -, plain', hplain', -⟩ := openBody_eq_ok.mp hopen'
  have hkey : t.key = s.key := hL.crypto.open_key hplain hplain'
  rw [hkey, hopen] at hopen'
  exact (Except.ok.inj hopen').symm

lemma unlock_wrong (hL : L.Ideal) {fs : FileSystem} {path : String} {s : Session Key} {pw : Bytes}
    {io : Faults} (hio : io.fails .read = none) (hs : Holds L fs path s) {key : Key}
    (hkey : deriveKey L.toPrimitives pw s.salt s.params = .ok key) (hne : key ≠ s.key) :
    unlock L io fs path pw = .error .wrongPassword := by
  obtain ⟨raw, header, ct, hraw, hparse, hopen⟩ := holds_iff.mp hs
  obtain ⟨-, hsalt, hparams, plain, hplain, -⟩ := openBody_eq_ok.mp hopen
  have hclosed : aeadOpen L.toPrimitives key header.nonce (aad header.params header.salt) ct
      = .error .wrongPassword := by
    unfold aeadOpen
    cases hd : L.decrypt key header.nonce (aad header.params header.salt) ct with
    | none => rfl
    | some m => exact absurd (hL.crypto.open_key hplain (aeadOpen_eq_ok.mpr hd)) hne
  have hread : readFile io fs path = .ok raw := readFile_eq_ok.mpr ⟨hio, hraw⟩
  rw [hsalt, hparams] at hkey
  simp only [unlock, hread, hparse, hkey, openBody, hclosed, ok_bind, error_bind]

/-- What unlocking a file that holds a session comes to. -/
def Session.opened [DecidableEq Key] (L : Library Key) (io : Faults) (s : Session Key)
    (pw : Bytes) : Except Err (Session Key) :=
  match io.fails .read with
  | some e => .error (.readVault e)
  | none => do
    let key ← deriveKey L.toPrimitives pw s.salt s.params
    if key = s.key then .ok s else .error .wrongPassword

theorem unlock_of_holds [DecidableEq Key] (hL : L.Ideal) {fs : FileSystem} {path : String}
    {s : Session Key} (hs : Holds L fs path s) (io : Faults) (pw : Bytes) :
    unlock L io fs path pw = s.opened L io pw := by
  unfold Session.opened
  cases hio : io.fails .read with
  | some e => simp only [unlock, readFile, hio, error_bind]
  | none =>
    cases hkey : deriveKey L.toPrimitives pw s.salt s.params with
    | error e =>
      obtain ⟨raw, header, ct, hraw, hparse, hopen⟩ := holds_iff.mp hs
      obtain ⟨-, hsalt, hparams, -⟩ := openBody_eq_ok.mp hopen
      have hread : readFile io fs path = .ok raw := readFile_eq_ok.mpr ⟨hio, hraw⟩
      rw [hsalt, hparams] at hkey
      simp only [unlock, hread, hparse, hkey, ok_bind, error_bind]
    | ok key =>
      simp only [ok_bind]
      by_cases hk : key = s.key
      · rw [if_pos hk]
        exact unlock_eq_ok.mpr ⟨hio, by rw [hkey, hk], hs⟩
      · rw [if_neg hk]
        exact unlock_wrong hL hio hs hkey hk

/-! ### Writing -/

lemma ne_tmpPath (path : String) : path ≠ tmpPath path := by
  intro h
  have hl := congrArg String.length h
  simp [tmpPath] at hl

lemma ne_bakPath (path : String) : path ≠ bakPath path := by
  intro h
  have hl := congrArg String.length h
  simp [bakPath] at hl

/-- The call that stops the file-system part of a write, if one does. -/
def stops (io : Faults) (path : String) : Prop :=
  hasParent path = true ∧ io.fails .createDirAll ≠ none ∨ io.fails .openTemp ≠ none ∨
    io.fails .writeAll ≠ none ∨ io.fails .syncAll ≠ none ∨ io.fails .rename ≠ none

lemma not_stops_none (path : String) : ¬ stops .none path := by simp [stops, Faults.none]

/-- A write that goes through leaves exactly its bytes in the vault file; one that is stopped
leaves the vault file as it was. -/
theorem store_spec (io : Faults) (fs : FileSystem) (path : String) (out : Bytes) :
    (¬ stops io path ∧ (store io fs path out).2 = .ok () ∧
      (store io fs path out).1 path = some out) ∨
    (stops io path ∧ (∃ e, (store io fs path out).2 = .error e) ∧
      (store io fs path out).1 path = fs path) := by
  have htmp := ne_tmpPath path
  have hbak := ne_bakPath path
  unfold store stops
  cases hdir : (if hasParent path then io.fails .createDirAll else none) with
  | some e =>
    right
    have hd : hasParent path = true ∧ io.fails .createDirAll ≠ none := by
      by_cases hp : hasParent path = true
      · simp only [hp, if_true] at hdir
        simp [hp, hdir]
      · simp [hp] at hdir
    exact ⟨.inl hd, ⟨_, rfl⟩, rfl⟩
  | none =>
    have hd : ¬ (hasParent path = true ∧ io.fails .createDirAll ≠ none) := by
      rintro ⟨hp, hc⟩
      simp only [hp, if_true] at hdir
      exact hc hdir
    cases hopen : io.fails .openTemp with
    | some e => right; simp
    | none =>
      cases hwrite : io.fails .writeAll with
      | some e => right; simp [htmp]
      | none =>
        cases hsync : io.fails .syncAll with
        | some e => right; simp [htmp]
        | none =>
          -- `.tmp` and `.bak` are other files, so the vault file is replaced here or not at all.
          cases hren : io.fails .rename with
          | some e =>
            right
            refine ⟨by simp, ⟨_, rfl⟩, ?_⟩
            simp only [Function.update_of_ne htmp]
            split
            · exact Function.update_of_ne htmp _ _
            · rw [Function.update_of_ne hbak, Function.update_of_ne htmp]
            · rw [Function.update_of_ne hbak, Function.update_of_ne htmp]
            · exact Function.update_of_ne htmp _ _
          | none =>
            left
            refine ⟨by simpa using hd, rfl, ?_⟩
            simp [htmp]

lemma store_reply (io : Faults) (fs fs' : FileSystem) (path : String) (out out' : Bytes) :
    (store io fs path out).2 = (store io fs' path out').2 := by
  unfold store
  cases (if hasParent path then io.fails .createDirAll else none) with
  | some e => rfl
  | none =>
    cases io.fails .openTemp with
    | some e => rfl
    | none =>
      cases io.fails .writeAll with
      | some e => rfl
      | none =>
        cases io.fails .syncAll with
        | some e => rfl
        | none => cases io.fails .rename <;> rfl

lemma render_eq_ok {s : Session Key} {nonce : Nonce} {out : Bytes} :
    render L s nonce = .ok out ↔ ∃ json ct, L.toVec s.body = .ok json ∧
      aeadSeal L.toPrimitives s.key nonce (aad s.params s.salt) json = .ok ct ∧
        aad s.params s.salt ++ nonce.toList ++ ct = out := by
  simp only [render, bind_eq_ok, mapError_eq_ok, pure_eq_ok]
  constructor
  · rintro ⟨json, hj, ct, hc, ho⟩
    exact ⟨json, ct, hj, hc, ho⟩
  · rintro ⟨json, ct, hj, hc, ho⟩
    exact ⟨json, hj, ct, hc, ho⟩

lemma holds_of_render (hL : L.Ideal) {fs : FileSystem} {path : String} {s : Session Key}
    {nonce : Nonce} {out : Bytes} (h : render L s nonce = .ok out) (hfs : fs path = some out) :
    Holds L fs path s := by
  obtain ⟨json, ct, hjson, hct, rfl⟩ := render_eq_ok.mp h
  refine holds_iff.mpr ⟨_, _, ct, hfs, parse_layout _ _ _ _, ?_⟩
  exact openBody_eq_ok.mpr ⟨rfl, rfl, rfl, json, hL.crypto.open_seal hct, hL.roundTrip hjson⟩

lemma render_total (hL : L.Ideal) (s : Session Key) (nonce : Nonce) :
    ∃ out, render L s nonce = .ok out := by
  obtain ⟨json, hjson⟩ := hL.serializes s.body
  obtain ⟨ct, hct⟩ := hL.crypto.encrypts s.key nonce (aad s.params s.salt) json
  exact ⟨_, render_eq_ok.mpr ⟨json, ct, hjson, aeadSeal_eq_ok.mpr hct, rfl⟩⟩

/-- After a successful write the file holds the session written. -/
theorem holds_of_write (hL : L.Ideal) {io : Faults} {fs fs' : FileSystem} {path : String}
    {s : Session Key} {nonce : Nonce} (h : write L io fs path s nonce = (fs', .ok ())) :
    Holds L fs' path s := by
  unfold write at h
  cases hr : render L s nonce with
  | error e => simp [hr] at h
  | ok out =>
    simp only [hr] at h
    rcases store_spec io fs path out with ⟨-, -, hfs⟩ | ⟨-, ⟨e, he⟩, -⟩
    · rw [h] at hfs
      exact holds_of_render hL hr hfs
    · simp [h] at he

/-- After a failed write the vault file is what it was. -/
theorem write_error {io : Faults} {fs fs' : FileSystem} {path : String} {s : Session Key}
    {nonce : Nonce} {e : Err} (h : write L io fs path s nonce = (fs', .error e)) :
    fs' path = fs path := by
  unfold write at h
  cases hr : render L s nonce with
  | error e' =>
    simp only [hr, Prod.mk.injEq] at h
    rw [h.1]
  | ok out =>
    simp only [hr] at h
    rcases store_spec io fs path out with ⟨-, hok, -⟩ | ⟨-, -, hfs⟩
    · simp [h] at hok
    · rwa [h] at hfs

lemma write_reply (hL : L.Ideal) (io : Faults) (fs fs' : FileSystem) (path : String)
    (s s' : Session Key) (nonce : Nonce) :
    (write L io fs path s nonce).2 = (write L io fs' path s' nonce).2 := by
  obtain ⟨out, hout⟩ := render_total hL s nonce
  obtain ⟨out', hout'⟩ := render_total hL s' nonce
  simp only [write, hout, hout']
  exact store_reply io fs fs' path out out'

lemma write_fails_iff (L : Library Key) (io : Faults) (fs : FileSystem) (path : String)
    (s : Session Key) (nonce : Nonce) : (∃ e, (write L io fs path s nonce).2 = .error e) ↔
      (∃ e, render L s nonce = .error e) ∨ stops io path := by
  unfold write
  cases hr : render L s nonce with
  | error e => simp
  | ok out =>
    rcases store_spec io fs path out with ⟨hs, hok, -⟩ | ⟨hs, herr, -⟩
    · simp [hs, hok]
    · simpa [hs] using herr

lemma write_none_of_render {s : Session Key} {nonce : Nonce} {out : Bytes}
    (hout : render L s nonce = .ok out) (fs : FileSystem) (path : String) :
    ∃ fs', write L .none fs path s nonce = (fs', .ok ()) := by
  rcases store_spec Faults.none fs path out with ⟨-, hok, -⟩ | ⟨h, -⟩
  · exact ⟨(store Faults.none fs path out).1, by simp only [write, hout]; rw [← hok]⟩
  · exact absurd h (not_stops_none path)

/-- Without faults every write goes through. -/
theorem write_none (hL : L.Ideal) (fs : FileSystem) (path : String) (s : Session Key)
    (nonce : Nonce) : ∃ fs', write L .none fs path s nonce = (fs', .ok ()) := by
  obtain ⟨out, hout⟩ := render_total hL s nonce
  exact write_none_of_render hout fs path

end LvimKeyring.Vault
