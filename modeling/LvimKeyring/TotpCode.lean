import Mathlib.Data.Nat.Digits.Defs
import LvimKeyring.GitCredential
import LvimKeyring.Lib.LittleEndian
import LvimKeyring.Sample

/-!
The codes of one-time passwords, against the standard.

The number of a code is read off the digest with shifts and masks of 32 bits, and printed with
leading zeros. Here it is stated as arithmetic, for every digest, number of digits and time.
-/

namespace LvimKeyring.TotpCode

open Crypto Vault Server LittleEndian Totp
open GitCredential (entry)

/-! ### The standard -/

/-- The number with these bytes, the first of them most significant. -/
def ofBe (bs : Bytes) : ℕ := ofLe bs.reverse

/-- The offset the last byte of a digest names by its low four bits. -/
def offset (hs : List.Vector UInt8 20) : ℕ := (hs.get (Fin.last 19)).toNat % 16

/-- The number of a digest: four bytes from the offset on, without the sign bit. -/
def number (hs : List.Vector UInt8 20) : ℕ := ofBe ((hs.toList.drop (offset hs)).take 4) % 2 ^ 31

/-- A text of so many decimal digits, with the number they are. -/
structure Prints (s : String) (digits n : ℕ) : Prop where
  length : s.toList.length = digits
  digit : ∀ c ∈ s.toList, c.isDigit = true
  number : Nat.ofDigitChars 10 s.toList 0 = n

/-! ### The digest -/

lemma mul_or {a b i : ℕ} (h : b < 2 ^ i) : a * 2 ^ i ||| b = a * 2 ^ i + b := by
  rw [← Nat.shiftLeft_eq, ← Nat.shiftLeft_add_eq_or_of_lt h]

lemma mod_word {a b c d : ℕ} (hb : b < 256) (hc : c < 256) (hd : d < 256) :
    (((a * 2 ^ 8 + b) * 2 ^ 8 + c) * 2 ^ 8 + d) % 2 ^ 31 =
      ((a % 128 * 2 ^ 8 + b) * 2 ^ 8 + c) * 2 ^ 8 + d := by
  omega

/-- Four bytes that are shifted into place, the first without its high bit. -/
lemma toNat_word (a b c d : UInt8) :
    ((a.toUInt32 &&& 0x7f) <<< 24 ||| b.toUInt32 <<< 16 ||| c.toUInt32 <<< 8 ||| d.toUInt32).toNat
      = ofBe [a, b, c, d] % 2 ^ 31 := by
  have ha : a.toNat % 128 < 128 := Nat.mod_lt _ (by decide)
  have hb := b.toNat_lt
  have hc := c.toNat_lt
  have hd := d.toNat_lt
  have hfirst : ((a.toUInt32 &&& 0x7f) <<< 24).toNat = a.toNat % 128 * 2 ^ 24 := by
    have hand : a.toNat &&& 127 = a.toNat % 128 := Nat.and_two_pow_sub_one_eq_mod _ 7
    simp only [UInt32.toNat_shiftLeft, UInt32.toNat_and, UInt8.toNat_toUInt32,
      UInt32.reduceToNat, hand,
      Nat.shiftLeft_eq, Nat.reduceMod, Nat.reducePow]
    omega
  have hsecond : (b.toUInt32 <<< 16).toNat = b.toNat * 2 ^ 8 * 2 ^ 8 := by
    simp only [UInt32.toNat_shiftLeft, UInt8.toNat_toUInt32, UInt32.reduceToNat, Nat.shiftLeft_eq,
      Nat.reduceMod, Nat.reducePow]
    omega
  have hthird : (c.toUInt32 <<< 8).toNat = c.toNat * 2 ^ 8 := by
    simp only [UInt32.toNat_shiftLeft, UInt8.toNat_toUInt32, UInt32.reduceToNat, Nat.shiftLeft_eq,
      Nat.reduceMod, Nat.reducePow]
    omega
  have hsum : a.toNat % 128 * 2 ^ 24 + b.toNat * 2 ^ 8 * 2 ^ 8 =
      (a.toNat % 128 * 2 ^ 8 + b.toNat) * 2 ^ 16 := by
    ring
  have hsum' : (a.toNat % 128 * 2 ^ 8 + b.toNat) * 2 ^ 16 + c.toNat * 2 ^ 8 =
      ((a.toNat % 128 * 2 ^ 8 + b.toNat) * 2 ^ 8 + c.toNat) * 2 ^ 8 := by
    ring
  have hnumber : ofBe [a, b, c, d] =
      ((a.toNat * 2 ^ 8 + b.toNat) * 2 ^ 8 + c.toNat) * 2 ^ 8 + d.toNat := by
    have hreverse : ofBe [a, b, c, d] = ofLe [d, c, b, a] := rfl
    simp only [hreverse, ofLe]
    ring
  simp only [UInt32.toNat_or, hfirst, hsecond, hthird, UInt8.toNat_toUInt32]
  rw [mul_or (by omega), hsum, mul_or (by omega), hsum', mul_or (by omega), hnumber,
    mod_word hb hc hd]

lemma toNat_offset (hs : List.Vector UInt8 20) : (hs.get 19 &&& 0x0f).toNat = offset hs := by
  rw [UInt8.toNat_and]
  exact Nat.and_two_pow_sub_one_eq_mod _ 4

lemma toNat_truncate (hs : List.Vector UInt8 20) : (truncate hs).toNat = number hs := by
  have hlen := hs.toList_length
  have hoffset : offset hs < 16 := Nat.mod_lt _ (by decide)
  have hbytes : ∀ o, (h : o + 3 < 20) → (hs.toList.drop o).take 4 =
      [hs.get ⟨o, by omega⟩, hs.get ⟨o + 1, by omega⟩, hs.get ⟨o + 2, by omega⟩,
        hs.get ⟨o + 3, by omega⟩] := by
    intro o ho
    rw [List.drop_eq_getElem_cons (by omega), List.drop_eq_getElem_cons (by omega),
      List.drop_eq_getElem_cons (by omega), List.drop_eq_getElem_cons (by omega)]
    rfl
  unfold number
  rw [hbytes (offset hs) (by omega), ← toNat_word]
  simp only [truncate, toNat_offset]

/-! ### Printing -/

lemma prints_zeroPadded {n width : ℕ} (hwidth : 0 < width) (h : n < 10 ^ width) :
    Prints (zeroPadded n width) width n := by
  have htoList : (zeroPadded n width).toList =
      List.replicate (width - (Nat.toDigits 10 n).length) '0' ++ Nat.toDigits 10 n := by
    simp [zeroPadded]
  have hlen : (Nat.toDigits 10 n).length ≤ width :=
    (Nat.length_toDigits_le_iff (by decide) hwidth).mpr h
  refine ⟨?_, fun c hc => ?_, ?_⟩
  · rw [htoList, List.length_append, List.length_replicate]
    omega
  · rw [htoList] at hc
    rcases List.mem_append.mp hc with hzero | hdigit
    · rw [List.eq_of_mem_replicate hzero]
      decide
    · exact Nat.isDigit_of_mem_toDigits (by decide) (by decide) hdigit
  · rw [htoList, Nat.ofDigitChars_append, Nat.ofDigitChars_replicate_zero, Nat.mul_zero,
      Nat.ofDigitChars_ten_toDigits]

lemma ofBe_toBeBytes {n : ℕ} (h : n < 2 ^ 64) : ofBe (toBeBytes n) = n := by
  have hbytes : (toBeBytes n).reverse = toLe 8 n := by
    simp [toBeBytes, toLe, List.range_succ, Nat.div_div_eq_div_mul]
  rw [ofBe, hbytes, ofLe_toLe]
  exact Nat.mod_eq_of_lt h

/-! ### The codes -/

variable {Key : Type} {L : Packages Key} {cfg : Config} {env : Env} {w : World Key}
variable {params : Rpc.Json} {c : String} {remaining period : ℕ}

/-- What the standard says of a code. -/
def Standard (T : Totp.Packages) (key : Bytes) (time period digits : ℕ) (s : String) : Prop :=
  ∃ message, message.length = 8 ∧ ofBe message = time / period ∧
    offset (T.hmacSha1 key message) + 3 < 20 ∧ 10 ^ digits < 2 ^ 32 ∧
    Prints s digits (number (T.hmacSha1 key message) % 10 ^ digits)

lemma code_standard {T : Totp.Packages} {secret : String} {time period digits : ℕ} {key : Bytes}
    (htime : time < 2 ^ 64) (hperiod : 1 ≤ period) (hone : 1 ≤ digits) (hnine : digits ≤ 9)
    (hkey : T.base32Nopad (asBytes (clean T secret)) = some key) :
    ∃ s, code T secret time period digits = .ok s ∧ Standard T key time period digits s := by
  have hparams : ¬ (period = 0 ∨ ¬ (1 ≤ digits ∧ digits ≤ 9)) := by omega
  refine ⟨zeroPadded
    ((truncate (T.hmacSha1 key (toBeBytes (time / period)))).toNat % 10 ^ digits) digits,
    ?_, toBeBytes (time / period), ?_, ?_, ?_, ?_, ?_⟩
  · simp only [code, if_neg hparams, hkey]
  · simp [toBeBytes]
  · exact ofBe_toBeBytes (lt_of_le_of_lt (Nat.div_le_self _ _) htime)
  · have hoffset : offset (T.hmacSha1 key (toBeBytes (time / period))) < 16 :=
      Nat.mod_lt _ (by decide)
    omega
  · calc 10 ^ digits ≤ 10 ^ 9 := Nat.pow_le_pow_right (by decide) hnine
      _ < 2 ^ 32 := by decide
  · rw [toNat_truncate]
    exact prints_zeroPadded hone (Nat.mod_lt _ (Nat.pow_pos (by decide)))

/-- The answer of `secret.totp` is the code of an entry, with what is left of its period. -/
lemma dispatch_totp
    (h : (dispatch L cfg env w "secret.totp" params).reply = .ok (.totp c remaining period)) :
    ∃ p e, Params.NameParam.fromValue params = .ok p ∧ entry w p.name = some e ∧
      code L.totp e.value env.now 30 6 = .ok c ∧ remaining = 30 - env.now % 30 ∧ period = 30 := by
  have hprepare : prepare env.random "secret.totp" params =
      (decoded (Params.NameParam.fromValue params)).bind fun p =>
        .ok (.session p.wait (.totp p.name)) := rfl
  unfold dispatch at h
  rw [hprepare] at h
  cases hp : Params.NameParam.fromValue params with
  | error e =>
    rw [hp] at h
    cases h
  | ok p =>
    rw [hp] at h
    replace h : (Server.withSession L cfg env p.wait (.totp p.name) (touch env w)).reply =
        .ok (.totp c remaining period) := h
    unfold Server.withSession at h
    have htouch : (touch env w).inner.session = w.inner.session := rfl
    rw [htouch] at h
    cases hs : w.inner.session with
    | none =>
      rw [hs] at h
      cases h
    | some s =>
      simp only [hs, Op.run, secretTotp] at h
      cases he : s.body.entries[p.name]? with
      | none =>
        simp only [he] at h
        cases h
      | some e =>
        simp only [he] at h
        cases hcode : code L.totp e.value env.now 30 6 with
        | error err =>
          simp only [hcode] at h
          cases h
        | ok digits =>
          simp only [hcode] at h
          cases h
          refine ⟨p, e, rfl, ?_, hcode, rfl, rfl⟩
          rw [entry, hs]
          exact he

lemma code_congr {T : Totp.Packages} {secret : String} {time time' period digits : ℕ}
    (h : time / period = time' / period) :
    code T secret time period digits = code T secret time' period digits := by
  simp only [code, h]

/-- Every code is the one of the standard, and `secret.totp` says how long it is. -/
theorem code_isStandard :
    (∀ secret time period digits key, time < 2 ^ 64 → 1 ≤ period → 1 ≤ digits → digits ≤ 9 →
      L.totp.base32Nopad (asBytes (clean L.totp secret)) = some key →
      ∃ s, code L.totp secret time period digits = .ok s ∧
        Standard L.totp key time period digits s) ∧
    ∀ env w params c remaining period,
      (dispatch L cfg env w "secret.totp" params).reply = .ok (.totp c remaining period) →
      ∃ p e, Params.NameParam.fromValue params = .ok p ∧ entry w p.name = some e ∧ period = 30 ∧
        1 ≤ remaining ∧ remaining ≤ 30 ∧ (env.now + remaining) / 30 = env.now / 30 + 1 ∧
        ∀ t, env.now ≤ t → t < env.now + remaining → code L.totp e.value t 30 6 = .ok c := by
  refine ⟨fun _ _ _ _ _ htime hperiod hone hnine hkey =>
    code_standard htime hperiod hone hnine hkey, fun env w params c remaining period h => ?_⟩
  obtain ⟨p, e, hp, he, hcode, rfl, rfl⟩ := dispatch_totp h
  refine ⟨p, e, hp, he, rfl, by omega, by omega, by omega, fun t hle hlt => ?_⟩
  rw [code_congr (show t / 30 = env.now / 30 by omega), hcode]

/-! ### The test vector -/

def vectorSecret : String := "GEZDGNBVGY3TQOJQGEZDGNBVGY3TQOJQ"

/-- What the packages make of the secret of the test vector in its second period. -/
def vector : Packages Sample.Key :=
  { Sample.library with
    totp := ⟨fun c => [c.toUpper],
      fun bs => if bs = asBytes vectorSecret then some (asBytes "12345678901234567890") else none,
      fun _ _ => ⟨[0x75, 0xa4, 0x8a, 0x19, 0xd4, 0xcb, 0xe1, 0x00, 0x64, 0x4e, 0x8a, 0xc1, 0x39,
        0x7e, 0xea, 0x74, 0x7a, 0x2d, 0x33, 0xab], rfl⟩⟩ }

example : code vector.totp vectorSecret 59 30 6 = .ok "287082" := by decide +kernel

/-- An unlocked wallet with the secret as an entry. -/
def vectorWorld : World Sample.Key :=
  Sample.created.withSession (some
    { Sample.session with body := ⟨.ofList [("a", newEntry vectorSecret 7)]⟩ })

theorem code_isStandard_vector :
    (∃ s, code vector.totp vectorSecret 59 30 8 = .ok s ∧
      Standard vector.totp (asBytes "12345678901234567890") 59 30 8 s) ∧
    ∀ t, 59 ≤ t → t < 60 → code vector.totp vectorSecret t 30 6 = .ok "287082" := by
  refine ⟨(@code_isStandard Sample.Key vector Sample.config).1 _ _ _ _ _ (by decide) (by decide)
    (by decide)
    (by decide) (by decide +kernel), ?_⟩
  have hparams : Params.NameParam.fromValue (.obj [("name", .str "a")]) = .ok ⟨"a", true⟩ := by
    decide +kernel
  obtain ⟨p, e, hp, he, -, -, -, -, hcode⟩ :=
    code_isStandard.2 { Sample.env with now := 59 } vectorWorld
    (.obj [("name", .str "a")]) "287082" 1 30
    (by decide +kernel : (dispatch vector Sample.config _ _ _ _).reply = _)
  rw [hparams] at hp
  cases hp
  have hentry : entry vectorWorld "a" = some (newEntry vectorSecret 7) := by decide +kernel
  rw [hentry] at he
  cases he
  exact hcode

end LvimKeyring.TotpCode
