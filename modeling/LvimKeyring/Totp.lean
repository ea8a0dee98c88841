import LvimKeyring.Crypto

/-!
Time-based one-time passwords.

Base32, HMAC-SHA1 and the Unicode upper-case mapping are packages and enter as parameters.
-/

namespace LvimKeyring.Totp

structure Packages where
  /-- `char::to_uppercase`. -/
  toUppercase : Char → List Char
  /-- `BASE32_NOPAD.decode`. -/
  base32Nopad : Bytes → Option Bytes
  /-- HMAC-SHA1 of a message under a key of any length. -/
  hmacSha1 : Bytes → Bytes → List.Vector UInt8 20

/-- `char::is_whitespace`: the Unicode property White_Space. -/
def isWhitespace (c : Char) : Bool :=
  let n := c.toNat
  (9 ≤ n && n ≤ 13) || n == 0x20 || n == 0x85 || n == 0xa0 || n == 0x1680 ||
    (0x2000 ≤ n && n ≤ 0x200a) || n == 0x2028 || n == 0x2029 || n == 0x202f || n == 0x205f ||
    n == 0x3000

/-- `to_be_bytes` of a 64-bit number. -/
def toBeBytes (n : ℕ) : Bytes := (List.range 8).map fun i => UInt8.ofNat (n / 256 ^ (7 - i))

/-- Digits of `n`, padded with zeros on the left to `width`. -/
def zeroPadded (n width : ℕ) : String :=
  let digits := (toString n).toList
  String.ofList (List.replicate (width - digits.length) '0' ++ digits)

lemma offset_le (b : UInt8) : (b &&& 0x0f).toNat ≤ 15 := by
  rw [UInt8.toNat_and]
  exact Nat.and_le_right

/-- The 31-bit number at the offset the last byte names. -/
def truncate (hs : List.Vector UInt8 20) : UInt32 :=
  let offset := (hs.get 19 &&& 0x0f).toNat
  have h : offset ≤ 15 := offset_le _
  ((hs.get ⟨offset, by omega⟩).toUInt32 &&& 0x7f) <<< 24 |||
    (hs.get ⟨offset + 1, by omega⟩).toUInt32 <<< 16 |||
    (hs.get ⟨offset + 2, by omega⟩).toUInt32 <<< 8 |||
    (hs.get ⟨offset + 3, by omega⟩).toUInt32

/-- The secret without white space and padding, in upper case. -/
def clean (T : Packages) (secret : String) : String :=
  String.ofList ((secret.toList.filter fun c => !isWhitespace c && c != '=').flatMap T.toUppercase)

/-- The code for a base32 secret at a time. -/
def code (T : Packages) (secret : String) (unixTime period digits : ℕ) : Except Err String :=
  if period = 0 ∨ ¬ (1 ≤ digits ∧ digits ≤ 9) then .error .totpParams
  else
    match T.base32Nopad (asBytes (clean T secret)) with
    | none => .error .totpSecret
    | some key =>
      let hs := T.hmacSha1 key (toBeBytes (unixTime / period))
      .ok (zeroPadded ((truncate hs).toNat % 10 ^ digits) digits)

end LvimKeyring.Totp
