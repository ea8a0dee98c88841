import Mathlib.Tactic.Common
import Mathlib.Tactic.Ring
import Mathlib.Data.Nat.Notation

/-!
Numbers as fixed numbers of bytes, least significant first.
-/

namespace LvimKeyring.LittleEndian

/-- The `k` low bytes of a number. -/
def toLe : ℕ → ℕ → List UInt8
  | 0, _ => []
  | k + 1, v => UInt8.ofNat v :: toLe k (v / 256)

/-- The number with these bytes. -/
def ofLe : List UInt8 → ℕ
  | [] => 0
  | b :: bs => b.toNat + 256 * ofLe bs

@[simp] lemma toLe_length (k v : ℕ) : (toLe k v).length = k := by
  induction k generalizing v with
  | zero => rfl
  | succ k ih => simp [toLe, ih]

lemma ofLe_toLe (k v : ℕ) : ofLe (toLe k v) = v % 256 ^ k := by
  induction k generalizing v with
  | zero => simp [toLe, ofLe, Nat.mod_one]
  | succ k ih =>
    have hb : (UInt8.ofNat v).toNat = v % 256 := by simp
    rw [toLe, ofLe, ih, hb, pow_succ, Nat.mul_comm (256 ^ k) 256, Nat.mod_mul]

lemma ofLe_lt (bs : List UInt8) : ofLe bs < 256 ^ bs.length := by
  induction bs with
  | nil => simp [ofLe]
  | cons b bs ih =>
    have hb : b.toNat < 256 := b.toNat_lt
    rw [ofLe, List.length_cons, pow_succ]
    omega

lemma toLe_ofLe (bs : List UInt8) : toLe bs.length (ofLe bs) = bs := by
  induction bs with
  | nil => rfl
  | cons b bs ih =>
    have hb : b.toNat < 256 := b.toNat_lt
    have hdiv : (b.toNat + 256 * ofLe bs) / 256 = ofLe bs := by omega
    have hlow : UInt8.ofNat (b.toNat + 256 * ofLe bs) = b := by
      apply UInt8.toNat_inj.mp
      simp
    rw [List.length_cons, ofLe, toLe, hdiv, hlow, ih]

lemma uint32_ofLe_toLe (n : UInt32) : UInt32.ofNat (ofLe (toLe 4 n.toNat)) = n := by
  have hn : n.toNat % 256 ^ 4 = n.toNat := Nat.mod_eq_of_lt n.toNat_lt
  rw [ofLe_toLe, hn, UInt32.ofNat_toNat]

end LvimKeyring.LittleEndian
