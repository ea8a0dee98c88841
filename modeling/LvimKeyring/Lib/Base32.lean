import Mathlib.Tactic.Common
import Mathlib.Data.List.Induction
import Mathlib.Tactic.Ring

/-!
Base32 without padding characters.

A byte is eight bits and a character five, most significant first. The bits of the last character
that are left over are zero, and a text is decoded only if it is what its bytes encode to.
-/

namespace LvimKeyring.Base32

def alphabet : List Char := "ABCDEFGHIJKLMNOPQRSTUVWXYZ234567".toList

def char (q : ℕ) : Char := alphabet.getD q 'A'

def value? (c : Char) : Option ℕ := alphabet.idxOf? c

/-! ### Bits -/

/-- The `k` low bits of a number. -/
def toBits : ℕ → ℕ → List Bool
  | 0, _ => []
  | k + 1, n => toBits k (n / 2) ++ [decide (n % 2 = 1)]

/-- The number with these bits. -/
def ofBits (bits : List Bool) : ℕ := bits.foldl (fun n b => 2 * n + b.toNat) 0

lemma ofBits_append_singleton (bits : List Bool) (b : Bool) :
    ofBits (bits ++ [b]) = 2 * ofBits bits + b.toNat := by
  simp [ofBits]

lemma ofBits_toBits (k n : ℕ) : ofBits (toBits k n) = n % 2 ^ k := by
  induction k generalizing n with
  | zero => simp [toBits, ofBits, Nat.mod_one]
  | succ k ih =>
    have hbit : (decide (n % 2 = 1)).toNat = n % 2 := by
      rcases Nat.mod_two_eq_zero_or_one n with h | h <;> simp [h]
    rw [toBits, ofBits_append_singleton, ih, hbit, Nat.pow_succ, Nat.mul_comm (2 ^ k) 2,
      Nat.mod_mul]
    omega

lemma toBits_ofBits (bits : List Bool) : toBits bits.length (ofBits bits) = bits := by
  induction bits using List.reverseRecOn with
  | nil => rfl
  | append_singleton bits b ih =>
    have hdiv : (2 * ofBits bits + b.toNat) / 2 = ofBits bits := by
      have := b.toNat_lt
      omega
    have hmod : decide ((2 * ofBits bits + b.toNat) % 2 = 1) = b := by
      cases b <;> simp
    rw [List.length_append, List.length_singleton, toBits, ofBits_append_singleton, hdiv, hmod, ih]

/-! ### Groups of bits -/

def quintets : List Bool → List ℕ
  | [] => []
  | a :: b :: c :: d :: e :: rest => ofBits [a, b, c, d, e] :: quintets rest
  | short => [ofBits (short ++ List.replicate (5 - short.length) false)]

/-- The bytes; bits that are too few for one are left out. -/
def octets : List Bool → List UInt8
  | a :: b :: c :: d :: e :: f :: g :: h :: rest =>
    UInt8.ofNat (ofBits [a, b, c, d, e, f, g, h]) :: octets rest
  | _ => []

def bits (bytes : List UInt8) : List Bool := bytes.flatMap fun b => toBits 8 b.toNat

def encode (bytes : List UInt8) : List Char := (quintets (bits bytes)).map char

def decode (cs : List Char) : Option (List UInt8) := do
  let qs ← cs.mapM value?
  let bytes := octets (qs.flatMap (toBits 5))
  if encode bytes = cs then some bytes else none

lemma ofBits_lt (bits : List Bool) : ofBits bits < 2 ^ bits.length := by
  have hmod := ofBits_toBits bits.length (ofBits bits)
  rw [toBits_ofBits] at hmod
  rw [hmod]
  exact Nat.mod_lt _ (Nat.two_pow_pos _)

lemma quintets_spec (bits : List Bool) : (∀ q ∈ quintets bits, q < 32) ∧
    ∃ pad < 5, (quintets bits).flatMap (toBits 5) = bits ++ List.replicate pad false := by
  fun_induction quintets bits with
  | case1 => exact ⟨fun q hq => (by cases hq), 0, by decide, rfl⟩
  | case2 a b c d e rest ih =>
    obtain ⟨hlt, pad, hpad, hbits⟩ := ih
    refine ⟨List.forall_mem_cons.mpr ⟨ofBits_lt [a, b, c, d, e], hlt⟩, pad, hpad, ?_⟩
    have hfive : toBits 5 (ofBits [a, b, c, d, e]) = [a, b, c, d, e] :=
      toBits_ofBits [a, b, c, d, e]
    rw [List.flatMap_cons, hfive, hbits]
    rfl
  | case3 short hne hlong =>
    have hlen : 0 < short.length ∧ short.length < 5 := by
      rcases short with - | ⟨a, - | ⟨b, - | ⟨c, - | ⟨d, - | ⟨e, rest⟩⟩⟩⟩⟩
      · exact (hne rfl).elim
      · simp
      · simp
      · simp
      · simp
      · exact (hlong a b c d e rest rfl).elim
    have hfull : (short ++ List.replicate (5 - short.length) false).length = 5 := by
      rw [List.length_append, List.length_replicate]
      omega
    refine ⟨fun q hq => ?_, 5 - short.length, by omega, ?_⟩
    · rw [List.mem_singleton.mp hq]
      simpa [hfull] using ofBits_lt (short ++ List.replicate (5 - short.length) false)
    · have hback := toBits_ofBits (short ++ List.replicate (5 - short.length) false)
      rw [hfull] at hback
      simpa using hback

lemma octets_bits (bytes : List UInt8) {rest : List Bool} (h : rest.length < 8) :
    octets (bits bytes ++ rest) = bytes := by
  induction bytes with
  | nil =>
    show octets rest = []
    unfold octets
    split
    · simp only [List.length_cons] at h
      omega
    · rfl
  | cons b bytes ih =>
    have hbits : bits (b :: bytes) ++ rest = toBits 8 b.toNat ++ (bits bytes ++ rest) := by
      simp [bits]
    have hbyte : UInt8.ofNat (ofBits (toBits 8 b.toNat)) = b := by
      rw [ofBits_toBits, Nat.mod_eq_of_lt b.toNat_lt, UInt8.ofNat_toNat]
    rw [hbits]
    show UInt8.ofNat (ofBits (toBits 8 b.toNat)) :: octets (bits bytes ++ rest) = _
    rw [hbyte, ih]

/-! ### Characters -/

lemma value?_char {q : ℕ} (h : q < 32) : value? (char q) = some q := by
  have hall : ∀ q < 32, value? (char q) = some q := by decide
  exact hall q h

lemma mapM_value? {qs : List ℕ} (h : ∀ q ∈ qs, q < 32) : (qs.map char).mapM value? = some qs := by
  induction qs with
  | nil => rfl
  | cons q qs ih =>
    obtain ⟨hq, hqs⟩ := List.forall_mem_cons.mp h
    simp [value?_char hq, ih hqs]

lemma mem_alphabet_of_mem_encode {bytes : List UInt8} {c : Char} (h : c ∈ encode bytes) :
    c ∈ alphabet := by
  obtain ⟨q, hq, rfl⟩ := List.mem_map.mp h
  have hlt : q < alphabet.length := (quintets_spec (bits bytes)).1 q hq
  rw [char, List.getD_eq_getElem?_getD, List.getElem?_eq_getElem hlt]
  exact List.getElem_mem hlt

/-- The texts that are decoded are the encodings, each to the bytes it encodes. -/
theorem decode_eq_some {cs : List Char} {bytes : List UInt8} :
    decode cs = some bytes ↔ cs = encode bytes := by
  constructor
  · intro h
    obtain ⟨qs, -, h⟩ := Option.bind_eq_some_iff.mp h
    simp only at h
    split at h
    · rename_i heq
      cases h
      exact heq.symm
    · cases h
  · rintro rfl
    obtain ⟨hlt, pad, hpad, hbits⟩ := quintets_spec (bits bytes)
    have hvalues : (encode bytes).mapM value? = some (quintets (bits bytes)) := mapM_value? hlt
    have hoctets : octets ((quintets (bits bytes)).flatMap (toBits 5)) = bytes := by
      rw [hbits]
      exact octets_bits bytes (by rw [List.length_replicate]; omega)
    simp [decode, hvalues, hoctets]

end LvimKeyring.Base32
