import Mathlib.Algebra.Order.Ring.Int

/-!
Whole numbers as text: what the conversion `g` of C prints, and a reader of unsigned numbers.

The reader gets back what was printed while all the digits fit, and nothing else.
-/

namespace LvimKeyring.Decimal

/-- The nearest quotient, and the even one of two. -/
def divHalfEven (n d : ℕ) : ℕ :=
  if 2 * (n % d) < d ∨ 2 * (n % d) = d ∧ n / d % 2 = 0 then n / d else n / d + 1

/-- The first `p` digits of a number that has more, rounded, and the power of ten of the first. -/
def rounded (p n : ℕ) : ℕ × ℕ :=
  let e := (Nat.toDigits 10 n).length - 1
  let q := divHalfEven n (10 ^ (e + 1 - p))
  if q = 10 ^ p then (10 ^ (p - 1), e + 1) else (q, e)

def stripped (ds : List Char) : List Char := (ds.reverse.dropWhile (· = '0')).reverse

def mantissa : List Char → List Char
  | [] => []
  | [c] => [c]
  | c :: cs => c :: '.' :: cs

def scientific (p n : ℕ) : List Char :=
  let (q, e) := rounded p n
  let ds := Nat.toDigits 10 e
  mantissa (stripped (Nat.toDigits 10 q)) ++ ['e', '+'] ++ (if ds.length < 2 then '0' :: ds else ds)

/-- What is printed with `p` digits at most. -/
def general (p : ℕ) (n : ℤ) : String :=
  let ds := if n.natAbs < 10 ^ p then Nat.toDigits 10 n.natAbs else scientific p n.natAbs
  String.ofList (if n < 0 then '-' :: ds else ds)

/-- The digits of an unsigned number, after a plus sign or none. -/
def unsignedDigits : List Char → List Char
  | '+' :: ds => ds
  | ds => ds

/-- A number of at most `limit`. -/
def unsigned (limit : ℕ) (s : String) : Option ℕ :=
  let ds := unsignedDigits s.toList
  if ds ≠ [] ∧ ds.all Char.isDigit ∧ Nat.ofDigitChars 10 ds 0 ≤ limit then
    some (Nat.ofDigitChars 10 ds 0)
  else none

lemma unsignedDigits_of_ne {c : Char} {cs : List Char} (h : c ≠ '+') :
    unsignedDigits (c :: cs) = c :: cs := by
  unfold unsignedDigits
  split
  · next heq => exact absurd (List.cons.inj heq).1 h
  · rfl

lemma mem_unsignedDigits {c : Char} {cs : List Char} (hc : c ∈ cs) (h : c ≠ '+') :
    c ∈ unsignedDigits cs := by
  unfold unsignedDigits
  split
  · exact (List.mem_cons.mp hc).resolve_left h
  · exact hc

lemma unsigned_eq_none {limit : ℕ} {s : String} {c : Char} (hc : c ∈ s.toList) (hsign : c ≠ '+')
    (hdigit : c.isDigit = false) : unsigned limit s = none := by
  refine if_neg fun ⟨_, hall, _⟩ => ?_
  have h := List.all_eq_true.mp hall c (mem_unsignedDigits hc hsign)
  rw [hdigit] at h
  cases h

lemma unsigned_toDigits (limit n : ℕ) :
    unsigned limit (String.ofList (Nat.toDigits 10 n)) = if n ≤ limit then some n else none := by
  have hdigits : ∀ c ∈ Nat.toDigits 10 n, c.isDigit = true :=
    fun c hc => Nat.isDigit_of_mem_toDigits (by decide) (by decide) hc
  have hne : Nat.toDigits 10 n ≠ [] := Nat.toDigits_ne_nil
  have hread : unsignedDigits (Nat.toDigits 10 n) = Nat.toDigits 10 n := by
    cases hds : Nat.toDigits 10 n with
    | nil => exact absurd hds hne
    | cons c cs =>
      refine unsignedDigits_of_ne ?_
      rintro rfl
      have hplus := hdigits '+' (by rw [hds]; exact List.mem_cons_self)
      revert hplus
      decide
  simp only [unsigned, String.toList_ofList, hread, Nat.ofDigitChars_ten_toDigits]
  by_cases hn : n ≤ limit
  · rw [if_pos ⟨hne, List.all_eq_true.mpr hdigits, hn⟩, if_pos hn]
  · rw [if_neg fun h => hn h.2.2, if_neg hn]

lemma e_mem_scientific (p n : ℕ) : 'e' ∈ scientific p n := by
  simp [scientific]

/-- What is printed is read back, when it is not negative, within the limit and has no more digits
than are printed. -/
theorem unsigned_general (limit p : ℕ) (n : ℤ) :
    unsigned limit (general p n) =
      if 0 ≤ n ∧ n ≤ limit ∧ n < 10 ^ p then some n.toNat else none := by
  by_cases hneg : n < 0
  · rw [if_neg (by omega)]
    have hsign : '-' ∈ (general p n).toList := by simp [general, hneg]
    exact unsigned_eq_none hsign (by decide) (by decide)
  · obtain ⟨m, rfl⟩ := Int.eq_ofNat_of_zero_le (not_lt.mp hneg)
    have hprinted : general p m =
        String.ofList (if m < 10 ^ p then Nat.toDigits 10 m else scientific p m) := by
      simp only [general, if_neg hneg, Int.natAbs_natCast]
    rw [hprinted]
    by_cases hm : m < 10 ^ p
    · have hfits : (m : ℤ) < 10 ^ p := by exact_mod_cast hm
      rw [if_pos hm, unsigned_toDigits]
      simp [hfits]
    · have hlong : ¬(m : ℤ) < 10 ^ p := by exact_mod_cast hm
      rw [if_neg hm, if_neg fun h => hlong h.2.2]
      have he : 'e' ∈ (String.ofList (scientific p m)).toList := by
        rw [String.toList_ofList]
        exact e_mem_scientific p m
      exact unsigned_eq_none he (by decide) (by decide)

example : general 14 123456789012346 = "1.2345678901235e+14" := by decide +kernel

end LvimKeyring.Decimal
