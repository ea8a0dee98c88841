import Mathlib.Data.Bool.AllAny
import LvimKeyring.Lib.Base32
import LvimKeyring.Totp

/-!
Which secrets of one-time passwords are accepted.

A secret is put in upper case before it is decoded. Ten characters outside ASCII have an upper case
of ASCII letters, and with them a secret that is not base32 is taken for one.
-/

namespace LvimKeyring.TotpSecret

open Crypto Totp

/-- What is left of a secret without white space and padding. -/
def stripped (s : String) : List Char := s.toList.filter fun c => !isWhitespace c && c != '='

/-- The characters outside ASCII that have an upper case in the alphabet: a sharp s, a dotless i, a
long s, and the ligatures of f and of st. -/
def foldings : List (Char × List Char) :=
  [(Char.ofNat 0xdf, ['S', 'S']), (Char.ofNat 0x131, ['I']), (Char.ofNat 0x17f, ['S']),
    (Char.ofNat 0xfb00, ['F', 'F']), (Char.ofNat 0xfb01, ['F', 'I']),
    (Char.ofNat 0xfb02, ['F', 'L']),
    (Char.ofNat 0xfb03, ['F', 'F', 'I']), (Char.ofNat 0xfb04, ['F', 'F', 'L']),
    (Char.ofNat 0xfb05, ['S', 'T']), (Char.ofNat 0xfb06, ['S', 'T'])]

/-- What the packages are documented to do: the upper case of a character, and the texts that
`BASE32_NOPAD` decodes. -/
structure Documented (T : Totp.Packages) : Prop where
  ascii : ∀ c : Char, c.toNat < 128 → T.toUppercase c = [c.toUpper]
  folds : ∀ fold ∈ foldings, T.toUppercase fold.1 = fold.2
  others : ∀ c : Char, 128 ≤ c.toNat → c ∉ foldings.map Prod.fst →
    ∃ d ∈ T.toUppercase c, d ∉ Base32.alphabet
  decodes : ∀ bs key, T.base32Nopad bs = some key ↔
    bs = asBytes (String.ofList (Base32.encode key))

/-! ### The statement -/

/-- The characters are the canonical base32 of some bytes, in either case. -/
def IsBase32 (cs : List Char) : Prop :=
  (∀ c ∈ cs, c.isAlpha = true ∨ '2' ≤ c ∧ c ≤ '7') ∧
    ∃ key, cs.map Char.toUpper = Base32.encode key

def Accepts (T : Totp.Packages) (s : String) (time period digits : ℕ) : Prop :=
  ∃ c, code T s time period digits = .ok c

/-- Two characters that are the same letter, or the same character: in ASCII, or by their upper
case. -/
def SameLetter (T : Totp.Packages) (c c' : Char) : Prop :=
  c.toLower = c'.toLower ∨ T.toUppercase c = T.toUppercase c'

/-- The same characters up to case, white space and padding. -/
def Alike (T : Totp.Packages) (s s' : String) : Prop :=
  List.Forall₂ (SameLetter T) (stripped s) (stripped s')

/-- What is asked of one secret. -/
def OnlyBase32 (T : Totp.Packages) (s : String) : Prop :=
  ∀ time period digits, 1 ≤ period → 1 ≤ digits → digits ≤ 9 →
    (Accepts T s time period digits ↔ IsBase32 (stripped s)) ∧
    ∀ s', Alike T s s' → Accepts T s time period digits → Accepts T s' time period digits →
      code T s time period digits = code T s' time period digits

/-! ### Upper case -/

/-- A character as the letters it is upper-cased to, or itself. -/
def expand (c : Char) : List Char := (foldings.lookup c).getD [c]

variable {T : Totp.Packages} {s : String} {c : Char} {cs : List Char}

lemma alphabet_ascii : ∀ c ∈ Base32.alphabet, c.isAlpha = true ∨ '2' ≤ c ∧ c ≤ '7' :=
  List.all_iff_forall_prop.mp (by decide)

lemma toNat_lt_of_base32 (h : c.isAlpha = true ∨ '2' ≤ c ∧ c ≤ '7') : c.toNat < 128 := by
  unfold Char.isAlpha Char.isUpper Char.isLower at h
  simp only [Char.le_def, UInt32.le_iff_toNat_le, ge_iff_le,
    Bool.or_eq_true, Bool.and_eq_true, decide_eq_true_eq, Char.reduceVal, UInt32.reduceToNat] at h
  show c.val.toNat < 128
  omega

lemma base32_of_toUpper (h : c.toUpper ∈ Base32.alphabet) :
    c.isAlpha = true ∨ '2' ≤ c ∧ c ≤ '7' := by
  by_cases hlower : 'a'.val ≤ c.val ∧ c.val ≤ 'z'.val
  · left
    unfold Char.isAlpha Char.isLower
    simp only [ge_iff_le, Bool.or_eq_true, Bool.and_eq_true, decide_eq_true_eq]
    exact .inr hlower
  · unfold Char.toUpper at h
    rw [dif_neg hlower] at h
    exact alphabet_ascii c h

lemma expand_of_ascii (h : c.toNat < 128) : expand c = [c] := by
  have hkeys : ∀ fold ∈ foldings, 128 ≤ fold.1.toNat := by decide +kernel
  have hnone : foldings.lookup c = none := by
    refine List.lookup_eq_none_iff.mpr fun fold hfold => bne_iff_ne.mpr fun heq => ?_
    have hkey := hkeys fold hfold
    rw [← heq] at hkey
    omega
  rw [expand, hnone]
  rfl

lemma expand_of_fold {fold : Char × List Char} (h : fold ∈ foldings) :
    expand fold.1 = fold.2 ∧ fold.2.map Char.toUpper = fold.2 ∧ 128 ≤ fold.1.toNat := by
  have hall : ∀ fold ∈ foldings, expand fold.1 = fold.2 ∧ fold.2.map Char.toUpper = fold.2 ∧
      128 ≤ fold.1.toNat := by decide +kernel
  exact hall fold h

lemma expand_of_other (h : c ∉ foldings.map Prod.fst) : expand c = [c] := by
  have hnone : foldings.lookup c = none := by
    refine List.lookup_eq_none_iff.mpr fun fold hfold => bne_iff_ne.mpr ?_
    rintro rfl
    exact h (List.mem_map_of_mem hfold)
  rw [expand, hnone]
  rfl

/-- The characters that have an upper case in the alphabet. -/
def Foldable (cs : List Char) : Prop := ∀ c ∈ cs, c.toNat < 128 ∨ c ∈ foldings.map Prod.fst

lemma flatMap_toUppercase (hT : Documented T) (h : Foldable cs) :
    cs.flatMap T.toUppercase = (cs.flatMap expand).map Char.toUpper := by
  rw [List.map_flatMap]
  refine List.flatMap_congr fun c hc => ?_
  rcases h c hc with hascii | hfold
  · rw [hT.ascii c hascii, expand_of_ascii hascii]
    rfl
  · obtain ⟨fold, hmem, rfl⟩ := List.mem_map.mp hfold
    obtain ⟨hexpand, hupper, -⟩ := expand_of_fold hmem
    rw [hT.folds fold hmem, hexpand, hupper]

lemma foldable_of_encode (hT : Documented T) {key : Bytes}
    (h : cs.flatMap T.toUppercase = Base32.encode key) : Foldable cs := by
  intro c hc
  by_contra hnot
  rw [not_or, not_lt] at hnot
  obtain ⟨d, hd, hout⟩ := hT.others c hnot.1 hnot.2
  have hmem : d ∈ Base32.encode key := by
    rw [← h]
    exact List.mem_flatMap.mpr ⟨c, hc, hd⟩
  exact hout (Base32.mem_alphabet_of_mem_encode hmem)

lemma foldable_of_base32 (h : IsBase32 (cs.flatMap expand)) : Foldable cs := by
  intro c hc
  by_cases hfold : c ∈ foldings.map Prod.fst
  · exact .inr hfold
  · left
    refine toNat_lt_of_base32 (h.1 c (List.mem_flatMap.mpr ⟨c, hc, ?_⟩))
    rw [expand_of_other hfold]
    exact List.mem_singleton_self c

lemma encode_iff (hT : Documented T) :
    (∃ key, cs.flatMap T.toUppercase = Base32.encode key) ↔ IsBase32 (cs.flatMap expand) := by
  constructor
  · rintro ⟨key, hkey⟩
    rw [flatMap_toUppercase hT (foldable_of_encode hT hkey)] at hkey
    refine ⟨fun c hc => base32_of_toUpper ?_, key, hkey⟩
    have hmem : c.toUpper ∈ Base32.encode key := by
      rw [← hkey]
      exact List.mem_map_of_mem hc
    exact Base32.mem_alphabet_of_mem_encode hmem
  · intro h
    obtain ⟨key, hkey⟩ := h.2
    exact ⟨key, (flatMap_toUppercase hT (foldable_of_base32 h)).trans hkey⟩

/-! ### Acceptance -/

lemma accepts_iff (hT : Documented T) {time period digits : ℕ} (hperiod : 1 ≤ period)
    (hone : 1 ≤ digits) (hnine : digits ≤ 9) :
    Accepts T s time period digits ↔ IsBase32 ((stripped s).flatMap expand) := by
  have hparams : ¬ (period = 0 ∨ ¬ (1 ≤ digits ∧ digits ≤ 9)) := by omega
  have hkey : Accepts T s time period digits ↔ ∃ key,
      T.base32Nopad (asBytes (clean T s)) = some key := by
    unfold Accepts
    simp only [code, if_neg hparams]
    cases T.base32Nopad (asBytes (clean T s)) with
    | none => simp
    | some key => simp
  have hclean : clean T s = String.ofList ((stripped s).flatMap T.toUppercase) := rfl
  rw [hkey, ← encode_iff hT]
  refine exists_congr fun key => ?_
  rw [hT.decodes, asBytes_injective.eq_iff, hclean]
  exact ⟨fun h => by simpa using congrArg String.toList h, congrArg String.ofList⟩

lemma flatMap_expand (h : ∀ c ∈ cs, c ∉ foldings.map Prod.fst) : cs.flatMap expand = cs := by
  have hself : cs.flatMap expand = cs.flatMap fun c => [c] :=
    List.flatMap_congr fun c hc => expand_of_other (h c hc)
  rw [hself]
  simp

lemma not_folding_of_base32 (h : IsBase32 cs) : ∀ c ∈ cs, c ∉ foldings.map Prod.fst := by
  intro c hc hfold
  obtain ⟨fold, hmem, rfl⟩ := List.mem_map.mp hfold
  have hlt := toNat_lt_of_base32 (h.1 _ hc)
  have hge := (expand_of_fold hmem).2.2
  omega

lemma toNat_toLower (c : Char) : c.toLower.toNat =
    if 65 ≤ c.toNat ∧ c.toNat ≤ 90 then c.toNat + 32 else c.toNat := by
  have hcond : (c.val ≥ 'A'.val ∧ c.val ≤ 'Z'.val) ↔ 65 ≤ c.toNat ∧ c.toNat ≤ 90 := by
    simp only [ge_iff_le, UInt32.le_iff_toNat_le]
    rfl
  by_cases h : 65 ≤ c.toNat ∧ c.toNat ≤ 90
  · have hshift : ('a'.val - 'A'.val).toNat = 32 := rfl
    have hle : c.val.toNat ≤ 90 := h.2
    unfold Char.toLower
    rw [if_pos h, dif_pos (hcond.mpr h)]
    show (c.val + ('a'.val - 'A'.val)).toNat = c.val.toNat + 32
    rw [UInt32.toNat_add]
    omega
  · unfold Char.toLower
    rw [if_neg h, dif_neg fun h' => h (hcond.mp h')]

lemma toNat_toUpper (c : Char) : c.toUpper.toNat =
    if 97 ≤ c.toNat ∧ c.toNat ≤ 122 then c.toNat - 32 else c.toNat := by
  have hcond : ('a'.val ≤ c.val ∧ c.val ≤ 'z'.val) ↔ 97 ≤ c.toNat ∧ c.toNat ≤ 122 := by
    simp only [UInt32.le_iff_toNat_le]
    rfl
  by_cases h : 97 ≤ c.toNat ∧ c.toNat ≤ 122
  · -- The shift is negative, modulo `2 ^ 32`.
    have hshift : ('A'.val - 'a'.val).toNat = 2 ^ 32 - 32 := rfl
    have hge : 97 ≤ c.val.toNat := h.1
    have hlt := c.val.toNat_lt
    unfold Char.toUpper
    rw [if_pos h, dif_pos (hcond.mpr h)]
    show (c.val + ('A'.val - 'a'.val)).toNat = c.val.toNat - 32
    rw [UInt32.toNat_add]
    omega
  · unfold Char.toUpper
    rw [if_neg h, dif_neg fun h' => h (hcond.mp h')]

lemma SameLetter.upper {c' : Char} (hT : Documented T) (h : SameLetter T c c') :
    T.toUppercase c = T.toUppercase c' := by
  rcases h with hlower | hupper
  · have hcodes := congrArg Char.toNat hlower
    rw [toNat_toLower, toNat_toLower] at hcodes
    by_cases hsame : c = c'
    · rw [hsame]
    · have hne : c.toNat ≠ c'.toNat := fun heq => hsame (Char.toNat_inj.mp heq)
      have hascii : c.toNat < 128 ∧ c'.toNat < 128 := by
        split at hcodes <;> split at hcodes <;> omega
      have hup : c.toUpper = c'.toUpper := by
        refine Char.toNat_inj.mp ?_
        rw [toNat_toUpper, toNat_toUpper]
        split at hcodes <;> split at hcodes <;> split <;> split <;> omega
      rw [hT.ascii c hascii.1, hT.ascii c' hascii.2, hup]
  · exact hupper

lemma flatMap_alike {cs cs' : List Char} (hT : Documented T)
    (h : List.Forall₂ (SameLetter T) cs cs') :
    cs.flatMap T.toUppercase = cs'.flatMap T.toUppercase := by
  induction h with
  | nil => rfl
  | cons hsame _ ih => rw [List.flatMap_cons, List.flatMap_cons, hsame.upper hT, ih]

lemma code_alike {s' : String} (hT : Documented T) (h : Alike T s s') (time period digits : ℕ) :
    code T s time period digits = code T s' time period digits := by
  have hclean : clean T s = clean T s' := by
    show String.ofList ((stripped s).flatMap T.toUppercase) =
      String.ofList ((stripped s').flatMap T.toUppercase)
    rw [flatMap_alike hT h]
  simp only [code, hclean]

/-- **Base32 and no more** is accepted, but for secrets with one of ten characters that are base32
once these are spelled out. -/
theorem onlyBase32_iff (hT : Documented T) (s : String) :
    OnlyBase32 T s ↔ (∀ c ∈ stripped s, c ∉ foldings.map Prod.fst) ∨
      ¬ IsBase32 ((stripped s).flatMap expand) := by
  constructor
  · intro h
    by_contra hnot
    rw [not_or, not_not] at hnot
    have haccepts : Accepts T s 0 30 6 :=
      (accepts_iff hT (by decide) (by decide) (by decide)).mpr hnot.2
    have hbase := (h 0 30 6 (by decide) (by decide) (by decide)).1.mp haccepts
    exact hnot.1 (not_folding_of_base32 hbase)
  · intro h time period digits hperiod hone hnine
    refine ⟨?_, fun s' halike _ _ => code_alike hT halike time period digits⟩
    rw [accepts_iff hT hperiod hone hnine]
    rcases h with hnone | hnot
    · rw [flatMap_expand hnone]
    · refine iff_of_false hnot fun hbase => hnot ?_
      rw [flatMap_expand (not_folding_of_base32 hbase)]
      exact hbase

/-! ### Packages that do as documented -/

/-- Of the digest nothing is assumed. -/
def packages : Totp.Packages where
  toUppercase c := if c.toNat < 128 then [c.toUpper] else expand c
  base32Nopad bs := (String.fromUTF8? ⟨bs.toArray⟩).bind fun text => Base32.decode text.toList
  hmacSha1 _ _ := .replicate 20 0

lemma fromUTF8?_eq_some {bs : Bytes} {text : String} :
    String.fromUTF8? ⟨bs.toArray⟩ = some text ↔ bs = asBytes text := by
  unfold String.fromUTF8?
  constructor
  · intro h
    split at h
    · cases h
      rfl
    · cases h
  · rintro rfl
    exact dif_pos text.isValidUTF8

lemma packages_documented : Documented packages where
  ascii c h := if_pos h
  folds fold h := by
    have hfold := expand_of_fold h
    exact (if_neg (by omega)).trans hfold.1
  others c h hnot := by
    refine ⟨c, ?_, fun hmem => ?_⟩
    · have hself : packages.toUppercase c = [c] := (if_neg (by omega)).trans (expand_of_other hnot)
      rw [hself]
      exact List.mem_singleton_self c
    · have hlt := toNat_lt_of_base32 (alphabet_ascii c hmem)
      omega
  decodes bs key := by
    have hbind : packages.base32Nopad bs = some key ↔
        ∃ text, bs = asBytes text ∧ text.toList = Base32.encode key := by
      rw [packages, Option.bind_eq_some_iff]
      exact exists_congr fun text => and_congr fromUTF8?_eq_some Base32.decode_eq_some
    rw [hbind]
    constructor
    · rintro ⟨text, rfl, htext⟩
      rw [← htext, String.ofList_toList]
    · rintro rfl
      exact ⟨_, rfl, String.toList_ofList⟩

/-- A secret in lower case with blanks is accepted. -/
theorem onlyBase32_lower : OnlyBase32 packages "gezd gnbv" :=
  (onlyBase32_iff packages_documented "gezd gnbv").mpr
    (.inl (List.all_iff_forall_prop.mp (by decide +kernel)))

/-- A dotless i passes for an I. -/
theorem not_onlyBase32 : ¬ ∀ s, OnlyBase32 packages s := by
  intro hall
  have h :=
    (hall (String.ofList [Char.ofNat 0x131, 'A']) 0 30 6 (by decide) (by decide) (by decide)).1
  rw [accepts_iff packages_documented (by decide) (by decide) (by decide)] at h
  have hstripped : stripped (String.ofList [Char.ofNat 0x131, 'A']) = [Char.ofNat 0x131, 'A'] := by
    decide +kernel
  rw [hstripped] at h
  have hbase : IsBase32 ([Char.ofNat 0x131, 'A'].flatMap expand) :=
    ⟨List.all_iff_forall_prop.mp (by decide +kernel), [0x40], by decide +kernel⟩
  exact absurd ((h.mp hbase).1 (Char.ofNat 0x131) List.mem_cons_self) (by decide +kernel)

end LvimKeyring.TotpSecret
