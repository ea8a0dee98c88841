import Mathlib.Tactic.Common
import Mathlib.Data.Nat.Notation

/-!
Self-delimiting binary codes: what is decoded off the front of a stream is what was encoded
there, whatever follows.
-/

namespace LvimKeyring

/-- An encoder with a decoder that undoes it and hands back the rest of the stream. -/
structure Codec (α : Type) where
  enc : α → List UInt8
  dec : List UInt8 → Option (α × List UInt8)
  dec_enc : ∀ a rest, dec (enc a ++ rest) = some (a, rest)

namespace Codec

variable {α β : Type}

lemma enc_prefix (C : Codec α) {a b : α} {r s : List UInt8} (h : C.enc a ++ r = C.enc b ++ s) :
    a = b ∧ r = s := by
  have ha := C.dec_enc a r
  rw [h, C.dec_enc b s] at ha
  simpa [eq_comm] using ha

def natGo : List UInt8 → Option (ℕ × List UInt8)
  | [] => none
  | b :: bs => if b = 255 then (natGo bs).map fun nr => (nr.1 + 255, nr.2) else some (b.toNat, bs)

/-- A number, in steps of 255. -/
def nat : Codec ℕ where
  enc n := List.replicate (n / 255) 255 ++ [UInt8.ofNat (n % 255)]
  dec := natGo
  dec_enc n rest := by
    have hlow : n % 255 < 255 := Nat.mod_lt _ (by decide)
    have hne : UInt8.ofNat (n % 255) ≠ 255 := by
      intro h
      have h' := congrArg UInt8.toNat h
      simp at h'
      omega
    have hval : (UInt8.ofNat (n % 255)).toNat = n % 255 := by simp; omega
    have hgo : ∀ k, natGo (List.replicate k 255 ++ (UInt8.ofNat (n % 255) :: rest))
        = some (255 * k + n % 255, rest) := by
      intro k
      induction k with
      | zero => simp [natGo, hne, hval]
      | succ k ih =>
        rw [List.replicate_succ, List.cons_append, natGo, if_pos rfl, ih]
        simp
        omega
    rw [List.append_assoc, List.singleton_append, hgo, Nat.div_add_mod]

/-- A type that embeds in one with a code. -/
def ofInverse (C : Codec β) (f : α → β) (g : β → α) (h : ∀ a, g (f a) = a) : Codec α where
  enc a := C.enc (f a)
  dec bs := (C.dec bs).map fun br => (g br.1, br.2)
  dec_enc a rest := by simp [C.dec_enc, h]

def prod (C : Codec α) (D : Codec β) : Codec (α × β) where
  enc ab := C.enc ab.1 ++ D.enc ab.2
  dec bs := (C.dec bs).bind fun ar => (D.dec ar.2).map fun br => ((ar.1, br.1), br.2)
  dec_enc ab rest := by simp [List.append_assoc, C.dec_enc, D.dec_enc]

def bool : Codec Bool :=
  nat.ofInverse (fun b => if b then 1 else 0) (fun n => n == 1) (by decide)

def option (C : Codec α) : Codec (Option α) where
  enc
    | none => [0]
    | some a => 1 :: C.enc a
  dec
    | [] => none
    | b :: bs => if b = 0 then some (none, bs) else (C.dec bs).map fun ar => (some ar.1, ar.2)
  dec_enc a rest := by cases a <;> simp [C.dec_enc]

def listGo (C : Codec α) : ℕ → List UInt8 → Option (List α × List UInt8)
  | 0, bs => some ([], bs)
  | n + 1, bs => (C.dec bs).bind fun ar => (listGo C n ar.2).map fun lr => (ar.1 :: lr.1, lr.2)

/-- The elements after their number. -/
def list (C : Codec α) : Codec (List α) where
  enc l := nat.enc l.length ++ l.flatMap C.enc
  dec bs := (nat.dec bs).bind fun nr => listGo C nr.1 nr.2
  dec_enc l rest := by
    have hgo : listGo C l.length (l.flatMap C.enc ++ rest) = some (l, rest) := by
      induction l with
      | nil => rfl
      | cons a l ih => simp [listGo, List.append_assoc, C.dec_enc, ih]
    simp [List.append_assoc, nat.dec_enc, hgo]

def byte : Codec UInt8 where
  enc b := [b]
  dec
    | [] => none
    | b :: bs => some (b, bs)
  dec_enc _ _ := rfl

def string : Codec String :=
  (list nat).ofInverse (fun s => s.toList.map Char.toNat)
    (fun l => String.ofList (l.map Char.ofNat)) fun s => by
      simp [List.map_map, Function.comp_def, Char.ofNat_toNat]

end Codec

end LvimKeyring
