import LvimKeyring.Lib.Transition
import LvimKeyring.Sample
import LvimKeyring.Writing

/-!
Calls that write the vault, one at a time, with the process dying at any system call.

A call first works out the session it is going to write and the bytes of its file, and reads at
most; then it writes them. Only its renaming touches the vault file, so an interrupted call has
replaced it whole or not at all, whatever earlier calls left in the temporary file and the
backup.
-/

namespace LvimKeyring.Crash

open Crypto Vault Writing Result Transition

/-- A call that writes the vault file, with the salt and the nonce it draws. -/
inductive Call (Key : Type)
  | create (password : Bytes) (params : KdfParams) (salt : Salt) (nonce : Nonce)
  | save (s : Session Key) (nonce : Nonce)
  | rotate (oldPassword newPassword : Bytes) (newParams : KdfParams) (salt : Salt) (nonce : Nonce)

variable {Key : Type} (L : Library Key)

def Call.nonce : Call Key → Nonce
  | .create _ _ _ nonce | .save _ nonce | .rotate _ _ _ _ nonce => nonce

/-- The session a call is going to write, or the error it returns instead. -/
def Call.session (io : Faults) (fs : FileSystem) (path : String) :
    Call Key → Except Err (Session Key)
  | .create password params salt _ =>
    if fileExists fs path then .error (.vaultExists path)
    else do
      let key ← deriveKey L.toPrimitives password salt params
      return ⟨Body.default, key, salt, params⟩
  | .save s _ => .ok s
  | .rotate oldPassword newPassword newParams salt _ => do
    let current ← unlock L io fs path oldPassword
    let key ← deriveKey L.toPrimitives newPassword salt newParams
    return ⟨⟨current.body.entries⟩, key, salt, newParams⟩

/-- That session with the complete bytes of its file. -/
def Call.output (io : Faults) (fs : FileSystem) (path : String) (c : Call Key) :
    Except Err (Session Key × Bytes) := do
  let s ← c.session L io fs path
  let out ← render L s c.nonce
  return (s, out)

/-- The call in one piece; of what it returns only whether it succeeded. -/
def Call.run (io : Faults) (fs : FileSystem) (path : String) :
    Call Key → FileSystem × Except Err Unit
  | .create password params salt nonce =>
    let (fs, r) := Vault.create L io fs path password params salt nonce
    (fs, r.map fun _ => ())
  | .save s nonce => Vault.save L io fs path s nonce
  | .rotate oldPassword newPassword newParams salt nonce =>
    let (fs, r) := Vault.rotate L io fs path oldPassword newPassword newParams salt nonce
    (fs, r.map fun _ => ())

/-- How a call ends: it returns, having made a copy or not, or the process dies in it. -/
inductive Ending
  | returned (kept : Bool) (r : Except Err Unit)
  | died
  deriving DecidableEq

/-- One call, what its reads meet, and what becomes of the system calls of its write until the
process dies. -/
structure Attempt (Key : Type) where
  call : Call Key
  reads : Faults
  writes : List Io

/-- The bytes an attempt is going to write, with their session. -/
def Attempt.output (path : String) (d : VaultDisk) (a : Attempt Key) :
    Except Err (Session Key × Bytes) :=
  a.call.output L a.reads d.view path

def Attempt.perform (path : String) (d : VaultDisk) (a : Attempt Key) : VaultDisk × Ending :=
  match a.output L path d with
  | .error e => (d, .returned false (.error e))
  | .ok (_, out) =>
    match solo path out d a.writes with
    | (d, .finished kept r) => (d, .returned kept r)
    | (d, _) => (d, .died)

/-- A disk through a sequence of attempts. -/
def step (path : String) (d : VaultDisk) (a : Attempt Key) : Option VaultDisk :=
  some (a.perform L path d).1

/-! ### What an attempt may leave behind -/

/-- After an attempt the vault file is the old one or complete with the new bytes: the old one
when the call returned an error, the new one when it returned without. It opens as it did or to
the session written, and after a call whose copy succeeded the backup is the file replaced. -/
structure Safe (path : String) (d : VaultDisk) (a : Attempt Key) (d' : VaultDisk) (e : Ending) :
    Prop where
  whole : d'.view path = d.view path ∨
    ∃ s out, a.output L path d = .ok (s, out) ∧ d'.view path = some out
  failed : ∀ kept err, e = .returned kept (.error err) → d'.view path = d.view path
  succeeded : ∀ kept, e = .returned kept (.ok ()) →
    ∃ s out, a.output L path d = .ok (s, out) ∧ d'.view path = some out
  backup : e = .returned true (.ok ()) → BacksUp d.view d'.view path
  opens : ∀ password s, unlock L .none d.view path password = .ok s →
    unlock L .none d'.view path password = .ok s ∨
      ∃ s' out, a.output L path d = .ok (s', out) ∧ ∀ password',
        deriveKey L.toPrimitives password' s'.salt s'.params = .ok s'.key →
          unlock L .none d'.view path password' = .ok s'

variable {L} {path : String}

/-- A write that has returned without an error. -/
def succeeded : Stage → Bool
  | .finished _ (.ok _) => true
  | _ => false

/-- A write alone has replaced the vault file when it has returned without an error, and only
then. -/
lemma solo_path (path : String) (out : Bytes) (d : VaultDisk) (ios : List Io) :
    (succeeded (solo path out d ios).2 = true ∧ (solo path out d ios).1.view path = some out) ∨
      (succeeded (solo path out d ios).2 = false ∧
        (solo path out d ios).1.view path = d.view path) := by
  have htracks := tracks_solo path out d ios
  have htmp := ne_tmpPath path
  have hbak := ne_bakPath path
  generalize solo path out d ios = ds at htracks
  obtain ⟨d', st⟩ := ds
  cases st with
  | finished kept r =>
    obtain ⟨⟨io, hstore⟩, -⟩ := htracks
    rcases store_spec io d.view path out with ⟨-, hok, hpath⟩ | ⟨-, ⟨e, he⟩, hpath⟩
    · rw [hstore] at hok hpath
      simp only at hok
      exact .inl ⟨by rw [hok]; rfl, hpath⟩
    · rw [hstore] at he hpath
      simp only at he
      exact .inr ⟨by rw [he]; rfl, hpath⟩
  | makeDir | openTemp => exact .inr ⟨rfl, congrFun htracks path⟩
  | writeAll handle pos =>
    obtain ⟨-, -, hview⟩ := htracks
    refine .inr ⟨rfl, ?_⟩
    rw [hview, Function.update_of_ne htmp]
  | syncAll | checkFile => exact .inr ⟨rfl, view_path htracks⟩
  | openSource | openBackup source => exact .inr ⟨rfl, view_path htracks.1⟩
  | copying source backup pos =>
    obtain ⟨old, -, -, -, -, hview⟩ := htracks
    refine .inr ⟨rfl, ?_⟩
    rw [hview, Function.update_of_ne hbak, Function.update_of_ne htmp]
  | rename kept =>
    obtain ⟨⟨copy, torn, hview⟩, -⟩ := htracks
    refine .inr ⟨rfl, ?_⟩
    rw [hview, afterCopy_path]

lemma writeNew_unit (io : Faults) (fs : FileSystem) (path : String) (s : Session Key)
    (nonce : Nonce) :
    ((writeNew L io fs path s nonce).1, (writeNew L io fs path s nonce).2.map fun _ => ())
      = write L io fs path s nonce := by
  unfold writeNew
  obtain ⟨fs', r⟩ := write L io fs path s nonce
  cases r <;> rfl

/-- Store the bytes a call has worked out, if it has. -/
def put (io : Faults) (fs : FileSystem) (path : String) :
    Except Err (Session Key × Bytes) → FileSystem × Except Err Unit
  | .error e => (fs, .error e)
  | .ok so => store io fs path so.2

lemma write_eq_put (io : Faults) (fs : FileSystem) (path : String) (s : Session Key)
    (nonce : Nonce) : write L io fs path s nonce
      = put io fs path (do let out ← render L s nonce; return (s, out)) := by
  unfold write
  cases render L s nonce <;> rfl

/-- The call in one piece works out its output and stores it. -/
theorem run_eq_put (io : Faults) (fs : FileSystem) (path : String) (c : Call Key) :
    c.run L io fs path = put io fs path (c.output L io fs path) := by
  cases c with
  | create password params salt nonce =>
    simp only [Call.run, Vault.create, Call.output, Call.session, Call.nonce]
    split
    · rfl
    · simp only [createAbsent]
      cases deriveKey L.toPrimitives password salt params with
      | error e => rfl
      | ok key =>
        simp only [writeNew_unit, write_eq_put, ok_bind, pure_bind]
  | save s nonce => exact write_eq_put io fs path s nonce
  | rotate oldPassword newPassword newParams salt nonce =>
    simp only [Call.run, Vault.rotate, Call.output, Call.session, Call.nonce]
    cases unlock L io fs path oldPassword with
    | error e => rfl
    | ok current =>
      simp only [rotateRead, ok_bind]
      cases deriveKey L.toPrimitives newPassword salt newParams with
      | error e => rfl
      | ok key =>
        simp only [writeNew_unit, write_eq_put, ok_bind, pure_bind]

/-- Faults of the reads of a call, and of its writes. -/
def merge (reads writes : Faults) : Faults where
  fails c := if c = .read then reads.fails .read else writes.fails c
  torn := writes.torn

lemma output_merge (reads writes : Faults) (fs : FileSystem) (path : String) (c : Call Key) :
    c.output L (merge reads writes) fs path = c.output L reads fs path := by
  cases c <;> rfl

/-- An attempt that returns has done what the call in one piece does, for some faults. -/
theorem perform_refines {d d' : VaultDisk} {a : Attempt Key} {kept : Bool} {r : Except Err Unit}
    (h : a.perform L path d = (d', .returned kept r)) :
    ∃ io, a.call.run L io d.view path = (d'.view, r) := by
  unfold Attempt.perform at h
  cases hout : a.output L path d with
  | error e =>
    simp only [hout, Prod.mk.injEq, Ending.returned.injEq] at h
    obtain ⟨rfl, -, rfl⟩ := h
    have hout' : a.call.output L a.reads d.view path = .error e := hout
    exact ⟨a.reads, by rw [run_eq_put, hout']; rfl⟩
  | ok so =>
    obtain ⟨s, out⟩ := so
    simp only [hout] at h
    cases hst : solo path out d a.writes with
    | mk d'' st =>
      simp only [hst] at h
      cases st with
      | finished kept' r' =>
        simp only [Prod.mk.injEq, Ending.returned.injEq] at h
        obtain ⟨rfl, rfl, rfl⟩ := h
        obtain ⟨writes, hstore⟩ := solo_refines_store hst
        have hout' : a.call.output L a.reads d.view path = .ok (s, out) := hout
        exact ⟨merge a.reads writes, by rw [run_eq_put, output_merge, hout', ← hstore]; rfl⟩
      | _ =>
        simp only [Prod.mk.injEq, reduceCtorEq, and_false] at h

/-! ### Every attempt is safe -/

/-- How an attempt ends that has bytes to write. -/
def ending : Stage → Ending
  | .finished kept r => .returned kept r
  | _ => .died

lemma perform_ok {d : VaultDisk} {a : Attempt Key} {s : Session Key} {out : Bytes}
    (h : a.output L path d = .ok (s, out)) :
    a.perform L path d = ((solo path out d a.writes).1, ending (solo path out d a.writes).2) := by
  unfold Attempt.perform
  simp only [h]
  obtain ⟨d', st⟩ := solo path out d a.writes
  cases st <;> rfl

lemma ending_ok {st : Stage} {kept : Bool} (h : ending st = .returned kept (.ok ())) :
    st = .finished kept (.ok ()) := by
  cases st with
  | finished kept' r =>
    cases h
    rfl
  | _ => cases h

lemma output_eq_ok {d : VaultDisk} {a : Attempt Key} {s : Session Key} {out : Bytes}
    (h : a.output L path d = .ok (s, out)) : render L s a.call.nonce = .ok out := by
  simp only [Attempt.output, Call.output, bind_eq_ok, pure_eq_ok, Prod.mk.injEq] at h
  obtain ⟨s', -, out', hr, rfl, rfl⟩ := h
  exact hr

theorem safe_perform (hL : L.Ideal) (path : String) (d : VaultDisk) (a : Attempt Key) :
    Safe L path d a (a.perform L path d).1 (a.perform L path d).2 := by
  cases hout : a.output L path d with
  | error e =>
    have hperf : a.perform L path d = (d, .returned false (.error e)) := by
      simp only [Attempt.perform, hout]
    rw [hperf]
    exact ⟨.inl rfl, fun _ _ _ => rfl, fun _ h => (by cases h), fun h => (by cases h),
      fun _ _ h => .inl h⟩
  | ok so =>
    obtain ⟨s, out⟩ := so
    have htracks := tracks_solo path out d a.writes
    rw [perform_ok hout]
    rcases solo_path path out d a.writes with ⟨hdone, hpath⟩ | ⟨hnot, hpath⟩
    · -- the file has been replaced
      refine ⟨.inr ⟨s, out, hout, hpath⟩, fun kept err h => ?_, fun _ _ => ⟨s, out, hout, hpath⟩,
        fun h => ?_, fun _ _ _ => .inr ⟨s, out, hout, fun pw' hkey => ?_⟩⟩
      · cases hst : (solo path out d a.writes).2 with
        | finished kept' r =>
          rw [hst] at h hdone
          cases h
          cases hdone
        | _ =>
          rw [hst] at h
          cases h
      · rw [ending_ok h] at htracks
        exact htracks.2 rfl
      · exact unlock_eq_ok.mpr ⟨rfl, hkey, holds_of_render hL (output_eq_ok hout) hpath⟩
    · -- the file is the old one
      have hnever : ∀ kept, ending (solo path out d a.writes).2 ≠ .returned kept (.ok ()) := by
        intro kept h
        rw [ending_ok h] at hnot
        cases hnot
      refine ⟨.inl hpath, fun _ _ _ => hpath, fun kept h => absurd h (hnever kept),
        fun h => absurd h (hnever true), fun pw s' h => .inl ?_⟩
      rw [unlock_congr hpath]
      exact h

/-- The vault file opens, under the key of the session it holds. -/
def Opens (L : Library Key) (path : String) (d : VaultDisk) : Prop :=
  ∃ s, Holds L d.view path s

lemma opens_perform (hL : L.Ideal) {d : VaultDisk} (h : Opens L path d) (a : Attempt Key) :
    Opens L path (a.perform L path d).1 := by
  obtain ⟨s, hs⟩ := h
  rcases (safe_perform hL path d a).whole with hsame | ⟨s', out, hout, hpath⟩
  · refine ⟨s, ?_⟩
    unfold Holds reopen readFile at hs ⊢
    rw [hsame]
    exact hs
  · exact ⟨s', holds_of_render hL (output_eq_ok hout) hpath⟩

/-- In every sequence of calls, each with its faults and with the process dying in it or not,
every call is safe, and a vault file that opened at the start opens after each of them. -/
theorem crashSafe (hL : L.Ideal) (path : String) (d : VaultDisk) (as : List (Attempt Key)) :
    Along (step L path) (fun d a => Safe L path d a (a.perform L path d).1 (a.perform L path d).2)
        d as ∧
      (Opens L path d → Throughout (step L path) (Opens L path) d as) := by
  refine ⟨along_of_forall fun a _ d => safe_perform hL path d a, ?_⟩
  induction as generalizing d with
  | nil => exact fun h => h
  | cons a as ih => exact fun h => ⟨h, ih _ (opens_perform hL h a)⟩

/-! ### A rotation that dies, and a save after it -/

section Sample

open Sample

/-- The sample's vault on a disk where an earlier write has left its files. -/
def leftovers : VaultDisk :=
  ((Disk.empty.put config.vaultPath ((created.fs config.vaultPath).getD [])).put
    (tmpPath config.vaultPath) [1, 2, 3]).put (bakPath config.vaultPath) [4]

/-- A call that meets no error before its process dies. -/
def passing (call : Call Sample.Key) (n : ℕ) : Attempt Sample.Key :=
  ⟨call, .none, List.replicate n (.pass 1000)⟩

/-- A rotation whose process dies with the backup copied and the renaming still to come. -/
def cutRotation : Attempt Sample.Key :=
  passing (.rotate (asBytes "pw") (asBytes "new") config.kdf env.salt env.nonce) 9

/-- A save that returns. -/
def nextSave : Attempt Sample.Key := passing (.save session env.nonce) 11

/-- The rotation dies, the save makes its copy and returns, and the vault opens throughout. -/
theorem crashSafe_cutRotation :
    (cutRotation.perform library config.vaultPath leftovers).2 = .died ∧
    (nextSave.perform library config.vaultPath
      (cutRotation.perform library config.vaultPath leftovers).1).2 = .returned true (.ok ()) ∧
    Along (step library config.vaultPath) (fun d a => Safe library config.vaultPath d a
        (a.perform library config.vaultPath d).1 (a.perform library config.vaultPath d).2)
      leftovers [cutRotation, nextSave] ∧
    Throughout (step library config.vaultPath) (Opens library config.vaultPath) leftovers
      [cutRotation, nextSave] := by
  have hopens : Opens library config.vaultPath leftovers := ⟨session, by decide +kernel⟩
  obtain ⟨hsafe, hthroughout⟩ := crashSafe library_ideal config.vaultPath leftovers
    [cutRotation, nextSave]
  exact ⟨by decide +kernel, by decide +kernel, hsafe, hthroughout hopens⟩

end Sample

end LvimKeyring.Crash
