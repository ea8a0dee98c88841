import LvimKeyring.Lib.ListUpdate
import LvimKeyring.Lib.Transition
import LvimKeyring.Sample
import LvimKeyring.Writing

/-!
Writes of the vault file that run at the same time.

Saves exclude one another, for they hold the lock of the session; a rotation or a creation is
held up by nothing. All of them write through the same temporary file, so one write can empty
the file another is filling, or rename it while it is being filled. The vault file stays whole
in every run in which neither happens.
-/

namespace LvimKeyring.WriteRaces

open Crypto Vault Writing Transition ListUpdate

/-- Which request a write is part of. -/
inductive Kind
  | create | save | rotate
  deriving DecidableEq

/-- A write begun: its complete output, and the system call it makes next. -/
structure Write where
  kind : Kind
  out : Bytes
  stage : Stage

/-- The disk, and every write begun, by the order they began in. -/
structure State where
  disk : VaultDisk
  writes : List Write

/-- Before any write. -/
def start (disk : VaultDisk) : State := ⟨disk, []⟩

inductive Action (Key : Type)
  | begin (kind : Kind) (s : Session Key) (nonce : Nonce)
  | call (t : ℕ) (io : Io)

def isFinished : Stage → Bool
  | .finished _ _ => true
  | _ => false

/-- A save that has not returned has the session locked. -/
def Write.locks (w : Write) : Bool := w.kind = .save && !isFinished w.stage

variable {Key : Type} (L : Library Key) (path : String)

def step (s : State) : Action Key → Option State
  | .begin kind session nonce =>
    if kind = .save ∧ s.writes.any Write.locks then none
    else
      match render L session nonce with
      | .error _ => none
      | .ok out => some { s with writes := s.writes ++ [⟨kind, out, .makeDir⟩] }
  | .call t io =>
    match s.writes[t]? with
    | none => none
    | some w =>
      let (disk, stage) := w.stage.step path w.out io s.disk
      some ⟨disk, s.writes.set t { w with stage }⟩

/-! ### The statement -/

/-- The vault file, if there is one, is the one there was before or the complete output of a
write. -/
def Whole (disk : VaultDisk) (s : State) : Prop :=
  ∀ raw, s.disk.view path = some raw →
    disk.view path = some raw ∨ ∃ w ∈ s.writes, w.out = raw

/-- The file on a disk, if there is one, is the complete output of a write made earlier. -/
def Sealed (disk : VaultDisk) : Prop :=
  ∀ raw, disk.view path = some raw → ∃ session nonce, render L session nonce = .ok raw

/-- Whatever writes run at the same time, the vault file is whole at every moment. -/
def AlwaysWhole : Prop :=
  ∀ disk as s, Sealed L path disk → run (step L path) (start disk) as = some s →
    Whole path disk s

/-! ### Orderly runs -/

/-- A write is between its opening of the temporary file and the last byte it puts there. -/
def Write.writing (w : Write) : Bool :=
  match w.stage with
  | .writeAll _ pos => pos < w.out.length
  | _ => false

/-- A write has put its last byte into the temporary file. -/
def Write.wrote (w : Write) : Bool :=
  match w.stage with
  | .makeDir | .openTemp => false
  | .writeAll _ pos => w.out.length ≤ pos
  | .syncAll | .checkFile | .openSource | .openBackup _ | .copying _ _ _ | .rename _ => true
  | .finished _ (.ok _) | .finished _ (.error (.fsyncTemp _))
  | .finished _ (.error (.replace _)) => true
  | .finished _ (.error _) => false

/-- Which write opened the temporary file last. -/
def opener (g : Option ℕ) (s : State) (a : Action Key) (_ : State) : Option ℕ :=
  match a with
  | .call t (.pass _) =>
    match (s.writes[t]?).map Write.stage with
    | some .openTemp => some t
    | _ => g
  | _ => g

/-- No write opens the temporary file while another one is writing to it, and none renames it
unless the write that opened it last has put its last byte there. -/
def orderly (x : Option ℕ × State) : Action Key → Bool
  | .begin _ _ _ | .call _ (.fail _) => true
  | .call t (.pass _) =>
    match (x.2.writes[t]?).map Write.stage with
    | some .openTemp => x.2.writes.all fun w => !w.writing
    | some (.rename _) => x.1.all fun u => (x.2.writes[u]?).any Write.wrote
    | _ => true

/-! ### What an orderly run keeps -/

/-- A write has opened the temporary file and not returned. -/
def pastOpen : Stage → Bool
  | .makeDir | .openTemp | .finished _ _ => false
  | _ => true

/-- A write that is filling the temporary file opened it last, and the file has its bytes so
far; once they are all there the file is complete. A backup is written under its own name. -/
structure Inv (disk : VaultDisk) (g : Option ℕ) (s : State) : Prop where
  whole : Whole path disk s
  filling : ∀ {t : ℕ} {w : Write} {h pos}, s.writes[t]? = some w → w.stage = .writeAll h pos →
    pos < w.out.length →
      g = some t ∧ s.disk.name (tmpPath path) = some h ∧ s.disk.data h = w.out.take pos
  filled : ∀ {t : ℕ} {w : Write} {raw}, g = some t → s.writes[t]? = some w → w.wrote = true →
    s.disk.view (tmpPath path) = some raw → raw = w.out
  opened : ∀ {t : ℕ} {w : Write}, s.writes[t]? = some w → pastOpen w.stage = true → g.isSome
  copies : ∀ {t : ℕ} {w : Write} {src b pos}, s.writes[t]? = some w → w.stage = .copying src b pos →
    s.disk.name (bakPath path) = some b

/-- A change of the disk that touches the backup at most. -/
structure Aside (d d' : VaultDisk) : Prop where
  name : d'.name (tmpPath path) = d.name (tmpPath path)
  data : ∀ {i}, d.name (tmpPath path) = some i → d'.data i = d.data i
  vault : d'.view path = d.view path
  backup : ∀ {b}, d.name (bakPath path) = some b → d'.name (bakPath path) = some b

variable {path} {disk : VaultDisk} {g : Option ℕ} {s : State}

lemma Aside.refl (d : VaultDisk) : Aside path d d := ⟨rfl, fun _ => rfl, rfl, id⟩

lemma Aside.view {d d' : VaultDisk} (h : Aside path d d') :
    d'.view (tmpPath path) = d.view (tmpPath path) := by
  rw [Disk.view, Disk.view, h.name]
  cases hi : d.name (tmpPath path) with
  | none => rfl
  | some i => rw [Option.map_some, Option.map_some, h.data hi]

lemma aside_openTrunc (d : VaultDisk) : Aside path d (d.openTrunc (bakPath path)).1 where
  name := Disk.openTrunc_name_of_ne (tmpPath_ne_bakPath path)
  data h := Disk.openTrunc_data_of_ne (Disk.ne_openTrunc h (tmpPath_ne_bakPath path))
  vault := by rw [d.openTrunc_view, Function.update_of_ne (ne_bakPath path)]
  backup h := by rw [d.openTrunc_name, Disk.openTrunc_of_name h]

lemma aside_writeAt {d : VaultDisk} {b : ℕ} (h : d.name (bakPath path) = some b) (pos : ℕ)
    (bytes : Bytes) : Aside path d (d.writeAt 0 b pos bytes) where
  name := rfl
  data hi := Disk.writeAt_data_of_ne fun heq =>
    tmpPath_ne_bakPath path (d.alone hi (by rw [heq]; exact h))
  vault := Disk.writeAt_view_of_ne fun hpath => ne_bakPath path (d.alone hpath h)
  backup hb := hb

lemma mem_set_out {l : List Write} {t : ℕ} {w w' : Write} (ht : l[t]? = some w)
    (hout : w'.out = w.out) {raw : Bytes} (h : ∃ x ∈ l, x.out = raw) :
    ∃ x ∈ l.set t w', x.out = raw := by
  obtain ⟨x, hx, rfl⟩ := h
  obtain ⟨u, hu⟩ := List.mem_iff_getElem?.mp hx
  have hlt : t < l.length := (List.getElem?_eq_some_iff.mp ht).1
  by_cases hut : u = t
  · subst hut
    rw [hu] at ht
    cases ht
    exact ⟨w', List.mem_of_getElem? (List.getElem?_set_self hlt), hout⟩
  · refine ⟨x, List.mem_of_getElem? (i := u) ?_, rfl⟩
    rw [List.getElem?_set_ne (Ne.symm hut)]
    exact hu

lemma whole_set {t : ℕ} {w w' : Write} {d' : VaultDisk} (h : Whole path disk s)
    (ht : s.writes[t]? = some w) (hout : w'.out = w.out)
    (hvault : d'.view path = s.disk.view path) :
    Whole path disk ⟨d', s.writes.set t w'⟩ := by
  intro raw hraw
  simp only at hraw
  rw [hvault] at hraw
  rcases h raw hraw with hold | hnew
  · exact .inl hold
  · exact .inr (mem_set_out ht hout hnew)

lemma inv_aside (h : Inv path disk g s) {t : ℕ} {w : Write} (ht : s.writes[t]? = some w)
    {d' : VaultDisk} {st : Stage} (hd : Aside path s.disk d')
    (hfill : ∀ h pos, st ≠ .writeAll h pos)
    (hwrote : Write.wrote { w with stage := st } = true → w.wrote = true)
    (hpast : pastOpen st = true → pastOpen w.stage = true)
    (hcopy : ∀ {src b pos}, st = .copying src b pos → d'.name (bakPath path) = some b) :
    Inv path disk g ⟨d', s.writes.set t { w with stage := st }⟩ where
  whole := whole_set h.whole ht rfl hd.vault
  filling {u x handle pos} hu hst hpos := by
    rcases set_cases ht hu with ⟨-, rfl⟩ | ⟨-, hold⟩
    · exact absurd hst (hfill handle pos)
    · obtain ⟨hg, hname, hdata⟩ := h.filling hold hst hpos
      exact ⟨hg, hd.name.trans hname, (hd.data hname).trans hdata⟩
  filled {u x raw} hg hu hw hraw := by
    simp only [hd.view] at hraw
    rcases set_cases ht hu with ⟨rfl, rfl⟩ | ⟨-, hold⟩
    · have hout : raw = w.out := h.filled hg ht (hwrote hw) hraw
      exact hout
    · exact h.filled hg hold hw hraw
  opened {u x} hu hx := by
    rcases set_cases ht hu with ⟨-, rfl⟩ | ⟨-, hold⟩
    · exact h.opened ht (hpast hx)
    · exact h.opened hold hx
  copies {u x src b pos} hu hst := by
    rcases set_cases ht hu with ⟨-, rfl⟩ | ⟨-, hold⟩
    · exact hcopy hst
    · exact hd.backup (h.copies hold hst)

lemma inv_openTemp (h : Inv path disk g s) {t : ℕ} {w : Write} (ht : s.writes[t]? = some w)
    (hfree : s.writes.all (fun w => !w.writing) = true) :
    Inv path disk (some t) ⟨(s.disk.openTrunc (tmpPath path)).1, s.writes.set t
      { w with stage := .writeAll (s.disk.openTrunc (tmpPath path)).2 0 }⟩ where
  whole := whole_set h.whole ht rfl (by
    rw [s.disk.openTrunc_view, Function.update_of_ne (ne_tmpPath path)])
  filling {u x handle pos} hu hst hpos := by
    rcases set_cases ht hu with ⟨rfl, rfl⟩ | ⟨-, hold⟩
    · cases hst
      exact ⟨rfl, s.disk.openTrunc_name _, s.disk.openTrunc_data _⟩
    · have hnot := List.all_eq_true.mp hfree x (List.mem_of_getElem? hold)
      simp [Write.writing, hst, hpos] at hnot
  filled {u x raw} hg hu hw hraw := by
    cases hg
    rcases set_cases ht hu with ⟨-, rfl⟩ | ⟨hne, -⟩
    · simp only [Write.wrote, Nat.le_zero, decide_eq_true_eq, List.length_eq_zero_iff] at hw
      simp only [s.disk.openTrunc_view, Function.update_self, Option.some.injEq] at hraw
      rw [← hraw, hw]
    · exact absurd rfl hne
  opened _ _ := rfl
  copies {u x src b pos} hu hst := by
    rcases set_cases ht hu with ⟨-, rfl⟩ | ⟨-, hold⟩
    · cases hst
    · exact (Disk.openTrunc_name_of_ne (tmpPath_ne_bakPath path).symm).trans (h.copies hold hst)

/-- A write puts its next bytes into the temporary file. -/
lemma inv_fill (h : Inv path disk g s) {t : ℕ} {w : Write} (ht : s.writes[t]? = some w)
    {handle pos : ℕ} (hst : w.stage = .writeAll handle pos) (hpos : pos < w.out.length) (n : ℕ) :
    Inv path disk g ⟨s.disk.writeAt 0 handle pos ((w.out.drop pos).take (n + 1)), s.writes.set t
      { w with stage := .writeAll handle (pos + ((w.out.drop pos).take (n + 1)).length) }⟩ := by
  obtain ⟨hg, hname, hdata⟩ := h.filling ht hst hpos
  have hnew : (s.disk.writeAt 0 handle pos ((w.out.drop pos).take (n + 1))).data handle
      = w.out.take (pos + ((w.out.drop pos).take (n + 1)).length) := by
    rw [Disk.writeAt_data, hdata, Disk.overwrite_piece 0 w.out (n + 1) hpos.le]
  have hvault : s.disk.name path ≠ some handle :=
    fun heq => ne_tmpPath path (s.disk.alone heq hname)
  refine ⟨whole_set h.whole ht rfl (Disk.writeAt_view_of_ne hvault), ?_, ?_, ?_, ?_⟩
  · intro u x handle' pos' hu hst' hpos'
    rcases set_cases ht hu with ⟨rfl, rfl⟩ | ⟨hne, hold⟩
    · cases hst'
      exact ⟨hg, hname, hnew⟩
    · obtain ⟨hg', -, -⟩ := h.filling hold hst' hpos'
      rw [hg] at hg'
      exact absurd (Option.some.inj hg').symm hne
  · intro u x raw hgu hu hw hraw
    rw [hg] at hgu
    cases hgu
    rcases set_cases ht hu with ⟨-, rfl⟩ | ⟨hne, -⟩
    · simp only [Write.wrote, decide_eq_true_eq] at hw
      rw [Disk.view_of_name (by exact hname), hnew, List.take_of_length_le hw] at hraw
      exact (Option.some.inj hraw).symm
    · exact absurd rfl hne
  · intro u x hu hx
    rw [hg]
    rfl
  · intro u x src b pos' hu hst'
    rcases set_cases ht hu with ⟨-, rfl⟩ | ⟨-, hold⟩
    · cases hst'
    · exact h.copies hold hst'

/-- A write renames the temporary file, which the write that opened it last has completed. -/
lemma inv_rename (h : Inv path disk g s) {t : ℕ} {w : Write} (ht : s.writes[t]? = some w)
    {kept : Bool} (hst : w.stage = .rename kept)
    (hlast : g.all (fun u => (s.writes[u]?).any Write.wrote) = true) {d' : VaultDisk}
    (hren : s.disk.rename (tmpPath path) path = some d') :
    Inv path disk g ⟨d', s.writes.set t { w with stage := .finished kept (.ok ()) }⟩ := by
  have hview := Disk.rename_view hren
  obtain ⟨i, hi, hdata, hname⟩ := Disk.rename_eq_some hren
  obtain ⟨u, hu⟩ := Option.isSome_iff_exists.mp (h.opened ht (by rw [hst]; rfl))
  have hwrote : ∃ v, s.writes[u]? = some v ∧ v.wrote = true := by
    rw [hu] at hlast
    simpa [Option.any_eq_true] using hlast
  obtain ⟨v, hv, hvw⟩ := hwrote
  -- The write that opened `.tmp` last is done with it, whichever write renames it.
  have hbusy : ∀ {u' : ℕ} {x : Write} {handle pos}, s.writes[u']? = some x →
      x.stage = .writeAll handle pos → ¬ pos < x.out.length := by
    intro u' x handle pos hx hxst hpos
    obtain ⟨hg, -, -⟩ := h.filling hx hxst hpos
    rw [hu] at hg
    cases hg
    rw [hv] at hx
    cases hx
    simp only [Write.wrote, hxst, decide_eq_true_eq] at hvw
    omega
  have hgone : d'.view (tmpPath path) = none := by
    rw [hview, Function.update_of_ne (ne_tmpPath path).symm, Function.update_self]
  refine ⟨?_, ?_, ?_, ?_, ?_⟩
  · intro raw hraw
    simp only [hview, Function.update_self] at hraw
    have hout : raw = v.out := h.filled hu hv hvw hraw
    refine .inr (mem_set_out ht ?_ ⟨v, List.mem_of_getElem? hv, hout.symm⟩)
    rfl
  · intro u' x handle pos hx hxst hpos
    rcases set_cases ht hx with ⟨-, rfl⟩ | ⟨-, hold⟩
    · cases hxst
    · exact absurd hpos (hbusy hold hxst)
  · intro u' x raw _ _ _ hraw
    simp only [hgone] at hraw
    cases hraw
  · intro u' x _ _
    rw [hu]
    rfl
  · intro u' x src b pos hx hxst
    rcases set_cases ht hx with ⟨-, rfl⟩ | ⟨-, hold⟩
    · cases hxst
    · simp only [hname, Function.update_of_ne (ne_bakPath path).symm,
        Function.update_of_ne (tmpPath_ne_bakPath path).symm]
      exact h.copies hold hxst

/-- A write begins. -/
lemma inv_begin (h : Inv path disk g s) (kind : Kind) (out : Bytes) :
    Inv path disk g { s with writes := s.writes ++ [⟨kind, out, .makeDir⟩] } := by
  have hnew : ∀ {u : ℕ} {x : Write}, (s.writes ++ [⟨kind, out, .makeDir⟩])[u]? = some x →
      s.writes[u]? = some x ∨ x = ⟨kind, out, .makeDir⟩ := by
    intro u x hx
    rcases Nat.lt_or_ge u s.writes.length with hlt | hge
    · rw [List.getElem?_append_left hlt] at hx
      exact .inl hx
    · rw [List.getElem?_append_right hge] at hx
      exact .inr (List.mem_singleton.mp (List.mem_of_getElem? hx))
  refine ⟨?_, ?_, ?_, ?_, ?_⟩
  · intro raw hraw
    rcases h.whole raw hraw with hold | ⟨w, hw, rfl⟩
    · exact .inl hold
    · exact .inr ⟨w, List.mem_append_left _ hw, rfl⟩
  · intro u x handle pos hx hst hpos
    rcases hnew hx with hold | rfl
    · exact h.filling hold hst hpos
    · cases hst
  · intro u x raw hg hx hw hraw
    rcases hnew hx with hold | rfl
    · exact h.filled hg hold hw hraw
    · cases hw
  · intro u x hx hp
    rcases hnew hx with hold | rfl
    · exact h.opened hold hp
    · cases hp
  · intro u x src b pos hx hst
    rcases hnew hx with hold | rfl
    · exact h.copies hold hst
    · cases hst

/-- What a system call does to the stage, when it is not one that opens, fills or renames the
temporary file. -/
structure Passes (path : String) (w : Write) (d : VaultDisk) (d' : VaultDisk) (st : Stage) :
    Prop where
  aside : Aside path d d'
  fills : ∀ h pos, st ≠ .writeAll h pos
  wrote : Write.wrote { w with stage := st } = true → w.wrote = true
  past : pastOpen st = true → pastOpen w.stage = true
  copies : ∀ {src b pos}, st = .copying src b pos → d'.name (bakPath path) = some b

/-- Neither about to fill the temporary file nor to copy. -/
def apart : Stage → Bool
  | .writeAll _ _ | .copying _ _ _ => false
  | _ => true

lemma Passes.stay {w : Write} {d : VaultDisk} {st : Stage} (hapart : apart st = true)
    (hwrote : Write.wrote { w with stage := st } = true → w.wrote = true)
    (hpast : pastOpen st = true → pastOpen w.stage = true) : Passes path w d d st := by
  refine ⟨.refl d, ?_, hwrote, hpast, ?_⟩
  · rintro h pos rfl
    cases hapart
  · rintro src b pos rfl
    cases hapart

/-- The system calls of a write: most are aside, three touch the temporary file. -/
lemma step_cases (path : String) {w : Write} {d : VaultDisk} (io : Io)
    (hcopy : ∀ {src b pos}, w.stage = .copying src b pos → d.name (bakPath path) = some b) :
    Passes path w d (w.stage.step path w.out io d).1 (w.stage.step path w.out io d).2 ∨
    (w.stage = .openTemp ∧ (∃ n, io = .pass n) ∧
      w.stage.step path w.out io d = ((d.openTrunc (tmpPath path)).1,
        .writeAll (d.openTrunc (tmpPath path)).2 0)) ∨
    (∃ handle pos n, w.stage = .writeAll handle pos ∧ pos < w.out.length ∧
      w.stage.step path w.out io d = (d.writeAt 0 handle pos ((w.out.drop pos).take (n + 1)),
        .writeAll handle (pos + ((w.out.drop pos).take (n + 1)).length))) ∨
    (∃ kept n d', w.stage = .rename kept ∧ io = .pass n ∧ d.rename (tmpPath path) path = some d' ∧
      w.stage.step path w.out io d = (d', .finished kept (.ok ()))) := by
  obtain ⟨kind, out, st⟩ := w
  cases st with
  | makeDir =>
    -- Only the opening, the filling and the renaming of `.tmp` are not aside.
    left
    simp only [Stage.step]
    split
    · exact .stay rfl (fun h => by cases h) (fun h => by cases h)
    · exact .stay rfl (fun h => by cases h) (fun h => by cases h)
  | openTemp =>
    cases io with
    | fail e => exact .inl (.stay rfl (fun h => by cases h) (fun h => by cases h))
    | pass n => exact .inr (.inl ⟨rfl, ⟨n, rfl⟩, rfl⟩)
  | writeAll handle pos =>
    by_cases hdone : out.length ≤ pos
    · left
      simp only [Stage.step, if_pos hdone]
      exact .stay rfl (fun _ => by simpa [Write.wrote] using hdone) fun _ => rfl
    · cases io with
      | fail e =>
        left
        simp only [Stage.step, if_neg hdone]
        exact .stay rfl (fun h => by cases h) (fun h => by cases h)
      | pass n =>
        right; right; left
        refine ⟨handle, pos, n, rfl, by simpa using hdone, ?_⟩
        simp only [Stage.step, if_neg hdone]
  | syncAll =>
    left
    cases io with
    | fail e => exact .stay rfl (fun _ => rfl) (fun h => by cases h)
    | pass n => exact .stay rfl (fun _ => rfl) fun _ => rfl
  | checkFile =>
    left
    simp only [Stage.step]
    split
    · exact .stay rfl (fun _ => rfl) fun _ => rfl
    · exact .stay rfl (fun _ => rfl) fun _ => rfl
  | openSource =>
    left
    simp only [Stage.step]
    split
    · exact .stay rfl (fun _ => rfl) fun _ => rfl
    · exact .stay rfl (fun _ => rfl) fun _ => rfl
  | openBackup source =>
    left
    cases io with
    | fail e => exact .stay rfl (fun _ => rfl) fun _ => rfl
    | pass n =>
      -- A backup is opened under its own name, so `.tmp` is another file.
      refine ⟨aside_openTrunc d, fun _ _ heq => ?_, fun _ => rfl, fun _ => rfl, fun heq => ?_⟩
      · cases heq
      cases heq
      exact d.openTrunc_name _
  | copying source backup pos =>
    left
    have hback : d.name (bakPath path) = some backup := hcopy rfl
    cases io with
    | fail e => exact .stay rfl (fun _ => rfl) fun _ => rfl
    | pass n =>
      simp only [Stage.step]
      split
      · exact .stay rfl (fun _ => rfl) fun _ => rfl
      · refine ⟨aside_writeAt hback _ _, fun _ _ heq => ?_, fun _ => rfl, fun _ => rfl,
          fun heq => ?_⟩
        · cases heq
        cases heq
        exact hback
  | rename kept =>
    cases io with
    | fail e => exact .inl (.stay rfl (fun _ => rfl) (fun h => by cases h))
    | pass n =>
      cases hren : d.rename (tmpPath path) path with
      -- Somebody else has renamed the file already: the error is returned, and nothing has changed.
      | none =>
        left
        simp only [Stage.step, hren]
        exact .stay rfl (fun _ => rfl) (fun h => by cases h)
      | some d' =>
        right; right; right
        refine ⟨kept, n, d', rfl, rfl, rfl, ?_⟩
        simp only [Stage.step, hren]
  | finished kept r =>
    exact .inl (.stay rfl id (fun h => by cases h))

lemma opener_eq {t : ℕ} {io : Io} {w : Write} (ht : s.writes[t]? = some w)
    (h : ∀ n, io = .pass n → w.stage ≠ .openTemp) (s' : State) :
    opener g s (.call t io : Action Key) s' = g := by
  cases io with
  | fail e => rfl
  | pass n =>
    simp only [opener, ht, Option.map_some]
    split
    · rename_i heq
      exact absurd (Option.some.inj heq) (h n rfl)
    · rfl

lemma inv_call (h : Inv path disk g s) {t : ℕ} {io : Io} {w : Write} (ht : s.writes[t]? = some w)
    (hord : orderly (g, s) (.call t io : Action Key) = true) (s' : State) :
    Inv path disk (opener g s (.call t io : Action Key) s')
      ⟨(w.stage.step path w.out io s.disk).1,
        s.writes.set t { w with stage := (w.stage.step path w.out io s.disk).2 }⟩ := by
  by_cases hopen : w.stage = .openTemp ∧ ∃ n, io = .pass n
  · obtain ⟨hst, n, rfl⟩ := hopen
    have hfree : s.writes.all (fun w => !w.writing) = true := by
      simpa only [orderly, ht, Option.map_some, hst] using hord
    have hg : opener g s (.call t (.pass n) : Action Key) s' = some t := by
      simp only [opener, ht, Option.map_some, hst]
    rw [hg, hst]
    exact inv_openTemp h ht hfree
  · have hg : opener g s (.call t io : Action Key) s' = g :=
      opener_eq ht (fun n hio hst => hopen ⟨hst, n, hio⟩) s'
    rw [hg]
    rcases step_cases path io (h.copies ht) with
      hp | ⟨hst, hio, -⟩ | ⟨handle, pos, n, hst, hpos, heq⟩ | ⟨kept, n, d', hst, rfl, hren, heq⟩
    · exact inv_aside h ht hp.aside hp.fills hp.wrote hp.past hp.copies
    · exact absurd ⟨hst, hio⟩ hopen
    · rw [heq]
      exact inv_fill h ht hst hpos n
    · have hlast : g.all (fun u => (s.writes[u]?).any Write.wrote) = true := by
        simpa only [orderly, ht, Option.map_some, hst] using hord
      rw [heq]
      exact inv_rename h ht hst hlast hren

theorem inv_step {a : Action Key} {s' : State} (h : Inv path disk g s)
    (hord : orderly (g, s) a = true) (hstep : step L path s a = some s') :
    Inv path disk (opener g s a s') s' := by
  cases a with
  | begin kind session nonce =>
    simp only [step] at hstep
    split at hstep
    · cases hstep
    · cases hr : render L session nonce with
      | error e =>
        rw [hr] at hstep
        cases hstep
      | ok out =>
        rw [hr] at hstep
        cases hstep
        exact inv_begin h kind out
  | call t io =>
    simp only [step] at hstep
    cases ht : s.writes[t]? with
    | none =>
      rw [ht] at hstep
      cases hstep
    | some w =>
      rw [ht] at hstep
      cases hstep
      exact inv_call h ht hord _

/-- In an orderly run of any writes the vault file is whole at every moment. -/
theorem whole_of_orderly {as : List (Action Key)} {s' : State}
    (hrun : run (step L path) (start disk) as = some s')
    (hord : Along (track (step L path) opener) (fun x a => orderly x a = true) (none, start disk)
      as) : Whole path disk s' := by
  have hstart : Inv path disk none (start disk) := by
    refine ⟨fun raw hraw => .inl hraw, ?_, ?_, ?_, ?_⟩ <;> intros <;> simp_all [start]
  have hstep : ∀ g s (a : Action Key) s', Inv path disk g s → orderly (g, s) a = true →
      step L path s a = some s' → Inv path disk (opener g s a s') s' :=
    fun g s a s' h hG hs => inv_step L h hG hs
  have hend : Inv path disk (history (step L path) opener none (start disk) as) s' :=
    run_track_inv hstep hstart hord hrun
  exact hend.whole

/-! ### A save and a rotation at the same time -/

section Sample

open Sample

/-- The disk of the vault just created. -/
def createdDisk : VaultDisk :=
  Disk.empty.put config.vaultPath ((created.fs config.vaultPath).getD [])

lemma createdDisk_sealed : Sealed library config.vaultPath createdDisk := by
  have hfile : createdDisk.view config.vaultPath
      = some ((created.fs config.vaultPath).getD []) := by
    decide +kernel
  have hrender : render library session env.nonce
      = .ok ((created.fs config.vaultPath).getD []) := by
    decide +kernel
  intro raw hraw
  rw [hfile] at hraw
  cases hraw
  exact ⟨session, env.nonce, hrender⟩

/-- The session a rotation to another password writes. -/
def rotated : Session Sample.Key :=
  { session with key := asBytes "another key" }

/-- So many system calls of a write. -/
def calls (t n : ℕ) : List (Action Sample.Key) := List.replicate n (.call t (.pass 1000))

/-- A rotation has made its copy and is about to rename when a save opens the temporary file;
the rotation renames it before the save has put a byte there. -/
def emptied : List (Action Sample.Key) :=
  [.begin .rotate rotated env.nonce, .begin .save session env.nonce] ++ calls 0 10 ++ calls 1 2 ++
    calls 0 1

theorem not_alwaysWhole : ¬ AlwaysWhole library config.vaultPath := by
  have hruns : (run (step library config.vaultPath) (start createdDisk) emptied).isSome := by
    decide +kernel
  obtain ⟨s, hs⟩ := Option.isSome_iff_exists.mp hruns
  have hempty : ((run (step library config.vaultPath) (start createdDisk) emptied).map fun s =>
      (s.disk.view config.vaultPath, s.writes.map fun w => w.out.isEmpty))
        = some (some [], [false, false]) := by
    decide +kernel
  have hold : createdDisk.view config.vaultPath ≠ some [] := by decide +kernel
  rw [hs] at hempty
  simp only [Option.map_some, Option.some.injEq, Prod.mk.injEq] at hempty
  intro h
  rcases h createdDisk emptied s createdDisk_sealed hs [] hempty.1 with hsame | ⟨w, hw, hout⟩
  · exact hold hsame
  · have hmem := List.mem_map_of_mem (f := fun w : Write => w.out.isEmpty) hw
    rw [hempty.2, hout] at hmem
    simp at hmem

/-- The save fills the temporary file between the rotation's copy and its renaming: the
rotation then puts the save's file in place, whole. -/
def overtaken : List (Action Sample.Key) :=
  [.begin .rotate rotated env.nonce, .begin .save session env.nonce] ++ calls 0 10 ++ calls 1 4 ++
    calls 0 1

theorem whole_of_orderly_overtaken : ∃ s,
    run (step library config.vaultPath) (start createdDisk) overtaken = some s ∧
      Whole config.vaultPath createdDisk s := by
  have hruns : (run (step library config.vaultPath) (start createdDisk) overtaken).isSome := by
    decide +kernel
  obtain ⟨s, hs⟩ := Option.isSome_iff_exists.mp hruns
  exact ⟨s, hs, whole_of_orderly library hs (by decide +kernel)⟩

end Sample

end LvimKeyring.WriteRaces
