import LvimKeyring.Lib.Disk
import LvimKeyring.Sealing

/-!
`vault::write` as the system calls it makes.

The temporary file and the backup are opened and then written through their handles, in pieces
of any length. Every call may fail, and a process that dies makes no further call. A writer
that has the disk to itself does to it what `store` says.
-/

namespace LvimKeyring.Writing

open Vault

/-- The disk the vault is on. -/
abbrev VaultDisk := Disk String UInt8

/-- What becomes of a system call: it fails, or it passes, and then one that moves bytes moves
`n + 1` of them if there are so many. -/
inductive Io
  | fail (e : String)
  | pass (n : ℕ)

/-- Where a write is: the system call it makes next. -/
inductive Stage
  | makeDir
  | openTemp
  /-- `write_all` through the handle of the temporary file, so many bytes being done. -/
  | writeAll (handle pos : ℕ)
  | syncAll
  /-- `path.is_file()`. -/
  | checkFile
  /-- `fs::copy`: the vault is opened, then the backup, then the bytes are copied. -/
  | openSource
  | openBackup (source : ℕ)
  | copying (source backup pos : ℕ)
  /-- About to rename; whether a copy has been made. -/
  | rename (kept : Bool)
  | finished (kept : Bool) (r : Except Err Unit)

/-- One system call of the write of `out` to `path`. -/
def Stage.step (path : String) (out : Bytes) (io : Io) (d : VaultDisk) :
    Stage → VaultDisk × Stage
  | .makeDir =>
    match hasParent path, io with
    | true, .fail e => (d, .finished false (.error (.createDir e)))
    | _, _ => (d, .openTemp)
  | .openTemp =>
    match io with
    | .fail e => (d, .finished false (.error (.openTemp e)))
    | .pass _ =>
      let (d, handle) := d.openTrunc (tmpPath path)
      (d, .writeAll handle 0)
  | .writeAll handle pos =>
    if out.length ≤ pos then (d, .syncAll)
    else
      match io with
      | .fail e => (d, .finished false (.error (.writeTemp e)))
      | .pass n =>
        let piece := (out.drop pos).take (n + 1)
        (d.writeAt 0 handle pos piece, .writeAll handle (pos + piece.length))
  | .syncAll =>
    match io with
    | .fail e => (d, .finished false (.error (.fsyncTemp e)))
    | .pass _ => (d, .checkFile)
  | .checkFile => (d, if (d.name path).isSome then .openSource else .rename false)
  | .openSource =>
    match io, d.name path with
    | .pass _, some source => (d, .openBackup source)
    | _, _ => (d, .rename false)
  | .openBackup source =>
    match io with
    | .fail _ => (d, .rename false)
    | .pass _ =>
      let (d, backup) := d.openTrunc (bakPath path)
      (d, .copying source backup 0)
  | .copying source backup pos =>
    match io with
    | .fail _ => (d, .rename false)
    | .pass n =>
      let piece := ((d.data source).drop pos).take (n + 1)
      if piece = [] then (d, .rename true)
      else (d.writeAt 0 backup pos piece, .copying source backup (pos + piece.length))
  | .rename kept =>
    match io with
    | .fail e => (d, .finished kept (.error (.replace e)))
    | .pass _ =>
      match d.rename (tmpPath path) path with
      | none => (d, .finished kept (.error (.replace noSuchFile)))
      | some d => (d, .finished kept (.ok ()))
  | .finished kept r => (d, .finished kept r)

attribute [local simp] Stage.step

/-- A write that has the disk to itself, as far as its system calls are given. -/
def solo (path : String) (out : Bytes) (d : VaultDisk) (ios : List Io) : VaultDisk × Stage :=
  ios.foldl (fun ds io => ds.2.step path out io ds.1) (d, .makeDir)

/-! ### What a write alone has done so far -/

/-- One call fails. -/
def failing (c : FsCall) (e : String) (torn : Option ℕ) : Faults :=
  ⟨fun c' => if c' = c then some e else none, torn⟩

/-- Only the copy and the renaming may fail. -/
def late (copy rename : Option String) (torn : Option ℕ) : Faults where
  fails
    | .copy => copy
    | .rename => rename
    | _ => none
  torn

/-- The files after the copy of a write. -/
def afterCopy (fs : FileSystem) (path : String) (out : Bytes) (copy : Option String)
    (torn : Option ℕ) : FileSystem :=
  match fs path, copy, torn with
  | none, _, _ => Function.update fs (tmpPath path) (some out)
  | some old, none, _ =>
    Function.update (Function.update fs (tmpPath path) (some out)) (bakPath path) (some old)
  | some old, some _, some n =>
    Function.update (Function.update fs (tmpPath path) (some out)) (bakPath path)
      (some (old.take n))
  | some _, some _, none => Function.update fs (tmpPath path) (some out)

/-- The backup is what the vault file was. -/
def BacksUp (fs fs' : FileSystem) (path : String) : Prop :=
  ∀ old, fs path = some old → fs' (bakPath path) = some old

/-- What the disk shows of the files `fs` at a stage of a write that has it to itself. -/
def Tracks (fs : FileSystem) (path : String) (out : Bytes) (d : VaultDisk) : Stage → Prop
  | .makeDir | .openTemp => d.view = fs
  | .writeAll handle pos =>
    d.name (tmpPath path) = some handle ∧ pos ≤ out.length ∧
      d.view = Function.update fs (tmpPath path) (some (out.take pos))
  | .syncAll | .checkFile => d.view = Function.update fs (tmpPath path) (some out)
  | .openSource =>
    d.view = Function.update fs (tmpPath path) (some out) ∧ (fs path).isSome
  | .openBackup source =>
    d.view = Function.update fs (tmpPath path) (some out) ∧ d.name path = some source
  | .copying source backup pos =>
    ∃ old, fs path = some old ∧ d.name path = some source ∧
      d.name (bakPath path) = some backup ∧ pos ≤ old.length ∧
      d.view = Function.update (Function.update fs (tmpPath path) (some out)) (bakPath path)
        (some (old.take pos))
  | .rename kept =>
    (∃ copy torn, d.view = afterCopy fs path out copy torn) ∧
      (kept = true → BacksUp fs d.view path)
  | .finished kept r =>
    (∃ io, store io fs path out = (d.view, r)) ∧ (kept = true → BacksUp fs d.view path)

lemma tmpPath_ne_bakPath (path : String) : tmpPath path ≠ bakPath path := by
  intro h
  have hl := congrArg String.toList h
  simp [tmpPath, bakPath] at hl

variable {fs : FileSystem} {path : String} {out : Bytes} {d : VaultDisk}

lemma store_late_error (fs : FileSystem) (path : String) (out : Bytes) (copy : Option String)
    (torn : Option ℕ) (e : String) : store (late copy (some e) torn) fs path out
      = (afterCopy fs path out copy torn, .error (.replace e)) := by
  have hpath : Function.update fs (tmpPath path) (some out) path = fs path :=
    Function.update_of_ne (ne_tmpPath path) _ _
  unfold store afterCopy
  cases hfs : fs path <;> cases copy <;> cases torn <;> simp [late, hpath, hfs]

lemma store_late_ok (fs : FileSystem) (path : String) (out : Bytes) (copy : Option String)
    (torn : Option ℕ) : store (late copy none torn) fs path out
      = (Function.update (Function.update (afterCopy fs path out copy torn) path (some out))
          (tmpPath path) none, .ok ()) := by
  have hpath : Function.update fs (tmpPath path) (some out) path = fs path :=
    Function.update_of_ne (ne_tmpPath path) _ _
  unfold store afterCopy
  cases hfs : fs path <;> cases copy <;> cases torn <;> simp [late, hpath, hfs]

lemma afterCopy_tmp (fs : FileSystem) (path : String) (out : Bytes) (copy : Option String)
    (torn : Option ℕ) : afterCopy fs path out copy torn (tmpPath path) = some out := by
  have hne := tmpPath_ne_bakPath path
  unfold afterCopy
  cases fs path <;> cases copy <;> cases torn <;> simp [hne]

lemma afterCopy_path (fs : FileSystem) (path : String) (out : Bytes) (copy : Option String)
    (torn : Option ℕ) : afterCopy fs path out copy torn path = fs path := by
  have htmp := ne_tmpPath path
  have hbak := ne_bakPath path
  unfold afterCopy
  cases h : fs path <;> cases copy <;> cases torn <;> simp [htmp, hbak, h]

lemma afterCopy_none (fs : FileSystem) (path : String) (out : Bytes) (e : String) :
    afterCopy fs path out (some e) none = Function.update fs (tmpPath path) (some out) := by
  unfold afterCopy
  cases fs path <;> rfl

lemma tracks_makeDir (io : Io) (h : Tracks fs path out d .makeDir) :
    Tracks fs path out (Stage.makeDir.step path out io d).1
      (Stage.makeDir.step path out io d).2 := by
  have hview : d.view = fs := h
  simp only [Stage.step]
  split
  · rename_i e hparent
    refine ⟨⟨failing .createDirAll e none, ?_⟩, fun hkept => by cases hkept⟩
    simp [store, failing, hparent, hview]
  · exact hview

lemma tracks_openTemp (io : Io) (h : Tracks fs path out d .openTemp) :
    Tracks fs path out (Stage.openTemp.step path out io d).1
      (Stage.openTemp.step path out io d).2 := by
  have hview : d.view = fs := h
  cases io with
  | fail e =>
    refine ⟨⟨failing .openTemp e none, ?_⟩, fun hkept => by cases hkept⟩
    simp [store, failing, hview, Stage.step]
  | pass n =>
    simp only [Stage.step]
    refine ⟨d.openTrunc_name (tmpPath path), Nat.zero_le _, ?_⟩
    rw [d.openTrunc_view (tmpPath path), hview, List.take_zero]

lemma tracks_writeAll (io : Io) {handle pos : ℕ}
    (h : Tracks fs path out d (.writeAll handle pos)) :
    Tracks fs path out ((Stage.writeAll handle pos).step path out io d).1
      ((Stage.writeAll handle pos).step path out io d).2 := by
  obtain ⟨hname, hpos, hview⟩ := h
  simp only [Stage.step]
  split
  · rename_i hdone
    have hview' : d.view = Function.update fs (tmpPath path) (some out) := by
      rw [hview, List.take_of_length_le hdone]
    exact hview'
  · cases io with
    | fail e =>
      refine ⟨⟨failing .writeAll e (some pos), ?_⟩, fun hkept => by cases hkept⟩
      simp [store, failing, hview]
    | pass n =>
      have hdata : d.data handle = out.take pos := by
        have hv := Disk.view_of_name hname
        rw [hview, Function.update_self] at hv
        exact (Option.some.inj hv).symm
      have hlen : pos + ((out.drop pos).take (n + 1)).length ≤ out.length := by
        rw [List.length_take, List.length_drop]
        omega
      refine ⟨hname, hlen, ?_⟩
      rw [Disk.writeAt_view hname, hview, hdata, Disk.overwrite_piece 0 out (n + 1) hpos,
        Function.update_idem]

lemma tracks_syncAll (io : Io) (h : Tracks fs path out d .syncAll) :
    Tracks fs path out (Stage.syncAll.step path out io d).1
      (Stage.syncAll.step path out io d).2 := by
  have hview : d.view = Function.update fs (tmpPath path) (some out) := h
  cases io with
  | fail e =>
    refine ⟨⟨failing .syncAll e none, ?_⟩, fun hkept => by cases hkept⟩
    simp [store, failing, hview, Stage.step]
  | pass n => exact hview

lemma view_path (hview : d.view = Function.update fs (tmpPath path) (some out)) :
    d.view path = fs path := by
  rw [hview, Function.update_of_ne (ne_tmpPath path)]

lemma tracks_checkFile (io : Io) (h : Tracks fs path out d .checkFile) :
    Tracks fs path out (Stage.checkFile.step path out io d).1
      (Stage.checkFile.step path out io d).2 := by
  have hview : d.view = Function.update fs (tmpPath path) (some out) := h
  simp only [Stage.step]
  split
  · rename_i hsome
    obtain ⟨i, hi⟩ := Option.isSome_iff_exists.mp hsome
    refine ⟨hview, ?_⟩
    rw [← view_path hview, Disk.view_of_name hi]
    rfl
  · rename_i hnone
    have hfs : fs path = none := by
      rw [← view_path hview, ← Disk.name_eq_none_iff]
      simpa using hnone
    refine ⟨⟨none, none, ?_⟩, fun hkept => by cases hkept⟩
    simp only [hview, afterCopy, hfs]

lemma tracks_openSource (io : Io) (h : Tracks fs path out d .openSource) :
    Tracks fs path out (Stage.openSource.step path out io d).1
      (Stage.openSource.step path out io d).2 := by
  obtain ⟨hview, -⟩ := h
  simp only [Stage.step]
  split
  · rename_i source hsource
    exact ⟨hview, hsource⟩
  · refine ⟨⟨some "", none, ?_⟩, fun hkept => by cases hkept⟩
    rw [hview, afterCopy_none]

lemma tracks_openBackup (io : Io) {source : ℕ} (h : Tracks fs path out d (.openBackup source)) :
    Tracks fs path out ((Stage.openBackup source).step path out io d).1
      ((Stage.openBackup source).step path out io d).2 := by
  obtain ⟨hview, hsource⟩ := h
  cases io with
  | fail e =>
    refine ⟨⟨some "", none, ?_⟩, fun hkept => by cases hkept⟩
    rw [afterCopy_none]
    exact hview
  | pass n =>
    have hold : fs path = some (d.data source) := by
      rw [← view_path hview, Disk.view_of_name hsource]
    simp only [Stage.step]
    refine ⟨d.data source, hold, ?_, d.openTrunc_name (bakPath path), Nat.zero_le _, ?_⟩
    · exact (Disk.openTrunc_name_of_ne (ne_bakPath path)).trans hsource
    · rw [d.openTrunc_view (bakPath path), hview, List.take_zero]

lemma tracks_copying (io : Io) {source backup pos : ℕ}
    (h : Tracks fs path out d (.copying source backup pos)) :
    Tracks fs path out ((Stage.copying source backup pos).step path out io d).1
      ((Stage.copying source backup pos).step path out io d).2 := by
  obtain ⟨old, hold, hsource, hbackup, hpos, hview⟩ := h
  have hpath : d.view path = some old := by
    rw [hview, Function.update_of_ne (ne_bakPath path), Function.update_of_ne (ne_tmpPath path),
      hold]
  have hdata : d.data source = old := by
    rw [Disk.view_of_name hsource] at hpath
    exact Option.some.inj hpath
  cases io with
  | fail e =>
    refine ⟨⟨some e, some pos, ?_⟩, fun hkept => by cases hkept⟩
    simp only [Stage.step, afterCopy, hold, hview]
  | pass n =>
    simp only [Stage.step, hdata]
    split
    · rename_i hempty
      have hend : old.length ≤ pos := by
        have hlen := congrArg List.length hempty
        simp only [List.length_take, List.length_drop, List.length_nil] at hlen
        omega
      have hview' : d.view = afterCopy fs path out none none := by
        rw [hview, List.take_of_length_le hend]
        simp only [afterCopy, hold]
      refine ⟨⟨none, none, hview'⟩, fun _ old' hold' => ?_⟩
      rw [hview, List.take_of_length_le hend, Function.update_self, ← hold, hold']
    · have hback : d.data backup = old.take pos := by
        have hv := Disk.view_of_name hbackup
        rw [hview, Function.update_self] at hv
        exact (Option.some.inj hv).symm
      have hlen : pos + ((old.drop pos).take (n + 1)).length ≤ old.length := by
        rw [List.length_take, List.length_drop]
        omega
      refine ⟨old, hold, hsource, hbackup, hlen, ?_⟩
      rw [Disk.writeAt_view hbackup, hview, hback, Disk.overwrite_piece 0 old (n + 1) hpos,
        Function.update_idem]

lemma tracks_rename (io : Io) {kept : Bool} (h : Tracks fs path out d (.rename kept)) :
    Tracks fs path out ((Stage.rename kept).step path out io d).1
      ((Stage.rename kept).step path out io d).2 := by
  obtain ⟨⟨copy, torn, hview⟩, hkept⟩ := h
  cases io with
  | fail e =>
    refine ⟨⟨late copy (some e) torn, ?_⟩, hkept⟩
    simp only [Stage.step, store_late_error, hview]
  | pass n =>
    have htmp : d.view (tmpPath path) = some out := by rw [hview, afterCopy_tmp]
    simp only [Stage.step]
    cases hren : d.rename (tmpPath path) path with
    | none =>
      rw [Disk.rename_eq_none_iff, Disk.name_eq_none_iff, htmp] at hren
      cases hren
    | some d' =>
      have hview' := Disk.rename_view hren
      have hne := ne_tmpPath path
      refine ⟨⟨late copy none torn, ?_⟩, fun hk old hold => ?_⟩
      · rw [store_late_ok, hview', htmp, hview, Function.update_comm hne]
      · rw [hview', Function.update_of_ne (ne_bakPath path).symm,
          Function.update_of_ne (tmpPath_ne_bakPath path).symm]
        exact hkept hk old hold

/-- Every system call of a write alone leaves the disk as its next stage says. -/
theorem tracks_step {st : Stage} (io : Io) (h : Tracks fs path out d st) :
    Tracks fs path out (st.step path out io d).1 (st.step path out io d).2 := by
  cases st with
  | makeDir => exact tracks_makeDir io h
  | openTemp => exact tracks_openTemp io h
  | writeAll handle pos => exact tracks_writeAll io h
  | syncAll => exact tracks_syncAll io h
  | checkFile => exact tracks_checkFile io h
  | openSource => exact tracks_openSource io h
  | openBackup source => exact tracks_openBackup io h
  | copying source backup pos => exact tracks_copying io h
  | rename kept => exact tracks_rename io h
  | finished kept r => exact h

theorem tracks_solo (path : String) (out : Bytes) (d : VaultDisk) (ios : List Io) :
    Tracks d.view path out (solo path out d ios).1 (solo path out d ios).2 := by
  have hrun : ∀ (ds : VaultDisk × Stage), Tracks d.view path out ds.1 ds.2 →
      Tracks d.view path out
        (ios.foldl (fun ds io => ds.2.step path out io ds.1) ds).1
        (ios.foldl (fun ds io => ds.2.step path out io ds.1) ds).2 := by
    induction ios with
    | nil => exact fun ds h => h
    | cons io ios ih => exact fun ds h => ih _ (tracks_step io h)
  exact hrun (d, .makeDir) rfl

/-- A write that returns has done to the disk what `store` does, for some faults. -/
theorem solo_refines_store {path : String} {out : Bytes} {d d' : VaultDisk} {ios : List Io}
    {kept : Bool} {r : Except Err Unit} (h : solo path out d ios = (d', .finished kept r)) :
    ∃ io, store io d.view path out = (d'.view, r) := by
  have htracks := tracks_solo path out d ios
  rw [h] at htracks
  exact htracks.1

end LvimKeyring.Writing
