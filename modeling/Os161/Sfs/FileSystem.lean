import Os161.Sfs.Image
import Os161.Sfs.Opened
import Os161.Sfs.Regrow

set_option autoImplicit false

/-!
# File systems

The purpose of SFS: a finite map of names, and a sparse array of bytes for each file that is in use. A
file is in use as long as it has a name or is open.

* `FileSystem`: a file system; `FileSystem.turn`, `FileSystem.put`: its names and open files change, or
  the bytes of a file.
* `FileSystem.Step`, `FileSystem.Act`, `FileSystem.Run`: how it answers calls, and what a remount does.
* `Vol.fileSystem`: the file system that a volume holds; **`step_op`**: one call.
* **`run_refines`**: in all runs in which no position is beyond those that 32 bits can hold, the calls
  are answered as by the file system, and a remount finds it again.
* **`read_after_write`**: what was written to a file is read from it.
-/

namespace Os161

open Buffer SfsFs Vol Transition

/-- The blocks of a file that `sfs_itrunc` frees: the direct ones from the end on; of the others those
after the one at the end, unless that is the last one or none. -/
def CutsOff (len : ℤ) (fb : ℕ) : Prop :=
  fb < sfsNdirect ∧ truncBlocklen len ≤ fb ∨ ¬ fb < sfsNdirect ∧
    truncBlocklen len < sfsNdirect + sfsDbperidb - 1 ∧ truncBlocklen len < fb

instance (len : ℤ) (fb : ℕ) : Decidable (CutsOff len fb) := inferInstanceAs (Decidable (_ ∨ _))

/-- A truncation, as `sfs_itrunc` does it. -/
def SparseFile.truncate (f : SparseFile) (len : ℤ) : SparseFile where
  byte x := if CutsOff len (x / sfsBlocksize) then 0 else f.byte x
  size := (len % wordSize).toNat

/-- **What is in use**: the root directory, the inodes that are open, and those that have a name. -/
def InUse (names : List UInt8 → Option ℕ) (refs : ℕ → ℕ) (j : ℕ) : Prop :=
  j = sfsRootdirIno ∨ 0 < refs j ∨ ∃ name, names name = some j

/-- **A file system**: the names, the references to the open files, and the files. -/
@[ext]
structure FileSystem where
  names : List UInt8 → Option ℕ
  refs : ℕ → ℕ
  file : ℕ → SparseFile
  root : file sfsRootdirIno = .empty
  unused : ∀ j, ¬ InUse names refs j → file j = .empty

/-- What happens to a volume: a call, or `vfs_unmount` and a mount, for which the kernel has the memory
`m`. -/
inductive SfsAction
  | call (op : SfsOp)
  | remount (m : SfsFs)

namespace FileSystem

/-- A file is in use. -/
def Used (A : FileSystem) : ℕ → Prop := InUse A.names A.refs

open Classical in
/-- **The names and the references change**: what is not in use any more is lost. -/
noncomputable def turn (A : FileSystem) (names : List UInt8 → Option ℕ) (refs : ℕ → ℕ) : FileSystem where
  names := names
  refs := refs
  file j := if InUse names refs j then A.file j else .empty
  root := (if_pos (.inl rfl)).trans A.root
  unused _ hj := if_neg hj

open Classical in
/-- **A file that is in use changes.** -/
noncomputable def put (A : FileSystem) (ino : ℕ) (f : SparseFile) : FileSystem where
  names := A.names
  refs := A.refs
  file j := if j = ino ∧ j ≠ sfsRootdirIno ∧ A.Used j then f else A.file j
  root := (if_neg fun h => h.2.1 rfl).trans A.root
  unused j hj := (if_neg fun h => hj h.2.2).trans (A.unused j hj)

/-- What a call can run short of: memory, blocks, or room in the directory. -/
def Shortage (e : FsErr) : Prop := e = .enomem ∨ e = .enospc ∨ e = .efbig

/-- **An operation on names** is the operation on the finite map, or runs short of something. A new file
was not in use. -/
def NameStep (A : FileSystem) (op : NameOp) (r : Except FsErr Reply) (A' : FileSystem) : Prop :=
  (∃ fresh names, ¬ A.Used fresh ∧ nameStep A.names fresh op = (r, names) ∧
    A' = A.turn names (refsAfter A.refs r)) ∨
  ∃ e, r = .error e ∧ Shortage e ∧ A' = A

/-- **A request on a file.** -/
def Transferred (A : FileSystem) (ino : ℕ) (u : Uio) (r : Option FsErr × Uio) (A' : FileSystem) : Prop :=
  if ino = sfsRootdirIno then r = (some .eisdir, u) ∧ A' = A
  else ∃ f, (A.file ino).Answers u r f ∧ A' = A.put ino f

/-- The number of references to an open file changes. -/
noncomputable def reopen (A : FileSystem) (ino n : ℕ) : FileSystem :=
  A.turn A.names (Function.update A.refs ino n)

/-- **How a file system answers a call.** -/
def Step (A : FileSystem) : SfsOp → Except FsErr Reply → FileSystem → Prop
  | .names dir op, r, A' =>
    if dir = sfsRootdirIno then A.NameStep op r A' else r = .error .enotdir ∧ A' = A
  | .getroot, r, A' =>
    r = .ok (.inode sfsRootdirIno) ∧ A' = A.reopen sfsRootdirIno (A.refs sfsRootdirIno + 1) ∨
      r = .error .enomem ∧ A' = A
  | .read ino u, r, A' => ∃ e u', r = .ok (.io e u') ∧ A.Transferred ino u (e, u') A' ∧ A' = A
  | .write ino u, r, A' => ∃ e u', r = .ok (.io e u') ∧ A.Transferred ino u (e, u') A'
  | .truncate ino len, r, A' =>
    if ino = sfsRootdirIno then r = .error .eisdir ∧ A' = A
    else r = .ok .done ∧ A' = A.put ino ((A.file ino).truncate len)
  | .incref ino, r, A' => r = .ok .done ∧ A' = A.reopen ino (A.refs ino + 1)
  | .decref ino, r, A' => r = .ok .done ∧ A' = A.reopen ino (A.refs ino - 1)
  | .fsync _, r, A' => r = .ok .done ∧ A' = A
  | .sync, r, A' => r = .ok .done ∧ A' = A

/-- **Calls and remounts**: a remount finds the same file system, and fails as long as a file is open. -/
def Act (A : FileSystem) : SfsAction → Except FsErr Reply → FileSystem → Prop
  | .call op, r, A' => A.Step op r A'
  | .remount _, r, A' => A' = A ∧
    (r = .ok .done ∧ (∀ j, A.refs j = 0) ∨ r = .error .ebusy ∧ ∃ j, 0 < A.refs j)

/-- The answers to a sequence of actions. -/
inductive Run : FileSystem → List SfsAction → List (Except FsErr Reply) → FileSystem → Prop
  | nil (A : FileSystem) : Run A [] [] A
  | cons {A A' A'' : FileSystem} {a : SfsAction} {as : List SfsAction} {r : Except FsErr Reply}
      {rs : List (Except FsErr Reply)} (h : A.Act a r A') (hrest : Run A' as rs A'') :
      Run A (a :: as) (r :: rs) A''

section Lemmas

variable {A : FileSystem} {j ino : ℕ} {f : SparseFile}

theorem turn_self (A : FileSystem) : A.turn A.names A.refs = A := by
  refine FileSystem.ext rfl rfl (funext fun j => ?_)
  by_cases hj : A.Used j
  · exact if_pos hj
  · exact (if_neg hj).trans (A.unused j hj).symm

theorem put_self (A : FileSystem) (ino : ℕ) : A.put ino (A.file ino) = A := by
  refine FileSystem.ext rfl rfl (funext fun j => ?_)
  by_cases hj : j = ino ∧ j ≠ sfsRootdirIno ∧ A.Used j
  · exact (if_pos hj).trans (congrArg A.file hj.1.symm)
  · exact if_neg hj

@[simp] theorem file_put_of_ne (h : j ≠ ino) : (A.put ino f).file j = A.file j := if_neg fun hj => h hj.1

@[simp] theorem file_put (hroot : ino ≠ sfsRootdirIno) (hu : A.Used ino) : (A.put ino f).file ino = f :=
  if_pos ⟨rfl, hroot, hu⟩

/-- A read changes no file. -/
theorem Transferred.of_read {A' : FileSystem} {u : Uio} {r : Option FsErr × Uio}
    (h : A.Transferred ino u r A') (hrw : u.rw = .read) : A' = A := by
  rw [Transferred] at h
  split_ifs at h
  · exact h.2
  · obtain ⟨f, hf, rfl⟩ := h
    rw [hf.read hrw]
    exact A.put_self ino

theorem file_turn {names : List UInt8 → Option ℕ} {refs : ℕ → ℕ} (h : (A.turn names refs).Used j) :
    (A.turn names refs).file j = A.file j := if_pos h

end Lemmas

end FileSystem

namespace Vol

open Classical in
/-- **The file system that a volume holds.** -/
noncomputable def fileSystem (v : Vol) : FileSystem where
  names := v.names
  refs := v.refs
  file j := if j ≠ sfsRootdirIno ∧ InUse v.names v.refs j then v.array j else .empty
  root := if_neg fun h => h.1 rfl
  unused _ hj := if_neg fun h => hj h.2

section Volume

variable {v w : Vol} {j ino : ℕ}

/-- What is in use on a sound volume. -/
theorem used_iff (h : v.Sound) : v.fileSystem.Used j ↔ v.IsInode j := by
  change (_ ∨ 0 < v.refs j ∨ _) ↔ _
  rw [refs_pos h.physical]
  rfl

theorem file_fileSystem (h : v.Sound) (hne : j ≠ sfsRootdirIno) (hj : v.IsInode j) :
    v.fileSystem.file j = v.array j := if_pos ⟨hne, (used_iff h).mpr hj⟩

/-- **The names and the references change**, and the files in use stay as they are. -/
theorem fileSystem_turn (h : v.Sound) (hw : w.Sound)
    (hkept : ∀ j, j ≠ sfsRootdirIno → v.IsInode j → w.IsInode j → w.array j = v.array j)
    (hfresh : ∀ j, ¬ v.IsInode j → w.IsInode j → w.array j = .empty) :
    w.fileSystem = v.fileSystem.turn w.names w.refs := by
  refine FileSystem.ext rfl rfl (funext fun j => ?_)
  by_cases hj : w.IsInode j
  · rw [FileSystem.file_turn ((used_iff hw).mpr hj)]
    by_cases hroot : j = sfsRootdirIno
    · rw [hroot, w.fileSystem.root, v.fileSystem.root]
    rw [file_fileSystem hw hroot hj]
    by_cases hjv : v.IsInode j
    · rw [file_fileSystem h hroot hjv, hkept j hroot hjv hj]
    · rw [v.fileSystem.unused j fun hu => hjv ((used_iff h).mp hu), hfresh j hjv hj]
  · have hno : ¬ w.fileSystem.Used j := fun hu => hj ((used_iff hw).mp hu)
    rw [w.fileSystem.unused j hno]
    exact ((v.fileSystem.turn w.names w.refs).unused j hno).symm

/-- Nothing changes. -/
theorem fileSystem_same (h : v.Sound) (hw : w.Sound) (hs : Same v w) (hr : w.refs = v.refs) :
    w.fileSystem = v.fileSystem := by
  rw [fileSystem_turn h hw (fun j _ hj _ => array_congr (hs.file j hj)) fun j hno hj =>
    absurd (hs.isInode ▸ hj) hno, hs.names, hr]
  exact v.fileSystem.turn_self

/-- **A file changes.** -/
theorem fileSystem_put (h : v.Sound) (hr : Rewritten v.IsInode ino v w)
    (hne : ino ≠ sfsRootdirIno) (hino : v.IsInode ino) :
    w.Sound ∧ w.fileSystem = v.fileSystem.put ino (w.array ino) := by
  obtain ⟨hw, hnames, hI⟩ := h.rewritten hr hne
  refine ⟨hw, FileSystem.ext hnames hr.touch.refs (funext fun j => ?_)⟩
  by_cases hji : j = ino
  · subst hji
    rw [FileSystem.file_put hne ((used_iff h).mpr hino), file_fileSystem hw hne (hI ▸ hino)]
  rw [FileSystem.file_put_of_ne hji]
  by_cases hj : v.IsInode j
  · by_cases hroot : j = sfsRootdirIno
    · rw [hroot, w.fileSystem.root, v.fileSystem.root]
    · rw [file_fileSystem h hroot hj, file_fileSystem hw hroot (hI ▸ hj),
        array_congr (hr.touch.file hj hji)]
  · rw [v.fileSystem.unused j fun hu => hj ((used_iff h).mp hu),
      w.fileSystem.unused j fun hu => hj (hI ▸ (used_iff hw).mp hu)]

end Volume

end Vol

/-- The positions of a request are below 2^41, so that the numbers of its blocks fit 32 bits. -/
def SfsOp.Near : SfsOp → Prop
  | .read _ u => u.offset + u.resid < 2 ^ 41
  | .write _ u => u.offset + u.resid < 2 ^ 41
  | _ => True

instance : (op : SfsOp) → Decidable op.Near
  | .read _ u => inferInstanceAs (Decidable (u.offset + u.resid < 2 ^ 41))
  | .write _ u => inferInstanceAs (Decidable (u.offset + u.resid < 2 ^ 41))
  | .names .. => inferInstanceAs (Decidable True)
  | .getroot => inferInstanceAs (Decidable True)
  | .truncate .. => inferInstanceAs (Decidable True)
  | .incref .. => inferInstanceAs (Decidable True)
  | .decref .. => inferInstanceAs (Decidable True)
  | .fsync .. => inferInstanceAs (Decidable True)
  | .sync => inferInstanceAs (Decidable True)

namespace SfsFs

section Calls

variable {v w : Vol} {ino n : ℕ} {r : Except FsErr Reply} {e : FsErr}

theorem shortage_of_short {op : NameOp} (h : op.Short v e) : FileSystem.Shortage e := by
  have hmem : NoMemory v e → FileSystem.Shortage e := fun hm => .inl hm.1
  have hspace : NoSpace v e → FileSystem.Shortage e := fun hs =>
    hs.elim (fun hs => .inr (.inl hs.1)) fun hs => .inr (.inr hs.1)
  cases op with
  | creat name excl => exact h.elim hmem hspace
  | link name file => exact hspace h
  | remove name => exact hmem h
  | rename n1 n2 => exact h.elim hmem hspace
  | lookup path => exact hmem h

/-- An operation on names. -/
theorem nameStep_of_post {op : NameOp} (h : v.Sound) (hp : op.Post v r w) (ho : Opened v r w) :
    v.fileSystem.NameStep op r w.fileSystem := by
  have hturn : w.fileSystem = v.fileSystem.turn w.names (refsAfter v.refs r) := by
    rw [fileSystem_turn h hp.sound ho.kept ho.fresh, ho.refs]
  rcases hp.step with ⟨fresh, hnew, hstep⟩ | ⟨e, rfl, hshort⟩
  · exact .inl ⟨fresh, w.names, fun hu => hnew ((used_iff h).mp hu), hstep, hturn⟩
  · refine .inr ⟨e, rfl, shortage_of_short hshort, ?_⟩
    rw [hturn, (hp.failed e rfl).1]
    exact v.fileSystem.turn_self

/-- **A request** on a file, or on the directory, which is an error. -/
theorem transferred (h : v.Sound) (hload : ino ∈ v.fs.vnodes) {u : Uio} (hu : SfsFs.Valid u)
    (hend : u.offset + u.resid < 2 ^ 41) (hlow : (v.file ino).type = sfsTypeFile → Low ino v u)
    {rw : UioRw} (hrw : u.rw = rw) : Returns (do
      let m ← getFs
      if sfiType (m.inode ino) = sfsTypeDir then return (some FsErr.eisdir, u)
      else do
        kassert (u.rw = rw)
        sfsIo ino u) v (Ends (fun r w => w.Sound ∧ v.fileSystem.Transferred ino u r w.fileSystem)
        fun _ _ => False) := by
  have hino := isInode_of_mem hload
  rw [returns_get, type_inode hload]
  split_ifs with hdir
  · obtain rfl := h.only ino hino hdir
    refine returns_pure.mpr ⟨h, ?_⟩
    rw [FileSystem.Transferred, if_pos rfl]
    exact ⟨rfl, rfl⟩
  · have hroot : ino ≠ sfsRootdirIno := by
      rintro rfl
      exact hdir h.listed.dir
    have hlow := hlow (h.type hino hroot)
    rw [returns_kassert hrw]
    refine ((returns_io h.physical hino hload hu hlow).and
      (handled_io h.physical hino hload hu hend hlow)).mono ?_
    rintro (e | r) w ⟨hw, hr⟩
    · exact hw
    · obtain ⟨hsound, hput⟩ := fileSystem_put h hw hroot hino
      refine ⟨hsound, ?_⟩
      rw [FileSystem.Transferred, if_neg hroot, file_fileSystem h hroot hino]
      exact ⟨_, hr, hput⟩

theorem ItruncCut.array {I : ℕ → Prop} {len : ℤ} (h : ItruncCut I ino len v w) :
    w.array ino = (v.array ino).truncate len := by
  refine SparseFile.mk.injEq .. ▸ ⟨funext fun x => ?_, h.resized.size⟩
  have hblock : w.blockOf ino (x / sfsBlocksize) =
    if CutsOff len (x / sfsBlocksize) then 0 else v.blockOf ino (x / sfsBlocksize) := h.blockOf _
  change w.byte ino x = if CutsOff len (x / sfsBlocksize) then 0 else v.byte ino x
  rw [h.byte, hblock]
  by_cases hcut : CutsOff len (x / sfsBlocksize)
  · rw [if_pos hcut, if_pos rfl, if_pos hcut]
  · rw [if_neg hcut, if_neg hcut]
    split_ifs with h0
    · exact (if_pos h0).symm
    · rfl

/-- **A truncation** of a file, or of the directory, which is an error. -/
theorem truncated (h : v.Sound) (hload : ino ∈ v.fs.vnodes) (len : ℤ) :
    Returns (do vopTruncate ino len; return Reply.done) v fun r w =>
      w.Sound ∧ v.fileSystem.Step (.truncate ino len) r w.fileSystem := by
  have hino := isInode_of_mem hload
  unfold vopTruncate
  rw [returns_bind, returns_get, type_inode hload]
  split_ifs with hdir
  · refine returns_throw.mpr ⟨h, ?_⟩
    rw [FileSystem.Step, if_pos (h.only ino hino hdir)]
    exact ⟨rfl, rfl⟩
  · have hroot : ino ≠ sfsRootdirIno := by
      rintro rfl
      exact hdir h.listed.dir
    refine (returns_itrunc_cut h.physical hino hload len).mono ?_
    rintro (e | _) w hw
    · exact hw.elim
    replace hw : ItruncCut v.IsInode ino len v w := hw
    obtain ⟨hsound, hput⟩ := fileSystem_put h hw.resized.rewritten hroot hino
    refine returns_pure.mpr ⟨hsound, ?_⟩
    rw [FileSystem.Step, if_neg hroot, file_fileSystem h hroot hino, ← hw.array]
    exact ⟨rfl, hput⟩

/-- The number of references changes, and no file. -/
theorem fileSystem_reopen (h : v.Sound) (hw : w.Sound) (hs : Same v w)
    (hr : w.refs = Function.update v.refs ino n) : w.fileSystem = v.fileSystem.reopen ino n := by
  rw [fileSystem_turn h hw (fun j _ hj _ => array_congr (hs.file j hj)) fun j hno hj =>
    absurd (hs.isInode ▸ hj) hno, hs.names, hr]
  rfl

theorem refs_getroot (h : v.Sound) : Returns sfsGetroot v (Ends
    (fun _ w => w.refs = Function.update v.refs sfsRootdirIno (v.refs sfsRootdirIno + 1))
    fun _ w => w.refs = v.refs) := by
  unfold sfsGetroot
  refine ((returns_load h (isInode_root v)).and (refs_loadvnode h.physical (isInode_root v))).bind ?_
  rintro (e | _) w ⟨hw, hr⟩
  · exact hr
  · obtain ⟨hw, -, hload, -⟩ := hw
    refine returns_get.mpr ?_
    rw [if_neg (by rw [type_inode hload, hw.listed.dir]; simp)]
    exact returns_pure.mpr hr

/-- **`VOP_INCREF`.** -/
theorem increfed (h : v.Sound) (hload : ino ∈ v.fs.vnodes) :
    Returns (do vnodeIncref ino; return Reply.done) v fun r w =>
      w.Sound ∧ v.fileSystem.Step (.incref ino) r w.fileSystem := by
  have hs := h.physical.set_refcount ((v.fs.sv ino).refcount + 1) (Nat.succ_pos _)
    (rfl : (⟨v.fs.setSv ino _, v.disk⟩ : Vol) = _)
  have hsame := Same.of_steady hs rfl
  have hsound := h.same hsame hs.physical
  refine returns_incref.mpr (returns_pure.mpr ⟨hsound, rfl, fileSystem_reopen h hsound hsame ?_⟩)
  change _ = Function.update v.refs ino (v.refs ino + 1)
  rw [refs_loaded hload]
  exact refs_setSv hload _

/-- **`VOP_DECREF`.** -/
theorem decrefed (h : v.Sound) (hload : ino ∈ v.fs.vnodes) :
    Returns (do vnodeDecref ino; return Reply.done) v fun r w =>
      w.Sound ∧ v.fileSystem.Step (.decref ino) r w.fileSystem := by
  refine ((returns_decref h.physical hload fun he => by rw [he]; exact h.root).and
    (refs_decref h.physical hload)).bind ?_
  rintro (e | _) w ⟨hw, hr⟩
  · exact hw.elim
  have hcarried := Carried.of_released h hload hw
  obtain ⟨hsound, hnames, -⟩ := h.released hload hw
  refine returns_pure.mpr ⟨hsound, rfl, ?_⟩
  rw [fileSystem_turn h hsound (fun j hne _ hj => hcarried.array j hne hj) fun j hno hj =>
    absurd (hcarried.used j hj) hno, hnames, show w.refs = _ from hr]
  rfl

/-- **A call on a sound volume** is answered as by the file system that the volume holds. -/
theorem step_op (h : v.Sound) {op : SfsOp} (hvalid : op.Valid v) (hlow : op.Low v)
    (hnear : op.Near) :
    Returns op.prog v fun r w => w.Sound ∧ v.fileSystem.Step op r w.fileSystem := by
  cases op with
  | names dir op =>
    refine ((returns_nameOp h hvalid.1 hvalid.2).and (opened_nameOp h hvalid.1 hvalid.2)).mono
      fun r w hw => ?_
    obtain ⟨⟨hpost, -⟩, ho⟩ := hw
    unfold NameOp.CallPost at hpost
    rw [FileSystem.Step]
    split_ifs at hpost ⊢
    · exact ⟨hpost.sound, nameStep_of_post h hpost ho⟩
    · obtain ⟨rfl, rfl⟩ := hpost
      exact ⟨h, rfl, rfl⟩
  | getroot =>
    refine ((returns_getroot h).and (refs_getroot h)).bind ?_
    rintro (e | ino) w ⟨hw, hr⟩
    · obtain ⟨hw, hs, rfl, -⟩ := hw
      exact ⟨hw, .inr ⟨rfl, fileSystem_same h hw hs hr⟩⟩
    · obtain ⟨hw, hs, rfl, -⟩ := hw
      exact returns_pure.mpr ⟨hw, .inl ⟨rfl, fileSystem_reopen h hw hs hr⟩⟩
  | read ino u =>
    refine (transferred h hvalid.1 hvalid.2.1 hnear hlow hvalid.2.2).bind ?_
    rintro (e | r) w hw
    · exact hw.elim
    · exact returns_pure.mpr ⟨hw.1, r.1, r.2, rfl, hw.2, hw.2.of_read hvalid.2.2⟩
  | write ino u =>
    refine (transferred h hvalid.1 hvalid.2.1 hnear hlow hvalid.2.2).bind ?_
    rintro (e | r) w hw
    · exact hw.elim
    · exact returns_pure.mpr ⟨hw.1, r.1, r.2, rfl, hw.2⟩
  | truncate ino len => exact truncated h hvalid len
  | incref ino => exact increfed h hvalid
  | decref ino => exact decrefed h hvalid
  | fsync ino =>
    obtain ⟨hs, -, hvn⟩ := synced_clean h.physical hvalid
    have hsame := Same.of_steady hs hvn
    have hsound := h.same hsame hs.physical
    exact (returns_syncInode h.physical hvalid).mpr
      (returns_pure.mpr ⟨hsound, rfl, fileSystem_same h hsound hsame refs_synced⟩)
  | sync =>
    refine ((returns_sync h.physical).and (refs_sync h.physical)).bind ?_
    rintro (e | _) w ⟨hw, hr⟩
    · exact hw.elim
    · obtain ⟨hs, hvn, -⟩ := hw
      have hsame := Same.of_steady hs hvn
      have hsound := h.same hsame hs.physical
      exact returns_pure.mpr ⟨hsound, rfl, fileSystem_same h hsound hsame hr⟩

/-- `vfs_unmount` takes and gives up no references. -/
theorem refs_unmount (h : v.Sound) :
    Returns vfsUnmount v (Ends (fun _ w => w.refs = v.refs) fun _ w => w.refs = v.refs) := by
  unfold vfsUnmount
  refine ((returns_sync h.physical).and (refs_sync h.physical)).bind ?_
  rintro (e | _) w ⟨hw, hr⟩
  · exact hw.elim
  obtain ⟨-, -, -, hclean⟩ := hw
  replace hr : w.refs = v.refs := hr
  change Returns sfsUnmount w _
  unfold sfsUnmount
  rw [returns_get]
  split_ifs
  · exact returns_throw.mpr hr
  · rw [returns_kassert hclean.super, kassert, if_pos hclean.freemap]
    exact returns_pure.mpr hr

end Calls

end SfsFs

/-! ### Runs -/

/-- The call leaves the byte at `x` of the file `j` alone. -/
def SfsOp.Spares (j x : ℕ) : SfsOp → Prop
  | .write ino u => ino = j → x < u.offset ∨ u.offset + u.resid ≤ x
  | .truncate ino len => ino = j → ¬ CutsOff len (x / sfsBlocksize)
  | _ => True

instance (j x : ℕ) : (op : SfsOp) → Decidable (op.Spares j x)
  | .write ino u => inferInstanceAs (Decidable (ino = j → x < u.offset ∨ u.offset + u.resid ≤ x))
  | .truncate ino len => inferInstanceAs (Decidable (ino = j → ¬ CutsOff len (x / sfsBlocksize)))
  | .read .. => inferInstanceAs (Decidable True)
  | .names .. => inferInstanceAs (Decidable True)
  | .getroot => inferInstanceAs (Decidable True)
  | .incref .. => inferInstanceAs (Decidable True)
  | .decref .. => inferInstanceAs (Decidable True)
  | .fsync .. => inferInstanceAs (Decidable True)
  | .sync => inferInstanceAs (Decidable True)

/-- **A byte of a file that stays in use** is left alone by the calls on other files, by those on names,
and by writes and truncations elsewhere in the file. -/
theorem FileSystem.Step.byte {A A' : FileSystem} {op : SfsOp} {r : Except FsErr Reply} {j x : ℕ}
    (h : A.Step op r A') (hne : j ≠ sfsRootdirIno) (hj : A.Used j) (hj' : A'.Used j)
    (hs : op.Spares j x) : (A'.file j).byte x = (A.file j).byte x := by
  cases op with
  | names dir op =>
    rw [Step] at h
    split_ifs at h
    · rcases h with ⟨_, _, -, -, rfl⟩ | ⟨_, -, -, rfl⟩
      · rw [file_turn hj']
      · rfl
    · rw [h.2]
  | getroot =>
    rcases h with ⟨-, rfl⟩ | ⟨-, rfl⟩
    · rw [reopen, file_turn hj']
    · rfl
  | read ino u =>
    obtain ⟨-, -, -, -, rfl⟩ := h
    rfl
  | write ino u =>
    obtain ⟨e, u', -, h⟩ := h
    rw [Transferred] at h
    split_ifs at h
    · rw [h.2]
    · obtain ⟨f, hf, rfl⟩ := h
      by_cases hji : j = ino
      · subst hji
        rw [file_put hne hj]
        exact hf.frame x ((hs rfl).imp_right hf.le_offset.trans)
      · rw [file_put_of_ne hji]
  | truncate ino len =>
    rw [Step] at h
    split_ifs at h
    · rw [h.2]
    · obtain ⟨-, rfl⟩ := h
      by_cases hji : j = ino
      · subst hji
        rw [file_put hne hj]
        exact if_neg (hs rfl)
      · rw [file_put_of_ne hji]
  | incref ino =>
    obtain ⟨-, rfl⟩ := h
    rw [reopen, file_turn hj']
  | decref ino =>
    obtain ⟨-, rfl⟩ := h
    rw [reopen, file_turn hj']
  | fsync ino => rw [h.2]
  | sync => rw [h.2]

/-- The call transfers less than a block, from the beginning of one on. -/
def SfsOp.Short : SfsOp → Prop
  | .read _ u => u.offset % sfsBlocksize = 0 ∧ u.resid < sfsBlocksize
  | .write _ u => u.offset % sfsBlocksize = 0 ∧ u.resid < sfsBlocksize
  | _ => True

instance : (op : SfsOp) → Decidable op.Short
  | .read _ u => inferInstanceAs (Decidable (u.offset % sfsBlocksize = 0 ∧ u.resid < sfsBlocksize))
  | .write _ u => inferInstanceAs (Decidable (u.offset % sfsBlocksize = 0 ∧ u.resid < sfsBlocksize))
  | .names .. => inferInstanceAs (Decidable True)
  | .getroot => inferInstanceAs (Decidable True)
  | .truncate .. => inferInstanceAs (Decidable True)
  | .incref .. => inferInstanceAs (Decidable True)
  | .decref .. => inferInstanceAs (Decidable True)
  | .fsync .. => inferInstanceAs (Decidable True)
  | .sync => inferInstanceAs (Decidable True)

/-- Such a request transfers no whole block. -/
theorem low_of_lt {v : Vol} {ino : ℕ} {u : Uio} (hoff : u.offset % sfsBlocksize = 0)
    (hres : u.resid < sfsBlocksize) : SfsFs.Low ino v u := by
  intro u' w he
  have hpure : SfsFs.exec (SfsFs.ioLead ino (cut (v.file ino).size u)) v =
      .ok (.ok (none, cut (v.file ino).size u), v) := by
    unfold SfsFs.ioLead
    simp only
    rw [if_pos (show (cut (v.file ino).size u).offset % sfsBlocksize = 0 from hoff)]
    rfl
  obtain ⟨rfl, rfl⟩ : cut (v.file ino).size u = u' ∧ v = w := by simpa using hpure.symm.trans he
  have hle : (cut (v.file ino).size u).resid ≤ u.resid := Nat.sub_le ..
  rw [Nat.div_eq_of_lt (lt_of_le_of_lt hle hres)]
  trivial

/-- The action leaves the byte at `x` of the file `j` alone. -/
def SfsAction.Spares (j x : ℕ) : SfsAction → Prop
  | .call op => op.Spares j x
  | .remount _ => True

instance (j x : ℕ) : (a : SfsAction) → Decidable (a.Spares j x)
  | .call op => inferInstanceAs (Decidable (op.Spares j x))
  | .remount _ => inferInstanceAs (Decidable True)

namespace SfsMount

variable {s t : SfsMount} {j x : ℕ}

/-- An action, with what it returns. -/
def act (s : SfsMount) : SfsAction → Except FsPanic (Except FsErr Reply × SfsMount)
  | .call op => exec op.prog s
  | .remount m => exec vfsUnmount s >>= fun p =>
    match p.1 with
    | .error e => .ok (.error e, p.2)
    | .ok _ => (exec sfsDomount ⟨m, p.2.dev⟩).map fun q => (q.1.map fun _ => .done, q.2)

/-- The state after an action. -/
def next (s : SfsMount) (a : SfsAction) : Except FsPanic SfsMount := (act s a).map Prod.snd

/-- A sequence of actions, with what they return. -/
def acts : SfsMount → List SfsAction → Except FsPanic (List (Except FsErr Reply) × SfsMount)
  | s, [] => .ok ([], s)
  | s, a :: as => act s a >>= fun p => (acts p.2 as).map fun q => (p.1 :: q.1, q.2)

/-- The callers keep their promises, and no position is beyond those that 32 bits can hold; there is
memory for a mount. -/
def InRange (s : SfsMount) : SfsAction → Prop
  | .call op => Proper s op ∧ op.Near
  | .remount m => m.memory 0 = true ∧ m.memory 1 = true

/-- The same of calls that transfer less than a block. -/
def InBlock (s : SfsMount) : SfsAction → Prop
  | .call op => op.Valid s.vol ∧ op.Short ∧ op.Near
  | .remount m => m.memory 0 = true ∧ m.memory 1 = true

instance (s : SfsMount) : (a : SfsAction) → Decidable (InBlock s a)
  | .call op => inferInstanceAs (Decidable (op.Valid s.vol ∧ op.Short ∧ op.Near))
  | .remount m => inferInstanceAs (Decidable (m.memory 0 = true ∧ m.memory 1 = true))

theorem InBlock.inRange {a : SfsAction} (h : InBlock s a) : InRange s a := by
  cases a with
  | remount m => exact h
  | call op =>
    obtain ⟨hvalid, hshort, hnear⟩ := h
    refine ⟨⟨hvalid, ?_⟩, hnear⟩
    cases op with
    | read ino u => exact fun _ => low_of_lt hshort.1 hshort.2
    | write ino u => exact fun _ => low_of_lt hshort.1 hshort.2
    | _ => trivial

/-- **A remount** finds the same file system, if no file is open. -/
theorem act_remount (hw : s.dev.Works) (h : s.vol.Sound) {m : SfsFs}
    (hmem : m.memory 0 = true ∧ m.memory 1 = true) : ∃ r t, act s (.remount m) = .ok (r, t) ∧
      t.dev.Works ∧ t.vol.Sound ∧ s.vol.fileSystem.Act (.remount m) r t.vol.fileSystem := by
  obtain ⟨r, u, he, hwu, hu, hr⟩ :=
    exec_of_works hw ((returns_unmount h.physical).and (refs_unmount h))
  change ∃ r t, (exec vfsUnmount s >>= _) = .ok (r, t) ∧ _
  rw [he]
  cases r with
  | error e =>
    obtain ⟨hs, rfl, hne, hvn⟩ := hu
    have hsame := Same.of_steady hs hvn
    have hsound := h.same hsame hs.physical
    obtain ⟨j, hj⟩ := List.exists_mem_of_ne_nil _ hne
    exact ⟨_, u, rfl, hwu, hsound, fileSystem_same h hsound hsame hr, .inr
      ⟨rfl, j, (refs_pos h.physical).mpr hj⟩⟩
  | ok _ =>
    obtain ⟨hs, -, hclean, hnil, hnilu⟩ := hu
    obtain ⟨r, w, hm, hww, hr⟩ := exec_of_works (s := ⟨m, u.dev⟩) hwu
      (returns_domount hs.physical hnilu hclean hmem)
    cases r with
    | error e => exact hr.elim
    | ok _ =>
      obtain ⟨hs', hnilw, -, -⟩ := hr
      have hsame := Same.of_steady (hs.trans hs') (hnilw.trans hnil.symm)
      have hsound := h.same hsame (hs.trans hs').physical
      have hclosed : ∀ j, s.vol.refs j = 0 := fun j =>
        refs_unloaded (by rw [hnil]; exact List.not_mem_nil)
      have hrefs : w.vol.refs = s.vol.refs := refs_congr (hnilw.trans hnil.symm) fun j hj => by
        rw [hnil] at hj
        cases hj
      refine ⟨.ok .done, w, ?_, hww, hsound, fileSystem_same h hsound hsame hrefs, .inl ⟨rfl, hclosed⟩⟩
      change (exec sfsDomount ⟨m, u.dev⟩).map _ = _
      rw [hm]
      rfl

/-- **An action** is answered as by the file system that the volume holds. -/
theorem act_refines (hw : s.dev.Works) (h : s.vol.Sound) {a : SfsAction} (ha : InRange s a) :
    ∃ r t, act s a = .ok (r, t) ∧ t.dev.Works ∧ t.vol.Sound ∧
      s.vol.fileSystem.Act a r t.vol.fileSystem := by
  cases a with
  | call op => exact exec_of_works hw (step_op h ha.1.1 ha.1.2 ha.2)
  | remount m => exact act_remount hw h ha

/-- What an action that has returned did. -/
theorem act_of_ok {a : SfsAction} {r : Except FsErr Reply} (hw : s.dev.Works) (h : s.vol.Sound)
    (ha : InRange s a) (he : act s a = .ok (r, t)) :
    t.dev.Works ∧ t.vol.Sound ∧ s.vol.fileSystem.Act a r t.vol.fileSystem := by
  obtain ⟨r', t', he', hr⟩ := act_refines hw h ha
  obtain ⟨rfl, rfl⟩ : r' = r ∧ t' = t := by simpa using he'.symm.trans he
  exact hr

/-- **A volume is a file system.** All runs of calls and remounts on a sound volume, on a device that
works, are answered as by the file system that the volume holds. -/
theorem run_refines (s : SfsMount) (hw : s.dev.Works) (h : s.vol.Sound) (as : List SfsAction)
    (has : Along next InRange s as) : ∃ rs t, acts s as = .ok (rs, t) ∧ t.vol.Sound ∧
      s.vol.fileSystem.Run as rs t.vol.fileSystem := by
  induction as generalizing s with
  | nil => exact ⟨[], s, rfl, h, .nil _⟩
  | cons a as ih =>
    obtain ⟨ha, hrest⟩ := has
    obtain ⟨r, u, he, hwu, hu, hact⟩ := act_refines hw h ha
    have hnext : next s a = .ok u := by
      unfold next
      rw [he]
      rfl
    obtain ⟨rs, t, ht, hsound, hrun⟩ := ih u hwu hu (hrest u hnext)
    refine ⟨r :: rs, t, ?_, hsound, .cons hact hrun⟩
    rw [acts, he]
    change (acts u as).map _ = _
    rw [ht]
    rfl

/-- A file is written, loses its name and is given up; the volume is mounted again. -/
theorem run_refines_remount : ∃ rs t,
    acts (imageMount 8 5 (by decide) fun _ => (.ok, fun _ => 0))
      [.call (.write 3 (writeUio 4 fun _ => 7)), .call (.names 1 (.remove imageName)),
        .call (.decref 3), .call (.decref 1),
        .remount (imageMount 8 5 (by decide) fun _ => (.ok, fun _ => 0)).fs, .call .getroot] =
      .ok (rs, t) ∧ t.vol.Sound ∧
    (imageMount 8 5 (by decide) fun _ => (.ok, fun _ => 0)).vol.fileSystem.Run
      [.call (.write 3 (writeUio 4 fun _ => 7)), .call (.names 1 (.remove imageName)),
        .call (.decref 3), .call (.decref 1),
        .remount (imageMount 8 5 (by decide) fun _ => (.ok, fun _ => 0)).fs, .call .getroot] rs
      t.vol.fileSystem := by
  have has : Along next InBlock (imageMount 8 5 (by decide) fun _ => (.ok, fun _ => 0))
      [.call (.write 3 (writeUio 4 fun _ => 7)), .call (.names 1 (.remove imageName)),
        .call (.decref 3), .call (.decref 1),
        .remount (imageMount 8 5 (by decide) fun _ => (.ok, fun _ => 0)).fs, .call .getroot] := by
    decide +kernel
  exact run_refines _ (fun _ => rfl) (image_sound ⟨by decide, by decide, by decide⟩ rfl) _
    (has.mono next fun _ _ => InBlock.inRange)

/-- **A byte of a file that stays in use** is spared by an action. -/
theorem act_byte {a : SfsAction} {r : Except FsErr Reply} (hw : s.dev.Works) (h : s.vol.Sound)
    (ha : InRange s a) (he : act s a = .ok (r, t)) (hne : j ≠ sfsRootdirIno) (hj : s.vol.IsInode j)
    (hj' : t.vol.IsInode j) (hs : a.Spares j x) :
    t.dev.Works ∧ t.vol.Sound ∧ t.vol.byte j x = s.vol.byte j x := by
  obtain ⟨hwt, hsound, hact⟩ := act_of_ok hw h ha he
  have hbyte : (t.vol.fileSystem.file j).byte x = (s.vol.fileSystem.file j).byte x := by
    cases a with
    | call op =>
      exact FileSystem.Step.byte hact hne ((used_iff h).mpr hj) ((used_iff hsound).mpr hj') hs
    | remount m => rw [hact.1]
  rw [file_fileSystem h hne hj, file_fileSystem hsound hne hj'] at hbyte
  exact ⟨hwt, hsound, hbyte⟩

/-- The same of a run. -/
theorem run_byte (hw : s.dev.Works) (h : s.vol.Sound) (hne : j ≠ sfsRootdirIno)
    (as : List SfsAction)
    (has : Along next (fun s a => InRange s a ∧ s.vol.IsInode j ∧ a.Spares j x) s as)
    (ht : run next s as = .ok t) (hj : t.vol.IsInode j) :
    t.dev.Works ∧ t.vol.Sound ∧ t.vol.byte j x = s.vol.byte j x := by
  induction as generalizing s with
  | nil =>
    cases ht
    exact ⟨hw, h, rfl⟩
  | cons a as ih =>
    obtain ⟨⟨ha, hjs, hspares⟩, hrest⟩ := has
    rw [run_cons] at ht
    obtain ⟨u, hu, ht⟩ := bind_eq_ok.mp ht
    obtain ⟨⟨r, u'⟩, he, rfl⟩ := Transition.map_eq_ok hu
    have hju : u'.vol.IsInode j := by
      cases as with
      | nil =>
        cases ht
        exact hj
      | cons a' as => exact (hrest u' hu).1.2.1
    obtain ⟨hwu, hsound, hsame⟩ := act_byte hw h ha he hne hjs hju hspares
    obtain ⟨hwt, hsoundt, hbyte⟩ := ih hwu hsound (hrest u' hu) ht
    exact ⟨hwt, hsoundt, hbyte.trans hsame⟩

/-- **What was written is read.** Whatever calls and remounts come after a write that has succeeded, as
long as the file stays in use and the byte is spared, a read that comes to the byte hands it out. -/
theorem read_after_write {u u' q q' : Uio} {s₁ t' : SfsMount} (hw : s.dev.Works) (h : s.vol.Sound)
    (hwrite : InRange s (.call (.write j u)))
    (he : act s (.call (.write j u)) = .ok (.ok (.io none u'), s₁)) (hx : u.offset ≤ x)
    (hlt : x < u.offset + u.resid) (as : List SfsAction)
    (has : Along next (fun s a => InRange s a ∧ s.vol.IsInode j ∧ a.Spares j x) s₁ as)
    (ht : run next s₁ as = .ok t) (hread : InRange t (.call (.read j q)))
    (he' : act t (.call (.read j q)) = .ok (.ok (.io none q'), t')) (hq : q.offset ≤ x)
    (hlt' : x < q'.offset) :
    q'.area (q.pos + (x - q.offset)) = u.area (u.pos + (x - u.offset)) := by
  have hload : j ∈ s.vol.fs.vnodes := hwrite.1.1.1
  have hloadt : j ∈ t.vol.fs.vnodes := hread.1.1.1
  have hjs := isInode_of_mem hload
  have hjt := isInode_of_mem hloadt
  obtain ⟨hw₁, h₁, e, u'', hr, hput⟩ := act_of_ok hw h hwrite he
  cases hr
  rw [FileSystem.Transferred] at hput
  split_ifs at hput with hroot
  · cases hput.1
  obtain ⟨f, hf, hput⟩ := hput
  have hbyte := hf.byte_write hwrite.1.1.2.2 hx hlt
  obtain ⟨hwt, hsound, hkept⟩ := run_byte hw₁ h₁ hroot as has ht hjt
  have hused : s₁.vol.fileSystem.Used j := by
    rw [hput]
    exact (used_iff h).mpr hjs
  have hfile : s₁.vol.array j = f := by
    rw [← file_fileSystem h₁ hroot ((used_iff h₁).mp hused), hput]
    exact FileSystem.file_put hroot ((used_iff h).mpr hjs)
  obtain ⟨-, -, e, u'', hr, hgot, -⟩ := act_of_ok hwt hsound hread he'
  cases hr
  rw [FileSystem.Transferred, if_neg hroot, file_fileSystem hsound hroot hjt] at hgot
  obtain ⟨g, hg, -⟩ := hgot
  calc q'.area (q.pos + (x - q.offset))
    _ = t.vol.byte j x := hg.area_read hread.1.1.2.2 hq hlt'
    _ = s₁.vol.byte j x := hkept
    _ = f.byte x := by rw [← hfile]; rfl
    _ = u.area (u.pos + (x - u.offset)) := hbyte

/-- What a transfer that has succeeded returns. -/
def moved : Except FsErr Reply → Option Uio
  | .ok (.io none u) => some u
  | _ => none

theorem of_moved {r : Except FsErr Reply} (h : (moved r).isSome) : ∃ u, r = .ok (.io none u) := by
  unfold moved at h
  split at h
  · exact ⟨_, rfl⟩
  · cases h

/-- A request of the kernel to read `len` bytes at the beginning of a file. -/
def readUio (len : ℕ) : Uio := { writeUio len (fun _ => 0) with rw := .read }

/-- A file is written and given up; the volume is mounted again, and the file is looked up and read. -/
theorem read_after_write_remount : ∃ u' s₁ t q' t',
    act (imageMount 8 5 (by decide) fun _ => (.ok, fun _ => 0))
      (.call (.write 3 (writeUio 4 fun _ => 7))) = .ok (.ok (.io none u'), s₁) ∧
    run next s₁ [.call (.decref 3), .call (.decref 1),
      .remount (imageMount 8 5 (by decide) fun _ => (.ok, fun _ => 0)).fs, .call .getroot,
      .call (.names 1 (.lookup imageName))] = .ok t ∧
    act t (.call (.read 3 (readUio 4))) = .ok (.ok (.io none q'), t') ∧ q'.area 2 = 7 := by
  have hfirst : InBlock (imageMount 8 5 (by decide) fun _ => (.ok, fun _ => 0))
      (.call (.write 3 (writeUio 4 fun _ => 7))) := by
    decide +kernel
  have hrun : (act (imageMount 8 5 (by decide) fun _ => (.ok, fun _ => 0))
      (.call (.write 3 (writeUio 4 fun _ => 7))) >>= fun p =>
        run next p.2 [.call (.decref 3), .call (.decref 1),
          .remount (imageMount 8 5 (by decide) fun _ => (.ok, fun _ => 0)).fs, .call .getroot,
          .call (.names 1 (.lookup imageName))] >>= fun t =>
          (act t (.call (.read 3 (readUio 4)))).map fun q => (p, t, q)).toOption.map (fun z =>
        ((moved z.1.1).isSome, (moved z.2.2.1).map Uio.offset,
          decide (Along next (fun s a => InBlock s a ∧ s.vol.names imageName.bytes = some 3 ∧
            a.Spares 3 2) z.1.2 [.call (.decref 3), .call (.decref 1),
              .remount (imageMount 8 5 (by decide) fun _ => (.ok, fun _ => 0)).fs, .call .getroot,
              .call (.names 1 (.lookup imageName))]),
          decide (InBlock z.2.1 (.call (.read 3 (readUio 4)))))) = some (true, some 4, true, true) := by
    decide +kernel
  obtain ⟨⟨p, t, q⟩, he, hobs⟩ := exists_ok_of_toOption hrun
  obtain ⟨⟨r, s₁⟩, hw, he⟩ := bind_eq_ok.mp he
  obtain ⟨t', ht, he⟩ := bind_eq_ok.mp he
  obtain ⟨⟨r', t₂⟩, hr, he⟩ := Transition.map_eq_ok he
  cases he
  obtain ⟨hmoved, hoff, has, hread⟩ : (moved r).isSome = true ∧ (moved r').map Uio.offset = some 4 ∧
    _ ∧ _ := by simpa only [Prod.mk.injEq, Option.some.injEq] using hobs
  obtain ⟨u', rfl⟩ := of_moved hmoved
  obtain ⟨q', rfl⟩ := of_moved (r := r') (by rw [← Option.isSome_map (f := Uio.offset), hoff]; rfl)
  replace hoff : q'.offset = 4 := Option.some.inj hoff
  refine ⟨u', s₁, t, q', t₂, hw, ht, hr, ?_⟩
  refine read_after_write (x := 2) (fun _ => rfl) (image_sound ⟨by decide, by decide, by decide⟩ rfl)
    hfirst.inRange hw (by decide) (by decide) _
    ((of_decide_eq_true has).mono next fun s a ha =>
      ⟨ha.1.inRange, isInode_of_name ha.2.1, ha.2.2⟩) ht
    (InBlock.inRange (of_decide_eq_true hread)) hr (by decide) ?_
  rw [hoff]
  decide

end SfsMount

end Os161
