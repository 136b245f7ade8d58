import Mathlib.Data.List.Basic
import Os161.Machine.Stop
import Os161.Vfs.Devices

set_option autoImplicit false

/-!
# The balance of the big lock

The vfs layer, SFS and emufs with everything left out but `vfs_biglock_depth` and the control flow.
What the operations without the lock return, what the tests of the data say, how often a loop runs
and whether `emufs_loadvnode` gets memory is given in advance.

A program has the depth before and after it in its type, so that a return with the lock at another
depth is no program. The one place of the source that returns so is counted.

* `Locked n k α`: a program that is called `n` deep and returns `k` deep.
* `VfsEntry.exec`: the entry points.
* **`depth_exec_iff`**: an entry point returns at the depth at which it was called exactly if no
  `kmalloc` of `emufs_loadvnode` failed.
-/

namespace Os161

namespace BigLock

/-- What a function of the file systems returns. -/
abbrev Result : Type := Option VfsErr

/-- `vfs_biglock_depth`, and what comes from outside: the results of the operations without the lock,
the tests of the data, the lengths of the loops, all read at `pos`, and the memory for the vnodes of
emufs, read at `mpos`. -/
structure LockState where
  depth : ℕ
  results : ℕ → Result
  tests : ℕ → Bool
  counts : ℕ → ℕ
  memory : ℕ → Bool
  pos : ℕ
  mpos : ℕ

/-- The `kmalloc`s of `emufs_loadvnode` that failed so far. -/
def LockState.failures (s : LockState) : ℕ := (List.range s.mpos).countP fun i => !s.memory i

/-- The run from `s` ends in `t` at the depth `d`, and one deeper for each `kmalloc` that failed on the
way. The memory is read on. -/
structure LockState.Leads (s t : LockState) (d : ℕ) : Prop where
  depth : t.depth + s.failures = d + t.failures
  memory : t.memory = s.memory
  mpos : s.mpos ≤ t.mpos

theorem LockState.Leads.failures_le {s t : LockState} {d : ℕ} (h : s.Leads t d) :
    s.failures ≤ t.failures := by
  unfold LockState.failures
  rw [h.memory]
  exact (List.range_sublist.mpr h.mpos).countP_le

/-- **A program that is called `n` deep and returns `k` deep**, whatever the depth of its caller. No
`KASSERT` on the depth fails in it. -/
structure Locked (n k : ℕ) (α : Type) where
  run : LockState → Except Stop (α × LockState)
  leads : ∀ b s, s.depth = b + n → ∃ a t, run s = .ok (a, t) ∧ s.Leads t (b + k)

section Programs

variable {n k l : ℕ} {α β : Type}

/-- `return a`. -/
def ret (a : α) : Locked n n α where
  run s := .ok (a, s)
  leads b s hs := ⟨a, s, rfl, by rw [hs], rfl, Nat.le_refl _⟩

/-- One program after another. -/
def Locked.bind (x : Locked n k α) (f : α → Locked k l β) : Locked n l β where
  run s := x.run s >>= fun r => (f r.1).run r.2
  leads b s hs := by
    obtain ⟨a, t, ha, ht⟩ := x.leads b s hs
    -- The second program is called deeper by the failures of the first one.
    have hle := ht.failures_le
    have hdepth := ht.depth
    obtain ⟨c, u, hc, hu⟩ := (f a).leads (b + (t.failures - s.failures)) t (by omega)
    refine ⟨c, u, by rw [ha]; exact hc, ?_, hu.memory.trans ht.memory, Nat.le_trans ht.mpos hu.mpos⟩
    have := hu.depth
    omega

/-- `vfs_biglock_acquire`. -/
def acquire : Locked n (n + 1) Unit where
  run s := .ok ((), { s with depth := s.depth + 1 })
  leads b s hs := by
    refine ⟨(), _, rfl, ?_, rfl, Nat.le_refl _⟩
    change s.depth + 1 + s.failures = b + (n + 1) + s.failures
    omega

/-- `vfs_biglock_release`. -/
def release : Locked (n + 1) n Unit where
  run s := do
    kassert (0 < s.depth)
    return ((), { s with depth := s.depth - 1 })
  leads b s hs := by
    refine ⟨(), { s with depth := s.depth - 1 }, ?_, ?_, rfl, Nat.le_refl _⟩
    · rw [kassert_bind (by omega)]
      rfl
    · change s.depth - 1 + s.failures = b + n + s.failures
      omega

/-- An operation that does not touch the lock. -/
def operation : Locked n n Result where
  run s := .ok (s.results s.pos, { s with pos := s.pos + 1 })
  leads _ s hs := ⟨_, _, rfl, congrArg (· + s.failures) hs, rfl, Nat.le_refl _⟩

/-- A test of the data. -/
def test : Locked n n Bool where
  run s := .ok (s.tests s.pos, { s with pos := s.pos + 1 })
  leads _ s hs := ⟨_, _, rfl, congrArg (· + s.failures) hs, rfl, Nat.le_refl _⟩

/-- The length of a loop. -/
def count : Locked n n ℕ where
  run s := .ok (s.counts s.pos, { s with pos := s.pos + 1 })
  leads _ s hs := ⟨_, _, rfl, congrArg (· + s.failures) hs, rfl, Nat.le_refl _⟩

/-- `m` iterations. -/
def iterate (body : Locked n n Unit) : ℕ → Locked n n Unit
  | 0 => ret ()
  | m + 1 => body.bind fun _ => iterate body m

/-- A loop. -/
def loop (body : Locked n n Unit) : Locked n n Unit := count.bind (iterate body)

theorem LockState.failures_succ (s : LockState) :
    ({ s with mpos := s.mpos + 1 } : LockState).failures =
      s.failures + if s.memory s.mpos then 0 else 1 := by
  unfold LockState.failures
  rw [List.range_succ, List.countP_append, List.countP_singleton]
  cases s.memory s.mpos <;> rfl

/-- The `kmalloc` of `emufs_loadvnode`: what follows a failure goes on one level less deep than the
lock is, which is counted. -/
def kmallocVnode (ok : Locked (n + 1) k α) (failed : Locked n k α) : Locked (n + 1) k α where
  run s :=
    let t := { s with mpos := s.mpos + 1 }
    if s.memory s.mpos then ok.run t else failed.run t
  leads b s hs := by
    have hcount := s.failures_succ
    cases hm : s.memory s.mpos with
    | true =>
      obtain ⟨a, t, ha, ht⟩ := ok.leads b { s with mpos := s.mpos + 1 } hs
      refine ⟨a, t, by rw [if_pos rfl]; exact ha, ?_, ht.memory, Nat.le_of_succ_le ht.mpos⟩
      have := ht.depth
      rw [hcount, hm, if_pos rfl] at this
      omega
    | false =>
      obtain ⟨a, t, ha, ht⟩ := failed.leads (b + 1) { s with mpos := s.mpos + 1 } (by
        change s.depth = b + 1 + n
        omega)
      refine ⟨a, t, by rw [if_neg Bool.false_ne_true]; exact ha, ?_, ht.memory,
        Nat.le_of_succ_le ht.mpos⟩
      have := ht.depth
      rw [hcount, hm, if_neg Bool.false_ne_true] at this
      omega

/-- Release the lock and return. -/
def releaseAnd (a : α) : Locked (n + 1) n α := release.bind fun _ => ret a

/-- An operation with the lock around it. -/
def lockedOperation : Locked n n Result :=
  acquire.bind fun _ => operation.bind fun result => releaseAnd result

/-- A function of the file system of a vnode: SFS, emufs, or one that does not touch the lock. -/
def dispatch (sfs emufs : Locked n n Result) : Locked n n Result :=
  test.bind fun isSfs =>
  if isSfs then sfs
  else test.bind fun isEmufs => if isEmufs then emufs else operation

end Programs

section Reclaim

variable {n : ℕ}

/-! ## The end of a vnode -/

/-- `sfs_itrunc`. -/
def sfsItrunc : Locked n n Result :=
  acquire.bind fun _ =>
  test.bind fun pastEof =>
  if pastEof then
    -- the indirect block is read
    operation.bind fun result =>
    if result.isSome then releaseAnd result
    else test.bind fun iddirty =>
    if iddirty then
      operation.bind fun result =>
      if result.isSome then releaseAnd result else releaseAnd none
    else releaseAnd none
  else releaseAnd none

/-- `sfs_reclaim`. -/
def sfsReclaim : Locked n n Result :=
  acquire.bind fun _ =>
  test.bind fun busy =>
  if busy then releaseAnd (some .ebusy)
  else test.bind fun unlinked =>
  (if unlinked then sfsItrunc else ret none).bind fun result =>
  if result.isSome then releaseAnd result
  else operation.bind fun result =>
  if result.isSome then releaseAnd result
  else releaseAnd none

/-- `emufs_reclaim`. -/
def emufsReclaim : Locked n n Result :=
  acquire.bind fun _ =>
  test.bind fun busy =>
  if busy then releaseAnd (some .ebusy)
  -- emu_close
  else operation.bind fun result =>
  if result.isSome then releaseAnd result
  else releaseAnd none

/-- `vnode_decref`. -/
def vnodeDecref : Locked n n Unit :=
  test.bind fun destroy =>
  if destroy then (dispatch sfsReclaim emufsReclaim).bind fun _ => ret ()
  else ret ()

end Reclaim

section SfsEntries

variable {n : ℕ}

/-! ## SFS -/

/-- `sfs_read`. -/
def sfsRead : Locked n n Result := lockedOperation

/-- `sfs_write`. -/
def sfsWrite : Locked n n Result := lockedOperation

/-- `sfs_fsync`. -/
def sfsFsync : Locked n n Result := lockedOperation

/-- `sfs_gettype`. It panics for a type that is none. -/
def sfsGettype : Locked n n Result :=
  acquire.bind fun _ =>
  test.bind fun isFile =>
  if isFile then releaseAnd none else releaseAnd none

/-- `sfs_stat`. -/
def sfsStat : Locked n n Result := sfsGettype

/-- `sfs_truncate`. -/
def sfsTruncate : Locked n n Result := sfsItrunc

/-- `sfs_creat`. -/
def sfsCreat : Locked n n Result :=
  acquire.bind fun _ =>
  -- sfs_dir_findname
  operation.bind fun result =>
  if result ≠ none ∧ result ≠ some .enoent then releaseAnd result
  else test.bind fun excl =>
  if result = none ∧ excl then releaseAnd (some .eexist)
  else if result = none then
    -- sfs_loadvnode
    operation.bind fun result =>
    if result.isSome then releaseAnd result else releaseAnd none
  -- sfs_makeobj
  else operation.bind fun result =>
  if result.isSome then releaseAnd result
  -- sfs_dir_link
  else operation.bind fun result =>
  if result.isSome then vnodeDecref.bind fun _ => releaseAnd result
  else releaseAnd none

/-- `sfs_link`. -/
def sfsLink : Locked n n Result :=
  acquire.bind fun _ =>
  test.bind fun isDir =>
  if isDir then releaseAnd (some .einval)
  else operation.bind fun result =>
  if result.isSome then releaseAnd result else releaseAnd none

/-- `sfs_remove`. -/
def sfsRemove : Locked n n Result :=
  acquire.bind fun _ =>
  -- sfs_lookonce
  operation.bind fun result =>
  if result.isSome then releaseAnd result
  -- sfs_dir_unlink
  else operation.bind fun result =>
  vnodeDecref.bind fun _ => releaseAnd result

/-- `sfs_rename`. It panics if the entry that it has made cannot be unlinked again. -/
def sfsRename : Locked n n Result :=
  acquire.bind fun _ =>
  -- sfs_lookonce
  operation.bind fun result =>
  if result.isSome then releaseAnd result
  -- sfs_dir_link
  else operation.bind fun result =>
  if result.isSome then vnodeDecref.bind fun _ => releaseAnd result
  -- sfs_dir_unlink
  else operation.bind fun result =>
  if result.isSome then
    operation.bind fun _ =>
    vnodeDecref.bind fun _ => releaseAnd result
  else vnodeDecref.bind fun _ => releaseAnd none

/-- `sfs_lookparent`. -/
def sfsLookparent : Locked n n Result :=
  acquire.bind fun _ =>
  test.bind fun isDir =>
  if !isDir then releaseAnd (some .enotdir)
  else test.bind fun fits =>
  if !fits then releaseAnd (some .enametoolong)
  else releaseAnd none

/-- `sfs_lookup`. -/
def sfsLookup : Locked n n Result :=
  acquire.bind fun _ =>
  test.bind fun isDir =>
  if !isDir then releaseAnd (some .enotdir)
  -- sfs_lookonce
  else operation.bind fun result =>
  if result.isSome then releaseAnd result else releaseAnd none

/-- `sfs_getroot`. -/
def sfsGetroot : Locked n n Result :=
  acquire.bind fun _ =>
  -- sfs_loadvnode
  operation.bind fun result =>
  if result.isSome then releaseAnd result
  else test.bind fun isDir =>
  if !isDir then releaseAnd (some .einval) else releaseAnd none

/-- `sfs_sync_vnodes`. -/
def sfsSyncVnodes : Locked n n Result :=
  (loop (sfsFsync.bind fun _ => ret ())).bind fun _ => ret none

/-- `sfs_sync`. -/
def sfsSync : Locked n n Result :=
  acquire.bind fun _ =>
  sfsSyncVnodes.bind fun result =>
  if result.isSome then releaseAnd result
  -- sfs_sync_freemap
  else operation.bind fun result =>
  if result.isSome then releaseAnd result
  -- sfs_sync_superblock
  else operation.bind fun result =>
  if result.isSome then releaseAnd result else releaseAnd none

/-- `sfs_getvolname`. -/
def sfsGetvolname : Locked n n Unit := acquire.bind fun _ => release

/-- `sfs_unmount`. -/
def sfsUnmount : Locked n n Result :=
  acquire.bind fun _ =>
  test.bind fun busy =>
  if busy then releaseAnd (some .ebusy) else releaseAnd none

/-- `sfs_domount`. -/
def sfsDomount : Locked n n Result :=
  acquire.bind fun _ =>
  test.bind fun blocksize =>
  if !blocksize then releaseAnd (some .enxio)
  else test.bind fun created =>
  if !created then releaseAnd (some .enomem)
  -- the superblock
  else operation.bind fun result =>
  if result.isSome then releaseAnd result
  else test.bind fun magic =>
  if !magic then releaseAnd (some .einval)
  else test.bind fun bitmap =>
  if !bitmap then releaseAnd (some .enomem)
  -- sfs_freemapio
  else operation.bind fun result =>
  if result.isSome then releaseAnd result else releaseAnd none

end SfsEntries

section EmufsEntries

variable {n : ℕ}

/-! ## emufs -/

/-- `emufs_loadvnode`. Where `kmalloc` fails it releases `e_lock` only. -/
def emufsLoadvnode : Locked n n Result :=
  acquire.bind fun _ =>
  test.bind fun found =>
  if found then releaseAnd none
  else kmallocVnode
    -- vnode_init
    (operation.bind fun result =>
    if result.isSome then releaseAnd result
    -- vnodearray_add
    else operation.bind fun result =>
    if result.isSome then releaseAnd result else releaseAnd none)
    (ret (some .enomem))

/-- `emufs_creat` and `emufs_lookup`, after the checks of the device. -/
def emufsOpen : Locked n n Result :=
  -- emu_open
  operation.bind fun result =>
  if result.isSome then ret result
  else emufsLoadvnode.bind fun result =>
  -- emu_close
  if result.isSome then operation.bind fun _ => ret result
  else ret none

/-- `emufs_creat`. -/
def emufsCreat : Locked n n Result := emufsOpen

/-- `emufs_lookup`. -/
def emufsLookup : Locked n n Result := emufsOpen

/-- `emufs_lookparent`. -/
def emufsLookparent : Locked n n Result :=
  test.bind fun slash =>
  if !slash then
    test.bind fun fits => if !fits then ret (some .enametoolong) else ret none
  else test.bind fun fits =>
  if !fits then ret (some .enametoolong) else emufsLookup

end EmufsEntries

section VfsEntries

variable {n : ℕ}

/-! ## The vfs layer -/

/-- `FSOP_GETROOT`. -/
def fsopGetroot : Locked n n Result := dispatch sfsGetroot operation

/-- `FSOP_GETVOLNAME`. -/
def fsopGetvolname : Locked n n Unit :=
  test.bind fun isSfs => if isSfs then sfsGetvolname else ret ()

/-- `FSOP_SYNC`. -/
def fsopSync : Locked n n Result := dispatch sfsSync operation

/-- `FSOP_UNMOUNT`. -/
def fsopUnmount : Locked n n Result := dispatch sfsUnmount operation

/-- `VOP_GETTYPE`. -/
def vopGettype : Locked n n Result := dispatch sfsGettype operation

/-- `vfs_getroot`. It asks for the volume names of the file systems on the way. -/
def vfsGetroot : Locked n n Result :=
  (loop fsopGetvolname).bind fun _ =>
  test.bind fun mounted =>
  if mounted then fsopGetroot else operation

/-- `badnames`. -/
def badnames : Locked n n Bool := (loop fsopGetvolname).bind fun _ => test

/-- `vfs_sync`. -/
def vfsSync : Locked n n Result :=
  acquire.bind fun _ =>
  (loop (test.bind fun mounted => if mounted then fsopSync.bind fun _ => ret () else ret ())).bind
    fun _ => releaseAnd none

/-- `vfs_doadd`. -/
def vfsDoadd : Locked n n Result :=
  acquire.bind fun _ =>
  -- the allocations
  operation.bind fun result =>
  if result.isSome then releaseAnd result
  else test.bind fun hasFs =>
  (if hasFs then fsopGetvolname else ret ()).bind fun _ =>
  badnames.bind fun bad =>
  if bad then releaseAnd (some .eexist)
  -- knowndevarray_add
  else operation.bind fun result =>
  if result.isSome then releaseAnd result else releaseAnd none

/-- `vfs_mount`. -/
def vfsMount (mountfunc : Locked (n + 1) (n + 1) Result) : Locked n n Result :=
  acquire.bind fun _ =>
  -- findmount
  operation.bind fun result =>
  if result.isSome then releaseAnd result
  else test.bind fun busy =>
  if busy then releaseAnd (some .ebusy)
  else mountfunc.bind fun result =>
  if result.isSome then releaseAnd result
  else fsopGetvolname.bind fun _ => releaseAnd none

/-- `vfs_swapon`. -/
def vfsSwapon : Locked n n Result :=
  -- kstrdup, for a name with a colon
  operation.bind fun result =>
  if result.isSome then ret result
  else acquire.bind fun _ =>
  operation.bind fun result =>
  if result.isSome then releaseAnd result
  else test.bind fun busy =>
  if busy then releaseAnd (some .ebusy) else releaseAnd none

/-- `vfs_unmount`. -/
def vfsUnmount : Locked n n Result :=
  acquire.bind fun _ =>
  operation.bind fun result =>
  if result.isSome then releaseAnd result
  else test.bind fun mounted =>
  if !mounted then releaseAnd (some .einval)
  else fsopSync.bind fun result =>
  if result.isSome then releaseAnd result
  else fsopUnmount.bind fun result =>
  if result.isSome then releaseAnd result else releaseAnd none

/-- `vfs_swapoff`. -/
def vfsSwapoff : Locked n n Result :=
  acquire.bind fun _ =>
  operation.bind fun result =>
  if result.isSome then releaseAnd result
  else test.bind fun swap =>
  if !swap then releaseAnd (some .einval) else releaseAnd none

/-- The body of the loop of `vfs_unmountall`. -/
def unmountOne : Locked n n Unit :=
  test.bind fun mounted =>
  if !mounted then ret ()
  else fsopSync.bind fun result =>
  if result.isSome then
    fsopSync.bind fun result =>
    if result.isSome then ret () else fsopUnmount.bind fun _ => ret ()
  else fsopUnmount.bind fun _ => ret ()

/-- `vfs_unmountall`. -/
def vfsUnmountall : Locked n n Result :=
  acquire.bind fun _ =>
  (loop unmountOne).bind fun _ => releaseAnd none

/-- `getdevice`. -/
def getdevice : Locked n n Result :=
  test.bind fun relative =>
  -- vfs_getcurdir
  if relative then operation
  else test.bind fun named =>
  if named then
    vfsGetroot.bind fun result =>
    if result.isSome then ret result else ret none
  else test.bind fun slash =>
  -- the boot file system, if there is one
  if slash then operation
  -- vfs_getcurdir
  else operation.bind fun result =>
  if result.isSome then ret result
  else fsopGetroot.bind fun result =>
  vnodeDecref.bind fun _ =>
  if result.isSome then ret result else ret none

/-- `vfs_lookparent`. -/
def vfsLookparent : Locked n n Result :=
  acquire.bind fun _ =>
  getdevice.bind fun result =>
  if result.isSome then releaseAnd result
  else test.bind fun empty =>
  (if empty then ret (some .einval) else dispatch sfsLookparent emufsLookparent).bind fun result =>
  vnodeDecref.bind fun _ => releaseAnd result

/-- `vfs_lookup`. -/
def vfsLookup : Locked n n Result :=
  acquire.bind fun _ =>
  getdevice.bind fun result =>
  if result.isSome then releaseAnd result
  else test.bind fun empty =>
  if empty then releaseAnd none
  else (dispatch sfsLookup emufsLookup).bind fun result =>
  vnodeDecref.bind fun _ => releaseAnd result

/-- `vfs_open` up to the vnode. -/
def openVnode : Locked n n Result :=
  test.bind fun creat =>
  if creat then
    vfsLookparent.bind fun result =>
    if result.isSome then ret result
    else (dispatch sfsCreat emufsCreat).bind fun result =>
    vnodeDecref.bind fun _ => ret result
  else vfsLookup

/-- `vfs_open`. -/
def vfsOpen : Locked n n Result :=
  test.bind fun accmode =>
  if !accmode then ret (some .einval)
  else openVnode.bind fun result =>
  if result.isSome then ret result
  -- VOP_EACHOPEN
  else operation.bind fun result =>
  if result.isSome then vnodeDecref.bind fun _ => ret result
  else test.bind fun trunc =>
  if trunc then
    test.bind fun canwrite =>
    (if !canwrite then ret (some .einval) else dispatch sfsTruncate operation).bind fun result =>
    if result.isSome then vnodeDecref.bind fun _ => ret result else ret none
  else ret none

/-- `vfs_close`. -/
def vfsClose : Locked n n Result := vnodeDecref.bind fun _ => ret none

/-- `vfs_remove`, `vfs_symlink`, `vfs_mkdir` and `vfs_rmdir`, with their operation on the parent. -/
def onParent (op : Locked n n Result) : Locked n n Result :=
  vfsLookparent.bind fun result =>
  if result.isSome then ret result
  else op.bind fun result =>
  vnodeDecref.bind fun _ => ret result

/-- `vfs_remove`. -/
def vfsRemove : Locked n n Result := onParent (dispatch sfsRemove operation)

/-- `vfs_symlink`. -/
def vfsSymlink : Locked n n Result := onParent operation

/-- `vfs_mkdir`. -/
def vfsMkdir : Locked n n Result := onParent operation

/-- `vfs_rmdir`. -/
def vfsRmdir : Locked n n Result := onParent operation

/-- `vfs_rename` and `vfs_link`, with their first translation and their operation. -/
def onTwo (first op : Locked n n Result) : Locked n n Result :=
  first.bind fun result =>
  if result.isSome then ret result
  else vfsLookparent.bind fun result =>
  if result.isSome then vnodeDecref.bind fun _ => ret result
  else test.bind fun xdev =>
  if xdev then
    vnodeDecref.bind fun _ =>
    vnodeDecref.bind fun _ => ret (some .exdev)
  else op.bind fun result =>
  vnodeDecref.bind fun _ =>
  vnodeDecref.bind fun _ => ret result

/-- `vfs_rename`. -/
def vfsRename : Locked n n Result := onTwo vfsLookparent (dispatch sfsRename operation)

/-- `vfs_link`. -/
def vfsLink : Locked n n Result := onTwo vfsLookup (dispatch sfsLink operation)

/-- `vfs_readlink`. -/
def vfsReadlink : Locked n n Result :=
  vfsLookup.bind fun result =>
  if result.isSome then ret result
  -- VOP_READLINK
  else operation.bind fun result =>
  vnodeDecref.bind fun _ => ret result

/-- The old directory, if there is one, is dropped. -/
def decrefOld : Locked n n Unit := test.bind fun old => if old then vnodeDecref else ret ()

/-- `vfs_setcurdir`. -/
def vfsSetcurdir : Locked n n Result :=
  vopGettype.bind fun result =>
  if result.isSome then ret result
  else test.bind fun isDir =>
  if !isDir then ret (some .enotdir)
  else decrefOld.bind fun _ => ret none

/-- `vfs_clearcurdir`. -/
def vfsClearcurdir : Locked n n Result := decrefOld.bind fun _ => ret none

/-- `vfs_chdir`. -/
def vfsChdir : Locked n n Result :=
  vfsLookup.bind fun result =>
  if result.isSome then ret result
  else vfsSetcurdir.bind fun result =>
  vnodeDecref.bind fun _ => ret result

/-- `vfs_getcwd`. -/
def vfsGetcwd : Locked n n Result :=
  -- vfs_getcurdir
  operation.bind fun result =>
  if result.isSome then ret result
  else fsopGetvolname.bind fun _ =>
  test.bind fun noName =>
  -- vfs_getdevname
  (if noName then acquire.bind fun _ => release else ret ()).bind fun _ =>
  -- uiomove, uiomove and VOP_NAMEFILE
  operation.bind fun result =>
  if result.isSome then vnodeDecref.bind fun _ => ret result
  else operation.bind fun result =>
  if result.isSome then vnodeDecref.bind fun _ => ret result
  else operation.bind fun result =>
  vnodeDecref.bind fun _ => ret result

/-- `vfs_setbootfs`. -/
def vfsSetbootfs : Locked n n Result :=
  acquire.bind fun _ =>
  test.bind fun badname =>
  if badname then releaseAnd (some .einval)
  else vfsChdir.bind fun result =>
  if result.isSome then releaseAnd result
  -- vfs_getcurdir
  else operation.bind fun result =>
  if result.isSome then releaseAnd result
  else decrefOld.bind fun _ => releaseAnd none

/-- `vfs_clearbootfs`. -/
def vfsClearbootfs : Locked n n Result :=
  acquire.bind fun _ =>
  decrefOld.bind fun _ => releaseAnd none

/-- `emufs_addtovfs`. -/
def emufsAddtovfs : Locked n n Result :=
  -- the allocations
  operation.bind fun result =>
  if result.isSome then ret result
  else emufsLoadvnode.bind fun result =>
  if result.isSome then ret result
  -- vfs_addfs
  else vfsDoadd.bind fun result =>
  if result.isSome then vnodeDecref.bind fun _ => ret result else ret none

end VfsEntries

/-! ## All entry points -/

/-- The functions of the vfs layer, of SFS and of emufs that are called from outside, apart from
those that only do what `operation` stands for. -/
inductive VfsEntry
  | vfsSync | vfsAdddev | vfsAddfs | vfsMountSfs | vfsSwapon | vfsUnmount | vfsSwapoff
  | vfsUnmountall | vfsSetbootfs | vfsClearbootfs | vfsLookparent | vfsLookup | vfsOpen | vfsClose
  | vfsRemove | vfsRename | vfsLink | vfsSymlink | vfsReadlink | vfsMkdir | vfsRmdir | vfsSetcurdir
  | vfsClearcurdir | vfsChdir | vfsGetcwd | vfsGetroot | vnodeDecref
  | sfsRead | sfsWrite | sfsFsync | sfsGettype | sfsStat | sfsTruncate | sfsReclaim | sfsCreat
  | sfsLink | sfsRemove | sfsRename | sfsLookparent | sfsLookup | sfsGetroot | sfsSync
  | sfsGetvolname | sfsUnmount | sfsDomount
  | emufsReclaim | emufsCreat | emufsLookup | emufsLookparent | emufsLoadvnode | emufsAddtovfs
  | other
  deriving DecidableEq, Repr

/-- The program of an entry point. -/
def VfsEntry.program : VfsEntry → Locked 0 0 Result
  | .vfsSync => BigLock.vfsSync
  | .vfsAdddev => BigLock.vfsDoadd
  | .vfsAddfs => BigLock.vfsDoadd
  | .vfsMountSfs => BigLock.vfsMount BigLock.sfsDomount
  | .vfsSwapon => BigLock.vfsSwapon
  | .vfsUnmount => BigLock.vfsUnmount
  | .vfsSwapoff => BigLock.vfsSwapoff
  | .vfsUnmountall => BigLock.vfsUnmountall
  | .vfsSetbootfs => BigLock.vfsSetbootfs
  | .vfsClearbootfs => BigLock.vfsClearbootfs
  | .vfsLookparent => BigLock.vfsLookparent
  | .vfsLookup => BigLock.vfsLookup
  | .vfsOpen => BigLock.vfsOpen
  | .vfsClose => BigLock.vfsClose
  | .vfsRemove => BigLock.vfsRemove
  | .vfsRename => BigLock.vfsRename
  | .vfsLink => BigLock.vfsLink
  | .vfsSymlink => BigLock.vfsSymlink
  | .vfsReadlink => BigLock.vfsReadlink
  | .vfsMkdir => BigLock.vfsMkdir
  | .vfsRmdir => BigLock.vfsRmdir
  | .vfsSetcurdir => BigLock.vfsSetcurdir
  | .vfsClearcurdir => BigLock.vfsClearcurdir
  | .vfsChdir => BigLock.vfsChdir
  | .vfsGetcwd => BigLock.vfsGetcwd
  | .vfsGetroot => BigLock.vfsGetroot
  | .vnodeDecref => BigLock.vnodeDecref.bind fun _ => ret none
  | .sfsRead => BigLock.sfsRead
  | .sfsWrite => BigLock.sfsWrite
  | .sfsFsync => BigLock.sfsFsync
  | .sfsGettype => BigLock.sfsGettype
  | .sfsStat => BigLock.sfsStat
  | .sfsTruncate => BigLock.sfsTruncate
  | .sfsReclaim => BigLock.sfsReclaim
  | .sfsCreat => BigLock.sfsCreat
  | .sfsLink => BigLock.sfsLink
  | .sfsRemove => BigLock.sfsRemove
  | .sfsRename => BigLock.sfsRename
  | .sfsLookparent => BigLock.sfsLookparent
  | .sfsLookup => BigLock.sfsLookup
  | .sfsGetroot => BigLock.sfsGetroot
  | .sfsSync => BigLock.sfsSync
  | .sfsGetvolname => BigLock.sfsGetvolname.bind fun _ => ret none
  | .sfsUnmount => BigLock.sfsUnmount
  | .sfsDomount => BigLock.sfsDomount
  | .emufsReclaim => BigLock.emufsReclaim
  | .emufsCreat => BigLock.emufsCreat
  | .emufsLookup => BigLock.emufsLookup
  | .emufsLookparent => BigLock.emufsLookparent
  | .emufsLoadvnode => BigLock.emufsLoadvnode
  | .emufsAddtovfs => BigLock.emufsAddtovfs
  | .other => operation

/-- A call of an entry point. -/
def VfsEntry.exec (e : VfsEntry) : LockState → Except Stop (Result × LockState) := e.program.run

/-- The `kmalloc`s of `emufs_loadvnode` between the two states have all succeeded. -/
def LockState.Supplied (s t : LockState) : Prop :=
  ∀ i, s.mpos ≤ i → i < t.mpos → s.memory i = true

theorem LockState.Leads.failures_eq_iff {s t : LockState} {d : ℕ} (h : s.Leads t d) :
    t.failures = s.failures ↔ s.Supplied t := by
  obtain ⟨k, hk⟩ := Nat.exists_eq_add_of_le h.mpos
  have hcount : t.failures =
      s.failures + (List.range k).countP fun i => !s.memory (s.mpos + i) := by
    unfold LockState.failures
    rw [h.memory, hk, List.range_add, List.countP_append, List.countP_map]
    rfl
  rw [hcount, Nat.add_eq_left, List.countP_eq_zero]
  unfold LockState.Supplied
  constructor
  · intro hall i hlo hhi
    have := hall (i - s.mpos) (List.mem_range.mpr (by omega))
    rwa [Nat.add_sub_cancel' hlo, Bool.not_eq_true, Bool.not_eq_false'] at this
  · intro hall i hi
    have := hall (s.mpos + i) (Nat.le_add_right _ _) (by have := List.mem_range.mp hi; omega)
    rw [this]
    exact Bool.false_ne_true

/-- **The depth at a return** is the one of the call exactly if no `kmalloc` of `emufs_loadvnode`
failed in between, and it is never decremented below zero: the call returns. -/
theorem depth_exec_iff (e : VfsEntry) (s : LockState) :
    ∃ r t, e.exec s = .ok (r, t) ∧ (t.depth = s.depth ↔ s.Supplied t) := by
  obtain ⟨r, t, hr, ht⟩ := e.program.leads s.depth s rfl
  refine ⟨r, t, hr, ?_⟩
  rw [← ht.failures_eq_iff]
  have := ht.depth
  omega

/-- The state at the call of an entry point, with no memory for the vnodes of emufs. -/
def outOfMemory : LockState where
  depth := 0
  results := fun _ => none
  tests := fun _ => false
  counts := fun _ => 0
  memory := fun _ => false
  pos := 0
  mpos := 0

/-- `emufs_loadvnode` without memory returns `ENOMEM` with the lock held. -/
theorem not_depth_outOfMemory :
    ¬∀ r t, VfsEntry.emufsLoadvnode.exec outOfMemory = .ok (r, t) →
      t.depth = outOfMemory.depth := by
  intro h
  have := h (some .enomem) { outOfMemory with depth := 1, pos := 1, mpos := 1 } rfl
  exact absurd this (by decide)

end BigLock

end Os161
