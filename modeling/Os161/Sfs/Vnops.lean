import Os161.Sfs.Fs

set_option autoImplicit false

/-!
# The operations of a volume

`sfs_dir.c`, `sfs_inode.c`, `sfs_vnops.c` and `sfs_fsops.c`.

* `sfsDirFindname`, `sfsDirLink`, `sfsDirUnlink`: the directory.
* `sfsLoadvnode`, `sfsReclaim`: the vnodes.
* `sfsCreat`, `sfsLink`, `sfsRemove`, `sfsRename`, `sfsLookup`: the names.
* `sfsSync`, `vfsUnmount`, `sfsDomount`: the volume.
-/

namespace Os161

open Buffer

namespace SfsFs

/-! ## Vnodes -/

/-- `VOP_INCREF`. -/
def vnodeIncref (ino : ℕ) : SfsM Unit :=
  modifyFs fun m => m.setSv ino { m.sv ino with refcount := (m.sv ino).refcount + 1 }

/-- One reference less. -/
def dropRef (ino : ℕ) : SfsM Unit :=
  modifyFs fun m => m.setSv ino { m.sv ino with refcount := (m.sv ino).refcount - 1 }

/-- `sfs_sync_inode`. -/
def sfsSyncInode (ino : ℕ) : SfsM Unit := do
  let m ← getFs
  if (m.sv ino).dirty then do
    sfsWriteblock ino fun m => m.inode ino
    modifyFs fun m => m.setSv ino { m.sv ino with dirty := false }
  else pure ()

/-- The vnode leaves the table. -/
def removeVnode (ino : ℕ) : SfsM Unit := do
  let m ← getFs
  if ino ∈ m.vnodes then modifyFs fun m => { m with vnodes := m.vnodes.erase ino }
  else panic .notInPool

/-- `sfs_reclaim` with the last reference. -/
def reclaimLast (ino : ℕ) : SfsM Unit := do
  let m ← getFs
  (if sfiLinkcount (m.inode ino) = 0 then sfsItrunc ino 0 else pure ())
  sfsSyncInode ino
  let m ← getFs
  (if sfiLinkcount (m.inode ino) = 0 then sfsBfree ino else pure ())
  removeVnode ino

/-- `sfs_reclaim`. -/
def sfsReclaim (ino : ℕ) : SfsM Unit := do
  let m ← getFs
  if (m.sv ino).refcount ≠ 1 then do
    kassert (1 < (m.sv ino).refcount)
    dropRef ino
    throw .ebusy
  else reclaimLast ino

/-- `VOP_DECREF`. -/
def vnodeDecref (ino : ℕ) : SfsM Unit := do
  let m ← getFs
  kassert (0 < (m.sv ino).refcount)
  if 1 < (m.sv ino).refcount then dropRef ino
  else do
    let _ ← status (sfsReclaim ino)

/-- The search of `sfs_loadvnode`. -/
def findVnode (ino forcetype : ℕ) : List ℕ → SfsM Bool
  | [] => return false
  | i :: vnodes => do
    let used ← sfsBused i
    if used = false then panic .unallocated
    else if i = ino then do
      kassert (forcetype = sfsTypeInval)
      vnodeIncref ino
      return true
    else findVnode ino forcetype vnodes

/-- The type of a vnode that is loaded. -/
def loadType (ino forcetype : ℕ) : SfsM Unit := do
  (if forcetype ≠ sfsTypeInval then do
      let m ← getFs
      kassert (sfiType (m.inode ino) = sfsTypeInval)
      modifyFs fun m => m.setInode ino (setType (m.inode ino) forcetype)
    else pure ())
  let m ← getFs
  if sfiType (m.inode ino) = sfsTypeFile ∨ sfiType (m.inode ino) = sfsTypeDir then pure ()
  else panic .invalidType

/-- `sfs_loadvnode` for an inode that is not resident. -/
def loadInode (ino forcetype : ℕ) : SfsM Unit := do
  let got ← kmalloc
  if got = false then throw .enomem
  else do
    let used ← sfsBused ino
    if used = false then panic .unallocated
    else do
      let data ← sfsReadblock ino
      modifyFs fun m => m.setSv ino ⟨data, false, 1⟩
      loadType ino forcetype
      -- vnodearray_add
      let got ← kmalloc
      if got = false then throw .enomem
      else modifyFs fun m => { m with vnodes := m.vnodes ++ [ino] }

/-- `sfs_loadvnode`. -/
def sfsLoadvnode (ino forcetype : ℕ) : SfsM Unit := do
  let m ← getFs
  let found ← findVnode ino forcetype m.vnodes
  if found then pure () else loadInode ino forcetype

/-- `sfs_makeobj`. -/
def sfsMakeobj (type : ℕ) : SfsM ℕ := do
  let ino ← sfsBalloc
  match ← status (sfsLoadvnode ino type) with
  | none => return ino
  | some e => do
    sfsBfree ino
    throw e

/-! ## The directory -/

/-- `sfs_readdir`. -/
def sfsReaddir (dir slot : ℕ) : SfsM Buffer :=
  sfsMetaio dir (slot * sfsDirentrySize % wordSize) (fun _ => 0) sfsDirentrySize .read

/-- `sfs_writedir`. -/
def sfsWritedir (dir slot : ℕ) (sd : Buffer) : SfsM Unit := do
  let _ ← sfsMetaio dir (slot * sfsDirentrySize % wordSize) sd sfsDirentrySize .write

/-- `sfs_dir_nentries`. -/
def sfsDirNentries (dir : ℕ) : SfsM ℕ := do
  let m ← getFs
  kassert (sfiType (m.inode dir) = sfsTypeDir)
  if sfiSize (m.inode dir) % sfsDirentrySize ≠ 0 then panic .invalidSize
  else return sfiSize (m.inode dir) / sfsDirentrySize

/-- What `sfs_dir_findname` hands back: the slot and the inode of the name, if it was found, and the
empty slot seen last. -/
structure DirScan where
  found : Option (ℕ × ℕ)
  emptyslot : Option ℕ

/-- One slot in `sfs_dir_findname`. -/
def scanSlot (dir : ℕ) (name : CString) (slot : ℕ) (scan : DirScan) : SfsM DirScan := do
  let tsd ← sfsReaddir dir slot
  if sfdIno tsd = sfsNoino then return { scan with emptyslot := some slot }
  else if sfdName tsd = name.bytes then do
    kassert (scan.found = none)
    return { scan with found := some (slot, sfdIno tsd) }
  else return scan

/-- `sfs_dir_findname`. It returns `ENOENT` if the name was not found. -/
def sfsDirFindname (dir : ℕ) (name : CString) : SfsM DirScan := do
  let nentries ← sfsDirNentries dir
  loop (scanSlot dir name) nentries 0 ⟨none, none⟩

/-- `sfs_dir_link`, with the slot. -/
def sfsDirLink (dir : ℕ) (name : CString) (ino : ℕ) : SfsM ℕ := do
  let scan ← sfsDirFindname dir name
  if scan.found.isSome then throw .eexist
  else if sfsNamelen < name.bytes.length + 1 then throw .enametoolong
  else do
    let slot ← match scan.emptyslot with
      | some slot => pure slot
      | none => sfsDirNentries dir
    sfsWritedir dir slot (direntry ino name.bytes)
    return slot

/-- `sfs_dir_unlink`. -/
def sfsDirUnlink (dir slot : ℕ) : SfsM Unit := sfsWritedir dir slot (direntry sfsNoino [])

/-- `sfs_lookonce`, with the slot. -/
def sfsLookonce (dir : ℕ) (name : CString) : SfsM (ℕ × ℕ) := do
  let scan ← sfsDirFindname dir name
  match scan.found with
  | none => throw .enoent
  | some (slot, ino) => do
    sfsLoadvnode ino sfsTypeInval
    let m ← getFs
    if sfiLinkcount (m.inode ino) = 0 then panic .linkcountZero else return (ino, slot)

/-- `sfi_linkcount++` or `--`, and `sv_dirty = true`. -/
def changeLinkcount (ino : ℕ) (f : ℕ → ℕ) : SfsM Unit :=
  modifyFs fun m => m.setInode ino (setLinkcount (m.inode ino) (f (sfiLinkcount (m.inode ino))))

/-- `sfs_creat` for a name that does not exist. -/
def creatNew (dir : ℕ) (name : CString) : SfsM ℕ := do
  let ino ← sfsMakeobj sfsTypeFile
  match ← attempt (sfsDirLink dir name ino) with
  | .error e => do
    vnodeDecref ino
    throw e
  | .ok _ => do
    changeLinkcount ino (· + 1)
    return ino

/-- `sfs_creat`. -/
def sfsCreat (dir : ℕ) (name : CString) (excl : Bool) : SfsM ℕ := do
  let scan ← sfsDirFindname dir name
  match scan.found with
  | some (_, ino) =>
    if excl then throw .eexist
    else do
      sfsLoadvnode ino sfsTypeInval
      return ino
  | none => creatNew dir name

/-- `sfs_link`. -/
def sfsLink (dir : ℕ) (name : CString) (file : ℕ) : SfsM Unit := do
  let m ← getFs
  if sfiType (m.inode file) = sfsTypeDir then throw .einval
  else do
    let _ ← sfsDirLink dir name file
    changeLinkcount file (· + 1)

/-- `sfs_remove`. -/
def sfsRemove (dir : ℕ) (name : CString) : SfsM Unit := do
  let (victim, slot) ← sfsLookonce dir name
  match ← status (sfsDirUnlink dir slot) with
  | some e => do
    vnodeDecref victim
    throw e
  | none => do
    let m ← getFs
    kassert (0 < sfiLinkcount (m.inode victim))
    changeLinkcount victim (· - 1)
    vnodeDecref victim

/-- `sfs_rename` from the label `puke_harder` on. -/
def pukeHarder (dir g1 slot2 : ℕ) (e : FsErr) : SfsM Unit := do
  match ← status (sfsDirUnlink dir slot2) with
  | some _ => panic .cannotRecover
  | none => do
    modifyFs fun m => m.setSv g1 { m.sv g1 with
      inode := setLinkcount (m.inode g1) (sfiLinkcount (m.inode g1) - 1) }
    vnodeDecref g1
    throw e

/-- `sfs_rename` with both slots. -/
def renameUnlink (dir g1 slot1 slot2 : ℕ) : SfsM Unit := do
  changeLinkcount g1 (· + 1)
  match ← status (sfsDirUnlink dir slot1) with
  | some e => pukeHarder dir g1 slot2 e
  | none => do
    let m ← getFs
    kassert (0 < sfiLinkcount (m.inode g1))
    changeLinkcount g1 (· - 1)
    vnodeDecref g1

/-- `sfs_rename`. -/
def sfsRename (dir : ℕ) (n1 n2 : CString) : SfsM Unit := do
  kassert (dir = sfsRootdirIno)
  let (g1, slot1) ← sfsLookonce dir n1
  let m ← getFs
  kassert (sfiType (m.inode g1) = sfsTypeFile)
  match ← attempt (sfsDirLink dir n2 g1) with
  | .error e => do
    vnodeDecref g1
    throw e
  | .ok slot2 => renameUnlink dir g1 slot1 slot2

/-- `sfs_lookup`. -/
def sfsLookup (dir : ℕ) (path : CString) : SfsM ℕ := do
  let m ← getFs
  if sfiType (m.inode dir) ≠ sfsTypeDir then throw .enotdir
  else do
    let (final, _) ← sfsLookonce dir path
    return final

/-- `sfs_getroot`. -/
def sfsGetroot : SfsM ℕ := do
  sfsLoadvnode sfsRootdirIno sfsTypeInval
  let m ← getFs
  if sfiType (m.inode sfsRootdirIno) ≠ sfsTypeDir then throw .einval else return sfsRootdirIno

/-! ## The volume -/

/-- `sfs_freemapio`. -/
def sfsFreemapio (rw : UioRw) : SfsM Unit := do
  let m ← getFs
  loop (fun j _ => match rw with
    | .read => do
      let data ← sfsReadblock (sfsFreemapStart + j)
      modifyFs fun m => { m with freemap := setFreemapData m.freemap j data }
    | .write => sfsWriteblock (sfsFreemapStart + j) fun m => freemapData m.freemap j)
    m.freemapBlocks 0 ()

/-- The loop of `sfs_sync_vnodes`. `sfs_fsync` is `sfs_sync_inode`, and its result is dropped. -/
def syncVnodes : List ℕ → SfsM Unit
  | [] => pure ()
  | ino :: vnodes => do
    let _ ← status (sfsSyncInode ino)
    syncVnodes vnodes

/-- `sfs_sync_vnodes`. -/
def sfsSyncVnodes : SfsM Unit := do
  let m ← getFs
  syncVnodes m.vnodes

/-- `sfs_sync_freemap`. -/
def sfsSyncFreemap : SfsM Unit := do
  let m ← getFs
  if m.freemapdirty then do
    sfsFreemapio .write
    modifyFs fun m => { m with freemapdirty := false }
  else pure ()

/-- `sfs_sync_superblock`. -/
def sfsSyncSuperblock : SfsM Unit := do
  let m ← getFs
  if m.superdirty then do
    sfsWriteblock sfsSuperBlock fun m => m.sb
    modifyFs fun m => { m with superdirty := false }
  else pure ()

/-- `sfs_sync`. -/
def sfsSync : SfsM Unit := do
  sfsSyncVnodes
  sfsSyncFreemap
  sfsSyncSuperblock

/-- `sfs_unmount`. -/
def sfsUnmount : SfsM Unit := do
  let m ← getFs
  if 0 < m.vnodes.length then throw .ebusy
  else do
    kassert (m.superdirty = false)
    kassert (m.freemapdirty = false)

/-- `vfs_unmount` of a device that holds a volume. -/
def vfsUnmount : SfsM Unit := do
  sfsSync
  sfsUnmount

/-- `sfs_domount` on a device with sectors of 512 bytes. -/
def sfsDomount : SfsM Unit := do
  -- sfs_fs_create
  let got ← kmalloc
  if got = false then throw .enomem
  else do
    modifyFs fun m => { m with superdirty := false, vnodes := [], freemapdirty := false }
    let sb ← sfsReadblock sfsSuperBlock
    modifyFs fun m => { m with sb := sb }
    if sbMagic sb ≠ sfsMagic then throw .einval
    else do
      -- the last byte of sb_volname
      modifyFs fun m => { m with sb := Function.update m.sb 39 0 }
      -- bitmap_create
      let got ← kmalloc
      if got = false then throw .enomem
      else do
        modifyFs fun m => { m with freemap := fun _ => false }
        sfsFreemapio .read

/-! ## Dispatch -/

/-- `VOP_READ`. -/
def vopRead (ino : ℕ) (u : Uio) : SfsM (Option FsErr × Uio) := do
  let m ← getFs
  if sfiType (m.inode ino) = sfsTypeDir then return (some .eisdir, u)
  else do
    kassert (u.rw = .read)
    sfsIo ino u

/-- `VOP_WRITE`. -/
def vopWrite (ino : ℕ) (u : Uio) : SfsM (Option FsErr × Uio) := do
  let m ← getFs
  if sfiType (m.inode ino) = sfsTypeDir then return (some .eisdir, u)
  else do
    kassert (u.rw = .write)
    sfsIo ino u

/-- `VOP_TRUNCATE`. -/
def vopTruncate (ino : ℕ) (len : ℤ) : SfsM Unit := do
  let m ← getFs
  if sfiType (m.inode ino) = sfsTypeDir then throw .eisdir else sfsItrunc ino len

/-- An operation of a directory. -/
def dirop {α : Type} (dir : ℕ) (op : SfsM α) : SfsM α := do
  let m ← getFs
  if sfiType (m.inode dir) = sfsTypeDir then op else throw .enotdir

end SfsFs

end Os161
