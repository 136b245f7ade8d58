import Mathlib.Data.Nat.Bitwise
import Os161.Lib.Prog
import Os161.Sfs.Disk
import Os161.Sfs.Io

set_option autoImplicit false

/-!
# Mounted volumes

SFS with all its files: the in-memory inodes, the freemap, the superblock and the static buffers are
the memory of programs that send the requests of `sfs_rwblock` to the device. `Lifetime` has that
there is one vnode for an inode, so that the number of the inode stands for the `struct sfs_vnode`.

* `SfsFs`: the memory; `SfsM`: the programs.
* `sfsBalloc`, `sfsBmap`, `sfsItrunc`: the blocks.
* `sfsIo`, `sfsMetaio`: file and directory contents.
-/

namespace Os161

open Buffer

/-- `struct sfs_vnode`: `sv_i`, `sv_dirty` and `vn_refcount`. -/
structure SfsVnode where
  inode : Buffer
  dirty : Bool
  refcount : ℕ

/-- `struct sfs_fs`: `sfs_sb`, `sfs_superdirty`, the numbers of the inodes in `sfs_vnodes`, the
`struct sfs_vnode` of an inode, the bits of `sfs_freemap`, and `sfs_freemapdirty`; the static buffers
of `sfs_partialio`, `sfs_bmap`, `sfs_itrunc` and `sfs_metaio`; which calls of `kmalloc` from now on
succeed. -/
structure SfsFs where
  sb : Buffer
  superdirty : Bool
  vnodes : List ℕ
  sv : ℕ → SfsVnode
  freemap : ℕ → Bool
  freemapdirty : Bool
  iobuf : Buffer
  idbuf : Buffer
  truncbuf : Buffer
  metaiobuf : Buffer
  memory : ℕ → Bool

/-- A program of SFS: it returns a result or an error. -/
abbrev SfsM (α : Type) : Type := ExceptT FsErr (Program FsPanic SfsFs SectorIo SectorReply) α

/-- A C string. -/
structure CString where
  bytes : List UInt8
  ne_zero : 0 ∉ bytes
  deriving DecidableEq

section Disk

/-! ## The structures on the disk -/

/-- `SFS_MAGIC`. -/
def sfsMagic : ℕ := 0xabadf001

/-- `SFS_BITSPERBLOCK`. -/
def sfsBitsperblock : ℕ := 4096

/-- `SFS_NAMELEN`. -/
def sfsNamelen : ℕ := 60

/-- `SFS_SUPER_BLOCK`. -/
def sfsSuperBlock : ℕ := 0

/-- `SFS_FREEMAP_START`. -/
def sfsFreemapStart : ℕ := 2

/-- `SFS_NOINO`. -/
def sfsNoino : ℕ := 0

/-- `SFS_ROOTDIR_INO`. -/
def sfsRootdirIno : ℕ := 1

/-- `SFS_TYPE_INVAL`. -/
def sfsTypeInval : ℕ := 0

/-- `SFS_TYPE_FILE`. -/
def sfsTypeFile : ℕ := 1

/-- `SFS_TYPE_DIR`. -/
def sfsTypeDir : ℕ := 2

/-- `sizeof(struct sfs_direntry)`. -/
def sfsDirentrySize : ℕ := 64

variable (i sd : Buffer)

/-- `sb_magic`. -/
def sbMagic : ℕ := word i 0

/-- `sb_nblocks`. -/
def sbNblocks : ℕ := word i 1

/-- `sfi_size`. -/
def sfiSize : ℕ := word i 0

/-- `sfi_type`. -/
def sfiType : ℕ := word i 1 / 2 ^ 16

/-- `sfi_linkcount`. -/
def sfiLinkcount : ℕ := word i 1 % 2 ^ 16

/-- `sfi_direct[k]`. -/
def sfiDirect (k : ℕ) : ℕ := word i (2 + k)

/-- `sfi_indirect`. -/
def sfiIndirect : ℕ := word i 17

/-- `sfi_type = t`. -/
def setType (t : ℕ) : Buffer := setWord i 1 (t % 2 ^ 16 * 2 ^ 16 + sfiLinkcount i)

/-- `sfi_linkcount = n`. -/
def setLinkcount (n : ℕ) : Buffer := setWord i 1 (sfiType i * 2 ^ 16 + n % 2 ^ 16)

/-- `sfd_ino`. -/
def sfdIno : ℕ := word sd 0

/-- The bytes of a string that begins at `k` and ends within `n` bytes. -/
def cstr (k : ℕ) : ℕ → List UInt8
  | 0 => []
  | n + 1 => if sd k = 0 then [] else sd k :: cstr (k + 1) n

/-- `sfd_name`, with a terminator in its last byte. -/
def sfdName : List UInt8 := cstr (Function.update sd (sfsDirentrySize - 1) 0) 4 sfsNamelen

/-- A directory entry. -/
def direntry (ino : ℕ) (name : List UInt8) : Buffer := setWord (fun o => name.getD (o - 4) 0) 0 ino

/-- The bits of block `j` of the freemap. -/
def freemapData (freemap : ℕ → Bool) (j : ℕ) : Buffer := fun o =>
  UInt8.ofNat (Nat.ofBits fun k : Fin 8 => freemap (j * sfsBitsperblock + o * 8 + k))

/-- The freemap with block `j` replaced. -/
def setFreemapData (freemap : ℕ → Bool) (j : ℕ) (data : Buffer) : ℕ → Bool := fun b =>
  if b / sfsBitsperblock = j then (data (b % sfsBitsperblock / 8)).toNat.testBit (b % 8)
  else freemap b

end Disk

namespace SfsFs

variable {α β : Type}

/-- `SFS_FS_NBLOCKS`. -/
def nblocks (m : SfsFs) : ℕ := sbNblocks m.sb

/-- `SFS_FREEMAPBITS`. -/
def freemapBits (m : SfsFs) : ℕ := wadd m.nblocks (sfsBitsperblock - 1) / sfsBitsperblock * sfsBitsperblock

/-- `SFS_FREEMAPBLOCKS`. -/
def freemapBlocks (m : SfsFs) : ℕ := m.freemapBits / sfsBitsperblock

/-- The `struct sfs_vnode` of an inode is changed. -/
def setSv (m : SfsFs) (ino : ℕ) (sv : SfsVnode) : SfsFs := { m with sv := Function.update m.sv ino sv }

/-- `sv_i` is changed, and `sv_dirty` set. -/
def setInode (m : SfsFs) (ino : ℕ) (i : Buffer) : SfsFs :=
  m.setSv ino { m.sv ino with inode := i, dirty := true }

/-- The in-memory inode. -/
def inode (m : SfsFs) (ino : ℕ) : Buffer := (m.sv ino).inode

/-! ## Programs -/

/-- The memory. -/
def getFs : SfsM SfsFs := ExceptT.lift Program.get

/-- The memory is changed. -/
def modifyFs (f : SfsFs → SfsFs) : SfsM Unit := ExceptT.lift (Program.modify f)

/-- `panic`. -/
def panic (p : FsPanic) : SfsM α := ExceptT.lift (Program.stop p)

/-- `KASSERT`. -/
def kassert (p : Prop) [Decidable p] : SfsM Unit := if p then pure () else panic .kassert

/-- What is returned. -/
def attempt (x : SfsM α) : SfsM (Except FsErr α) := ExceptT.lift x.run

/-- The result code. -/
def status (x : SfsM α) : SfsM (Option FsErr) := do
  match ← attempt x with
  | .ok _ => pure none
  | .error e => pure (some e)

/-- A result code is returned. -/
def check : Option FsErr → SfsM Unit
  | none => pure ()
  | some e => throw e

/-- A part that does not use the memory. -/
def lift : Except FsPanic α → SfsM α
  | .ok a => pure a
  | .error p => panic p

/-- `left` iterations of a loop, from `i` on. -/
def loop (body : ℕ → β → SfsM β) : (left i : ℕ) → β → SfsM β
  | 0, _, b => pure b
  | left + 1, i, b => do
    let b ← body i b
    loop body left (i + 1) b

/-- `kmalloc`. -/
def kmalloc : SfsM Bool := do
  let m ← getFs
  modifyFs fun m => { m with memory := fun n => m.memory (n + 1) }
  return m.memory 0

/-! ## Blocks -/

/-- `sfs_rwblock`. -/
def sfsRwblock (q : SfsFs → SectorIo) : SfsM SectorReply := ExceptT.lift (Program.request q)

/-- `sfs_readblock`. -/
def sfsReadblock (block : ℕ) : SfsM Buffer := do
  let (e, u) ← sfsRwblock fun _ => ⟨sfsuio (fun _ => 0) block .read, rfl⟩
  check e
  return u.area

/-- `sfs_writeblock`. -/
def sfsWriteblock (block : ℕ) (data : SfsFs → Buffer) : SfsM Unit := do
  let (e, _) ← sfsRwblock fun m => ⟨sfsuio (data m) block .write, rfl⟩
  check e

/-- `bitmap_alloc`: the first clear bit. -/
def bitmapAlloc (m : SfsFs) : Option ℕ := (List.range m.freemapBits).find? fun b => !m.freemap b

/-- The bit of a block is set or cleared. -/
def setFreemap (m : SfsFs) (block : ℕ) (used : Bool) : SfsFs :=
  { m with freemap := Function.update m.freemap block used }

/-- `bitmap_unmark`. -/
def bitmapUnmark (block : ℕ) : SfsM Unit := do
  let m ← getFs
  kassert (block < m.freemapBits)
  kassert (m.freemap block = true)
  modifyFs fun m => m.setFreemap block false

/-- `sfs_clearblock`. -/
def sfsClearblock (block : ℕ) : SfsM Unit := sfsWriteblock block fun _ _ => 0

/-- `sfs_balloc` after the allocation of the bit. -/
def ballocClear (block : ℕ) : SfsM ℕ := do
  match ← status (sfsClearblock block) with
  | none => return block
  | some e => do
    bitmapUnmark block
    throw e

/-- `sfs_balloc`. -/
def sfsBalloc : SfsM ℕ := do
  let m ← getFs
  match m.bitmapAlloc with
  | none => throw .enospc
  | some block => do
    modifyFs fun m => { m.setFreemap block true with freemapdirty := true }
    if m.nblocks ≤ block then panic .invalidBlock else ballocClear block

/-- `sfs_bfree`. -/
def sfsBfree (block : ℕ) : SfsM Unit := do
  bitmapUnmark block
  modifyFs fun m => { m with freemapdirty := true }

/-- `sfs_bused`. -/
def sfsBused (block : ℕ) : SfsM Bool := do
  let m ← getFs
  if m.nblocks ≤ block then panic .busedRange else return m.freemap block

/-- The end of `sfs_bmap`: the block is handed back. -/
def handBack (block : ℕ) : SfsM ℕ :=
  if block = 0 then return 0
  else do
    let used ← sfsBused block
    if used then return block else panic .markedFree

/-- A direct block. -/
def bmapDirect (ino fileblock : ℕ) (doalloc : Bool) : SfsM ℕ := do
  let m ← getFs
  let block := sfiDirect (m.inode ino) fileblock
  if block = 0 ∧ doalloc then do
    let block ← sfsBalloc
    modifyFs fun m => m.setInode ino (setWord (m.inode ino) (2 + fileblock) block)
    handBack block
  else handBack block

/-- The indirect block, in `idbuf`: it is allocated or read. -/
def bmapIndirect (ino : ℕ) : SfsM ℕ := do
  let m ← getFs
  let idblock := sfiIndirect (m.inode ino)
  if idblock = 0 then do
    let idblock ← sfsBalloc
    modifyFs fun m => m.setInode ino (setWord (m.inode ino) 17 idblock)
    modifyFs fun m => { m with idbuf := fun _ => 0 }
    return idblock
  else do
    let data ← sfsReadblock idblock
    modifyFs fun m => { m with idbuf := data }
    return idblock

/-- The entry `idoff` of the indirect block `idblock`, which is in `idbuf`. -/
def bmapEntry (idblock idoff : ℕ) (doalloc : Bool) : SfsM ℕ := do
  let m ← getFs
  let block := word m.idbuf idoff
  if block = 0 ∧ doalloc then do
    let block ← sfsBalloc
    modifyFs fun m => { m with idbuf := setWord m.idbuf idoff block }
    sfsWriteblock idblock fun m => m.idbuf
    handBack block
  else handBack block

/-- `sfs_bmap`. -/
def sfsBmap (ino fileblock : ℕ) (doalloc : Bool) : SfsM ℕ :=
  if fileblock < sfsNdirect then bmapDirect ino fileblock doalloc
  else
    let idnum := (fileblock - sfsNdirect) / sfsDbperidb
    let idoff := (fileblock - sfsNdirect) % sfsDbperidb
    if sfsNindirect ≤ idnum then throw .efbig
    else do
      let m ← getFs
      if sfiIndirect (m.inode ino) = 0 ∧ doalloc = false then return 0
      else do
        let idblock ← bmapIndirect ino
        bmapEntry idblock idoff doalloc

/-! ## Truncation -/

/-- One direct block in `sfs_itrunc`. -/
def truncDirect (ino blocklen k : ℕ) : SfsM Unit := do
  let m ← getFs
  let block := sfiDirect (m.inode ino) k
  if blocklen ≤ k ∧ block ≠ 0 then do
    sfsBfree block
    modifyFs fun m => m.setInode ino (setWord (m.inode ino) (2 + k) 0)
  else pure ()

/-- One entry of the indirect block in `sfs_itrunc`, with `hasnonzero` and `iddirty`. -/
def truncEntry (blocklen k : ℕ) (flags : Bool × Bool) : SfsM (Bool × Bool) := do
  let m ← getFs
  let block := word m.truncbuf k
  if blocklen < sfsNdirect + k ∧ block ≠ 0 then do
    sfsBfree block
    modifyFs fun m => { m with truncbuf := setWord m.truncbuf k 0 }
    return (flags.1, true)
  else return (flags.1 || block ≠ 0, flags.2)

/-- The indirect block in `sfs_itrunc`. -/
def truncIndirect (ino blocklen idblock : ℕ) : SfsM Unit := do
  let data ← sfsReadblock idblock
  modifyFs fun m => { m with truncbuf := data }
  let (hasnonzero, iddirty) ← loop (truncEntry blocklen) sfsDbperidb 0 (false, false)
  if hasnonzero = false then do
    sfsBfree idblock
    modifyFs fun m => m.setInode ino (setWord (m.inode ino) 17 0)
  else if iddirty then sfsWriteblock idblock fun m => m.truncbuf
  else pure ()

/-- The length in blocks. `len` has 64 bits, and the result 32. -/
def truncBlocklen (len : ℤ) : ℕ := ((len + (sfsBlocksize - 1 : ℕ)).tdiv sfsBlocksize % wordSize).toNat

/-- `sfs_itrunc`. -/
def sfsItrunc (ino : ℕ) (len : ℤ) : SfsM Unit := do
  let blocklen := truncBlocklen len
  loop (fun k _ => truncDirect ino blocklen k) sfsNdirect 0 ()
  let m ← getFs
  let idblock := sfiIndirect (m.inode ino)
  (if blocklen < sfsNdirect + sfsDbperidb - 1 ∧ idblock ≠ 0 then truncIndirect ino blocklen idblock
    else pure ())
  modifyFs fun m => m.setInode ino (setWord (m.inode ino) 0 (len % wordSize).toNat)

/-! ## Contents -/

/-- The block that `sfs_partialio` works on, in `iobuf`. -/
def loadBlock (rw : UioRw) (diskblock : ℕ) : SfsM Unit :=
  if diskblock = 0 then do
    kassert (rw = .read)
    modifyFs fun m => { m with iobuf := fun _ => 0 }
  else do
    let data ← sfsReadblock diskblock
    modifyFs fun m => { m with iobuf := data }

/-- `sfs_partialio` from the `uiomove` on. -/
def movePartial (u : Uio) (diskblock skipstart len : ℕ) : SfsM (Option FsErr × Uio) := do
  let m ← getFs
  let (e, u, buf) ← lift (uiomove m.iobuf skipstart len u)
  modifyFs fun m => { m with iobuf := buf }
  if e.isSome then return (e, u)
  else if u.rw = .write then do
    let e ← status (sfsWriteblock diskblock fun m => m.iobuf)
    return (e, u)
  else return (none, u)

/-- `sfs_partialio`. -/
def sfsPartialio (ino : ℕ) (u : Uio) (skipstart len : ℕ) : SfsM (Option FsErr × Uio) := do
  kassert (skipstart + len ≤ sfsBlocksize)
  match ← attempt (sfsBmap ino (u.offset / sfsBlocksize % wordSize) (u.rw = .write)) with
  | .error e => return (some e, u)
  | .ok diskblock => do
    let e ← status (loadBlock u.rw diskblock)
    if e.isSome then return (e, u) else movePartial u diskblock skipstart len

/-- `sfs_blockio` on the block that `sfs_bmap` returned. -/
def blockTransfer (u : Uio) (diskblock : ℕ) : SfsM (Option FsErr × Uio) :=
  if diskblock = 0 then do
    kassert (u.rw = .read)
    lift (uiomovezeros sfsBlocksize u)
  else do
    kassert (sfsBlocksize ≤ u.resid)
    let (e, v) ← sfsRwblock fun _ => ⟨u.forDevice diskblock, rfl⟩
    return (e, v.restore u diskblock)

/-- `sfs_blockio`. -/
def sfsBlockio (ino : ℕ) (u : Uio) : SfsM (Option FsErr × Uio) := do
  match ← attempt (sfsBmap ino (u.offset / sfsBlocksize % wordSize) (u.rw = .write)) with
  | .error e => return (some e, u)
  | .ok diskblock => blockTransfer u diskblock

/-- The leading partial block of `sfs_io`. -/
def ioLead (ino : ℕ) (u : Uio) : SfsM (Option FsErr × Uio) :=
  let blkoff := u.offset % sfsBlocksize
  if blkoff = 0 then return (none, u)
  else sfsPartialio ino u blkoff (min (sfsBlocksize - blkoff) u.resid)

/-- The whole blocks of `sfs_io`. -/
def ioBlocks (ino : ℕ) : (nblocks : ℕ) → Uio → SfsM (Option FsErr × Uio)
  | 0, u => return (none, u)
  | n + 1, u => do
    let (e, u) ← sfsBlockio ino u
    if e.isSome then return (e, u) else ioBlocks ino n u

/-- The remaining partial block of `sfs_io`. -/
def ioTail (ino : ℕ) (u : Uio) : SfsM (Option FsErr × Uio) := do
  kassert (u.resid < sfsBlocksize)
  if u.resid = 0 then return (none, u) else sfsPartialio ino u 0 u.resid

/-- `sfs_io` between the check for the end of the file and the label `out`. -/
def ioTransfer (ino : ℕ) (u : Uio) : SfsM (Option FsErr × Uio) := do
  let (e, u) ← ioLead ino u
  if e.isSome ∨ u.resid = 0 then return (e, u)
  else do
    kassert (u.offset % sfsBlocksize = 0)
    let (e, u) ← ioBlocks ino (u.resid / sfsBlocksize) u
    if e.isSome then return (e, u) else ioTail ino u

/-- The end of `sfs_io`: the length of the file is adjusted, and what the end of the file cut off is
added to the residue. -/
def ioOut (ino : ℕ) (u : Uio) (origresid extraresid : ℕ) : SfsM Uio := do
  let m ← getFs
  (if u.resid ≠ origresid ∧ u.rw = .write ∧ sfiSize (m.inode ino) < u.offset then
      modifyFs fun m => m.setInode ino (setWord (m.inode ino) 0 (u.offset % wordSize))
    else pure ())
  return { u with resid := wadd u.resid extraresid }

/-- `sfs_io`. -/
def sfsIo (ino : ℕ) (u : Uio) : SfsM (Option FsErr × Uio) := do
  let m ← getFs
  let size := sfiSize (m.inode ino)
  let extra := if u.rw = .read then u.offset + u.resid - size else 0
  if u.rw = .read ∧ size ≤ u.offset then return (none, u)
  else do
    kassert (extra = 0 ∨ extra < u.resid)
    let (e, v) ← ioTransfer ino { u with resid := u.resid - extra }
    let v ← ioOut ino v u.resid extra
    return (e, v)

/-- `sfs_metaio`, with the data afterwards. -/
def sfsMetaio (ino actualpos : ℕ) (data : Buffer) (len : ℕ) (rw : UioRw) : SfsM Buffer := do
  let blockoffset := actualpos % sfsBlocksize
  let diskblock ← sfsBmap ino (actualpos / sfsBlocksize % wordSize) (rw = .write)
  if diskblock = 0 then do
    kassert (rw = .read)
    return blit data 0 len (fun _ => 0) 0
  else do
    let buf ← sfsReadblock diskblock
    modifyFs fun m => { m with metaiobuf := buf }
    match rw with
    | .read => return blit data 0 len buf blockoffset
    | .write => do
      modifyFs fun m => { m with metaiobuf := blit m.metaiobuf blockoffset len data 0 }
      sfsWriteblock diskblock fun m => m.metaiobuf
      let m ← getFs
      (if sfiSize (m.inode ino) < actualpos + len then
          modifyFs fun m => m.setInode ino (setWord (m.inode ino) 0 ((actualpos + len) % wordSize))
        else pure ())
      return data

end SfsFs

end Os161
