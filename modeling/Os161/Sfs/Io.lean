import Os161.Sfs.Bmap

set_option autoImplicit false

/-!
# File I/O

`sfs_io.c`: a request on a file is a partial block, whole blocks and another partial block.

* `sfsPartialio`, `sfsBlockio`, `sfsIo`: the code.
-/

namespace Os161

open Buffer

/-- The block that `sfs_partialio` works on, in `iobuf`. -/
def loadBlock (s : Sfs) (diskblock : ℕ) : Except FsPanic (Option FsErr × Sfs) :=
  if diskblock = 0 then .ok (none, { s with iobuf := fun _ => 0 })
  else do
    let (e, d, buf) ← sfsReadblock s.dev diskblock s.iobuf
    return (e, { s with dev := d, iobuf := buf })

/-- `sfs_partialio` from the `uiomove` on. -/
def movePartial (s : Sfs) (u : Uio) (diskblock skipstart len : ℕ) :
    Except FsPanic (Option FsErr × Sfs × Uio) := do
  let (e, u, buf) ← uiomove s.iobuf skipstart len u
  let s := { s with iobuf := buf }
  if e.isSome then return (e, s, u)
  else if u.rw = .write then
    let (e, d) ← sfsWriteblock s.dev diskblock s.iobuf
    return (e, { s with dev := d }, u)
  else return (none, s, u)

/-- `sfs_partialio` on the block that `sfs_bmap` returned. -/
def partialTransfer (s : Sfs) (u : Uio) (diskblock skipstart len : ℕ) :
    Except FsPanic (Option FsErr × Sfs × Uio) :=
  if diskblock = 0 ∧ u.rw = .write then .error .kassert
  else do
    let (e, s) ← loadBlock s diskblock
    if e.isSome then return (e, s, u) else movePartial s u diskblock skipstart len

/-- `sfs_partialio`. -/
def sfsPartialio (s : Sfs) (u : Uio) (skipstart len : ℕ) :
    Except FsPanic (Option FsErr × Sfs × Uio) :=
  if sfsBlocksize < skipstart + len then .error .kassert
  else do
    let fileblock := u.offset / sfsBlocksize % wordSize
    let (r, s) ← sfsBmap s fileblock (u.rw = .write)
    match r with
    | .error e => return (some e, s, u)
    | .ok diskblock => partialTransfer s u diskblock skipstart len

/-- The uio of `sfs_blockio` for the device. The product with the block size is one of 32-bit
numbers. -/
def Uio.forDevice (u : Uio) (diskblock : ℕ) : Uio :=
  { u with offset := diskblock * sfsBlocksize % wordSize, resid := sfsBlocksize }

/-- `sfs_blockio` restores `uio_offset` and `uio_resid` of `u`, updated by the I/O done. -/
def Uio.restore (v u : Uio) (diskblock : ℕ) : Uio :=
  { v with
    offset := v.offset - diskblock * sfsBlocksize % wordSize + u.offset
    resid := v.resid + u.resid - sfsBlocksize }

/-- `sfs_blockio` on the block that `sfs_bmap` returned. -/
def blockTransfer (s : Sfs) (u : Uio) (diskblock : ℕ) : Except FsPanic (Option FsErr × Sfs × Uio) :=
  if diskblock = 0 then
    if u.rw = .write then .error .kassert
    else do
      let (e, u) ← uiomovezeros sfsBlocksize u
      return (e, s, u)
  else if u.resid < sfsBlocksize then .error .kassert
  else do
    let (e, d, v) ← sfsRwblock s.dev (u.forDevice diskblock)
    return (e, { s with dev := d }, v.restore u diskblock)

/-- `sfs_blockio`. -/
def sfsBlockio (s : Sfs) (u : Uio) : Except FsPanic (Option FsErr × Sfs × Uio) := do
  let fileblock := u.offset / sfsBlocksize % wordSize
  let (r, s) ← sfsBmap s fileblock (u.rw = .write)
  match r with
  | .error e => return (some e, s, u)
  | .ok diskblock => blockTransfer s u diskblock

/-- The leading partial block of `sfs_io`. -/
def ioLead (s : Sfs) (u : Uio) : Except FsPanic (Option FsErr × Sfs × Uio) :=
  let blkoff := u.offset % sfsBlocksize
  if blkoff = 0 then .ok (none, s, u)
  else sfsPartialio s u blkoff (min (sfsBlocksize - blkoff) u.resid)

/-- The whole blocks of `sfs_io`. -/
def ioBlocks : (nblocks : ℕ) → Sfs → Uio → Except FsPanic (Option FsErr × Sfs × Uio)
  | 0, s, u => .ok (none, s, u)
  | n + 1, s, u => do
    let (e, s, u) ← sfsBlockio s u
    if e.isSome then return (e, s, u) else ioBlocks n s u

/-- The remaining partial block of `sfs_io`. -/
def ioTail (s : Sfs) (u : Uio) : Except FsPanic (Option FsErr × Sfs × Uio) :=
  if sfsBlocksize ≤ u.resid then .error .kassert
  else if u.resid = 0 then .ok (none, s, u)
  else sfsPartialio s u 0 u.resid

/-- `sfs_io` between the check for the end of the file and the label `out`. -/
def ioTransfer (s : Sfs) (u : Uio) : Except FsPanic (Option FsErr × Sfs × Uio) := do
  let (e, s, u) ← ioLead s u
  if e.isSome ∨ u.resid = 0 then return (e, s, u)
  else if u.offset % sfsBlocksize ≠ 0 then .error .kassert
  else
    let (e, s, u) ← ioBlocks (u.resid / sfsBlocksize) s u
    if e.isSome then return (e, s, u) else ioTail s u

/-- The end of `sfs_io`: the length of the file is adjusted, and what the end of the file cut off is
added to the residue. -/
def ioOut (s : Sfs) (u : Uio) (origresid extraresid : ℕ) : Sfs × Uio :=
  (if u.resid ≠ origresid ∧ u.rw = .write ∧ s.size < u.offset
    then { s with size := u.offset % wordSize } else s,
    { u with resid := wadd u.resid extraresid })

/-- What `sfs_io` cuts off a read because of the end of the file. -/
def extraresid (s : Sfs) (u : Uio) : ℕ := if u.rw = .read then u.offset + u.resid - s.size else 0

/-- `sfs_io`. -/
def sfsIo (s : Sfs) (u : Uio) : Except FsPanic (Option FsErr × Sfs × Uio) :=
  let extra := extraresid s u
  if u.rw = .read ∧ s.size ≤ u.offset then .ok (none, s, u)
  else if 0 < extra ∧ u.resid ≤ extra then .error .kassert
  else do
    let (e, s, u') ← ioTransfer s { u with resid := u.resid - extra }
    let (s, u') := ioOut s u' u.resid extra
    return (e, s, u')

section Lemmas

variable {u v : Uio} {b : ℕ}

/-- The sector is the block modulo 2^23. -/
theorem Uio.forDevice_forSector (hiov : sfsBlocksize ≤ u.iov.sum) :
    (u.forDevice b).ForSector (b % 2 ^ 23) where
  offset := by
    change b * 512 % 2 ^ 32 = b % 2 ^ 23 * 512
    omega
  resid := rfl
  iov := hiov

theorem Uio.Moved.restore (h : (u.forDevice b).Moved v sfsBlocksize)
    (hres : sfsBlocksize ≤ u.resid) : u.Moved (v.restore u b) sfsBlocksize where
  sum := h.sum
  pos := h.pos
  user := h.user
  valid := h.valid
  offset := by
    have := h.offset
    simp only [Uio.forDevice] at this
    simp only [Uio.restore]
    omega
  resid := by
    have := h.resid
    simp only [Uio.forDevice] at this
    simp only [Uio.restore]
    omega
  rw := h.rw

end Lemmas

end Os161
