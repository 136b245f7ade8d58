import Os161.Vm.Addrspace

set_option autoImplicit false

/-!
# Loading programs on demand

`loadelf.c` and the part of `vm_fault` that fills a page from the program file. A file is the list
of its bytes.

* `loadElf`: the headers are read and every `PT_LOAD` header becomes a region; no page is loaded.
* `computeMemsz`, `computeOffset`, `loadPageFromElf`: what the first touch of a page reads.
* `firstTouchPage`: the bytes of a page after its first touch.
-/

namespace Os161

/-- `VOP_READ` of `n` bytes at `offset`: short at the end of the file, empty beyond the largest size
a file can have. -/
def vopRead (file : List UInt8) (offset n : ℕ) : List UInt8 :=
  if 0xffffffff < offset then [] else (file.drop offset).take n

/-- A big-endian field of `n` bytes at position `i`. -/
def field (b : List UInt8) (i n : ℕ) : ℕ :=
  ((b.drop i).take n).foldl (fun x c => x * 256 + c.toNat) 0

/-- The fields of `Elf_Ehdr` that `load_elf` reads. -/
structure ElfEhdr where
  eIdent : List UInt8
  eType : ℕ
  eMachine : ℕ
  eVersion : ℕ
  eEntry : ℕ
  ePhoff : ℕ
  ePhentsize : ℕ
  ePhnum : ℕ
  deriving DecidableEq, Repr

/-- The fields of `Elf_Phdr` that `load_elf` reads, and `p_filesz`, which it does not. -/
structure ElfPhdr where
  pType : ℕ
  pOffset : ℕ
  pVaddr : ℕ
  pFilesz : ℕ
  pMemsz : ℕ
  pFlags : ℕ
  deriving DecidableEq, Repr

/-- The layout of `Elf32_Ehdr`, 52 bytes. -/
def ElfEhdr.ofBytes (b : List UInt8) : ElfEhdr where
  eIdent := b.take 16
  eType := field b 16 2
  eMachine := field b 18 2
  eVersion := field b 20 4
  eEntry := field b 24 4
  ePhoff := field b 28 4
  ePhentsize := field b 42 2
  ePhnum := field b 44 2

/-- The layout of `Elf32_Phdr`, 32 bytes. -/
def ElfPhdr.ofBytes (b : List UInt8) : ElfPhdr where
  pType := field b 0 4
  pOffset := field b 4 4
  pVaddr := field b 8 4
  pFilesz := field b 16 4
  pMemsz := field b 20 4
  pFlags := field b 24 4

/-- The failures of `load_elf`; `undefined` is a region without pages. -/
inductive ElfError
  | enoexec
  | undefined
  deriving DecidableEq, Repr

/-- The executable header; `none` is a short read. -/
def readEhdr (file : List UInt8) : Option ElfEhdr :=
  let b := vopRead file 0 52
  if b.length = 52 then some (.ofBytes b) else none

/-- Program header `i`, at `e_phoff + i*e_phentsize` computed on words. -/
def readPhdr (file : List UInt8) (eh : ElfEhdr) (i : ℕ) : Option ElfPhdr :=
  let b := vopRead file (wadd eh.ePhoff (i * eh.ePhentsize)) 32
  if b.length = 32 then some (.ofBytes b) else none

/-- The check of the executable header: a 32-bit big-endian MIPS executable. -/
def ElfEhdr.accepted (eh : ElfEhdr) : Bool :=
  eh.eIdent.take 7 = [0x7f, 0x45, 0x4c, 0x46, 1, 2, 1] ∧ eh.eVersion = 1 ∧ eh.eType = 2 ∧
    eh.eMachine = 8

/-- `PT_LOAD`. -/
def ptLoad : ℕ := 1

/-- `PT_NULL`, `PT_PHDR` and `PT_MIPS_REGINFO`. -/
def skippedTypes : List ℕ := [0, 6, 0x70000000]

/-- `as_define_region` for a program header, with the flags masked by `PF_R`, `PF_W`, `PF_X`. -/
def defineSegment (as : Addrspace) (ph : ElfPhdr) (b : RegionBlocks) : Option Addrspace :=
  asDefineRegion as ph.pVaddr ph.pOffset ph.pMemsz (ph.pFlags &&& 4) (ph.pFlags &&& 2)
    (ph.pFlags &&& 1) b

/-- The loop of `load_elf` over `n` program headers from `i` on; `blocks i` is what `kmalloc`
returns for header `i`. -/
def loadSegments (file : List UInt8) (eh : ElfEhdr) (blocks : ℕ → RegionBlocks) :
    (n i : ℕ) → Addrspace → Except ElfError Addrspace
  | 0, _, as => .ok as
  | n + 1, i, as =>
    match readPhdr file eh i with
    | none => .error .enoexec
    | some ph =>
      if ph.pType ∈ skippedTypes then loadSegments file eh blocks n (i + 1) as
      else if ph.pType = ptLoad then
        match defineSegment as ph (blocks i) with
        | none => .error .undefined
        | some as' => loadSegments file eh blocks n (i + 1) as'
      else .error .enoexec

/-- `load_elf` of the file `v` with the bytes `file`. -/
def loadElf (file : List UInt8) (v : FileId) (blocks : ℕ → RegionBlocks) (as : Addrspace) :
    Except ElfError (Addrspace × ℕ) :=
  match readEhdr file with
  | none => .error .enoexec
  | some eh =>
    if eh.accepted then do
      let as' ← loadSegments file eh blocks eh.ePhnum 0 as
      return (asCompleteLoad as' v, eh.eEntry)
    else .error .enoexec

/-- The address space that `runprogram` sets up. -/
def programSpace (file : List UInt8) (v : FileId) (blocks : ℕ → RegionBlocks)
    (stackBlocks : RegionBlocks) : Except ElfError Addrspace := do
  let (as, _) ← loadElf file v blocks asCreate
  return asDefineStack as stackBlocks

/-! ## The first touch of a page -/

/-- `compute_memsz`, the bytes to read for page `i = 1, 2, …` of a segment, on words. -/
def computeMemsz (seg : SegmentEntry) (i : ℕ) : ℕ :=
  if seg.size < pageSize then seg.size
  else if i = 1 then pageSize - pageOffset seg.offset.toNat
  else if i = seg.npages then
    wsub pageSize (wsub (wsub (seg.npages * pageSize) seg.size) (pageOffset seg.offset.toNat))
  else pageSize

/-- `compute_offset`, the file position for page `i`. Masking with `PAGE_FRAME` also clears the
upper half of the 64-bit position. -/
def computeOffset (offset i : ℕ) : ℕ :=
  if i = 1 then offset else pageFrame (offset + (i - 1) * pageSize)

/-- Where `vm_fault` reads the bytes to: on the first page behind the offset in the page. -/
def loadAddress (seg : SegmentEntry) (fa i : ℕ) : ℕ :=
  if i = 1 then fa + pageOffset seg.offset.toNat else fa

/-- `copycheck`: the bytes to copy lie in user space. -/
def copycheck (vaddr len : ℕ) : Bool := vaddr + len ≤ userspaceTop

/-- `load_page_from_elf`: the bytes that arrive at `vaddr`. On a short read those that were read
have arrived all the same. -/
def loadPageFromElf (file : List UInt8) (vaddr offset memsize filesize : ℕ) : List UInt8 :=
  let b := vopRead file offset (min filesize memsize)
  if copycheck vaddr b.length then b else []

/-- The bytes that `vm_fault` has `load_page_from_elf` read for page `i` at `fa`; it passes
`filesz = memsz`. -/
def elfBytes (file : List UInt8) (seg : SegmentEntry) (fa i : ℕ) : List UInt8 :=
  loadPageFromElf file (loadAddress seg fa i) (computeOffset seg.offset.toNat i)
    (computeMemsz seg i) (computeMemsz seg i)

/-- **The bytes of page `i` at `fa` after its first touch**: cleared, then filled unless the segment
is the stack. -/
def firstTouchPage (file : List UInt8) (seg : SegmentEntry) (fa i o : ℕ) : UInt8 :=
  if 0 ≤ seg.offset ∧ loadAddress seg fa i ≤ fa + o then
    (elfBytes file seg fa i).getD (fa + o - loadAddress seg fa i) 0
  else 0

/-- The byte that the first touch of its page leaves at `a`; `none` is `EFAULT`. -/
def firstTouchByte (file : List UInt8) (as : Addrspace) (a : ℕ) : Option UInt8 := do
  let seg ← findSegment as (pageFrame a)
  let j ← findPte as seg (pageFrame a)
  return firstTouchPage file seg (pageFrame a) (pageNumber as seg j) (pageOffset a)

end Os161
