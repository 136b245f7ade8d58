import Os161.Lib.Loop
import Os161.Machine.Stop
import Os161.Machine.Word

set_option autoImplicit false

/-!
# The kernel heap

`kmalloc.c`, over any supply of whole pages. A page of small blocks has a free list inside the page
and a `pageref` that heads it; here the free list is the list of its offsets, its head is
`freelist_offset` and its length is `nfree`. Every `pageref` is on the list `allbase` and on the list
of its size, which grow at the head together and lose the same members, so that the second is the
first one restricted to the size. A call runs without interruption.

* `PageAlloc`: `alloc_kpages` and `free_kpages`.
* `kmalloc`, `kfree`; `kfreeHeap`: the part of `kfree` that decides which page goes back.
-/

namespace Os161

open Loop

/-- A supply of pages: `alloc n` gives the kernel address of `n` pages, `0` on failure. -/
structure PageAlloc (σ : Type) where
  alloc : ℕ → σ → ℕ × σ
  free : ℕ → σ → σ

/-- `struct pageref`: its place among the pagerefs, the page, the type and the free list. -/
structure Pageref where
  ref : ℕ
  page : ℕ
  blktype : ℕ
  freelist : List ℕ
  deriving DecidableEq, Repr

/-- The file-scope variables of `kmalloc.c`: `kheaproots[r].page` (`0` for `NULL`), the bits of all
roots in one row, and the list `allbase`. -/
structure Kheap where
  refPage : ℕ → ℕ
  inuse : ℕ → Bool
  allbase : List Pageref

/-- `NUM_PAGEREFPAGES`. -/
def numPagerefpages : ℕ := 16

/-- `NPAGEREFS_PER_PAGE`. -/
def npagerefsPerPage : ℕ := 256

/-- `LARGEST_SUBPAGE_SIZE`. -/
def largestSubpageSize : ℕ := 2048

/-- `sizes`. -/
def sizes : List ℕ := [16, 32, 64, 128, 256, 512, 1024, 2048]

/-- `sizes[blktype]`. -/
def blockSize (blktype : ℕ) : ℕ := sizes.getD blktype 0

/-- `blocktype`: the first size that is large enough. -/
def blocktype (clientsz : ℕ) : ℕ := sizes.findIdx fun size => clientsz ≤ size

/-- The heap before its first use. -/
def Kheap.empty : Kheap := ⟨fun _ => 0, fun _ => false, []⟩

/-- The number of blocks on a page. -/
def blocksPerPage (blktype : ℕ) : ℕ := pageSize / blockSize blktype

/-- The free list of a fresh page: from the last block down to the first. -/
def freshList (blktype : ℕ) : List ℕ :=
  ((List.range (blocksPerPage blktype)).map fun i => i * blockSize blktype).reverse

/-- The walk over the pages of one size to the first one with a free block, whose first free block
is taken. -/
def takeBlock (blktype : ℕ) : List Pageref → Option (ℕ × List Pageref)
  | [] => none
  | pr :: prs =>
    match pr.freelist with
    | o :: fl =>
      if pr.blktype = blktype then some (pr.page + o, { pr with freelist := fl } :: prs)
      else (takeBlock blktype prs).map fun (a, prs') => (a, pr :: prs')
    | [] => (takeBlock blktype prs).map fun (a, prs') => (a, pr :: prs')

section Kmalloc

variable {σ : Type} (P : PageAlloc σ)

/-- `allocpageref`, with `allocpagerefpage` for a root that has no page yet. The bit stays set when
there is no page to be had. -/
def allocpageref (h : Kheap) (s : σ) : Option ℕ × Kheap × σ :=
  match firstIdx (fun i => !h.inuse i) 0 (numPagerefpages * npagerefsPerPage) with
  | none => (none, h, s)
  | some i =>
    let h₁ := { h with inuse := Function.update h.inuse i true }
    let r := i / npagerefsPerPage
    if h.refPage r = 0 then
      let (va, s₁) := P.alloc 1 s
      if va = 0 then (none, h₁, s₁)
      else (some i, { h₁ with refPage := Function.update h.refPage r va }, s₁)
    else (some i, h₁, s)

/-- `subpage_kmalloc`: a free block of a known page, or the first block of the free list of a fresh
page. -/
def subpageKmalloc (sz : ℕ) (h : Kheap) (s : σ) : ℕ × Kheap × σ :=
  let blktype := blocktype sz
  match takeBlock blktype h.allbase with
  | some (ptr, prs) => (ptr, { h with allbase := prs }, s)
  | none =>
    let (prpage, s₁) := P.alloc 1 s
    if prpage = 0 then (0, h, s₁)
    else
      match allocpageref P h s₁ with
      | (none, h₁, s₂) => (0, h₁, P.free prpage s₂)
      | (some ref, h₁, s₂) =>
        match takeBlock blktype (⟨ref, prpage, blktype, freshList blktype⟩ :: h₁.allbase) with
        | some (ptr, prs) => (ptr, { h₁ with allbase := prs }, s₂)
        | none => (0, h₁, s₂)

/-- `kmalloc`: the address of the block, `0` on failure. -/
def kmalloc (sz : ℕ) (h : Kheap) (s : σ) : ℕ × Kheap × σ :=
  if largestSubpageSize ≤ sz then
    let (address, s₁) := P.alloc (wadd sz (pageSize - 1) / pageSize) s
    (address, h, s₁)
  else subpageKmalloc P sz h s

/-- The page search of `subpage_kfree`. -/
def findPage (h : Kheap) (ptr : ℕ) : Option Pageref :=
  h.allbase.find? fun pr => pr.page ≤ ptr ∧ ptr < pr.page + pageSize

/-- `freepageref`. It stops at a root that has bits set but no page. -/
def freepageref (h : Kheap) (ref : ℕ) : Except Stop Kheap :=
  if ∃ r < ref / npagerefsPerPage, h.refPage r = 0 ∧
      ∃ j < npagerefsPerPage, h.inuse (r * npagerefsPerPage + j) = true then
    .error (.panic .kassert)
  else .ok { h with inuse := Function.update h.inuse ref false }

/-- `kfree` up to its call of `free_kpages`, and the address it passes if it makes this call: that
of the page whose last block is freed, or that of a block of whole pages. -/
def kfreeHeap (h : Kheap) (ptr : ℕ) : Except Stop (Kheap × Option ℕ) :=
  if ptr = 0 then .ok (h, none)
  else
    match findPage h ptr with
    | none => if ptr % pageSize = 0 then .ok (h, some ptr) else .error (.panic .kassert)
    | some pr =>
      let offset := ptr - pr.page
      if offset % blockSize pr.blktype ≠ 0 then .error (.panic .invalidFree)
      else if pr.freelist.length + 1 = blocksPerPage pr.blktype then do
        let h₁ ← freepageref h pr.ref
        return ({ h₁ with allbase := h.allbase.eraseP fun p => p.ref = pr.ref }, some pr.page)
      else .ok ({ h with
        allbase := h.allbase.map fun p =>
          if p.ref = pr.ref then { p with freelist := offset :: p.freelist } else p }, none)

/-- `kfree`. -/
def kfree (ptr : ℕ) (h : Kheap) (s : σ) : Except Stop (Kheap × σ) := do
  let (h₁, page) ← kfreeHeap h ptr
  return (h₁, page.elim s fun va => P.free va s)

end Kmalloc

end Os161
