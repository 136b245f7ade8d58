import Os161.Kmalloc.Apart

set_option autoImplicit false

/-!
# The kernel heap and its threads

`kmalloc.c` as several threads run it. A call holds `kmalloc_spinlock` from one of its steps to the
next and has it released while it is in `alloc_kpages` or `free_kpages`, so that other calls run
there. The free list of a page is in the memory: the first word of a free block is the address of the
next one, `freelist_offset` heads the list.

* `KernHeap`: the file-scope variables and the words of the memory; `allocpageref`, `freepageref`,
  `doalloc`, `initPage`, `subpageKfree`: the sections that hold the lock.
* `KCall`: a call whose lock is released, by the place it is at.
* `KSys`, `KAction`, `kstep`: the calls in progress, the live blocks and the pages of the heap.
-/

namespace Os161

open Loop

/-- `INVALID_OFFSET`. -/
def invalidOffset : ℕ := 0xffff

/-- The end of the addresses that `PADDR_TO_KVADDR` gives. -/
def kseg1 : ℕ := 0xa0000000

/-- `struct pageref`, less its two list pointers: the lists are `sizebases` and `allbase`. -/
structure PagerefRec where
  pageaddr : ℕ
  blktype : ℕ
  freelistOffset : ℕ
  nfree : ℕ
  deriving DecidableEq, Repr

/-- The file-scope variables of `kmalloc.c` and the memory. `refPage r` and `numinuse r` are fields of
`kheaproots[r]`, whose pagerefs have the numbers `256 r`, `256 r + 1`, …; `inuse` has the bits of all
roots in one row. `mem a` is the word at the address `a`. -/
structure KernHeap where
  refPage : ℕ → ℕ
  inuse : ℕ → Bool
  numinuse : ℕ → ℕ
  refs : ℕ → PagerefRec
  sizebases : ℕ → List ℕ
  allbase : List ℕ
  mem : ℕ → ℕ

namespace KernHeap

/-- The heap before its first use. -/
def init : KernHeap :=
  ⟨fun _ => 0, fun _ => false, fun _ => 0, fun _ => ⟨0, 0, 0, 0⟩, fun _ => [], [], fun _ => 0⟩

variable (h : KernHeap)

/-- The first clear bit of root `r`. -/
def rootSlot (r : ℕ) : Option ℕ :=
  if npagerefsPerPage ≤ h.numinuse r then none
  else firstIdx (fun i => !h.inuse i) (r * npagerefsPerPage) npagerefsPerPage

/-- `allocpageref` up to the place where it needs the page of the root: a free pageref. -/
def freeSlot : Option ℕ := (List.range numPagerefpages).findSome? h.rootSlot

/-- The pageref `i` is marked as used. -/
def mark (i : ℕ) : KernHeap :=
  { h with
    inuse := Function.update h.inuse i true
    numinuse := Function.update h.numinuse (i / npagerefsPerPage)
      (h.numinuse (i / npagerefsPerPage) + 1) }

/-- The address of the pageref `i`, sixteen bytes each. -/
def refAddr (i : ℕ) : ℕ := h.refPage (i / npagerefsPerPage) + i % npagerefsPerPage * 16

/-- The loop of `freepageref`, from the roots `rs` on: the root on whose page the pageref lies. -/
def freepagerefLoop (addr : ℕ) : List ℕ → Except Stop KernHeap
  | [] => .error (.panic .kassert)
  | r :: rs =>
    if h.refPage r = 0 then do
      kassert (h.numinuse r = 0)
      freepagerefLoop addr rs
    else
      let j := (addr - h.refPage r) / 16
      if h.refPage r ≤ addr ∧ j < npagerefsPerPage then do
        let i := r * npagerefsPerPage + j
        kassert (h.inuse i = true)
        kassert (0 < h.numinuse r)
        return { h with
          inuse := Function.update h.inuse i false
          numinuse := Function.update h.numinuse r (h.numinuse r - 1) }
      else freepagerefLoop addr rs

/-- `freepageref`. -/
def freepageref (i : ℕ) : Except Stop KernHeap :=
  h.freepagerefLoop (h.refAddr i) (List.range numPagerefpages)

/-- The search of `subpage_kmalloc`: the first page of the size that has a free block. -/
def findFree (blktype : ℕ) : List ℕ → Except Stop (Option ℕ)
  | [] => .ok none
  | i :: is => do
    kassert ((h.refs i).blktype = blktype)
    if 0 < (h.refs i).nfree then return some i else findFree blktype is

/-- `doalloc`: the first free block of the page. -/
def doalloc (i : ℕ) : Except Stop (ℕ × KernHeap) := do
  let pr := h.refs i
  kassert (pr.freelistOffset < pageSize)
  let retptr := pr.pageaddr + pr.freelistOffset
  let fl := h.mem retptr
  let nfree := pr.nfree - 1
  if fl ≠ 0 then do
    kassert (0 < nfree)
    let offset := wsub fl pr.pageaddr
    kassert (offset < pageSize)
    return (retptr, { h with
      refs := Function.update h.refs i ⟨pr.pageaddr, pr.blktype, offset, nfree⟩ })
  else do
    kassert (nfree = 0)
    return (retptr, { h with
      refs := Function.update h.refs i ⟨pr.pageaddr, pr.blktype, invalidOffset, nfree⟩ })

/-- The links of a fresh page: each block leads to the one below, the first one ends the list. -/
def linkPage (prpage size n : ℕ) (mem : ℕ → ℕ) : ℕ → ℕ :=
  forRange 1 (n - 1) (fun i mem => Function.update mem (prpage + i * size) (prpage + (i - 1) * size))
    (Function.update mem prpage 0)

/-- A fresh page of `subpage_kmalloc`: its pageref, its free list and the two lists of pagerefs. -/
def initPage (i prpage blktype : ℕ) : KernHeap :=
  let nfree := blocksPerPage blktype
  { h with
    refs := Function.update h.refs i ⟨prpage, blktype, (nfree - 1) * blockSize blktype, nfree⟩
    mem := linkPage prpage (blockSize blktype) nfree h.mem
    sizebases := Function.update h.sizebases blktype (i :: h.sizebases blktype)
    allbase := i :: h.allbase }

/-- The page search of `subpage_kfree`. -/
def findRef (ptr : ℕ) : List ℕ → Except Stop (Option ℕ)
  | [] => .ok none
  | i :: is => do
    kassert ((h.refs i).blktype < sizes.length)
    if (h.refs i).pageaddr ≤ ptr ∧ ptr < (h.refs i).pageaddr + pageSize then return some i
    else findRef ptr is

/-- `fill_deadbeef`. -/
def fillDeadbeef (ptr len : ℕ) (mem : ℕ → ℕ) : ℕ → ℕ :=
  forRange 0 (len / 4) (fun i mem => Function.update mem (ptr + i * 4) 0xdeadbeef) mem

/-- The freed block at `offset` becomes the first one of the free list of its page. -/
def pushFree (i offset : ℕ) : Except Stop KernHeap := do
  let pr := h.refs i
  let ptr := pr.pageaddr + offset
  let next := if pr.freelistOffset = invalidOffset then 0 else pr.pageaddr + pr.freelistOffset
  kassert (ptr ≠ next)
  let nfree := pr.nfree + 1
  kassert (nfree ≤ blocksPerPage pr.blktype)
  return { h with
    mem := Function.update (fillDeadbeef ptr (blockSize pr.blktype) h.mem) ptr next
    refs := Function.update h.refs i ⟨pr.pageaddr, pr.blktype, offset, nfree⟩ }

/-- `remove_lists`. -/
def removeLists (i blktype : ℕ) : KernHeap :=
  { h with
    sizebases := Function.update h.sizebases blktype ((h.sizebases blktype).erase i)
    allbase := h.allbase.erase i }

/-- What `subpage_kfree` leaves to do: the pointer is on no heap page, the page stays, or its last
block was freed and the page goes back. -/
inductive Kfreed
  | notSubpage
  | kept
  | emptied (prpage : ℕ)
  deriving DecidableEq, Repr

/-- `subpage_kfree`, up to its call of `free_kpages`. -/
def subpageKfree (ptr : ℕ) : Except Stop (Kfreed × KernHeap) := do
  match ← h.findRef ptr h.allbase with
  | none => return (.notSubpage, h)
  | some i =>
    let pr := h.refs i
    let offset := ptr - pr.pageaddr
    if offset % blockSize pr.blktype ≠ 0 then .error (.panic .invalidFree)
    else do
      let h₁ ← h.pushFree i offset
      if (h₁.refs i).nfree = blocksPerPage pr.blktype then do
        let h₂ ← (h₁.removeLists i pr.blktype).freepageref i
        return (.emptied pr.pageaddr, h₂)
      else return (.kept, h₁)

/-- A write of `len` bytes at `addr`: the words there change, and the pagerefs that lie there. -/
def write (addr len : ℕ) (mem : ℕ → ℕ) (refs : ℕ → PagerefRec) : KernHeap :=
  { h with
    mem := fun a => if addr ≤ a ∧ a < addr + len then mem a else h.mem a
    refs := fun i =>
      if addr < h.refAddr i + 16 ∧ h.refAddr i < addr + len then refs i else h.refs i }

end KernHeap

/-- A call in progress that has the lock released: its size, the page for its blocks, its pageref
and a page for pagerefs, as far as it has them. -/
inductive KCall
  /-- `subpage_kmalloc` in `alloc_kpages`. -/
  | allocPage (sz : ℕ)
  /-- `subpage_kmalloc` with a page, before it takes the lock again. -/
  | gotPage (sz prpage : ℕ)
  /-- `allocpagerefpage` in `alloc_kpages`. -/
  | allocRefs (sz prpage i : ℕ)
  /-- `allocpagerefpage` with a page, before it takes the lock again. -/
  | gotRefs (sz prpage i va : ℕ)
  /-- `allocpagerefpage` in `free_kpages`: another call was faster. -/
  | oops (sz prpage i va : ℕ)
  /-- `allocpagerefpage` after `free_kpages`, before it takes the lock again. -/
  | oopsDone (sz prpage i : ℕ)
  /-- `subpage_kmalloc` in `free_kpages`: no pageref was left. -/
  | noRef (prpage : ℕ)
  /-- `subpage_kfree` in `free_kpages`. -/
  | freeEmpty (prpage : ℕ)
  /-- `kfree` in `free_kpages`: the pointer was on no heap page. -/
  | freeLarge (b : KBlock)
  deriving DecidableEq, Repr

/-- The heap, its calls in progress (one for each thread that is in one) and, as the record of what
happened, the live blocks, the pages got from `alloc_kpages` and not given back, the pages whose last
block was freed and those of them that were given back. -/
structure KSys where
  heap : KernHeap
  calls : List KCall
  live : List KBlock
  held : List (ℕ × ℕ)
  emptied : List ℕ
  returned : List ℕ

/-- The steps of the threads. -/
inductive KAction
  /-- `kmalloc` of a size that takes a heap page, up to its release of the lock. -/
  | kmalloc (sz : ℕ)
  /-- `kmalloc` of a larger size; `alloc_kpages` returns `va`. -/
  | kmallocLarge (sz va : ℕ)
  /-- `alloc_kpages` returns `va` to a call. -/
  | allocKpages (call : KCall) (va : ℕ)
  /-- A call goes on to its next release of the lock or to its end. -/
  | resume (call : KCall)
  /-- `kfree` of a live block, up to its release of the lock. -/
  | kfree (b : KBlock)
  /-- The owner of a block writes to its memory. -/
  | write (b : KBlock) (mem : ℕ → ℕ) (refs : ℕ → PagerefRec)

namespace KSys

/-- The start of the system. -/
def init : KSys := ⟨.init, [], [], [], [], []⟩

variable (c : KSys)

/-- The pages `va`, … are kernel addresses of pages that are not in use. -/
def Fresh (va n : ℕ) : Prop :=
  pageSize ∣ va ∧ kseg0 ≤ va ∧ 1 ≤ n ∧ va + n * pageSize ≤ kseg1 ∧
    ∀ e ∈ c.held, va + n * pageSize ≤ e.1 ∨ e.1 + e.2 * pageSize ≤ va

instance (va n : ℕ) : Decidable (c.Fresh va n) := inferInstanceAs (Decidable (_ ∧ _))

/-- `free_kpages`. -/
def freeKpages (va : ℕ) : KSys := { c with held := c.held.filter fun e => e.1 ≠ va }

/-- A call moves to another place. -/
def move (call call' : KCall) : KSys := { c with calls := call' :: c.calls.erase call }

/-- A call returns. -/
def finish (call : KCall) : KSys := { c with calls := c.calls.erase call }

/-- The end of `subpage_kmalloc`: a fresh page gives its first block. -/
def deliver (sz prpage i : ℕ) : Except Stop KSys := do
  let (ptr, h) ← (c.heap.initPage i prpage (blocktype sz)).doalloc i
  return { c with
    heap := h
    live := ⟨ptr, sz⟩ :: c.live }

/-- A call goes on. -/
def resume (call : KCall) : Except Stop KSys :=
  match call with
  | .allocPage _ | .allocRefs .. => .error .blocked
  | .gotPage sz prpage =>
    match c.heap.freeSlot with
    | none => .ok (c.move call (.noRef prpage))
    | some i =>
      let c₁ := { c with heap := c.heap.mark i }
      if c.heap.refPage (i / npagerefsPerPage) = 0 then .ok (c₁.move call (.allocRefs sz prpage i))
      else (c₁.finish call).deliver sz prpage i
  | .gotRefs sz prpage i va =>
    if c.heap.refPage (i / npagerefsPerPage) ≠ 0 then .ok (c.move call (.oops sz prpage i va))
    else
      let h := { c.heap with
        refPage := Function.update c.heap.refPage (i / npagerefsPerPage) va }
      ({ c with heap := h }.finish call).deliver sz prpage i
  | .oops sz prpage i va => .ok ((c.freeKpages va).move call (.oopsDone sz prpage i))
  | .oopsDone sz prpage i => do
    kassert (c.heap.refPage (i / npagerefsPerPage) ≠ 0)
    (c.finish call).deliver sz prpage i
  | .noRef prpage => .ok ((c.freeKpages prpage).finish call)
  | .freeEmpty prpage =>
    .ok { (c.freeKpages prpage).finish call with returned := prpage :: c.returned }
  | .freeLarge b => do
    kassert (b.addr % pageSize = 0)
    return (c.freeKpages b.addr).finish call

/-- `alloc_kpages` for a call. It may fail for a page of blocks. -/
def allocKpages (call : KCall) (va : ℕ) : Except Stop KSys :=
  match call with
  | .allocPage sz =>
    if va = 0 then .ok (c.finish call)
    else do
      require (c.Fresh va 1)
      kassert (va % pageSize = 0)
      return { c.move call (.gotPage sz va) with held := (va, 1) :: c.held }
  | .allocRefs sz prpage i => do
    require (c.Fresh va 1)
    kassert (va % pageSize = 0)
    return { c.move call (.gotRefs sz prpage i va) with held := (va, 1) :: c.held }
  | _ => .error .blocked

/-- `subpage_kmalloc` up to its release of the lock. -/
def subpageKmalloc (sz : ℕ) : Except Stop KSys := do
  match ← c.heap.findFree (blocktype sz) (c.heap.sizebases (blocktype sz)) with
  | none => return { c with calls := .allocPage sz :: c.calls }
  | some i =>
    let (ptr, h) ← c.heap.doalloc i
    return { c with
      heap := h
      live := ⟨ptr, sz⟩ :: c.live }

/-- `kmalloc` of whole pages, which does not take the lock. -/
def kmallocLarge (sz va : ℕ) : Except Stop KSys :=
  if va = 0 then .ok c
  else do
    let n := wadd sz (pageSize - 1) / pageSize
    require (c.Fresh va n)
    kassert (va % pageSize = 0)
    return { c with
      live := ⟨va, sz⟩ :: c.live
      held := (va, n) :: c.held }

/-- `kfree` up to its release of the lock. -/
def kfree (b : KBlock) : Except Stop KSys := do
  let (freed, h) ← c.heap.subpageKfree b.addr
  let c₁ := { c with
    heap := h
    live := Os161.freed c.live b }
  match freed with
  | .notSubpage => return { c₁ with calls := .freeLarge b :: c.calls }
  | .kept => return c₁
  | .emptied prpage =>
    return { c₁ with
      calls := .freeEmpty prpage :: c.calls
      emptied := prpage :: c.emptied }

end KSys

/-- One step. Sizes are at most `2³² - PAGE_SIZE`; only live blocks are freed and written. -/
def kstep (c : KSys) : KAction → Except Stop KSys
  | .kmalloc sz => do
    require (sz < largestSubpageSize)
    c.subpageKmalloc sz
  | .kmallocLarge sz va => do
    require (largestSubpageSize ≤ sz ∧ sz + pageSize ≤ wordSize)
    c.kmallocLarge sz va
  | .allocKpages call va => do
    require (call ∈ c.calls)
    c.allocKpages call va
  | .resume call => do
    require (call ∈ c.calls)
    c.resume call
  | .kfree b => do
    require (b ∈ c.live)
    c.kfree b
  | .write b mem refs => do
    require (b ∈ c.live)
    return { c with heap := c.heap.write b.addr b.len mem refs }

end Os161
