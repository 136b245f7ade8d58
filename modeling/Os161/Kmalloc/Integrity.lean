import Os161.Kmalloc.Threaded

set_option autoImplicit false

/-!
# The integrity of the kernel heap

What holds of the heap in every state that the threads reach.

* `KSys.Integrity`: live blocks do not overlap, free lists are what the pagerefs say, each pageref in
  use is on its two lists, and the frame of an emptied page goes back once.
* `KSys.RootsReady`: no page is emptied while an earlier root has pagerefs in use but no page yet.
* `KInv`: the invariant: a heap whose free lists are lists, with the pages that calls in progress hold
  as further blocks.
* **`heapSound`**: in every run whose steps meet `RootsReady`, no assertion fails and the integrity
  holds.
-/

namespace Os161

open Transition

/-- A page as a block. -/
def pageBlock (page : ℕ) : KBlock := ⟨page, pageSize⟩

theorem pageBlock_large (page : ℕ) : (pageBlock page).Large :=
  show largestSubpageSize ≤ pageSize by decide

@[simp] theorem npages_pageBlock (page : ℕ) : (pageBlock page).npages = 1 :=
  show wadd pageSize (pageSize - 1) / pageSize = 1 by decide

/-- The pages that a call in progress holds. -/
def KCall.blocks : KCall → List KBlock
  | .allocPage _ => []
  | .gotPage _ prpage | .allocRefs _ prpage _ | .oopsDone _ prpage _ => [pageBlock prpage]
  | .gotRefs _ prpage _ va | .oops _ prpage _ va => [pageBlock va, pageBlock prpage]
  | .noRef prpage | .freeEmpty prpage => [pageBlock prpage]
  | .freeLarge b => [b]

/-- The pageref that a call in progress sets up. -/
def KCall.pageref : KCall → Option ℕ
  | .allocRefs _ _ i | .gotRefs _ _ i _ | .oops _ _ i _ | .oopsDone _ _ i => some i
  | _ => none

/-- The emptied page that a call in progress gives back. -/
def KCall.emptied : KCall → Option ℕ
  | .freeEmpty prpage => some prpage
  | _ => none

namespace KSys

/-- The free list of a page: it ends, it has `nfree` blocks, all of them in the page and at multiples
of the block size, and no live block overlaps one of them. -/
def FreelistOk (c : KSys) (pr : PagerefRec) : Prop :=
  ∃ l, Chain c.heap.mem 0
      (if pr.freelistOffset = invalidOffset then 0 else pr.pageaddr + pr.freelistOffset) l ∧
    l.Nodup ∧ l.length = pr.nfree ∧
    ∀ a ∈ l, ∃ o < pageSize, a = pr.pageaddr + o ∧ o % blockSize pr.blktype = 0 ∧
      ∀ b ∈ c.live, a + blockSize pr.blktype ≤ b.addr ∨ b.addr + b.len ≤ a

/-- **The integrity of the heap.** -/
structure Integrity (c : KSys) : Prop where
  disjoint : c.live.Pairwise fun b b' => b.addr + b.len ≤ b'.addr ∨ b'.addr + b'.len ≤ b.addr
  size : ∀ b ∈ c.live, b.size ≤ b.len
  inside : ∀ b ∈ c.live, ∃ e ∈ c.held, e.1 ≤ b.addr ∧ b.addr + b.len ≤ e.1 + e.2 * pageSize
  freelist : ∀ i ∈ c.heap.allbase, c.FreelistOk (c.heap.refs i)
  page : ∀ i ∈ c.heap.allbase, ((c.heap.refs i).pageaddr, 1) ∈ c.held
  allbase : c.heap.allbase.Nodup
  sizebases : ∀ t, c.heap.sizebases t = c.heap.allbase.filter fun i => (c.heap.refs i).blktype = t
  inuse : ∀ i, c.heap.inuse i = true ↔
    i ∈ c.heap.allbase ∨ ∃ call ∈ c.calls, call.pageref = some i
  setup : ∀ i, (∃ call ∈ c.calls, call.pageref = some i) → i ∉ c.heap.allbase
  emptied : c.emptied.Perm (c.returned ++ c.calls.filterMap KCall.emptied)
  leaving : ∀ prpage, .freeEmpty prpage ∈ c.calls → (prpage, 1) ∈ c.held ∧
    ∀ i ∈ c.heap.allbase, (c.heap.refs i).pageaddr ≠ prpage

/-- **When a page may be emptied**: each root before that of its pageref has a page or no pageref in
use. -/
def RootsReady (c : KSys) : KAction → Prop
  | .kfree b => ∀ i ∈ c.heap.allbase,
      (c.heap.refs i).pageaddr ≤ b.addr → b.addr < (c.heap.refs i).pageaddr + pageSize →
      (c.heap.refs i).nfree + 1 = blocksPerPage (c.heap.refs i).blktype →
      ∀ r < i / npagerefsPerPage, c.heap.refPage r = 0 → c.heap.numinuse r = 0
  | _ => True

instance (c : KSys) : DecidablePred c.RootsReady
  | .kfree _ => inferInstanceAs (Decidable (∀ i ∈ c.heap.allbase, _ → _ → _ → ∀ r < _, _ → _))
  | .kmalloc _ | .kmallocLarge .. | .allocKpages .. | .resume _ | .write .. =>
    inferInstanceAs (Decidable True)

end KSys

/-- The run panics nowhere and leads to a state whose heap is sound. -/
def HeapSound (as : List KAction) : Prop := Safe KSys.Integrity (run kstep .init as)

/-! ## The invariant -/

/-- What is known of a call in progress. -/
def KCall.Ok (h : Kheap) : KCall → Prop
  | .allocPage sz | .gotPage sz _ | .allocRefs sz _ _ | .gotRefs sz _ _ _ => sz < largestSubpageSize
  | .oops sz _ i _ | .oopsDone sz _ i =>
    sz < largestSubpageSize ∧ h.refPage (i / npagerefsPerPage) ≠ 0
  | .noRef _ | .freeEmpty _ => True
  | .freeLarge b => b.Large

/-- **The invariant of the system**: the heap `h` with the live blocks and the pages of the calls. -/
structure KInv (c : KSys) (h : Kheap) : Prop where
  threaded : Threaded c.heap h
  heap : HeapInv h (c.live ++ c.calls.flatMap KCall.blocks) c.held
  held : Owned c.held c.held
  top : ∀ e ∈ c.held, e.1 + e.2 * pageSize ≤ kseg1
  refs : (h.allbase.map Pageref.ref ++ c.calls.filterMap KCall.pageref).Nodup
  inuse : ∀ i, h.inuse i = true ↔
    i ∈ h.allbase.map Pageref.ref ++ c.calls.filterMap KCall.pageref
  root : ∀ i, h.inuse i = true → i / npagerefsPerPage < numPagerefpages
  page : ∀ pr ∈ h.allbase, h.refPage (pr.ref / npagerefsPerPage) ≠ 0
  calls : ∀ call ∈ c.calls, call.Ok h
  size : ∀ b ∈ c.live, b.size + pageSize ≤ wordSize
  emptied : c.emptied.Perm (c.returned ++ c.calls.filterMap KCall.emptied)

/-- The invariant holds of some heap. -/
def KSys.Sound (c : KSys) : Prop := ∃ h, KInv c h

theorem KSys.sound_init : KSys.init.Sound := by
  refine ⟨.empty, ⟨rfl, rfl, fun r => ?_, rfl, fun t => rfl, nofun, nofun⟩,
    ⟨List.nodup_nil, nofun, nofun, nofun, ⟨List.nodup_nil, nofun, nofun⟩, List.nodup_nil, nofun,
      nofun⟩, ⟨List.nodup_nil, nofun, nofun⟩, nofun, List.nodup_nil, fun i => ?_, fun i h => ?_, nofun,
    nofun, nofun, .nil⟩
  · exact (Finset.card_eq_zero.mpr (Finset.filter_eq_empty_iff.mpr fun j _ => Bool.noConfusion)).symm
  · exact ⟨Bool.noConfusion, nofun⟩
  · cases h

/-! ## What the invariant says -/

namespace KInv

variable {c : KSys} {h : Kheap} {pr : Pageref} {b : KBlock} {i : ℕ}

theorem mem_allbase (hk : KInv c h) : i ∈ c.heap.allbase ↔ ∃ pr ∈ h.allbase, pr.ref = i := by
  rw [hk.threaded.allbase, List.mem_map]

theorem mem_pagerefs (calls : List KCall) :
    i ∈ calls.filterMap KCall.pageref ↔ ∃ call ∈ calls, call.pageref = some i :=
  List.mem_filterMap

/-- The free list of a page of the heap. -/
theorem freelistOk (hk : KInv c h) (hpr : pr ∈ h.allbase) : c.FreelistOk pr.record := by
  obtain ⟨p, hp⟩ := hk.threaded.chain pr hpr
  have hfree := hk.heap.free pr hpr
  have hlt : ∀ o ∈ pr.freelist, o < pageSize := fun o ho =>
    lt_pageSize_of_mem_offsets (hk.heap.type pr hpr) (hfree.2 o ho)
  refine ⟨_, ?_, hp.nodup, List.length_map _, fun a ha => ?_⟩
  · have hhead : (if pr.record.freelistOffset = invalidOffset then 0
        else pr.record.pageaddr + pr.record.freelistOffset) = p := Threaded.chain_head hp hlt
    rw [hhead]
    exact hp
  · obtain ⟨o, ho, rfl⟩ := List.mem_map.mp ha
    refine ⟨o, hlt o ho, rfl, ?_, fun b hb => ?_⟩
    · obtain ⟨j, -, rfl⟩ := mem_offsets.mp (hfree.2 o ho)
      exact Nat.mul_mod_left _ _
    · exact hk.heap.free_apart (List.mem_append_left _ hb) hpr ho

/-- A page that a call holds. -/
theorem call_page (hk : KInv c h) {call : KCall} (hc : call ∈ c.calls) {page : ℕ}
    (hb : pageBlock page ∈ call.blocks) :
    (page, 1) ∈ h.holdings (c.live ++ c.calls.flatMap KCall.blocks) ∧
      ∀ pr ∈ h.allbase, pr.page ≠ page := by
  have hmem : pageBlock page ∈ c.live ++ c.calls.flatMap KCall.blocks :=
    List.mem_append_right _ (List.mem_flatMap.mpr ⟨call, hc, hb⟩)
  have hhold := HeapInv.mem_holdings_large (h := h) hmem (pageBlock_large page)
  rw [npages_pageBlock] at hhold
  refine ⟨hhold, fun pr hpr he => ?_⟩
  exact hk.heap.large_not_on_page hmem (pageBlock_large page) hpr pageSize_pos he.symm

/-- **The invariant gives the integrity.** -/
theorem integrity (hk : KInv c h) : c.Integrity := by
  have hlive : ∀ b ∈ c.live, b ∈ c.live ++ c.calls.flatMap KCall.blocks :=
    fun b hb => List.mem_append_left _ hb
  have hnd : c.live.Nodup := by
    have := hk.heap.addrs
    rw [List.map_append] at this
    exact List.Nodup.of_map _ this.of_append_left
  have hrefs := hk.refs
  rw [← hk.threaded.allbase] at hrefs
  constructor
  case disjoint =>
    exact hnd.imp_of_mem fun hb hb' hne => hk.heap.live_apart (hlive _ hb) (hlive _ hb') hne
  case size => exact fun b hb => size_le_len (hk.size b hb)
  case inside =>
    intro b hb
    obtain ⟨e, he, hle, hend, -⟩ := hk.heap.live_inside (hlive b hb)
    exact ⟨e, hk.heap.owned.held e he, hle, hend⟩
  case freelist =>
    intro i hi
    obtain ⟨pr, hpr, rfl⟩ := hk.mem_allbase.mp hi
    rw [hk.threaded.refs pr hpr]
    exact hk.freelistOk hpr
  case page =>
    intro i hi
    obtain ⟨pr, hpr, rfl⟩ := hk.mem_allbase.mp hi
    rw [hk.threaded.refs pr hpr]
    exact hk.heap.owned.held _ (HeapInv.mem_holdings_page _ hpr)
  case allbase => exact hrefs.of_append_left
  case sizebases =>
    intro t
    rw [hk.threaded.sizebases, hk.threaded.allbase, List.filter_map]
    congr 1
    refine List.filter_congr fun pr hpr => ?_
    simp only [Function.comp, hk.threaded.refs pr hpr]
    rfl
  case inuse =>
    intro i
    rw [hk.threaded.inuse, hk.inuse, List.mem_append, ← hk.threaded.allbase, mem_pagerefs]
  case setup =>
    intro i hi hmem
    exact List.disjoint_of_nodup_append hrefs hmem ((mem_pagerefs c.calls).mpr hi)
  case emptied => exact hk.emptied
  case leaving =>
    intro prpage hc
    obtain ⟨hmem, hne⟩ := hk.call_page hc (List.mem_singleton_self _)
    refine ⟨hk.heap.owned.held _ hmem, fun i hi => ?_⟩
    obtain ⟨pr, hpr, rfl⟩ := hk.mem_allbase.mp hi
    rw [hk.threaded.refs pr hpr]
    exact hne pr hpr

end KInv

end Os161
