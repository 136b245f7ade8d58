import Os161.Kmalloc.Heap

set_option autoImplicit false

/-!
# Blocks as ranges of addresses

What the pages of the heap say about the addresses of its blocks.

* `KBlock.len`: the size of the memory of a block, at least what was asked for (`size_le_len`).
* `HeapInv.holdings_apart`, `HeapInv.apart`: two pieces of memory, and two blocks of heap pages, do
  not overlap.
* **`HeapInv.live_apart`**, **`HeapInv.free_apart`**, **`HeapInv.ref_apart`**: a live block overlaps no
  other live block, no free block and no pageref.
-/

namespace Os161

/-- The size of the memory of a block. -/
def KBlock.len (b : KBlock) : ℕ :=
  if b.Large then b.npages * pageSize else blockSize (blocktype b.size)

section Apart

variable {h : Kheap} {live : List KBlock} {held : List (ℕ × ℕ)} {pr pr' : Pageref} {b b' : KBlock}
  {e e' : ℕ × ℕ} {o o' t : ℕ}


theorem add_blockSize_le (ht : t < sizes.length) (ho : o ∈ offsets t) :
    o + blockSize t ≤ pageSize := by
  obtain ⟨i, hi, rfl⟩ := mem_offsets.mp ho
  rw [← blocksPerPage_mul ht, ← Nat.succ_mul]
  exact Nat.mul_le_mul_right _ hi

/-- Two blocks of one page. -/
theorem offsets_apart (ho : o ∈ offsets t) (ho' : o' ∈ offsets t) (hne : o ≠ o') :
    o + blockSize t ≤ o' ∨ o' + blockSize t ≤ o := by
  obtain ⟨i, -, rfl⟩ := mem_offsets.mp ho
  obtain ⟨j, -, rfl⟩ := mem_offsets.mp ho'
  rw [← Nat.succ_mul, ← Nat.succ_mul]
  rcases Nat.lt_or_gt_of_ne fun e : i = j => hne (by rw [e]) with hlt | hlt
  · exact .inl (Nat.mul_le_mul_right _ hlt)
  · exact .inr (Nat.mul_le_mul_right _ hlt)

/-- Two page-aligned addresses are at least a page apart. -/
theorem pages_apart {a b : ℕ} (ha : pageSize ∣ a) (hb : pageSize ∣ b) (hne : a ≠ b) :
    a + pageSize ≤ b ∨ b + pageSize ≤ a := by
  obtain ⟨m, rfl⟩ := ha
  obtain ⟨n, rfl⟩ := hb
  unfold pageSize at *
  omega

/-- Disjoint pages, as ranges of addresses. -/
theorem vpages_apart {a b n m : ℕ} (ha : pageSize ∣ a) (hb : pageSize ∣ b) (hn : 1 ≤ n) (hm : 1 ≤ m)
    (hdis : ∀ q ∈ vpages a n, q ∉ vpages b m) :
    a + n * pageSize ≤ b ∨ b + m * pageSize ≤ a := by
  obtain ⟨x, rfl⟩ := ha
  obtain ⟨y, rfl⟩ := hb
  by_contra hc
  unfold pageSize at *
  rcases Nat.le_total y x with hle | hle
  · refine hdis _ (self_mem_vpages _ hn) (mem_vpages.mpr ⟨x - y, by omega, ?_⟩)
    unfold pageSize
    omega
  · refine hdis (4096 * y) (mem_vpages.mpr ⟨y - x, by omega, ?_⟩) (self_mem_vpages _ hm)
    unfold pageSize
    omega

theorem not_mem_vpages_of_apart {a b n m q : ℕ}
    (h : a + n * pageSize ≤ b ∨ b + m * pageSize ≤ a) (hq : q ∈ vpages a n) : q ∉ vpages b m := by
  intro hq'
  obtain ⟨i, hi, rfl⟩ := mem_vpages.mp hq
  obtain ⟨j, hj, he⟩ := mem_vpages.mp hq'
  unfold pageSize at *
  omega

/-- A block is as large as what was asked for. -/
theorem size_le_len (h : b.size + pageSize ≤ wordSize) : b.size ≤ b.len := by
  unfold KBlock.len
  split_ifs with hl
  · unfold KBlock.npages
    rw [wadd_of_lt (by unfold pageSize at *; omega)]
    unfold pageSize
    omega
  · have hmem := List.findIdx_getElem (p := fun size => decide (b.size ≤ size))
      (w := blocktype_lt (Nat.not_le.mp hl))
    unfold blockSize
    rw [List.getD_eq_getElem?_getD, List.getElem?_eq_getElem (blocktype_lt (Nat.not_le.mp hl)),
      Option.getD_some]
    exact of_decide_eq_true hmem

theorem len_of_on (hon : b.On pr) : b.len = blockSize pr.blktype := by
  rw [KBlock.len, if_neg hon.1, hon.2.1]

namespace HeapInv

variable (hi : HeapInv h live held)

include hi

theorem page_aligned (hpr : pr ∈ h.allbase) : pageSize ∣ pr.page ∧ 0 < pr.page :=
  have := hi.owned.aligned _ (mem_holdings_page live hpr)
  ⟨this.1, this.2.1⟩

/-- **Two blocks of heap pages do not overlap.** -/
theorem apart (hpr : pr ∈ h.allbase) (hpr' : pr' ∈ h.allbase) (ho : o ∈ offsets pr.blktype)
    (ho' : o' ∈ offsets pr'.blktype) (hne : pr ≠ pr' ∨ o ≠ o') :
    pr.page + o + blockSize pr.blktype ≤ pr'.page + o' ∨
      pr'.page + o' + blockSize pr'.blktype ≤ pr.page + o := by
  by_cases he : pr = pr'
  · subst he
    have := offsets_apart ho ho' (hne.resolve_left fun hc => hc rfl)
    omega
  · have := pages_apart (hi.page_aligned hpr).1 (hi.page_aligned hpr').1
      fun e => he (hi.page_inj hpr hpr' e)
    have := add_blockSize_le (hi.type pr hpr) ho
    have := add_blockSize_le (hi.type pr' hpr') ho'
    omega

/-- Two pieces of memory do not overlap. -/
theorem holdings_apart (he : e ∈ h.holdings live) (he' : e' ∈ h.holdings live) (hne : e ≠ e') :
    e.1 + e.2 * pageSize ≤ e'.1 ∨ e'.1 + e'.2 * pageSize ≤ e.1 := by
  obtain ⟨hd, -, hn⟩ := hi.owned.aligned e he
  obtain ⟨hd', -, hn'⟩ := hi.owned.aligned e' he'
  exact vpages_apart hd hd' hn hn' fun q hq hq' => hne (hi.unique he he' hq hq')

/-- A live block lies on a heap page or is a piece of memory of its own. -/
theorem live_cases (hb : b ∈ live) :
    (∃ pr ∈ h.allbase, b.On pr) ∨ b.Large ∧ (b.addr, b.npages) ∈ h.holdings live := by
  by_cases hl : b.Large
  · exact .inr ⟨hl, mem_holdings_large hb hl⟩
  · exact .inl (hi.small b hb hl)

/-- The piece of memory that a live block lies in. -/
theorem live_inside (hb : b ∈ live) :
    ∃ e ∈ h.holdings live, e.1 ≤ b.addr ∧ b.addr + b.len ≤ e.1 + e.2 * pageSize ∧
      e ∉ h.refPages := by
  have hnd := hi.owned.nodup_list
  unfold Kheap.holdings at hnd
  rcases hi.live_cases hb with ⟨pr, hpr, hon⟩ | ⟨hl, hmem⟩
  · refine ⟨_, mem_holdings_page live hpr, ?_, ?_, fun hr => ?_⟩
    · obtain ⟨-, -, o, -, -, haddr⟩ := hon
      simp only
      omega
    · rw [len_of_on hon]
      obtain ⟨-, -, o, ho, -, haddr⟩ := hon
      have := add_blockSize_le (hi.type pr hpr) ho
      simp only
      omega
    · exact List.disjoint_of_nodup_append hnd (List.mem_map_of_mem hpr)
        (List.mem_append_left _ hr)
  · refine ⟨_, hmem, le_refl _, by rw [KBlock.len, if_pos hl], fun hr => ?_⟩
    refine List.disjoint_of_nodup_append hnd.of_append_right hr (List.mem_map_of_mem ?_)
    exact List.mem_filter.mpr ⟨hb, decide_eq_true hl⟩

/-- A block of a heap page and a block of whole pages. -/
theorem large_apart (hb : b ∈ live) (hl : b.Large) (hpr : pr ∈ h.allbase)
    (ho : o ∈ offsets pr.blktype) :
    pr.page + o + blockSize pr.blktype ≤ b.addr ∨ b.addr + b.len ≤ pr.page + o := by
  have hne : (pr.page, 1) ≠ (b.addr, b.npages) := fun e =>
    hi.large_not_on_page hb hl hpr pageSize_pos (congrArg Prod.fst e).symm
  have := hi.holdings_apart (mem_holdings_page live hpr) (mem_holdings_large hb hl) hne
  have := add_blockSize_le (hi.type pr hpr) ho
  rw [KBlock.len, if_pos hl]
  simp only at *
  omega

/-- **Two live blocks do not overlap.** -/
theorem live_apart (hb : b ∈ live) (hb' : b' ∈ live) (hne : b ≠ b') :
    b.addr + b.len ≤ b'.addr ∨ b'.addr + b'.len ≤ b.addr := by
  have haddr : b.addr ≠ b'.addr := fun e => hne (List.inj_on_of_nodup_map hi.addrs hb hb' e)
  rcases hi.live_cases hb with ⟨pr, hpr, hon⟩ | ⟨hl, hmem⟩ <;>
    rcases hi.live_cases hb' with ⟨pr', hpr', hon'⟩ | ⟨hl', hmem'⟩
  · rw [len_of_on hon, len_of_on hon']
    obtain ⟨-, -, o, ho, -, hao⟩ := hon
    obtain ⟨-, -, o', ho', -, hao'⟩ := hon'
    rw [hao, hao']
    refine hi.apart hpr hpr' ho ho' ?_
    by_cases he : pr = pr'
    · subst he
      exact .inr fun e => haddr (by rw [hao, hao', e])
    · exact .inl he
  · rw [len_of_on hon]
    obtain ⟨-, -, o, ho, -, hao⟩ := hon
    rw [hao]
    exact hi.large_apart hb' hl' hpr ho
  · rw [len_of_on hon']
    obtain ⟨-, -, o, ho, -, hao⟩ := hon'
    rw [hao]
    exact (hi.large_apart hb hl hpr' ho).symm
  · rw [KBlock.len, if_pos hl, KBlock.len, if_pos hl']
    exact hi.holdings_apart hmem hmem' fun e => haddr (congrArg Prod.fst e)

/-- **A live block and a free one do not overlap.** -/
theorem free_apart (hb : b ∈ live) (hpr : pr ∈ h.allbase) (ho : o ∈ pr.freelist) :
    pr.page + o + blockSize pr.blktype ≤ b.addr ∨ b.addr + b.len ≤ pr.page + o := by
  have hoff := (hi.free pr hpr).2 o ho
  rcases hi.live_cases hb with ⟨pr', hpr', hon⟩ | ⟨hl, -⟩
  · rw [len_of_on hon]
    obtain ⟨-, -, o', ho', hnf, hao⟩ := hon
    rw [hao]
    refine hi.apart hpr hpr' hoff ho' ?_
    by_cases he : pr = pr'
    · subst he
      exact .inr fun e => hnf (e ▸ ho)
    · exact .inl he
  · exact hi.large_apart hb hl hpr hoff

/-- **A live block and a page of pagerefs do not overlap.** -/
theorem ref_apart (hb : b ∈ live) {r : ℕ} (hr : r < numPagerefpages) (h0 : h.refPage r ≠ 0) :
    h.refPage r + pageSize ≤ b.addr ∨ b.addr + b.len ≤ h.refPage r := by
  have hmem : (h.refPage r, 1) ∈ h.refPages :=
    List.mem_map_of_mem (List.mem_filter.mpr ⟨List.mem_range.mpr hr, decide_eq_true h0⟩)
  obtain ⟨e, he, hle, hend, hnot⟩ := hi.live_inside hb
  have := hi.holdings_apart (List.mem_append_right _ (List.mem_append_left _ hmem)) he
    fun heq => hnot (heq ▸ hmem)
  simp only at this
  omega

end HeapInv

end Apart

end Os161
