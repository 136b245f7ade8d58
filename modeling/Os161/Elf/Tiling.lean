import Os161.Elf.FirstTouch

set_option autoImplicit false

/-!
# The chunks of a segment

`vm_fault` reads each page of a segment separately: for page `i` the bytes from `compute_offset` on,
`compute_memsz` of them, to the page or, on page `1`, behind the offset in the page.

* `SegmentEntry.Tiled`: the chunks are inside their pages, where the file has them, and make up the
  region.
* `SegmentEntry.Window`: each chunk is what the region and the page have in common.
* **`tiled_iff`**: the regions for which this is so.
-/

namespace Os161

/-- The address of page `i = 1, 2, …` of a segment, as `as_define_region` enters it. -/
def SegmentEntry.pageAddr (seg : SegmentEntry) (i : ℕ) : ℕ :=
  wadd seg.firstAddr ((i - 1) * pageSize)

/-- Where the chunk of page `i` is read to. -/
def SegmentEntry.chunkStart (seg : SegmentEntry) (i : ℕ) : ℕ := loadAddress seg (seg.pageAddr i) i

/-- The address is in the chunk of page `i`. -/
def SegmentEntry.InChunk (seg : SegmentEntry) (i a : ℕ) : Prop :=
  1 ≤ i ∧ i ≤ seg.npages ∧ seg.chunkStart i ≤ a ∧ a < seg.chunkStart i + computeMemsz seg i

/-- **The chunks tile the region** of `size` bytes from `vaddr` on. -/
structure SegmentEntry.Tiled (seg : SegmentEntry) (vaddr size : ℕ) : Prop where
  inside : ∀ i, 1 ≤ i → i ≤ seg.npages → seg.pageAddr i ≤ seg.chunkStart i ∧
    seg.chunkStart i + computeMemsz seg i ≤ seg.pageAddr i + pageSize
  shift : ∀ i, 1 ≤ i → i ≤ seg.npages →
    (seg.chunkStart i : ℤ) - computeOffset seg.offset.toNat i = vaddr - seg.offset
  cover : ∀ a, (∃ i, seg.InChunk i a) ↔ vaddr ≤ a ∧ a < vaddr + size
  disjoint : ∀ a i j, seg.InChunk i a → seg.InChunk j a → i = j

/-- Each chunk is the part of the region in its page. -/
structure SegmentEntry.Window (seg : SegmentEntry) (vaddr size : ℕ) : Prop where
  first : seg.firstAddr ≤ vaddr
  last : vaddr + size ≤ seg.firstAddr + seg.npages * pageSize
  page : ∀ i, 1 ≤ i → i ≤ seg.npages → seg.pageAddr i = seg.firstAddr + (i - 1) * pageSize ∧
    seg.pageAddr i < vaddr + size ∧ vaddr < seg.pageAddr i + pageSize
  chunk : ∀ i, 1 ≤ i → i ≤ seg.npages → seg.chunkStart i = max (seg.pageAddr i) vaddr ∧
    seg.chunkStart i + computeMemsz seg i = min (seg.pageAddr i + pageSize) (vaddr + size)
  offset : ∀ i, 1 ≤ i → i ≤ seg.npages →
    (computeOffset seg.offset.toNat i : ℤ) = seg.offset + (seg.chunkStart i - vaddr)

section Window

variable {seg : SegmentEntry} {vaddr size : ℕ}

theorem SegmentEntry.Window.tiled (h : seg.Window vaddr size) : seg.Tiled vaddr size := by
  refine ⟨fun i hi hn => ?_, fun i hi hn => ?_, fun a => ⟨?_, fun ha => ?_⟩, ?_⟩
  · obtain ⟨hstart, hend⟩ := h.chunk i hi hn
    omega
  · have := h.offset i hi hn
    omega
  · rintro ⟨i, hi, hn, hlo, hhi⟩
    obtain ⟨hstart, hend⟩ := h.chunk i hi hn
    omega
  · -- the page of the address
    have hfirst := h.first
    have hlast := h.last
    have hdiv := Nat.div_add_mod (a - seg.firstAddr) pageSize
    have hmod : (a - seg.firstAddr) % pageSize < pageSize := Nat.mod_lt _ pageSize_pos
    generalize (a - seg.firstAddr) / pageSize = q at hdiv
    have hn : q + 1 ≤ seg.npages := by
      by_contra hlt
      have : seg.npages * pageSize ≤ q * pageSize := Nat.mul_le_mul_right _ (by omega)
      rw [Nat.mul_comm pageSize q] at hdiv
      omega
    have hpage := (h.page (q + 1) (Nat.le_add_left 1 q) hn).1
    rw [Nat.add_sub_cancel, Nat.mul_comm] at hpage
    obtain ⟨hstart, hend⟩ := h.chunk (q + 1) (Nat.le_add_left 1 q) hn
    exact ⟨q + 1, Nat.le_add_left 1 q, hn, by omega, by omega⟩
  · rintro a i j ⟨hi, hin, hilo, hihi⟩ ⟨hj, hjn, hjlo, hjhi⟩
    obtain ⟨hsi, hei⟩ := h.chunk i hi hin
    obtain ⟨hsj, hej⟩ := h.chunk j hj hjn
    have hpi := (h.page i hi hin).1
    have hpj := (h.page j hj hjn).1
    by_contra hne
    rcases Nat.lt_or_gt_of_ne hne with hlt | hlt
    · have : (i - 1 + 1) * pageSize ≤ (j - 1) * pageSize := Nat.mul_le_mul_right _ (by omega)
      rw [Nat.succ_mul] at this
      omega
    · have : (j - 1 + 1) * pageSize ≤ (i - 1) * pageSize := Nat.mul_le_mul_right _ (by omega)
      rw [Nat.succ_mul] at this
      omega

end Window

/-! ## The regions that are tiled -/

/-- A page ends inside the words. -/
theorem SegmentEntry.pageAddr_add_le (seg : SegmentEntry) (i : ℕ) (hd : pageSize ∣ seg.firstAddr) :
    seg.pageAddr i + pageSize ≤ wordSize := by
  obtain ⟨q, hq⟩ := hd
  unfold pageAddr wadd
  rw [hq, Nat.mul_comm (i - 1), ← Nat.mul_add]
  generalize q + (i - 1) = m
  unfold pageSize wordSize
  omega

/-- A masked address ends inside the words, with its page. -/
theorem pageFrame_add_le (a : ℕ) : pageFrame a + pageSize ≤ wordSize := by
  unfold pageFrame pageSize wordSize
  omega

section Region

variable {as as' : Addrspace} {seg : SegmentEntry} {vaddr offset sz r w x i : ℕ} {b : RegionBlocks}

/-- What `as_define_region` records. -/
theorem asDefineRegion_head (hdef : asDefineRegion as vaddr offset sz r w x b = some as')
    (hseg : as'.segments = seg :: as.segments) :
    seg.firstAddr = pageFrame vaddr ∧ seg.npages = regionPages vaddr sz ∧ seg.size = sz ∧
      seg.offset = offset ∧ 0 < seg.npages := by
  simp only [asDefineRegion] at hdef
  split_ifs at hdef with hn
  obtain rfl := Option.some.inj hdef
  obtain rfl := (List.cons.inj hseg).1
  exact ⟨rfl, rfl, rfl, rfl, Nat.pos_of_ne_zero hn⟩

/-- The first page is that of the region's address, and its chunk starts there. -/
theorem firstPage (hv : vaddr < wordSize) (hmod : vaddr % pageSize = offset % pageSize)
    (hfirst : seg.firstAddr = pageFrame vaddr) (ho : seg.offset = offset) :
    seg.pageAddr 1 = pageFrame vaddr ∧ seg.chunkStart 1 = vaddr := by
  have hle := pageFrame_le hv
  have hoff : pageOffset offset = pageOffset vaddr := hmod.symm
  have hpage : seg.pageAddr 1 = pageFrame vaddr := by
    rw [SegmentEntry.pageAddr, hfirst, Nat.sub_self, Nat.zero_mul, wadd_of_lt (by omega),
      Nat.add_zero]
  refine ⟨hpage, ?_⟩
  rw [SegmentEntry.chunkStart, loadAddress, if_pos rfl, hpage, ho, Int.toNat_natCast, hoff]
  exact pageFrame_add_pageOffset hv

/-- **Inside one page** there is one chunk, the whole region. -/
theorem window_of_one_page (hv : vaddr < wordSize) (hsz : 1 ≤ sz)
    (hmod : vaddr % pageSize = offset % pageSize) (hfirst : seg.firstAddr = pageFrame vaddr)
    (hn : seg.npages = regionPages vaddr sz) (hs : seg.size = sz) (ho : seg.offset = offset)
    (hin : pageOffset offset + sz ≤ pageSize) : seg.Window vaddr sz := by
  have hoff : pageOffset vaddr = pageOffset offset := hmod
  have hsplit := pageFrame_add_pageOffset hv
  have hone : seg.npages = 1 := by
    rw [hn]
    have hp : pageOffset vaddr + sz ≤ pageSize := by rw [hoff]; exact hin
    rw [regionPages_eq (by unfold pageSize wordSize at *; omega)]
    unfold pageSize at *
    omega
  obtain ⟨hpage, hstart⟩ := firstPage hv hmod hfirst ho
  have hmem : computeMemsz seg 1 = sz := by
    simp only [computeMemsz, hs, if_true, ho, Int.toNat_natCast]
    split_ifs <;> omega
  have hpos : computeOffset seg.offset.toNat 1 = offset := by simp [computeOffset, ho]
  have hlt : pageOffset vaddr < pageSize := Nat.mod_lt _ pageSize_pos
  refine ⟨by omega, by rw [hfirst, hone]; omega, ?_, ?_, ?_⟩ <;> intro i hi hi' <;>
    obtain rfl : i = 1 := by omega
  · exact ⟨by rw [hpage, hfirst]; omega, by omega, by omega⟩
  · exact ⟨by rw [hstart, hpage]; omega, by rw [hstart, hmem, hpage]; omega⟩
  · rw [hpos, hstart, ho]
    omega

/-- **A region of a page or more** that neither address nor file position leaves the words. -/
theorem window_of_pageSize_le (hv : vaddr + sz ≤ wordSize) (hsz : pageSize ≤ sz)
    (hszlt : sz < wordSize) (hmod : vaddr % pageSize = offset % pageSize)
    (hfirst : seg.firstAddr = pageFrame vaddr) (hn : seg.npages = regionPages vaddr sz)
    (hpos : 0 < seg.npages) (hs : seg.size = sz) (ho : seg.offset = offset)
    (hfile : offset + sz ≤ wordSize) : seg.Window vaddr sz := by
  have hoff : pageOffset vaddr = pageOffset offset := hmod
  have hvlt : vaddr < wordSize := by unfold pageSize at *; omega
  have hsplit := pageFrame_add_pageOffset hvlt
  have hvaddr : seg.vaddr = vaddr := by
    simp only [SegmentEntry.vaddr, hfirst, ho, Int.toNat_natCast]
    omega
  have hcong : seg.Congruent :=
    ⟨hfirst ▸ pageFrame_dvd vaddr, by omega, by unfold pageSize at *; omega, by omega,
      by rw [hvaddr, hs, hn], .inl (by omega)⟩
  have hlt : pageOffset vaddr < pageSize := Nat.mod_lt _ pageSize_pos
  -- the pages end less than a page behind the region
  have hpages : seg.npages * pageSize < pageOffset vaddr + sz + pageSize ∧
      pageOffset vaddr + sz ≤ seg.npages * pageSize := by
    rw [hn] at hpos ⊢
    unfold regionPages pageFrame pageOffset wadd wordSize pageSize at *
    omega
  have hlast : pageFrame vaddr + seg.npages * pageSize ≤ wordSize := by
    have hd : pageSize ∣ pageFrame vaddr + seg.npages * pageSize :=
      (Nat.dvd_add_right (pageFrame_dvd vaddr)).mpr (Nat.dvd_mul_left _ _)
    obtain ⟨q, hq⟩ := hd
    unfold wordSize pageSize at *
    omega
  have hpage : ∀ i, 1 ≤ i → i ≤ seg.npages →
      seg.pageAddr i = pageFrame vaddr + (i - 1) * pageSize ∧
        (i - 1) * pageSize + pageSize ≤ seg.npages * pageSize := by
    intro i hi hin
    have hstep : (i - 1) * pageSize + pageSize ≤ seg.npages * pageSize := by
      rw [← Nat.succ_mul]
      exact Nat.mul_le_mul_right _ (by omega)
    refine ⟨?_, hstep⟩
    rw [SegmentEntry.pageAddr, hfirst]
    exact wadd_of_lt (by unfold pageSize at *; omega)
  have hwin : ∀ i, 1 ≤ i → i ≤ seg.npages →
      seg.chunkStart i = max (seg.pageAddr i) vaddr ∧
        seg.chunkStart i + computeMemsz seg i = min (seg.pageAddr i + pageSize) (vaddr + sz) ∧
          computeOffset offset i = (offset + (seg.chunkStart i - vaddr)) % wordSize := by
    intro i hi hin
    have hfa : seg.pageAddr i = seg.firstAddr + (i - 1) * pageSize := by
      rw [hfirst]
      exact (hpage i hi hin).1
    have := hcong.window hi hin hfa
    rw [hvaddr, hs, ho, Int.toNat_natCast] at this
    exact this
  refine ⟨by omega, by omega, fun i hi hin => ?_, fun i hi hin => ?_, fun i hi hin => ?_⟩
  · obtain ⟨he, hle⟩ := hpage i hi hin
    rw [hfirst]
    exact ⟨he, by omega, by omega⟩
  · obtain ⟨hstart, hend, -⟩ := hwin i hi hin
    exact ⟨hstart, hend⟩
  · obtain ⟨hstart, hend, hcomp⟩ := hwin i hi hin
    obtain ⟨he, hle⟩ := hpage i hi hin
    rw [ho, Int.toNat_natCast, hcomp, Nat.mod_eq_of_lt (by omega)]
    omega

/-- The chunks of a region that is tiled. -/
theorem SegmentEntry.Tiled.bounds (h : seg.Tiled vaddr sz) (hv : vaddr < wordSize) (hsz : 1 ≤ sz)
    (hmod : vaddr % pageSize = offset % pageSize) (hfirst : seg.firstAddr = pageFrame vaddr)
    (hpos : 0 < seg.npages) (hs : seg.size = sz) (ho : seg.offset = offset) :
    vaddr + sz ≤ wordSize ∧ (pageOffset offset + sz ≤ pageSize ∨
      pageSize ≤ sz ∧ offset + sz ≤ wordSize) := by
  have hoff : pageOffset vaddr = pageOffset offset := hmod
  have hsplit := pageFrame_add_pageOffset hv
  obtain ⟨hpage, hstart⟩ := firstPage hv hmod hfirst ho
  have hone : pageOffset offset + sz ≤ pageSize ∨ pageSize ≤ sz := by
    by_contra hc
    push Not at hc
    have hmem : computeMemsz seg 1 = sz := by rw [computeMemsz, hs, if_pos hc.2]
    have := (h.inside 1 (le_refl 1) hpos).2
    omega
  -- the last byte is in some page, which ends inside the words
  obtain ⟨i, hi, hin, hlo, hhi⟩ := (h.cover (vaddr + sz - 1)).mpr ⟨by omega, by omega⟩
  obtain ⟨hpi, hei⟩ := h.inside i hi hin
  have hshift := h.shift i hi hin
  have hroom := seg.pageAddr_add_le i (hfirst ▸ pageFrame_dvd vaddr)
  refine ⟨by omega, ?_⟩
  by_cases hin1 : pageOffset offset + sz ≤ pageSize
  · exact .inl hin1
  · have h1 : i ≠ 1 := by
      rintro rfl
      omega
    have hfile := pageFrame_add_le (seg.offset.toNat + (i - 1) * pageSize)
    rw [computeOffset, if_neg h1] at hshift
    exact .inr ⟨hone.resolve_left hin1, by omega⟩

/-- **Tiling.** For the segment that `as_define_region` adds, the chunks tile the region exactly if
the region ends inside the words and either lies inside one page or is at least a page long, with
its bytes inside the first 4 GiB of the file. -/
theorem tiled_iff (hv : vaddr < wordSize) (hsz : 1 ≤ sz) (hszlt : sz < wordSize)
    (hmod : vaddr % pageSize = offset % pageSize)
    (hdef : asDefineRegion as vaddr offset sz r w x b = some as')
    (hseg : as'.segments = seg :: as.segments) :
    seg.Tiled vaddr sz ↔ vaddr + sz ≤ wordSize ∧ (pageOffset offset + sz ≤ pageSize ∨
      pageSize ≤ sz ∧ offset + sz ≤ wordSize) := by
  obtain ⟨hfirst, hn, hs, ho, hpos⟩ := asDefineRegion_head hdef hseg
  refine ⟨fun h => h.bounds hv hsz hmod hfirst hpos hs ho, ?_⟩
  rintro ⟨hend, hin | ⟨hle, hfile⟩⟩
  · exact (window_of_one_page hv hsz hmod hfirst hn hs ho hin).tiled
  · exact (window_of_pageSize_le hend hle hszlt hmod hfirst hn hpos hs ho hfile).tiled

/-- A region of two pages. -/
theorem tiled_iff_twoPages :
    ∃ seg as', asDefineRegion asCreate 0x400010 0x10 0x1ff0 4 0 1 ⟨0, 0, fun _ => 0⟩ = some as' ∧
      as'.segments = [seg] ∧ seg.Tiled 0x400010 0x1ff0 :=
  ⟨_, _, rfl, rfl, (tiled_iff (by decide) (by decide) (by decide) (by decide) rfl rfl).mpr
    ⟨by decide, .inr ⟨by decide, by decide⟩⟩⟩

/-- **Two bytes across a page boundary** are read twice, the first time over the end of the page. -/
theorem not_tiled :
    ¬ ∀ (as as' : Addrspace) (seg : SegmentEntry) (vaddr offset sz r w x : ℕ) (b : RegionBlocks),
      vaddr < wordSize → 1 ≤ sz → sz < wordSize → vaddr % pageSize = offset % pageSize →
      asDefineRegion as vaddr offset sz r w x b = some as' →
      as'.segments = seg :: as.segments → seg.Tiled vaddr sz := by
  intro hall
  have h := hall asCreate _ _ 0x400fff 0xfff 2 4 0 1 ⟨0, 0, fun _ => 0⟩ (by decide) (by decide)
    (by decide) (by decide) rfl rfl
  have hin := (h.inside 1 (le_refl 1) (by decide)).2
  revert hin
  decide

end Region

end Os161
