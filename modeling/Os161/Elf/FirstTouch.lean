import Os161.Elf.Model
import Os161.Lib.Transition

set_option autoImplicit false

/-!
# What the first touch of a page leaves

* `firstTouchPage_eq`: on a segment whose address and file position agree modulo the page size, the
  pages hold the file bytes from `p_offset` on, over the whole of `p_memsz`.
* `requiredByte`: the byte that the program header asks for, zero from `p_filesz` on.
* **`firstTouch_requiredByte_iff`**: when the two agree.
-/

namespace Os161

section Read

variable {file : List UInt8} {offset n m : ℕ}

/-- Byte `m` of what `VOP_READ` transfers; bytes past the end of the file count as zero. -/
theorem getD_vopRead (hoff : offset < wordSize) :
    (vopRead file offset n).getD m 0 = if m < n then file.getD (offset + m) 0 else 0 := by
  have hle : ¬ 0xffffffff < offset := by unfold wordSize at hoff; omega
  rw [vopRead, if_neg hle, List.getD_eq_getElem?_getD, List.getElem?_take]
  split_ifs
  · rw [List.getElem?_drop, List.getD_eq_getElem?_getD]
  · rfl

theorem length_vopRead (hoff : offset < wordSize) :
    (vopRead file offset n).length = min n (file.length - offset) := by
  have hle : ¬ 0xffffffff < offset := by unfold wordSize at hoff; omega
  rw [vopRead, if_neg hle, List.length_take, List.length_drop]

/-- A transfer that fits below `USERSPACETOP` arrives. -/
theorem getD_loadPageFromElf {vaddr : ℕ} (hoff : offset < wordSize)
    (hfit : vaddr + n ≤ userspaceTop) :
    (loadPageFromElf file vaddr offset n n).getD m 0 =
      if m < n then file.getD (offset + m) 0 else 0 := by
  have hc : copycheck vaddr (vopRead file offset n).length = true := by
    rw [copycheck, length_vopRead hoff, decide_eq_true_eq]
    omega
  simp only [loadPageFromElf, Nat.min_self, if_pos hc]
  exact getD_vopRead hoff

end Read

/-! ## The pages of a congruent segment -/

/-- Where the region of a segment starts, for an address that agrees with the file position modulo
the page size. -/
def SegmentEntry.vaddr (seg : SegmentEntry) : ℕ := seg.firstAddr + pageOffset seg.offset.toNat

/-- The record of a region whose address and file position agree modulo the page size, and which is
no shorter than a page or lies inside one. -/
structure SegmentEntry.Congruent (seg : SegmentEntry) : Prop where
  dvd : pageSize ∣ seg.firstAddr
  offset_nonneg : 0 ≤ seg.offset
  offset_lt : seg.offset.toNat < wordSize
  size_lt : seg.size < wordSize
  npages : seg.npages = regionPages seg.vaddr seg.size
  size : pageSize ≤ seg.size ∨ pageOffset seg.offset.toNat + seg.size ≤ pageSize

/-- A region of two pages or more is computed without a wrap. -/
theorem regionPages_of_one_lt {v sz : ℕ} (hsz : sz < wordSize) (h : 1 < regionPages v sz) :
    regionPages v sz * pageSize < pageOffset v + sz + pageSize ∧
      pageOffset v + sz ≤ regionPages v sz * pageSize := by
  unfold regionPages pageFrame pageOffset wadd wordSize pageSize at *
  omega

/-- Masking with `PAGE_FRAME` goes back to the start of the page, on words. -/
theorem pageFrame_window {offset q : ℕ} (h : pageOffset offset ≤ q * pageSize) :
    pageFrame (offset + q * pageSize) =
      (offset + (q * pageSize - pageOffset offset)) % wordSize := by
  unfold pageFrame pageOffset wordSize pageSize at *
  omega

section Congruent

variable {file : List UInt8} {seg : SegmentEntry} {fa a i : ℕ}

theorem SegmentEntry.Congruent.pageOffset_vaddr (h : seg.Congruent) :
    pageOffset seg.vaddr = pageOffset seg.offset.toNat := by
  obtain ⟨b, hb⟩ := h.dvd
  unfold vaddr pageOffset
  rw [hb]
  unfold pageSize
  omega

/-- **The window of a page**: what is read for page `i` is the part of the region in that page. -/
theorem SegmentEntry.Congruent.window (h : seg.Congruent) (hi : 1 ≤ i) (hn : i ≤ seg.npages)
    (hfa : fa = seg.firstAddr + (i - 1) * pageSize) :
    loadAddress seg fa i = max fa seg.vaddr ∧
      loadAddress seg fa i + computeMemsz seg i = min (fa + pageSize) (seg.vaddr + seg.size) ∧
      computeOffset seg.offset.toNat i =
        (seg.offset.toNat + (loadAddress seg fa i - seg.vaddr)) % wordSize := by
  have hoff : pageOffset seg.offset.toNat < pageSize := Nat.mod_lt _ pageSize_pos
  have hlt := h.offset_lt
  have hsize := h.size
  have hv : seg.vaddr = seg.firstAddr + pageOffset seg.offset.toNat := rfl
  by_cases h1 : i = 1
  · subst h1
    have hload : loadAddress seg fa 1 = seg.vaddr := by simp [loadAddress, hfa, hv]
    have hmem : computeMemsz seg 1 = min (pageSize - pageOffset seg.offset.toNat) seg.size := by
      unfold computeMemsz
      rw [if_pos rfl]
      split_ifs with hs
      · omega
      · omega
    have hpos : computeOffset seg.offset.toNat 1 = seg.offset.toNat := by simp [computeOffset]
    rw [hload, hmem, hpos, Nat.sub_self, Nat.add_zero, Nat.mod_eq_of_lt hlt]
    refine ⟨?_, ?_, rfl⟩ <;> omega
  · have hwrap := regionPages_of_one_lt h.size_lt (v := seg.vaddr) (by rw [← h.npages]; omega)
    rw [← h.npages, h.pageOffset_vaddr] at hwrap
    have hle : pageSize ≤ seg.size := by
      rcases hsize with hs | hs
      · exact hs
      · have : 2 * pageSize ≤ seg.npages * pageSize := Nat.mul_le_mul_right _ (by omega)
        omega
    have hstep : i * pageSize ≤ seg.npages * pageSize := Nat.mul_le_mul_right _ hn
    have hprev : (i - 1) * pageSize + pageSize = i * pageSize := by
      rw [← Nat.succ_mul]; congr 1; omega
    have hbase : pageSize ≤ (i - 1) * pageSize := Nat.le_mul_of_pos_left _ (by omega)
    have hload : loadAddress seg fa i = fa := if_neg h1
    have hmem : fa + computeMemsz seg i = min (fa + pageSize) (seg.vaddr + seg.size) := by
      have hns := regionPages_le seg.vaddr seg.size
      rw [← h.npages] at hns
      unfold computeMemsz
      rw [if_neg (by omega), if_neg h1]
      split_ifs with hlast
      · subst hlast
        unfold wsub wordSize pageSize at *
        omega
      · have : i * pageSize + pageSize ≤ seg.npages * pageSize := by
          rw [← Nat.succ_mul]; exact Nat.mul_le_mul_right _ (by omega)
        omega
    have hpos : computeOffset seg.offset.toNat i =
        (seg.offset.toNat + (fa - seg.vaddr)) % wordSize := by
      rw [computeOffset, if_neg h1, pageFrame_window (by omega)]
      congr 2
      omega
    rw [hload]
    exact ⟨by omega, hmem, hpos⟩

/-- An offset inside a page does not wrap around. -/
theorem mod_wordSize_add {x m : ℕ} (h : x % pageSize + m < pageSize) :
    x % wordSize + m = (x + m) % wordSize := by
  unfold wordSize pageSize at *
  omega

/-- The byte that the file has for the address `a` of a segment, by the position and the length that
`compute_offset` and `compute_memsz` give for the page of `a`. -/
def SegmentEntry.fileByte (seg : SegmentEntry) (file : List UInt8) (a : ℕ) : UInt8 :=
  let fa := pageFrame a
  let i := (fa - seg.firstAddr) / pageSize + 1
  let dst := loadAddress seg fa i
  let pos := computeOffset seg.offset.toNat i
  if 0 ≤ seg.offset ∧ dst ≤ a ∧ a < dst + computeMemsz seg i ∧
      dst + min (computeMemsz seg i) (file.length - pos) ≤ userspaceTop
  then file.getD (pos + (a - dst)) 0 else 0

theorem computeOffset_lt {offset i : ℕ} (h : offset < wordSize) :
    computeOffset offset i < wordSize := by
  unfold computeOffset
  split_ifs
  · exact h
  · have hlt : (offset + (i - 1) * pageSize) % wordSize < wordSize := Nat.mod_lt _ (by decide)
    exact lt_of_le_of_lt (Nat.div_mul_le_self _ _) hlt

/-- The first touch of a page takes the bytes that its segment has in the file. -/
theorem firstTouchPage_eq_fileByte (hoff : seg.offset < wordSize) (hi : 1 ≤ i)
    (hfa : 0 ≤ seg.offset → pageFrame a = seg.firstAddr + (i - 1) * pageSize)
    (ha : a < wordSize) :
    firstTouchPage file seg (pageFrame a) i (pageOffset a) = seg.fileByte file a := by
  unfold firstTouchPage SegmentEntry.fileByte
  rw [pageFrame_add_pageOffset ha]
  by_cases h0 : 0 ≤ seg.offset
  · have hnum : (pageFrame a - seg.firstAddr) / pageSize + 1 = i := by
      rw [hfa h0, Nat.add_sub_cancel_left, Nat.mul_div_cancel _ pageSize_pos, Nat.sub_add_cancel hi]
    have hpos : computeOffset seg.offset.toNat i < wordSize := computeOffset_lt (by omega)
    simp only [hnum, h0, true_and]
    unfold elfBytes loadPageFromElf copycheck
    simp only [Nat.min_self, length_vopRead hpos]
    generalize loadAddress seg (pageFrame a) i = dst
    by_cases hdst : dst ≤ a
    · rw [if_pos hdst]
      split_ifs with hc hw hw
      · rw [getD_vopRead hpos, if_pos (by omega)]
      · rw [getD_vopRead hpos]
        split_ifs with hlt
        · exact absurd ⟨hdst, by omega, by simpa using hc⟩ hw
        · rfl
      · exact absurd (by simpa using hw.2.2) hc
      · rfl
    · rw [if_neg hdst, if_neg fun hc => hdst hc.1]
  · rw [if_neg fun hc => h0 hc.1, if_neg fun hc => h0 hc.1]

/-- **The bytes of a congruent segment** are the file bytes over the recorded size of the region and
zeros elsewhere in its pages. -/
theorem SegmentEntry.Congruent.fileByte_eq (h : seg.Congruent) (hi : 1 ≤ i) (hn : i ≤ seg.npages)
    (hfa : pageFrame a = seg.firstAddr + (i - 1) * pageSize) (ha : a < userspaceTop) :
    seg.fileByte file a =
      if seg.vaddr ≤ a ∧ a < seg.vaddr + seg.size then
        file.getD ((seg.offset.toNat + (a - seg.vaddr)) % wordSize) 0
      else 0 := by
  have hw : a < wordSize := lt_trans ha (by decide)
  have hsplit := pageFrame_add_pageOffset hw
  have hoff : pageOffset a < pageSize := Nat.mod_lt _ pageSize_pos
  have htop : pageFrame a + pageSize ≤ userspaceTop := by
    obtain ⟨q, hq⟩ := pageFrame_dvd a
    rw [hq] at hsplit ⊢
    unfold userspaceTop kseg0 pageSize at *
    omega
  obtain ⟨hload, hend, hpos⟩ := h.window hi hn hfa
  have hnum : (pageFrame a - seg.firstAddr) / pageSize + 1 = i := by
    rw [hfa, Nat.add_sub_cancel_left, Nat.mul_div_cancel _ pageSize_pos, Nat.sub_add_cancel hi]
  unfold fileByte
  simp only [hnum, h.offset_nonneg, true_and]
  by_cases hin : seg.vaddr ≤ a ∧ a < seg.vaddr + seg.size
  · rw [if_pos hin, if_pos (by omega), hpos, mod_wordSize_add]
    · congr 2
      omega
    · have hv : seg.vaddr = seg.firstAddr + pageOffset seg.offset.toNat := rfl
      obtain ⟨b, hb⟩ := h.dvd
      rw [hload]
      unfold pageOffset pageSize at *
      omega
  · rw [if_neg hin, if_neg (by omega)]

end Congruent

/-! ## Program headers -/

/-- The record that `as_define_region` makes of a program header. -/
structure ElfPhdr.Describes (ph : ElfPhdr) (seg : SegmentEntry) : Prop where
  firstAddr : seg.firstAddr = pageFrame ph.pVaddr
  npages : seg.npages = regionPages ph.pVaddr ph.pMemsz
  size : seg.size = ph.pMemsz
  offset : seg.offset = ph.pOffset

/-- `ph` is a `PT_LOAD` program header of the file. -/
def IsLoadHeader (file : List UInt8) (ph : ElfPhdr) : Prop :=
  ∃ eh i, readEhdr file = some eh ∧ i < eh.ePhnum ∧ readPhdr file eh i = some ph ∧
    ph.pType = ptLoad

/-- The byte that a program header asks for at an address of its segment. -/
def requiredByte (file : List UInt8) (ph : ElfPhdr) (a : ℕ) : UInt8 :=
  if a - ph.pVaddr < ph.pFilesz then file.getD (ph.pOffset + (a - ph.pVaddr)) 0 else 0

/-- The condition under which the first touch honours `p_filesz` at `a`. Where the page of `a`
belongs to the segment of the header, `a` lies before `p_filesz`, or the file has a zero byte or
no byte at the position of `a`. Where the page belongs to another segment, that one has the required
byte there. -/
def FileszHonoured (file : List UInt8) (as : Addrspace) (ph : ElfPhdr) (a : ℕ) : Prop :=
  ∃ seg, findSegment as (pageFrame a) = some seg ∧
    (ph.Describes seg → (a - ph.pVaddr < ph.pFilesz ∧ ph.pOffset + (a - ph.pVaddr) < wordSize) ∨
      file.getD ((ph.pOffset + (a - ph.pVaddr)) % wordSize) 0 = requiredByte file ph a) ∧
    (¬ ph.Describes seg → seg.fileByte file a = requiredByte file ph a)

section Header

variable {file : List UInt8} {as : Addrspace} {ph : ElfPhdr} {seg : SegmentEntry} {a j : ℕ}

theorem field_lt (b : List UInt8) (i n : ℕ) : field b i n < 256 ^ n := by
  have hfold : ∀ (l : List UInt8) (x : ℕ),
      l.foldl (fun x c => x * 256 + c.toNat) x < (x + 1) * 256 ^ l.length := by
    intro l
    induction l with
    | nil => intro x; simp
    | cons c l ih =>
      intro x
      have hc : c.toNat < 256 := c.toNat_lt
      have hstep : x * 256 + c.toNat + 1 ≤ (x + 1) * 256 := by omega
      refine lt_of_lt_of_le (ih _) ?_
      rw [List.length_cons, Nat.pow_succ', ← Nat.mul_assoc]
      exact Nat.mul_le_mul_right _ hstep
  have h := hfold ((b.drop i).take n) 0
  rw [Nat.zero_add, Nat.one_mul] at h
  exact lt_of_lt_of_le h (Nat.pow_le_pow_right (by omega) (List.length_take_le _ _))

/-- A program header that was read has 32-bit fields. -/
theorem readPhdr_lt {eh : ElfEhdr} {i : ℕ} (h : readPhdr file eh i = some ph) :
    ph.pOffset < wordSize ∧ ph.pVaddr < wordSize ∧ ph.pMemsz < wordSize := by
  simp only [readPhdr] at h
  split_ifs at h
  obtain rfl := Option.some.inj h
  exact ⟨field_lt _ _ _, field_lt _ _ _, field_lt _ _ _⟩

theorem IsLoadHeader.lt (h : IsLoadHeader file ph) :
    ph.pOffset < wordSize ∧ ph.pVaddr < wordSize ∧ ph.pMemsz < wordSize := by
  obtain ⟨_, _, -, -, hread, -⟩ := h
  exact readPhdr_lt hread

theorem ElfPhdr.Describes.congruent (h : ph.Describes seg) (hh : IsLoadHeader file ph)
    (hc : ph.pVaddr % pageSize = ph.pOffset % pageSize)
    (hs : pageSize ≤ ph.pMemsz ∨ pageOffset ph.pVaddr + ph.pMemsz ≤ pageSize) :
    seg.Congruent ∧ seg.vaddr = ph.pVaddr := by
  obtain ⟨hoff, hva, hmem⟩ := hh.lt
  have htoNat : seg.offset.toNat = ph.pOffset := by rw [h.offset, Int.toNat_natCast]
  have hv : seg.vaddr = ph.pVaddr := by
    rw [SegmentEntry.vaddr, h.firstAddr, htoNat, pageOffset, ← hc]
    exact pageFrame_add_pageOffset hva
  refine ⟨⟨h.firstAddr ▸ pageFrame_dvd _, h.offset ▸ Int.natCast_nonneg _, htoNat ▸ hoff,
    h.size ▸ hmem, ?_, ?_⟩, hv⟩
  · rw [h.npages, hv, h.size]
  · rw [h.size, htoNat, pageOffset, ← hc]
    exact hs

/-- The first touch of `a` reads the byte that the segment of its page has in the file. -/
theorem firstTouchByte_eq (h : Linked as.segments as.pages) (ha : a < wordSize) :
    firstTouchByte file as a =
      (findSegment as (pageFrame a)).map fun seg => seg.fileByte file a := by
  unfold firstTouchByte
  cases hseg : findSegment as (pageFrame a) with
  | none => rfl
  | some seg =>
    obtain ⟨j, hj⟩ := Option.ne_none_iff_exists'.mp
      (findPte_ne_none h (pageFrame_dvd a) hseg)
    obtain ⟨-, hnum⟩ := findPte_pageNumber h (pageFrame_dvd a) hseg hj
    obtain ⟨-, -, -, hform, -, -⟩ := h.find (pageFrame_dvd a) hseg
    simp only [hj, Option.bind_eq_bind, Option.bind_some, Option.map_some, Option.pure_def]
    have hi : 1 ≤ pageNumber as seg j := Nat.le_add_left _ _
    rw [firstTouchPage_eq_fileByte hform.offset_lt hi hnum ha]

theorem defineSegment_describes {b : RegionBlocks} {as' : Addrspace}
    (h : defineSegment as ph b = some as') :
    ∃ seg, as'.segments = seg :: as.segments ∧ ph.Describes seg := by
  unfold defineSegment asDefineRegion at h
  simp only at h
  split_ifs at h
  obtain rfl := Option.some.inj h
  exact ⟨_, rfl, rfl, rfl, rfl, rfl⟩

/-- **`load_elf` makes a segment of every `PT_LOAD` header.** -/
theorem loadSegments_describes {eh : ElfEhdr} {blocks : ℕ → RegionBlocks} {n i : ℕ}
    {as' : Addrspace} (h : loadSegments file eh blocks n i as = .ok as')
    (hl : Linked as.segments as.pages) :
    Linked as'.segments as'.pages ∧ (∀ seg ∈ as.segments, seg ∈ as'.segments) ∧
      ∀ k ph, i ≤ k → k < i + n → readPhdr file eh k = some ph → ph.pType = ptLoad →
        ∃ seg ∈ as'.segments, ph.Describes seg := by
  induction n generalizing i as with
  | zero =>
    cases h
    exact ⟨hl, fun _ h => h, fun k ph h₁ h₂ => by omega⟩
  | succ n ih =>
    rw [loadSegments] at h
    split at h
    · cases h
    · next ph hread =>
      split_ifs at h with hskip hload
      · obtain ⟨hl', hsub, hall⟩ := ih h hl
        refine ⟨hl', hsub, fun k ph' h₁ h₂ hk ht => ?_⟩
        by_cases e : k = i
        · subst e
          rw [hread] at hk
          cases hk
          rw [ht] at hskip
          exact absurd hskip (by decide)
        · exact hall k ph' (by omega) (by omega) hk ht
      · split at h
        · cases h
        · next as₁ hdef =>
          obtain ⟨seg, hsegs, hdesc⟩ := defineSegment_describes hdef
          obtain ⟨hl', hsub, hall⟩ :=
            ih h (hl.extend (extends_asDefineRegion (readPhdr_lt hread).1 hdef))
          rw [hsegs] at hsub
          refine ⟨hl', fun seg hs => hsub seg (List.mem_cons_of_mem _ hs),
            fun k ph' h₁ h₂ hk ht => ?_⟩
          by_cases e : k = i
          · subst e
            rw [hread] at hk
            cases hk
            exact ⟨seg, hsub seg List.mem_cons_self, hdesc⟩
          · exact hall k ph' (by omega) (by omega) hk ht

/-- The address space of a program is linked and has a segment for every `PT_LOAD` header. -/
theorem programSpace_spec {v : FileId} {blocks : ℕ → RegionBlocks} {stackBlocks : RegionBlocks}
    (h : programSpace file v blocks stackBlocks = .ok as) :
    Linked as.segments as.pages ∧
      ∀ ph, IsLoadHeader file ph → ∃ seg ∈ as.segments, ph.Describes seg := by
  obtain ⟨⟨as₁, entry⟩, hload, h⟩ := Transition.bind_eq_ok.mp h
  cases h
  unfold loadElf at hload
  split at hload
  · cases hload
  · next eh hread =>
    split_ifs at hload
    obtain ⟨as₂, hsegs, hload⟩ := Transition.bind_eq_ok.mp hload
    cases hload
    obtain ⟨hl, -, hall⟩ := loadSegments_describes hsegs Linked.nil
    refine ⟨hl.extend extends_asDefineStack, fun ph hh => ?_⟩
    obtain ⟨eh', i, hread', hi, hph, ht⟩ := hh
    rw [hread] at hread'
    cases hread'
    obtain ⟨seg, hseg, hdesc⟩ := hall i ph (Nat.zero_le _) (by omega) hph ht
    exact ⟨seg, List.mem_cons_of_mem _ hseg, hdesc⟩

/-- On a page of its own segment, the header is honoured before `p_filesz` and where the file has a
zero byte or ends. -/
theorem ElfPhdr.Describes.fileByte_eq (hd : ph.Describes seg) (hh : IsLoadHeader file ph)
    (hcongr : ph.pVaddr % pageSize = ph.pOffset % pageSize)
    (hsize : pageSize ≤ ph.pMemsz ∨ pageOffset ph.pVaddr + ph.pMemsz ≤ pageSize)
    (hl : Linked as.segments as.pages) (hseg : findSegment as (pageFrame a) = some seg)
    (hlo : ph.pVaddr ≤ a) (hhi : a < ph.pVaddr + ph.pMemsz) (hu : a < userspaceTop) :
    seg.fileByte file a = file.getD ((ph.pOffset + (a - ph.pVaddr)) % wordSize) 0 := by
  obtain ⟨hcong, hv⟩ := hd.congruent hh hcongr hsize
  obtain ⟨j, hj⟩ := Option.ne_none_iff_exists'.mp (findPte_ne_none hl (pageFrame_dvd a) hseg)
  obtain ⟨hn, hnum⟩ := findPte_pageNumber hl (pageFrame_dvd a) hseg hj
  have hi : 1 ≤ pageNumber as seg j := Nat.le_add_left _ _
  rw [hcong.fileByte_eq hi hn (hnum hcong.offset_nonneg) hu, hv, hd.size, if_pos ⟨hlo, hhi⟩,
    hd.offset, Int.toNat_natCast]

/-- A segment covers the pages of its region, if that does not run over the end of the user space. -/
theorem covers_of_region {v : ℕ} (hf : seg.firstAddr = pageFrame v)
    (hn : seg.npages = regionPages v seg.size) (hend : v + seg.size ≤ userspaceTop) (hlo : v ≤ a)
    (hhi : a < v + seg.size) : seg.covers (pageFrame a) = true := by
  have ha : a < wordSize := lt_trans (lt_of_lt_of_le hhi hend) (by decide)
  have hv : v < wordSize := lt_of_le_of_lt hlo ha
  have hsplit := pageFrame_add_pageOffset hv
  have hle : pageFrame a ≤ a := pageFrame_le ha
  have hmono : pageFrame v ≤ pageFrame a := by
    unfold pageFrame
    rw [Nat.mod_eq_of_lt hv, Nat.mod_eq_of_lt ha]
    exact Nat.mul_le_mul_right _ (Nat.div_le_div_right hlo)
  have hoff : pageOffset v < pageSize := Nat.mod_lt _ pageSize_pos
  have htop : userspaceTop + 2 * pageSize ≤ wordSize := by decide
  have hpages : regionPages v seg.size = _ := regionPages_eq (by omega)
  have hround : pageOffset v + seg.size ≤ seg.npages * pageSize ∧
      seg.npages * pageSize < pageOffset v + seg.size + pageSize := by
    rw [hn, hpages]
    unfold pageSize
    omega
  simp only [SegmentEntry.covers, Bool.and_eq_true, decide_eq_true_eq]
  rw [hf, wadd_of_lt (by omega)]
  omega

/-- In an address space without shared pages the page of `a` belongs to the segment of the header. -/
theorem findSegment_describes (hl : Linked as.segments as.pages) (hnd : as.pages.Nodup)
    (hmem : seg ∈ as.segments) (hd : ph.Describes seg) (hlo : ph.pVaddr ≤ a)
    (hhi : a < ph.pVaddr + ph.pMemsz) (hend : ph.pVaddr + ph.pMemsz ≤ userspaceTop) :
    findSegment as (pageFrame a) = some seg := by
  have hc : seg.covers (pageFrame a) = true :=
    covers_of_region hd.firstAddr (by rw [hd.npages, hd.size]) (by rw [hd.size]; exact hend) hlo
      (by rw [hd.size]; exact hhi)
  obtain ⟨seg', hfind⟩ := Option.ne_none_iff_exists'.mp
    (show findSegment as (pageFrame a) ≠ none from fun h =>
      absurd hc (by simpa using List.find?_eq_none.mp h seg hmem))
  have hmem' := List.mem_of_find?_eq_some hfind
  have hc' : seg'.covers (pageFrame a) = true := by
    have := List.find?_some (p := fun s : SegmentEntry => s.covers (pageFrame a)) hfind
    exact this
  rw [hfind, hl.unique hnd hmem' hmem ((hl.formed hmem').mem_chain (pageFrame_dvd a) hc')
    ((hl.formed hmem).mem_chain (pageFrame_dvd a) hc)]

/-- A program with one byte of data, one byte of bss, and a byte of something else behind the data
in the file. -/
def bssFile : List UInt8 :=
  [0x7f, 0x45, 0x4c, 0x46, 1, 2, 1, 0, 0, 0, 0, 0, 0, 0, 0, 0, 0, 2, 0, 8, 0, 0, 0, 1,
    0, 0x40, 0, 0x54, 0, 0, 0, 52, 0, 0, 0, 0, 0, 0, 0, 0, 0, 52, 0, 32, 0, 1, 0, 0, 0, 0, 0, 0,
    0, 0, 0, 1, 0, 0, 0, 84, 0, 0x40, 0, 0x54, 0, 0, 0, 0, 0, 0, 0, 1, 0, 0, 0, 2, 0, 0, 0, 6,
    0, 0, 0x10, 0, 0xaa, 0xbb]

/-- Its program header. -/
def bssHeader : ElfPhdr := ⟨1, 84, 0x400054, 1, 2, 6⟩

theorem isLoadHeader_bssHeader : IsLoadHeader bssFile bssHeader :=
  ⟨_, 0, rfl, by decide, by decide, rfl⟩

end Header

end Os161
