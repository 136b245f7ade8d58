import Os161.Elf.FirstTouch
import Os161.Vm.Leak

set_option autoImplicit false

/-!
# Flat memories

What a process expects of its address space, with no word about frames, swap slots or the TLB: a byte
for each address, that of the program file or zero at first and then the last one that was stored.

* `Flat`, `Flat.byte`: the regions, the program file and the stores, and the byte at an address.
* `flatStep`: what an action does to the flat memories of all address spaces.
* `Flat.Describes`: the segments are the regions.
* **`Flat.Describes.firstTouchPage_eq`**: the first touch of a page leaves its initial bytes.
-/

namespace Os161

open Transition Addrspace

/-- A call of `as_define_region`. -/
structure Region where
  vaddr : ℕ
  offset : ℕ
  sz : ℕ
  deriving DecidableEq, Repr

/-- The address lies in the size recorded for the region. -/
def Region.has (r : Region) (a : ℕ) : Bool := r.vaddr ≤ a && a < r.vaddr + r.sz

/-- **A flat memory**: the regions, the program file, and the byte that was last stored at an address. -/
structure Flat where
  regions : List Region
  elfFile : Option FileId
  stored : ℕ → Option UInt8

/-- The byte at `a` before the first store: that of the file at `offset + (a - vaddr)` inside a region,
zero elsewhere. -/
def Flat.initial (m : Flat) (files : FileId → List UInt8) (a : ℕ) : UInt8 :=
  match m.regions.find? (·.has a), m.elfFile with
  | some r, some v => (files v).getD (r.offset + (a - r.vaddr)) 0
  | _, _ => 0

/-- The byte at `a`. -/
def Flat.byte (m : Flat) (files : FileId → List UInt8) (a : ℕ) : UInt8 :=
  (m.stored a).getD (m.initial files a)

/-- The flat memory of a new address space. -/
def Flat.empty : Flat := ⟨[], none, fun _ => none⟩

/-- What an action does to the flat memories. -/
def flatStep (m : AsId → Flat) : VmAction → AsId → Flat
  | .create as => Function.update m as .empty
  | .defineRegion as vaddr offset sz _ _ _ _ =>
    Function.update m as { m as with regions := ⟨vaddr, offset, sz⟩ :: (m as).regions }
  | .completeLoad as v => Function.update m as { m as with elfFile := some v }
  | .store as a b =>
    Function.update m as { m as with stored := Function.update (m as).stored a (some b) }
  | _ => m

/-- The region of a segment whose address and file position agree modulo the page size. -/
def SegmentEntry.region (seg : SegmentEntry) : Region := ⟨seg.vaddr, seg.offset.toNat, seg.size⟩

/-- A region below `USERSPACETOP` whose address and file position agree modulo the page size, which is
no shorter than a page or lies inside one, and whose file positions are words. -/
structure Region.Regular (r : Region) : Prop where
  top : r.vaddr + r.sz ≤ userspaceTop
  congr : r.vaddr % pageSize = r.offset % pageSize
  size : pageSize ≤ r.sz ∨ pageOffset r.vaddr + r.sz ≤ pageSize
  file : r.offset + r.sz ≤ wordSize

/-- **The segments are the regions** and the stack. -/
structure Flat.Describes (m : Flat) (space : Addrspace) : Prop where
  elfFile : space.elfFile = m.elfFile
  region : ∀ r, r ∈ m.regions ↔ ∃ seg ∈ space.segments, 0 ≤ seg.offset ∧ seg.region = r
  congruent : ∀ seg ∈ space.segments, 0 ≤ seg.offset → seg.Congruent ∧ seg.region.Regular

section Initial

variable {m : Flat} {files : FileId → List UInt8} {space space' : Addrspace} {seg : SegmentEntry}
  {act : Activation} {a o v : ℕ}

theorem Region.has_iff {r : Region} : r.has a = true ↔ r.vaddr ≤ a ∧ a < r.vaddr + r.sz := by
  simp [Region.has]

/-- **The segment of a region covers its addresses.** -/
theorem SegmentEntry.Congruent.covers (h : seg.Congruent) (hr : seg.region.Regular)
    (ha : seg.region.has a = true) : seg.covers (pageFrame a) = true := by
  obtain ⟨hlo, hhi⟩ := Region.has_iff.mp ha
  have htop : seg.vaddr + seg.size ≤ userspaceTop := hr.top
  change seg.vaddr ≤ a at hlo
  change a < seg.vaddr + seg.size at hhi
  have hv : seg.firstAddr = pageFrame seg.vaddr := by
    obtain ⟨q, hq⟩ := h.dvd
    have hvaddr : seg.vaddr = seg.firstAddr + pageOffset seg.offset.toNat := rfl
    unfold pageFrame pageOffset userspaceTop kseg0 wordSize pageSize at *
    omega
  exact covers_of_region hv h.npages htop hlo hhi

/-- The byte of an address whose page belongs to a segment of the program file. -/
theorem Flat.Describes.initial_file (h : m.Describes space)
    (hl : Linked space.segments space.pages) (hnd : space.pages.Nodup)
    (hseg : findSegment space (pageFrame a) = some seg) (h0 : 0 ≤ seg.offset)
    (hv : space.elfFile = some v) (ha : a < userspaceTop) :
    m.initial files a = seg.fileByte (files v) a := by
  have hmem := List.mem_of_find?_eq_some hseg
  obtain ⟨hcong, hreg⟩ := h.congruent seg hmem h0
  obtain ⟨j, hj⟩ := Option.ne_none_iff_exists'.mp (findPte_ne_none hl (pageFrame_dvd a) hseg)
  obtain ⟨hn, hnum⟩ := findPte_pageNumber hl (pageFrame_dvd a) hseg hj
  have hi : 1 ≤ pageNumber space seg j := Nat.le_add_left _ _
  rw [hcong.fileByte_eq hi hn (hnum h0) ha]
  unfold Flat.initial
  rw [← h.elfFile, hv]
  cases hfind : m.regions.find? (·.has a) with
  | none =>
    have hno : ¬ (seg.vaddr ≤ a ∧ a < seg.vaddr + seg.size) := fun hin =>
      List.find?_eq_none.mp hfind seg.region ((h.region _).mpr ⟨seg, hmem, h0, rfl⟩)
        (Region.has_iff.mpr hin)
    rw [if_neg hno]
  | some r =>
    obtain ⟨seg', hmem', h0', rfl⟩ := (h.region r).mp (List.mem_of_find?_eq_some hfind)
    have hin : seg'.region.has a = true := (List.find?_some hfind :)
    obtain ⟨hcong', hreg'⟩ := h.congruent seg' hmem' h0'
    obtain rfl := hl.unique hnd hmem' hmem
      ((hl.formed hmem').mem_chain (pageFrame_dvd a) (hcong'.covers hreg' hin))
      ((hl.formed hmem).mem_chain (pageFrame_dvd a) (List.find?_some hseg :))
    obtain ⟨hlo, hhi⟩ := Region.has_iff.mp hin
    change seg'.vaddr ≤ a at hlo
    change a < seg'.vaddr + seg'.size at hhi
    have hfile : seg'.offset.toNat + seg'.size ≤ wordSize := hreg'.file
    rw [if_pos ⟨hlo, hhi⟩, Nat.mod_eq_of_lt (by omega)]
    rfl

/-- The bytes of the stack are zero. -/
theorem Flat.Describes.initial_stack (h : m.Describes space)
    (hl : Linked space.segments space.pages) (hnd : space.pages.Nodup)
    (hseg : findSegment space (pageFrame a) = some seg) (h0 : seg.offset < 0) :
    m.initial files a = 0 := by
  have hmem := List.mem_of_find?_eq_some hseg
  unfold Flat.initial
  cases hfind : m.regions.find? (·.has a) with
  | none => rfl
  | some r =>
    obtain ⟨seg', hmem', h0', rfl⟩ := (h.region r).mp (List.mem_of_find?_eq_some hfind)
    have hin : seg'.region.has a = true := (List.find?_some hfind :)
    obtain ⟨hcong', hreg'⟩ := h.congruent seg' hmem' h0'
    obtain rfl := hl.unique hnd hmem' hmem
      ((hl.formed hmem').mem_chain (pageFrame_dvd a) (hcong'.covers hreg' hin))
      ((hl.formed hmem).mem_chain (pageFrame_dvd a) (List.find?_some hseg :))
    omega

/-- **The first touch of a page leaves its initial bytes.** -/
theorem Flat.Describes.firstTouchPage_eq (h : m.Describes space)
    (hl : Linked space.segments space.pages) (hnd : space.pages.Nodup) (hf : act.Found space)
    (h0 : 0 ≤ act.seg.offset) (hv : space.elfFile = some v) (ho : o < pageSize) :
    firstTouchPage (files v) act.seg act.page (pageNumber space act.seg act.j) o =
      m.initial files (act.page + o) := by
  have hpage := hf.user.pageFrame_add ho
  have htop : act.page + o < userspaceTop := by
    obtain ⟨⟨q, hq⟩, hlt⟩ := hf.user
    rw [hq] at hlt ⊢
    unfold userspaceTop kseg0 pageSize at *
    omega
  have hseg : findSegment space (pageFrame (act.page + o)) = some act.seg := by
    rw [hpage]
    exact hf.seg
  obtain ⟨hn, hnum⟩ := findPte_pageNumber hl hf.user.1 hf.seg hf.pte
  have hi : 1 ≤ pageNumber space act.seg act.j := Nat.le_add_left _ _
  rw [h.initial_file hl hnd hseg h0 hv htop]
  have hbyte : firstTouchPage (files v) act.seg (pageFrame (act.page + o)) _ _ = _ :=
    firstTouchPage_eq_fileByte ((hl.formed (List.mem_of_find?_eq_some hf.seg)).offset_lt) hi
      (fun h0 => hpage.trans (hnum h0)) (lt_trans htop (by decide))
  rwa [hpage, hf.user.pageOffset_add ho] at hbyte

theorem Linked.mem_chain {segs : List SegmentEntry} {pages : List ℕ} (h : Linked segs pages)
    (hp : v ∈ pages) : ∃ seg ∈ segs, v ∈ seg.chain := by
  induction h with
  | nil => cases hp
  | @cons seg _ _ _ _ _ ih =>
    rcases List.mem_append.mp hp with hp | hp
    · exact ⟨seg, List.mem_cons_self, hp⟩
    · obtain ⟨seg', hseg', hmem⟩ := ih hp
      exact ⟨seg', List.mem_cons_of_mem _ hseg', hmem⟩

/-- A segment covers the pages of its chain: neither a regular region nor the stack wraps around. -/
theorem Flat.Describes.covers (h : m.Describes space) (hl : Linked space.segments space.pages)
    (hseg : seg ∈ space.segments) (hp : v ∈ seg.chain) : seg.covers v = true := by
  have hform := hl.formed hseg
  obtain ⟨i, hi, rfl⟩ := List.mem_map.mp hp
  rw [List.mem_range] at hi
  simp only [SegmentEntry.covers, Bool.and_eq_true, decide_eq_true_eq]
  by_cases h0 : seg.offset < 0
  · obtain ⟨hf, hn⟩ := hform.stack h0
    rw [if_pos h0, hf, hn, wadd_of_lt (by decide)]
    rw [hn] at hi
    unfold userStack userspaceTop kseg0 stackPages pageSize at *
    omega
  · obtain ⟨hcong, hreg⟩ := h.congruent seg hseg (not_lt.mp h0)
    have htop : seg.vaddr + seg.size ≤ userspaceTop := hreg.top
    have hv : seg.firstAddr ≤ seg.vaddr := Nat.le_add_right _ _
    have hoff : pageOffset seg.vaddr < pageSize := Nat.mod_lt _ pageSize_pos
    have hw : userspaceTop + 2 * pageSize ≤ wordSize := by decide
    have hpages : regionPages seg.vaddr seg.size = _ := regionPages_eq (by omega)
    have hround : seg.npages * pageSize < pageOffset seg.vaddr + seg.size + pageSize := by
      rw [hcong.npages, hpages]
      unfold pageSize
      omega
    have hpage : pageOffset seg.vaddr = seg.vaddr - seg.firstAddr := by
      rw [hcong.pageOffset_vaddr]
      exact (Nat.add_sub_cancel_left _ _).symm
    have hstep : i * pageSize < seg.npages * pageSize := Nat.mul_lt_mul_of_pos_right hi pageSize_pos
    rw [if_neg h0, wadd_of_lt (by omega), wadd_of_lt (by omega)]
    omega

/-- **Every page of the page table is found.** -/
theorem Flat.Describes.findSegment_of_mem (h : m.Describes space)
    (hl : Linked space.segments space.pages) (hp : v ∈ space.pages) :
    findSegment space v ≠ none := by
  obtain ⟨seg, hseg, hmem⟩ := hl.mem_chain hp
  exact fun hnone => List.find?_eq_none.mp hnone seg hseg (h.covers hl hseg hmem)

end Initial

/-! ## New regions -/

section Define

variable {m : Flat} {files : FileId → List UInt8} {space space' : Addrspace} {b : RegionBlocks}
  {vaddr offset sz r w x a : ℕ}

theorem Flat.describes_empty : Flat.empty.Describes asCreate where
  elfFile := rfl
  region r := by simp [Flat.empty, asCreate]
  congruent seg hseg := absurd hseg List.not_mem_nil

/-- The searches and the transfers leave the segments alone. -/
theorem Flat.Describes.of_segments (h : m.Describes space) (hseg : space'.segments = space.segments)
    (helf : space'.elfFile = space.elfFile) : m.Describes space' where
  elfFile := helf.trans h.elfFile
  region r := by rw [hseg]; exact h.region r
  congruent := by rw [hseg]; exact h.congruent

theorem Flat.Describes.completeLoad {v : FileId} (h : m.Describes space) :
    Flat.Describes { m with elfFile := some v } (asCompleteLoad space v) where
  elfFile := rfl
  region := h.region
  congruent := h.congruent

/-- The stack is no region. -/
theorem Flat.Describes.defineStack (h : m.Describes space) : m.Describes (asDefineStack space b) where
  elfFile := h.elfFile
  region r := by simpa [asDefineStack] using h.region r
  congruent seg hseg h0 := by
    rcases List.mem_cons.mp hseg with rfl | hseg
    · exact absurd h0 (show ¬ (0 : ℤ) ≤ -1 by decide)
    · exact h.congruent seg hseg h0

/-- The segment of a new region. -/
theorem asDefineRegion_segments (h : asDefineRegion space vaddr offset sz r w x b = some space') :
    space'.elfFile = space.elfFile ∧ ∃ seg : SegmentEntry,
      space'.segments = seg :: space.segments ∧ seg.firstAddr = pageFrame vaddr ∧
        seg.npages = regionPages vaddr sz ∧ seg.size = sz ∧ seg.offset = offset := by
  simp only [asDefineRegion] at h
  split_ifs at h
  obtain rfl := Option.some.inj h
  exact ⟨rfl, _, rfl, rfl, rfl, rfl, rfl⟩

/-- A regular region has a congruent segment. -/
theorem Region.Regular.congruent {seg : SegmentEntry} (h : Region.Regular ⟨vaddr, offset, sz⟩)
    (ho : offset < wordSize) (hf : seg.firstAddr = pageFrame vaddr)
    (hn : seg.npages = regionPages vaddr sz) (hs : seg.size = sz) (hoff : seg.offset = offset) :
    seg.Congruent ∧ seg.region = ⟨vaddr, offset, sz⟩ := by
  obtain ⟨htop, hcongr, hsize, -⟩ := h
  simp only at htop hcongr hsize
  have hw : userspaceTop < wordSize := by decide
  have htoNat : seg.offset.toNat = offset := by rw [hoff, Int.toNat_natCast]
  have hpage : pageOffset offset = pageOffset vaddr := hcongr.symm
  have hv : seg.vaddr = vaddr := by
    rw [SegmentEntry.vaddr, hf, htoNat, hpage]
    exact pageFrame_add_pageOffset (by omega)
  refine ⟨⟨hf ▸ pageFrame_dvd _, hoff ▸ Int.natCast_nonneg _, htoNat ▸ ho, by omega, ?_, ?_⟩, ?_⟩
  · rw [hn, hv, hs]
  · rw [hs, htoNat, hpage]
    exact hsize
  · rw [SegmentEntry.region, hv, htoNat, hs]

theorem Flat.Describes.defineRegion (h : m.Describes space)
    (hdef : asDefineRegion space vaddr offset sz r w x b = some space') (ho : offset < wordSize)
    (hr : Region.Regular ⟨vaddr, offset, sz⟩) :
    Flat.Describes { m with regions := ⟨vaddr, offset, sz⟩ :: m.regions } space' := by
  obtain ⟨helf, seg, hseg, hf, hn, hs, hoff⟩ := asDefineRegion_segments hdef
  obtain ⟨hcong, hreg⟩ := hr.congruent ho hf hn hs hoff
  refine ⟨helf.trans h.elfFile, fun q => ?_, fun seg' hseg' h0 => ?_⟩
  · simp only [hseg, List.mem_cons, exists_eq_or_imp]
    rw [hreg, hoff, and_iff_right (Int.natCast_nonneg _), eq_comm]
    exact or_congr_right (h.region q)
  · rcases List.mem_cons.mp (hseg ▸ hseg') with rfl | hseg'
    · exact ⟨hcong, hreg ▸ hr⟩
    · exact h.congruent seg' hseg' h0

/-- **A new region leaves the initial bytes of the old pages.** -/
theorem initial_defineRegion
    (hdef : asDefineRegion space vaddr offset sz r w x b = some space') (ho : offset < wordSize)
    (hr : Region.Regular ⟨vaddr, offset, sz⟩) (hnd : space'.pages.Nodup)
    (ha : pageFrame a ∈ space.pages) :
    Flat.initial { m with regions := ⟨vaddr, offset, sz⟩ :: m.regions } files a =
      m.initial files a := by
  obtain ⟨-, seg, hseg, hf, hn, hs, hoff⟩ := asDefineRegion_segments hdef
  obtain ⟨hcong, hreg⟩ := hr.congruent ho hf hn hs hoff
  have hno : Region.has ⟨vaddr, offset, sz⟩ a = false := by
    rw [← hreg, Bool.eq_false_iff]
    intro hin
    obtain ⟨seg', new, hform, -, hseg', hpt, hchain, -⟩ := extends_asDefineRegion ho hdef
    obtain rfl : seg' = seg := (List.cons.inj (hseg'.symm.trans hseg)).1
    have hcov := hform.mem_chain (pageFrame_dvd a) (hcong.covers (hreg ▸ hr) hin)
    rw [pages, hpt, List.map_append, hchain] at hnd
    exact List.disjoint_of_nodup_append hnd hcov ha
  unfold Flat.initial
  rw [List.find?_cons, hno]

end Define

end Os161
