import Mathlib.Data.List.Nodup
import Os161.Coremap.Model

set_option autoImplicit false

/-!
# Address spaces

`addrspace.c`, `segment.c` and `pt.c`: the page table of an address space is one linked list, to
which every region contributes the chain of its pages, and the segments are another one. Both grow
at the head. A list models a chain of `next` pointers, and a pointer into the page table is the
number of entries from there to its end, which no later insertion changes.

* `asDefineRegion`, `asDefineStack`: the two ways a region is added.
* `findSegment`, `findPte`: the searches of `vm_fault`; `ptUpdate`: the one of `pt_update`.
* `Linked`: the page table is the chains of the segments, one after the other.
-/

namespace Os161

open Loop

/-- `pt_entry`, with the address of its block. -/
structure PtEntry where
  addr : ℕ
  page : ℕ
  frame : ℕ
  inMem : Bool
  inSwap : Bool
  deriving DecidableEq, Repr

/-- `segment_entry` and its `permissions`, with the addresses of the two blocks. -/
structure SegmentEntry where
  addr : ℕ
  permissionAddr : ℕ
  firstAddr : ℕ
  npages : ℕ
  size : ℕ
  offset : ℤ
  read : ℕ
  write : ℕ
  exec : ℕ
  firstPtEntry : ℕ
  deriving DecidableEq, Repr

/-- A file, by the vnode that `vfs_open` returned. -/
abbrev FileId : Type := ℕ

/-- `struct addrspace`. -/
structure Addrspace where
  pt : List PtEntry
  segments : List SegmentEntry
  elfFile : Option FileId
  deriving DecidableEq, Repr

/-- The blocks that `kmalloc` returned for a new region. -/
structure RegionBlocks where
  segment : ℕ
  permission : ℕ
  page : ℕ → ℕ

/-- `DUMBVM_STACKPAGES`. -/
def stackPages : ℕ := 18

/-- `as_create`, after its call of `kmalloc`. -/
def asCreate : Addrspace := ⟨[], [], none⟩

/-- `pt_create`, after its call of `kmalloc`. -/
def ptCreate (addr vaddr : ℕ) : PtEntry := ⟨addr, vaddr, 0, false, false⟩

/-- The number of pages that `as_define_region` computes: base and length aligned, on words. -/
def regionPages (vaddr sz : ℕ) : ℕ :=
  pageFrame (wadd (wadd sz (pageOffset vaddr)) (pageSize - 1)) / pageSize

/-- `as_define_region`. Without any page its local variable `page_head` stays undefined: `none`. -/
def asDefineRegion (as : Addrspace) (vaddr offset sz readable writeable executable : ℕ)
    (b : RegionBlocks) : Option Addrspace :=
  let npages := regionPages vaddr sz
  if npages = 0 then none
  else some { as with
    pt := ((List.range npages).map fun i =>
      ptCreate (b.page i) (wadd (pageFrame vaddr) (i * pageSize))) ++ as.pt
    segments :=
      ⟨b.segment, b.permission, pageFrame vaddr, npages, sz, offset, readable, writeable,
        executable, npages + as.pt.length⟩ :: as.segments }

/-- `as_define_stack`: 18 pages below `USERSTACK`, listed downwards. -/
def asDefineStack (as : Addrspace) (b : RegionBlocks) : Addrspace :=
  { as with
    pt := ((List.range stackPages).map fun i =>
      ptCreate (b.page i) (userStack - (i + 1) * pageSize)) ++ as.pt
    segments :=
      ⟨b.segment, b.permission, userStack - stackPages * pageSize, stackPages, 0, -1, 4, 2, 0,
        stackPages + as.pt.length⟩ :: as.segments }

/-- `as_complete_load`. -/
def asCompleteLoad (as : Addrspace) (v : FileId) : Addrspace := { as with elfFile := some v }

/-- The test of the segment search: `faultaddress >= seg->first_addr && faultaddress < end`. -/
def SegmentEntry.covers (seg : SegmentEntry) (fa : ℕ) : Bool :=
  seg.firstAddr ≤ fa && fa < wadd seg.firstAddr (seg.npages * pageSize)

/-- The segment search of `vm_fault`. -/
def findSegment (as : Addrspace) (fa : ℕ) : Option SegmentEntry := as.segments.find? (·.covers fa)

/-- The position of `seg->first_pt_entry`. -/
def firstPte (as : Addrspace) (seg : SegmentEntry) : ℕ := as.pt.length - seg.firstPtEntry

/-- The page search of `vm_fault`: `npages` entries from `first_pt_entry` on. -/
def findPte (as : Addrspace) (seg : SegmentEntry) (fa : ℕ) : Option ℕ :=
  firstIdx (fun j => (as.pt[j]?).map PtEntry.page = some fa) (firstPte as seg) seg.npages

/-- The number of a page in its segment, as `vm_fault` counts it. -/
def pageNumber (as : Addrspace) (seg : SegmentEntry) (j : ℕ) : ℕ := j - firstPte as seg + 1

/-- `pt_update`: the first entry of the page is no longer in memory. -/
def ptUpdate (pt : List PtEntry) (vaddr : ℕ) : List PtEntry :=
  match pt with
  | [] => []
  | e :: pt =>
    if e.page = vaddr then { e with inMem := false, inSwap := true, frame := 0 } :: pt
    else e :: ptUpdate pt vaddr

/-- `pte->frame = paddr; pte->in_mem = 1; pte->in_swap = 0` for the entry at position `j`. -/
def ptSetFrame (pt : List PtEntry) (j paddr : ℕ) : List PtEntry :=
  pt.modify j fun e => { e with frame := paddr, inMem := true, inSwap := false }

/-- The pages of an address space, one for each entry of the page table. -/
def Addrspace.pages (as : Addrspace) : List ℕ := as.pt.map PtEntry.page

/-- The entry of a page that a walk from the head finds. -/
def pteOf (pt : List PtEntry) (page : ℕ) : Option PtEntry := pt.find? fun e => e.page = page

/-! ## The page table and the segments -/

/-- The pages of a segment in the order of its chain. -/
def SegmentEntry.chain (seg : SegmentEntry) : List ℕ :=
  (List.range seg.npages).map fun i =>
    if seg.offset < 0 then userStack - (i + 1) * pageSize else wadd seg.firstAddr (i * pageSize)

/-- What `as_define_region` and `as_define_stack` establish. -/
structure SegmentEntry.Formed (seg : SegmentEntry) : Prop where
  pos : 0 < seg.npages
  dvd : pageSize ∣ seg.firstAddr
  lt : seg.firstAddr < wordSize
  le : seg.npages * pageSize ≤ wordSize
  offset_lt : seg.offset < wordSize
  stack : seg.offset < 0 →
    seg.firstAddr = userStack - stackPages * pageSize ∧ seg.npages = stackPages

/-- **The page table consists of the chains of the segments**, in the order of the segments, and
`first_pt_entry` points at the chain. -/
inductive Linked : List SegmentEntry → List ℕ → Prop
  | nil : Linked [] []
  | cons {seg : SegmentEntry} {segs : List SegmentEntry} {pages : List ℕ} (hseg : seg.Formed)
      (hfirst : seg.firstPtEntry = seg.npages + pages.length) (h : Linked segs pages) :
      Linked (seg :: segs) (seg.chain ++ pages)

section Lemmas

variable {as as' : Addrspace} {seg : SegmentEntry} {segs : List SegmentEntry} {pages : List ℕ}
  {pt : List PtEntry} {fa page v j paddr : ℕ}

@[simp] theorem SegmentEntry.length_chain (seg : SegmentEntry) : seg.chain.length = seg.npages := by
  simp [chain]

theorem SegmentEntry.getElem?_chain {i : ℕ} (hi : i < seg.npages) :
    seg.chain[i]? = some (if seg.offset < 0 then userStack - (i + 1) * pageSize
      else wadd seg.firstAddr (i * pageSize)) := by
  simp [chain, hi]

/-- The segment search accepts only pages of the chain. -/
theorem SegmentEntry.Formed.mem_chain (h : seg.Formed) (hd : pageSize ∣ fa)
    (hc : seg.covers fa = true) : fa ∈ seg.chain := by
  obtain ⟨hlo, hhi⟩ : seg.firstAddr ≤ fa ∧ fa < wadd seg.firstAddr (seg.npages * pageSize) := by
    simpa [covers] using hc
  obtain ⟨m, rfl⟩ := hd
  obtain ⟨b, hb⟩ := h.dvd
  have hlt := h.lt
  have hle := h.le
  have hend : seg.firstAddr + seg.npages * pageSize < wordSize := by
    unfold wadd wordSize pageSize at *
    omega
  rw [wadd_of_lt hend] at hhi
  unfold chain
  rw [List.mem_map]
  by_cases hs : seg.offset < 0
  · obtain ⟨hf, hn⟩ := h.stack hs
    refine ⟨userStack / pageSize - 1 - m, ?_, ?_⟩
    · rw [List.mem_range]
      unfold userStack userspaceTop kseg0 stackPages pageSize at *
      omega
    · rw [if_pos hs]
      unfold userStack userspaceTop kseg0 stackPages pageSize at *
      omega
  · refine ⟨m - b, ?_, ?_⟩
    · rw [List.mem_range]
      unfold pageSize at *
      omega
    · have hpage : seg.firstAddr + (m - b) * pageSize = pageSize * m := by
        unfold pageSize at *
        omega
      rw [if_neg hs, wadd_of_lt (by rw [hpage]; exact lt_trans hhi hend), hpage]

/-- **The segment search** finds a segment whose chain holds the page. -/
theorem Linked.find (h : Linked segs pages) (hd : pageSize ∣ fa)
    (hfind : segs.find? (·.covers fa) = some seg) :
    ∃ pre rest, pages = pre ++ seg.chain ++ rest ∧ seg.Formed ∧
      seg.firstPtEntry = seg.npages + rest.length ∧ fa ∈ seg.chain := by
  induction h with
  | nil => cases hfind
  | @cons seg' segs pages hseg hfirst _ ih =>
    rw [List.find?_cons] at hfind
    split at hfind
    · next hc =>
      cases hfind
      exact ⟨[], pages, rfl, hseg, hfirst, hseg.mem_chain hd hc⟩
    · obtain ⟨pre, rest, rfl, hf, hr, hmem⟩ := ih hfind
      exact ⟨seg'.chain ++ pre, rest, by simp, hf, hr, hmem⟩

theorem Linked.chain_subset (h : Linked segs pages) (hseg : seg ∈ segs) : seg.chain ⊆ pages := by
  induction h with
  | nil => cases hseg
  | cons _ _ _ ih =>
    rcases List.mem_cons.mp hseg with rfl | hseg
    · exact List.subset_append_left _ _
    · exact fun p hp => List.mem_append_right _ (ih hseg hp)

theorem Linked.formed (h : Linked segs pages) (hseg : seg ∈ segs) : seg.Formed := by
  induction h with
  | nil => cases hseg
  | cons hform _ _ ih =>
    rcases List.mem_cons.mp hseg with rfl | hseg
    · exact hform
    · exact ih hseg

/-- Where no page is listed twice, a page belongs to one segment. -/
theorem Linked.unique (h : Linked segs pages) (hnd : pages.Nodup) {seg' : SegmentEntry}
    (hseg : seg ∈ segs) (hseg' : seg' ∈ segs) (hp : page ∈ seg.chain) (hp' : page ∈ seg'.chain) :
    seg = seg' := by
  induction h with
  | nil => cases hseg
  | cons _ _ h ih =>
    obtain ⟨-, hnd', hdis⟩ := List.nodup_append.mp hnd
    rcases List.mem_cons.mp hseg with e | hs <;> rcases List.mem_cons.mp hseg' with e' | hs'
    · rw [e, e']
    · exact absurd rfl (hdis _ (e ▸ hp) _ (h.chain_subset hs' hp'))
    · exact absurd rfl (hdis _ (e' ▸ hp') _ (h.chain_subset hs hp))
    · exact ih hnd' hs hs'

theorem regionPages_le (vaddr sz : ℕ) : regionPages vaddr sz * pageSize ≤ wordSize := by
  have hlt : wadd (wadd sz (pageOffset vaddr)) (pageSize - 1) < wordSize := Nat.mod_lt _ (by decide)
  unfold regionPages
  rw [Nat.div_mul_cancel (pageFrame_dvd _)]
  exact le_trans (pageFrame_le hlt) (le_of_lt hlt)

/-- Without a wrap, the pages are those that the region meets. -/
theorem regionPages_eq {v sz : ℕ} (h : pageOffset v + sz + pageSize ≤ wordSize) :
    regionPages v sz = (pageOffset v + sz + (pageSize - 1)) / pageSize := by
  unfold regionPages pageFrame pageOffset wadd wordSize pageSize at *
  omega

/-- `as'` is `as` with one more region, none of whose pages was touched. -/
def Extends (as as' : Addrspace) : Prop :=
  ∃ (seg : SegmentEntry) (new : List PtEntry), seg.Formed ∧
    seg.firstPtEntry = seg.npages + as.pt.length ∧ as'.segments = seg :: as.segments ∧
    as'.pt = new ++ as.pt ∧ new.map PtEntry.page = seg.chain ∧
    ∀ e ∈ new, e.inMem = false ∧ e.inSwap = false

theorem extends_asDefineRegion {vaddr offset sz r w x : ℕ} {b : RegionBlocks}
    (ho : offset < wordSize) (hdef : asDefineRegion as vaddr offset sz r w x b = some as') :
    Extends as as' := by
  simp only [asDefineRegion] at hdef
  split_ifs at hdef with hn
  obtain rfl := Option.some.inj hdef
  have hneg : ¬ (offset : ℤ) < 0 := by omega
  have hlt : pageFrame vaddr < wordSize := by
    have : vaddr % wordSize < wordSize := Nat.mod_lt _ (by decide)
    unfold pageFrame pageSize
    omega
  let seg : SegmentEntry := ⟨b.segment, b.permission, pageFrame vaddr, regionPages vaddr sz,
    sz, offset, r, w, x, regionPages vaddr sz + as.pt.length⟩
  have hform : seg.Formed :=
    ⟨Nat.pos_of_ne_zero hn, pageFrame_dvd vaddr, hlt, regionPages_le vaddr sz, Int.ofNat_lt.mpr ho,
      fun hs => absurd hs hneg⟩
  refine ⟨seg, _, hform, rfl, rfl, rfl, ?_, fun e he => ?_⟩
  · simp [seg, SegmentEntry.chain, ptCreate, Function.comp_def, hneg]
  · obtain ⟨i, -, rfl⟩ := List.mem_map.mp he
    exact ⟨rfl, rfl⟩

theorem extends_asDefineStack {b : RegionBlocks} : Extends as (asDefineStack as b) := by
  let seg : SegmentEntry := ⟨b.segment, b.permission, userStack - stackPages * pageSize,
    stackPages, 0, -1, 4, 2, 0, stackPages + as.pt.length⟩
  have hform : seg.Formed :=
    ⟨(by decide : 0 < stackPages), (by decide : pageSize ∣ userStack - stackPages * pageSize),
      (by decide : userStack - stackPages * pageSize < wordSize),
      (by decide : stackPages * pageSize ≤ wordSize), (by decide : (-1 : ℤ) < wordSize),
      fun _ => ⟨rfl, rfl⟩⟩
  refine ⟨seg, _, hform, rfl, rfl, rfl, ?_, fun e he => ?_⟩
  · simp [seg, SegmentEntry.chain, ptCreate, Function.comp_def]
  · obtain ⟨i, -, rfl⟩ := List.mem_map.mp he
    exact ⟨rfl, rfl⟩

/-- **A new region keeps the page table linked.** -/
theorem Linked.extend (h : Linked as.segments as.pages) (he : Extends as as') :
    Linked as'.segments as'.pages := by
  obtain ⟨seg, new, hform, hfirst, hseg, hpt, hchain, -⟩ := he
  have hpages : as'.pages = seg.chain ++ as.pages := by
    unfold Addrspace.pages
    rw [hpt, List.map_append, hchain]
  rw [hseg, hpages]
  exact .cons hform (by simpa [Addrspace.pages] using hfirst) h

/-! ## The walks of the page table -/

/-- The page search finds an entry of the page, among those of the segment. -/
theorem findPte_some (h : findPte as seg fa = some j) :
    firstPte as seg ≤ j ∧ j < firstPte as seg + seg.npages ∧
      ∃ e, as.pt[j]? = some e ∧ e.page = fa := by
  obtain ⟨h₁, h₂, h₃, -⟩ := firstIdx_eq_some.mp h
  exact ⟨h₁, h₂, by simpa using h₃⟩

/-- In a linked page table the page search succeeds where the segment search did. -/
theorem findPte_ne_none (h : Linked as.segments as.pages) (hd : pageSize ∣ fa)
    (hseg : findSegment as fa = some seg) : findPte as seg fa ≠ none := by
  obtain ⟨pre, rest, hpages, -, hfirst, hmem⟩ := h.find hd hseg
  obtain ⟨i, hi, hget⟩ := List.getElem_of_mem hmem
  have hlen : as.pt.length = pre.length + seg.npages + rest.length := by
    have := congrArg List.length hpages
    simpa [Addrspace.pages, Nat.add_assoc] using this
  intro hnone
  have hi' : i < seg.npages := by simpa using hi
  have hno := firstIdx_eq_none.mp hnone (firstPte as seg + i) (Nat.le_add_right _ _) (by omega)
  have hstart : firstPte as seg = pre.length := by unfold firstPte; omega
  have hget' : as.pages[pre.length + i]? = some fa := by
    rw [hpages, List.append_assoc, List.getElem?_append_right (Nat.le_add_right _ _),
      Nat.add_sub_cancel_left, List.getElem?_append_left hi, List.getElem?_eq_getElem hi, hget]
  rw [hstart] at hno
  simp only [Addrspace.pages, List.getElem?_map] at hget'
  simp [hget'] at hno

/-- **The page search counts the pages** of a region from its first address on. -/
theorem findPte_pageNumber (h : Linked as.segments as.pages) (hd : pageSize ∣ fa)
    (hseg : findSegment as fa = some seg) (hj : findPte as seg fa = some j) :
    pageNumber as seg j ≤ seg.npages ∧
      (0 ≤ seg.offset → fa = seg.firstAddr + (pageNumber as seg j - 1) * pageSize) := by
  obtain ⟨pre, rest, hpages, hform, hfirst, -⟩ := h.find hd hseg
  obtain ⟨hlo, hhi, e, hget, rfl⟩ := findPte_some hj
  have hlen : as.pt.length = pre.length + seg.npages + rest.length := by
    have := congrArg List.length hpages
    simpa [Addrspace.pages, Nat.add_assoc] using this
  have hstart : firstPte as seg = pre.length := by unfold firstPte; omega
  unfold pageNumber
  refine ⟨by omega, fun hoff => ?_⟩
  have hc : seg.covers e.page = true := by
    have := List.find?_some hseg
    exact this
  obtain ⟨hle, hlt⟩ : seg.firstAddr ≤ e.page ∧
      e.page < wadd seg.firstAddr (seg.npages * pageSize) := by
    simpa [SegmentEntry.covers] using hc
  have hchain : seg.chain[j - pre.length]? = some e.page := by
    have hpage : as.pages[j]? = some e.page := by simp [Addrspace.pages, hget]
    rw [hpages, List.append_assoc, List.getElem?_append_right (by omega),
      List.getElem?_append_left (by rw [SegmentEntry.length_chain]; omega)] at hpage
    exact hpage
  rw [SegmentEntry.getElem?_chain (by omega), if_neg (by omega), Option.some.injEq] at hchain
  rw [hstart, Nat.add_sub_cancel]
  have hidx : (j - pre.length) * pageSize < seg.npages * pageSize :=
    Nat.mul_lt_mul_of_pos_right (by omega) pageSize_pos
  have := hform.lt
  have := hform.le
  unfold wadd wordSize at *
  omega

theorem pteOf_some {e : PtEntry} (h : pteOf pt page = some e) : e ∈ pt ∧ e.page = page := by
  unfold pteOf at h
  exact ⟨List.mem_of_find?_eq_some h, by simpa using List.find?_some h⟩

@[simp] theorem map_page_ptUpdate : (ptUpdate pt v).map PtEntry.page = pt.map PtEntry.page := by
  induction pt with
  | nil => rfl
  | cons e pt ih =>
    rw [ptUpdate]
    split_ifs with he <;> simp [ih]

@[simp] theorem map_page_ptSetFrame :
    (ptSetFrame pt j paddr).map PtEntry.page = pt.map PtEntry.page := by
  unfold ptSetFrame
  induction pt generalizing j with
  | nil => simp
  | cons e pt ih =>
    cases j with
    | zero => simp
    | succ j => simp [ih]

/-- **`pt_update`** changes the entry of its page. -/
theorem pteOf_ptUpdate :
    pteOf (ptUpdate pt v) page =
      if page = v then
        (pteOf pt page).map fun e => { e with inMem := false, inSwap := true, frame := 0 }
      else pteOf pt page := by
  unfold pteOf
  induction pt with
  | nil => simp [ptUpdate]
  | cons e pt ih =>
    rw [ptUpdate]
    by_cases he : e.page = v
    · rw [if_pos he]
      by_cases hp : page = v
      · simp [he, hp]
      · have : e.page ≠ page := fun h => hp (h ▸ he)
        simp [hp, this]
    · rw [if_neg he]
      by_cases hep : e.page = page
      · have : page ≠ v := fun h => he (hep.trans h)
        simp [hep, this]
      · simp only [List.find?_cons, hep, decide_false]
        exact ih

/-- **Mapping a page** changes the entry of that page, where no page is listed twice. -/
theorem pteOf_ptSetFrame (hnd : (pt.map PtEntry.page).Nodup) {e : PtEntry} (hj : pt[j]? = some e) :
    pteOf (ptSetFrame pt j paddr) page =
      if page = e.page then
        (pteOf pt page).map fun e => { e with frame := paddr, inMem := true, inSwap := false }
      else pteOf pt page := by
  unfold pteOf ptSetFrame
  induction pt generalizing j with
  | nil => cases hj
  | cons e' pt ih =>
    rw [List.map_cons, List.nodup_cons] at hnd
    cases j with
    | zero =>
      obtain rfl : e' = e := by simpa using hj
      by_cases hp : page = e'.page
      · subst hp; simp
      · have : e'.page ≠ page := fun h => hp h.symm
        simp [hp, this]
    | succ j =>
      have hj' : pt[j]? = some e := by simpa using hj
      have hne : e'.page ≠ e.page := by
        intro h
        exact hnd.1 (h ▸ List.mem_map_of_mem (List.mem_of_getElem? hj'))
      simp only [List.modify_succ_cons, List.find?_cons]
      by_cases hp : e'.page = page
      · have : page ≠ e.page := fun h => hne (hp.trans h)
        simp [hp, this]
      · simp only [hp, decide_false]
        exact ih hnd.2 hj'

end Lemmas

end Os161
