import Mathlib.Data.Finset.Card
import Mathlib.Tactic.Ring
import Os161.Kmalloc.Threads
import Os161.Lib.Chain

set_option autoImplicit false

/-!
# The free lists in the memory

The sections of `kmalloc.c` that hold the lock, against the heap whose free lists are lists.

* `Threaded c h`: the variables and the memory `c` hold the heap `h`.
* **`Threaded.doalloc`**, **`Threaded.pushFree`**, **`Threaded.initPage`**, **`Threaded.remove`**: the
  sections do to `c` what they do to `h`, and none of their assertions fails.
-/

namespace Os161

open Loop

/-- The number of the bits of root `r` that are set. -/
def usedBits (inuse : ℕ → Bool) (r : ℕ) : ℕ :=
  ((Finset.range npagerefsPerPage).filter fun j => inuse (r * npagerefsPerPage + j) = true).card

/-- What the pageref of a page holds. -/
def Pageref.record (pr : Pageref) : PagerefRec :=
  ⟨pr.page, pr.blktype, pr.freelist.headD invalidOffset, pr.freelist.length⟩

/-- **The code's heap holds the heap `h`.** -/
structure Threaded (c : KernHeap) (h : Kheap) : Prop where
  refPage : c.refPage = h.refPage
  inuse : c.inuse = h.inuse
  numinuse : ∀ r, c.numinuse r = usedBits c.inuse r
  allbase : c.allbase = h.allbase.map Pageref.ref
  sizebases : ∀ t, c.sizebases t = (h.allbase.filter fun pr => pr.blktype = t).map Pageref.ref
  refs : ∀ pr ∈ h.allbase, c.refs pr.ref = pr.record
  chain : ∀ pr ∈ h.allbase, ∃ p, Chain c.mem 0 p (pr.freelist.map fun o => pr.page + o)

section Bits

variable {inuse : ℕ → Bool} {i r : ℕ}

theorem bit_eq_iff {j : ℕ} (hj : j < npagerefsPerPage) :
    r * npagerefsPerPage + j = i ↔ r = i / npagerefsPerPage ∧ j = i % npagerefsPerPage := by
  unfold npagerefsPerPage at *
  omega

theorem bit_self (i : ℕ) :
    i / npagerefsPerPage * npagerefsPerPage + i % npagerefsPerPage = i :=
  Nat.div_add_mod' i npagerefsPerPage

theorem mod_lt_npagerefs (i : ℕ) : i % npagerefsPerPage < npagerefsPerPage :=
  Nat.mod_lt i (by decide)

theorem usedBits_of_ne {v : Bool} (h : r ≠ i / npagerefsPerPage) :
    usedBits (Function.update inuse i v) r = usedBits inuse r := by
  unfold usedBits
  congr 1
  refine Finset.filter_congr fun j hj => ?_
  rw [Function.update_of_ne fun e => h ((bit_eq_iff (Finset.mem_range.mp hj)).mp e).1]

/-- One more bit. -/
theorem usedBits_set (h : inuse i = false) :
    usedBits (Function.update inuse i true) (i / npagerefsPerPage) =
      usedBits inuse (i / npagerefsPerPage) + 1 := by
  unfold usedBits
  rw [← Finset.card_insert_of_notMem (a := i % npagerefsPerPage)]
  · congr 1
    ext j
    simp only [Finset.mem_filter, Finset.mem_range, Finset.mem_insert]
    by_cases hj : j = i % npagerefsPerPage
    · subst hj
      simp [bit_self, mod_lt_npagerefs]
    · simp only [hj, false_or]
      refine and_congr_right fun hlt => ?_
      rw [Function.update_of_ne fun e => hj ((bit_eq_iff hlt).mp e).2]
  · simp [bit_self, h]

/-- A bit that is set counts, and clearing it takes it from the count. -/
theorem usedBits_clear (h : inuse i = true) :
    usedBits (Function.update inuse i false) (i / npagerefsPerPage) + 1 =
      usedBits inuse (i / npagerefsPerPage) := by
  have hset : usedBits (Function.update (Function.update inuse i false) i true) _ =
      usedBits (Function.update inuse i false) (i / npagerefsPerPage) + 1 :=
    usedBits_set (Function.update_self _ _ _)
  rwa [Function.update_idem, Function.update_eq_self_iff.mpr h.symm, eq_comm] at hset

end Bits

namespace Threaded

variable {c : KernHeap} {h : Kheap} {live : List KBlock} {held : List (ℕ × ℕ)} {pr : Pageref}
  {o ptr : ℕ} {fl : List ℕ}

/-! ## The searches -/

/-- The search for a page with a free block. -/
theorem findFree (ht : Threaded c h) {t : ℕ} {prs : List Pageref}
    (hprs : ∀ pr ∈ prs, pr ∈ h.allbase ∧ pr.blktype = t) :
    c.findFree t (prs.map Pageref.ref) =
      .ok ((prs.find? fun pr => 0 < pr.freelist.length).map Pageref.ref) := by
  induction prs with
  | nil => rfl
  | cons pr prs ih =>
    obtain ⟨hmem, htype⟩ := hprs pr List.mem_cons_self
    rw [List.map_cons, KernHeap.findFree, ht.refs pr hmem,
      kassert_bind (show pr.record.blktype = t from htype), List.find?_cons]
    change (if 0 < pr.freelist.length then _ else _) = _
    split_ifs with hfree
    · simp [hfree]
      rfl
    · simp only [hfree, decide_false]
      exact ih fun p hp => hprs p (List.mem_cons_of_mem _ hp)

/-- The search for the page of an address. -/
theorem findRef (ht : Threaded c h) {prs : List Pageref}
    (hprs : ∀ pr ∈ prs, pr ∈ h.allbase ∧ pr.blktype < sizes.length) :
    c.findRef ptr (prs.map Pageref.ref) =
      .ok ((prs.find? fun pr => pr.page ≤ ptr ∧ ptr < pr.page + pageSize).map Pageref.ref) := by
  induction prs with
  | nil => rfl
  | cons pr prs ih =>
    obtain ⟨hmem, htype⟩ := hprs pr List.mem_cons_self
    rw [List.map_cons, KernHeap.findRef, ht.refs pr hmem,
      kassert_bind (show pr.record.blktype < sizes.length from htype), List.find?_cons]
    change (if pr.page ≤ ptr ∧ ptr < pr.page + pageSize then _ else _) = _
    split_ifs with hon
    · simp [hon]
      rfl
    · simp only [hon, decide_false]
      exact ih fun p hp => hprs p (List.mem_cons_of_mem _ hp)

/-! ## Another free list for one page -/

theorem map_ref_relist (pr : Pageref) (fl : List ℕ) (prs : List Pageref) :
    (Os161.relist pr fl prs).map Pageref.ref = prs.map Pageref.ref := by
  unfold Os161.relist
  rw [List.map_map]
  refine List.map_congr_left fun p _ => ?_
  simp only [Function.comp]
  split_ifs <;> rfl

theorem filter_relist (pr : Pageref) (fl : List ℕ) (t : ℕ) (prs : List Pageref) :
    (Os161.relist pr fl prs).filter (fun p => p.blktype = t) =
      Os161.relist pr fl (prs.filter fun p => p.blktype = t) := by
  unfold Os161.relist
  rw [List.filter_map]
  congr 1
  refine List.filter_congr fun p _ => ?_
  simp only [Function.comp]
  split_ifs <;> rfl

/-- **One page gets another free list**, in its pageref and in the memory. -/
theorem relist (ht : Threaded c h) (hi : HeapInv h live held) (hpr : pr ∈ h.allbase)
    {mem : ℕ → ℕ} (hchain : ∃ p, Chain mem 0 p (fl.map fun o => pr.page + o))
    (hother : ∀ p ∈ h.allbase, p ≠ pr → ∀ o ∈ p.freelist,
      mem (p.page + o) = c.mem (p.page + o)) :
    Threaded { c with
      refs := Function.update c.refs pr.ref
        ⟨pr.page, pr.blktype, fl.headD invalidOffset, fl.length⟩
      mem := mem } { h with allbase := Os161.relist pr fl h.allbase } := by
  refine ⟨ht.refPage, ht.inuse, ht.numinuse, ?_, fun t => ?_, fun p hp => ?_, fun p hp => ?_⟩
  · exact ht.allbase.trans (map_ref_relist pr fl h.allbase).symm
  · change c.sizebases t = _
    rw [ht.sizebases, filter_relist, map_ref_relist]
  · change Function.update c.refs _ _ p.ref = _
    rcases (mem_relist hi hpr).mp hp with rfl | ⟨hp, hne⟩
    · exact Function.update_self _ _ _
    · rw [Function.update_of_ne fun e => hne (List.inj_on_of_nodup_map hi.refs hp hpr e)]
      exact ht.refs p hp
  · rcases (mem_relist hi hpr).mp hp with rfl | ⟨hp, hne⟩
    · exact hchain
    · obtain ⟨q, hq⟩ := ht.chain p hp
      refine ⟨q, hq.congr fun a ha => ?_⟩
      obtain ⟨o, ho, rfl⟩ := List.mem_map.mp ha
      exact hother p hp hne o ho

/-- **The first free block of a page is taken.** -/
theorem doalloc (ht : Threaded c h) (hi : HeapInv h live held) (hpr : pr ∈ h.allbase)
    (hfl : pr.freelist = o :: fl) (htop : pr.page + pageSize ≤ kseg1) :
    ∃ c', c.doalloc pr.ref = .ok (pr.page + o, c') ∧ c'.refPage = c.refPage ∧
      Threaded c' { h with allbase := Os161.relist pr fl h.allbase } := by
  obtain ⟨p, hp⟩ := ht.chain pr hpr
  have hlt : ∀ o' ∈ pr.freelist, o' < pageSize := fun o' ho' =>
    lt_pageSize_of_mem_offsets (hi.type pr hpr) ((hi.free pr hpr).2 o' ho')
  rw [hfl] at hp hlt
  obtain ⟨-, -, hrest⟩ := hp
  have hrec : c.refs pr.ref = ⟨pr.page, pr.blktype, o, fl.length + 1⟩ := by
    rw [ht.refs pr hpr, Pageref.record, hfl]
    rfl
  have hnew := ht.relist hi hpr ⟨_, hrest⟩ fun _ _ _ _ _ => rfl
  unfold KernHeap.doalloc
  simp only [hrec]
  rw [kassert_bind (hlt o List.mem_cons_self)]
  cases fl with
  | nil =>
    rw [if_neg (by simpa using hrest), kassert_bind (by simp)]
    exact ⟨_, rfl, rfl, hnew⟩
  | cons o' fl =>
    obtain ⟨hnext, hne, -⟩ := hrest
    have ho' := hlt o' (by simp)
    have hoff : wsub (pr.page + o') pr.page = o' := by
      unfold kseg1 at htop
      rw [wsub_of_le (by omega) (by unfold wordSize; omega)]
      omega
    rw [hnext, if_pos hne, kassert_bind (by simp), hoff, kassert_bind ho']
    exact ⟨_, rfl, rfl, hnew⟩

/-! ## A block goes back -/

theorem fillDeadbeef_of_ne {len a : ℕ} (ha : a < ptr ∨ ptr + len ≤ a) (mem : ℕ → ℕ) :
    KernHeap.fillDeadbeef ptr len mem a = mem a :=
  forRange_write_of_ne (f := fun i => ptr + i * 4) (fun i _ hi => by omega) mem

/-- The free list of a page has room for a block that is not on it. -/
theorem length_lt_blocksPerPage (hi : HeapInv h live held) (hpr : pr ∈ h.allbase)
    (ho : o ∈ offsets pr.blktype) (hnf : o ∉ pr.freelist) :
    pr.freelist.length + 1 ≤ blocksPerPage pr.blktype := by
  obtain ⟨hnd, hsub⟩ := hi.free pr hpr
  rw [← length_offsets, ← List.length_cons (a := o)]
  refine (List.subperm_of_subset (List.nodup_cons.mpr ⟨hnf, hnd⟩) fun x hx => ?_).length_le
  rcases List.mem_cons.mp hx with rfl | hx
  · exact ho
  · exact hsub x hx

/-- The pointer that the code computes from the offset is the one that the list starts with. -/
theorem chain_head {mem : ℕ → ℕ} {p page : ℕ} (hp : Chain mem 0 p (fl.map fun o => page + o))
    (hlt : ∀ o ∈ fl, o < pageSize) :
    (if fl.headD invalidOffset = invalidOffset then 0 else page + fl.headD invalidOffset) = p := by
  cases fl with
  | nil => exact hp.symm
  | cons o fl =>
    have := hlt o List.mem_cons_self
    rw [List.headD_cons, if_neg (by unfold invalidOffset; unfold pageSize at this; omega)]
    exact hp.1.symm

/-- **A block goes to the front of the free list of its page.** -/
theorem pushFree (ht : Threaded c h) (hi : HeapInv h live held) (hpr : pr ∈ h.allbase)
    (ho : o ∈ offsets pr.blktype) (hnf : o ∉ pr.freelist) :
    ∃ c', c.pushFree pr.ref o = .ok c' ∧ c'.refPage = c.refPage ∧
      c'.refs pr.ref = ⟨pr.page, pr.blktype, o, pr.freelist.length + 1⟩ ∧
      Threaded c' { h with allbase := Os161.relist pr (o :: pr.freelist) h.allbase } := by
  obtain ⟨p, hp⟩ := ht.chain pr hpr
  have hpos := (hi.page_aligned hpr).2
  have hmem : ∀ p ∈ h.allbase, ∀ o' ∈ p.freelist, p ≠ pr ∨ o' ≠ o →
      KernHeap.fillDeadbeef (pr.page + o) (blockSize pr.blktype) c.mem (p.page + o') =
        c.mem (p.page + o') := by
    intro p hp o' ho' hne
    refine fillDeadbeef_of_ne ?_ _
    have hsize := blockSize_pos (hi.type p hp)
    have := hi.apart hp hpr ((hi.free p hp).2 o' ho') ho hne
    omega
  have hne : ∀ o' ∈ pr.freelist, o' ≠ o := fun o' ho' e => hnf (e ▸ ho')
  have hnext := chain_head hp fun o' ho' =>
    lt_pageSize_of_mem_offsets (hi.type pr hpr) ((hi.free pr hpr).2 o' ho')
  have hptr : pr.page + o ≠ p := by
    rintro rfl
    cases hl : pr.freelist with
    | nil =>
      rw [hl] at hp
      have : pr.page + o = 0 := hp
      omega
    | cons o' fl =>
      rw [hl] at hp
      refine hne o' (by rw [hl]; exact List.mem_cons_self) ?_
      have : pr.page + o = pr.page + o' := hp.1
      omega
  have hchain : Chain (Function.update (KernHeap.fillDeadbeef (pr.page + o)
      (blockSize pr.blktype) c.mem) (pr.page + o) p) 0 (pr.page + o)
      ((o :: pr.freelist).map fun o => pr.page + o) := by
    refine (hp.congr fun a ha => ?_).push (by omega) fun hm => ?_
    · obtain ⟨o', ho', rfl⟩ := List.mem_map.mp ha
      exact hmem pr hpr o' ho' (.inr (hne o' ho'))
    · obtain ⟨o', ho', he⟩ := List.mem_map.mp hm
      exact hne o' ho' (by omega)
  have hnew := ht.relist hi hpr ⟨_, hchain⟩ fun q hq hneq o' ho' => by
    have hsize := blockSize_pos (hi.type q hq)
    have := hi.apart hq hpr ((hi.free q hq).2 o' ho') ho (.inl hneq)
    rw [Function.update_of_ne (by have := blockSize_pos (hi.type pr hpr); omega)]
    exact hmem q hq o' ho' (.inl hneq)
  unfold KernHeap.pushFree
  simp only [ht.refs pr hpr, Pageref.record, hnext]
  rw [kassert_bind hptr, kassert_bind (length_lt_blocksPerPage hi hpr ho hnf)]
  exact ⟨_, rfl, rfl, Function.update_self _ _ _, hnew⟩

/-! ## A page goes back -/

theorem eraseP_ref {prs : List Pageref} (hnd : (prs.map Pageref.ref).Nodup) (i : ℕ) :
    (prs.eraseP fun p => p.ref = i) = prs.filter fun p => p.ref ≠ i := by
  induction prs with
  | nil => rfl
  | cons p prs ih =>
    rw [List.map_cons, List.nodup_cons] at hnd
    by_cases hp : p.ref = i
    · subst hp
      rw [List.eraseP_cons_of_pos (by simp), List.filter_cons_of_neg (by simp)]
      refine (List.filter_eq_self.mpr fun q hq => ?_).symm
      simpa using fun e => hnd.1 (List.mem_map.mpr ⟨q, hq, e⟩)
    · rw [List.eraseP_cons_of_neg (by simpa using hp), List.filter_cons_of_pos (by simpa using hp),
        ih hnd.2]

theorem eraseP_relist (hi : HeapInv h live held) (pr : Pageref) (fl : List ℕ) :
    ((Os161.relist pr fl h.allbase).eraseP fun p => p.ref = pr.ref) =
      h.allbase.eraseP fun p => p.ref = pr.ref := by
  rw [eraseP_ref (by rw [map_ref_relist]; exact hi.refs), eraseP_ref hi.refs]
  unfold Os161.relist
  induction h.allbase with
  | nil => rfl
  | cons p prs ih =>
    by_cases hp : p.ref = pr.ref
    · simpa [hp] using ih
    · simpa [hp] using ih

/-- The pages of two roots. -/
theorem refPage_apart (hi : HeapInv h live held) {r r' : ℕ} (hr : r < numPagerefpages)
    (hr' : r' < numPagerefpages) (hne : r ≠ r') (h0 : h.refPage r ≠ 0) (h0' : h.refPage r' ≠ 0) :
    h.refPage r + pageSize ≤ h.refPage r' ∨ h.refPage r' + pageSize ≤ h.refPage r := by
  have hmem : ∀ r < numPagerefpages, h.refPage r ≠ 0 →
      r ∈ (List.range numPagerefpages).filter fun r => h.refPage r ≠ 0 := fun r hr h0 =>
    List.mem_filter.mpr ⟨List.mem_range.mpr hr, decide_eq_true h0⟩
  have hhold : ∀ r < numPagerefpages, h.refPage r ≠ 0 → (h.refPage r, 1) ∈ h.holdings live :=
    fun r hr h0 => List.mem_append_right _ (List.mem_append_left _
      (List.mem_map_of_mem (hmem r hr h0)))
  have hnd : h.refPages.Nodup :=
    hi.owned.nodup_list.sublist ((List.sublist_append_left _ _).trans (List.sublist_append_right _ _))
  refine pages_apart (hi.owned.aligned _ (hhold r hr h0)).1 (hi.owned.aligned _ (hhold r' hr' h0')).1
    fun e => hne ?_
  exact List.inj_on_of_nodup_map hnd (hmem r hr h0) (hmem r' hr' h0') (by rw [e])

end Threaded

namespace KernHeap

variable {c : KernHeap} {addr i : ℕ}

/-- `freepageref` goes past a root. -/
theorem freepagerefLoop_append {rs rs' : List ℕ}
    (hskip : ∀ r ∈ rs, c.refPage r = 0 ∧ c.numinuse r = 0 ∨ c.refPage r ≠ 0 ∧
      (addr < c.refPage r ∨ c.refPage r + pageSize ≤ addr)) :
    c.freepagerefLoop addr (rs ++ rs') = c.freepagerefLoop addr rs' := by
  induction rs with
  | nil => rfl
  | cons r rs ih =>
    rw [List.cons_append, freepagerefLoop]
    have ih := ih fun r hr => hskip r (List.mem_cons_of_mem _ hr)
    rcases hskip r List.mem_cons_self with ⟨h0, hn⟩ | ⟨h0, hout⟩
    · rw [if_pos h0, kassert_bind hn]
      exact ih
    · rw [if_neg h0]
      refine (if_neg ?_).trans ih
      unfold pageSize at hout
      unfold npagerefsPerPage
      omega

/-- **`freepageref`** finds the root of the pageref when no earlier root has bits but no page. -/
theorem freepageref_ok (hr : i / npagerefsPerPage < numPagerefpages)
    (hpage : c.refPage (i / npagerefsPerPage) ≠ 0) (hset : c.inuse i = true)
    (hnum : 0 < c.numinuse (i / npagerefsPerPage))
    (hready : ∀ r < i / npagerefsPerPage, c.refPage r = 0 → c.numinuse r = 0)
    (hapart : ∀ r < i / npagerefsPerPage, c.refPage r ≠ 0 →
      c.refPage r + pageSize ≤ c.refPage (i / npagerefsPerPage) ∨
        c.refPage (i / npagerefsPerPage) + pageSize ≤ c.refPage r) :
    c.freepageref i = .ok { c with
      inuse := Function.update c.inuse i false
      numinuse := Function.update c.numinuse (i / npagerefsPerPage)
        (c.numinuse (i / npagerefsPerPage) - 1) } := by
  have hmod := mod_lt_npagerefs i
  have hrange : ∃ rest, List.range numPagerefpages =
      List.range (i / npagerefsPerPage) ++ i / npagerefsPerPage :: rest := by
    obtain ⟨k, hk⟩ := Nat.exists_eq_add_of_lt hr
    rw [hk, Nat.add_assoc, List.range_add, List.range_succ_eq_map, List.map_cons, Nat.add_zero]
    exact ⟨_, rfl⟩
  obtain ⟨rest, hrange⟩ := hrange
  unfold freepageref refAddr
  rw [hrange, freepagerefLoop_append, freepagerefLoop, if_neg hpage]
  · have hj : (c.refPage (i / npagerefsPerPage) + i % npagerefsPerPage * 16 -
        c.refPage (i / npagerefsPerPage)) / 16 = i % npagerefsPerPage := by omega
    simp only [hj, bit_self]
    rw [if_pos ⟨by omega, hmod⟩, kassert_bind hset, kassert_bind hnum]
    rfl
  · intro r hmem
    have hlt := List.mem_range.mp hmem
    by_cases h0 : c.refPage r = 0
    · exact .inl ⟨h0, hready r hlt h0⟩
    · refine .inr ⟨h0, ?_⟩
      have := hapart r hlt h0
      unfold npagerefsPerPage at *
      unfold pageSize at *
      omega

end KernHeap

namespace Threaded

variable {c : KernHeap} {h : Kheap} {live : List KBlock} {held : List (ℕ × ℕ)} {pr : Pageref}

/-- **A page leaves both lists and gives its pageref back.** -/
theorem remove (ht : Threaded c h) (hi : HeapInv h live held) (hpr : pr ∈ h.allbase)
    (hr : pr.ref / npagerefsPerPage < numPagerefpages)
    (hpage : c.refPage (pr.ref / npagerefsPerPage) ≠ 0)
    (hready : ∀ r < pr.ref / npagerefsPerPage, c.refPage r = 0 → c.numinuse r = 0) :
    ∃ c', (c.removeLists pr.ref pr.blktype).freepageref pr.ref = .ok c' ∧
      c'.refPage = c.refPage ∧
      Threaded c' { h with
        inuse := Function.update h.inuse pr.ref false
        allbase := h.allbase.eraseP fun p => p.ref = pr.ref } := by
  have hset : c.inuse pr.ref = true := by
    rw [ht.inuse]
    exact hi.inuse pr hpr
  have hbits := usedBits_clear hset
  rw [← ht.numinuse] at hbits
  refine ⟨_, KernHeap.freepageref_ok (c := c.removeLists pr.ref pr.blktype) hr hpage hset
    (by change 0 < c.numinuse _; omega) hready ?_, rfl, ht.refPage, ?_, fun r => ?_, ?_, fun t => ?_,
    fun p hp => ht.refs p (List.mem_of_mem_eraseP hp),
    fun p hp => ht.chain p (List.mem_of_mem_eraseP hp)⟩
  · intro r hlt h0
    change c.refPage r ≠ 0 at h0
    change c.refPage r + _ ≤ c.refPage _ ∨ c.refPage _ + _ ≤ c.refPage r
    rw [ht.refPage] at h0 hpage ⊢
    exact refPage_apart hi (hlt.trans hr) hr hlt.ne h0 hpage
  · change Function.update c.inuse _ _ = _
    rw [ht.inuse]
  · change Function.update c.numinuse _ (c.numinuse _ - 1) r = _
    by_cases he : r = pr.ref / npagerefsPerPage
    · subst he
      rw [Function.update_self]
      change _ = usedBits (Function.update c.inuse _ _) _
      omega
    · rw [Function.update_of_ne he, ht.numinuse]
      exact (usedBits_of_ne he).symm
  · change c.allbase.erase pr.ref = _
    rw [ht.allbase, List.Nodup.erase_eq_filter hi.refs, List.filter_map, eraseP_ref hi.refs]
    congr 1
    refine List.filter_congr fun p _ => ?_
    by_cases he : p.ref = pr.ref <;> simp [he]
  · change Function.update c.sizebases _ ((c.sizebases _).erase pr.ref) t = _
    rw [eraseP_ref hi.refs]
    have hnd : ∀ t, ((h.allbase.filter fun p => p.blktype = t).map Pageref.ref).Nodup := fun t =>
      hi.refs.sublist (List.filter_sublist.map _)
    by_cases he : t = pr.blktype
    · subst he
      rw [Function.update_self, ht.sizebases, (hnd _).erase_eq_filter, List.filter_map,
        List.filter_filter, List.filter_filter]
      congr 1
      refine List.filter_congr fun p _ => ?_
      by_cases he : p.ref = pr.ref <;> simp [he]
    · rw [Function.update_of_ne he, ht.sizebases, List.filter_filter]
      congr 1
      refine List.filter_congr fun p hp => ?_
      by_cases htp : p.blktype = t
      · have hne : p.ref ≠ pr.ref := fun e =>
          he (htp ▸ congrArg Pageref.blktype (List.inj_on_of_nodup_map hi.refs hp hpr e))
        simp [htp, hne]
      · simp [htp]

/-! ## A fresh page -/

section Fresh

variable {i page t : ℕ} {mem : ℕ → ℕ}

theorem linkPage_of_ne {a : ℕ} (ht : t < sizes.length) (ha : a < page ∨ page + pageSize ≤ a) :
    KernHeap.linkPage page (blockSize t) (blocksPerPage t) mem a = mem a := by
  have hmul := blocksPerPage_mul ht
  have hpos := blocksPerPage_pos ht
  refine (forRange_write_of_ne (f := fun i => page + i * blockSize t) (fun i _ hi => ?_) _).trans
    (Function.update_of_ne (by unfold pageSize at ha; omega) _ _)
  have := Nat.mul_lt_mul_of_pos_right (show i < blocksPerPage t by omega) (blockSize_pos ht)
  omega

/-- The links of a fresh page. -/
theorem linkPage_link (ht : t < sizes.length) (hi : i < blocksPerPage t) :
    KernHeap.linkPage page (blockSize t) (blocksPerPage t) mem (page + i * blockSize t) =
      if i = 0 then 0 else page + (i - 1) * blockSize t := by
  have hpos := blockSize_pos ht
  unfold KernHeap.linkPage
  split_ifs with h0
  · subst h0
    rw [forRange_write_of_ne (f := fun i => page + i * blockSize t)]
    · simp
    · intro j hj _
      have := Nat.mul_lt_mul_of_pos_right (show 0 < j by omega) hpos
      omega
  · refine forRange_write (f := fun i => page + i * blockSize t) (fun i j he => ?_) (by omega)
      (by omega) _
    exact Nat.eq_of_mul_eq_mul_right hpos (Nat.add_left_cancel he)

/-- The free list of a fresh page, in the memory. -/
theorem chain_linkPage (ht : t < sizes.length) (hpage : 0 < page) :
    ∀ n ≤ blocksPerPage t,
      Chain (KernHeap.linkPage page (blockSize t) (blocksPerPage t) mem) 0
        (if n = 0 then 0 else page + (n - 1) * blockSize t)
        (((List.range n).map fun i => i * blockSize t).reverse.map fun o => page + o)
  | 0, _ => rfl
  | n + 1, hn => by
    rw [List.range_succ, List.map_append, List.reverse_append]
    refine ⟨rfl, (Nat.add_pos_left hpage _).ne', ?_⟩
    rw [linkPage_link ht hn]
    exact chain_linkPage ht hpage n (by omega)

theorem freshList_headD (ht : t < sizes.length) :
    (freshList t).headD invalidOffset = (blocksPerPage t - 1) * blockSize t := by
  obtain ⟨n, hn⟩ := Nat.exists_eq_succ_of_ne_zero (blocksPerPage_pos ht).ne'
  rw [freshList, hn, List.range_succ, List.map_append, List.reverse_append]
  rfl

theorem length_freshList (t : ℕ) : (freshList t).length = blocksPerPage t := by
  rw [freshList_eq, List.length_reverse, length_offsets]

/-- **A fresh page** gets its pageref and its free list, and goes on both lists. -/
theorem initPage (ht : Threaded c h) (hi : HeapInv h live held) (href : i ∉ h.allbase.map Pageref.ref)
    (htype : t < sizes.length) (hpage : pageSize ∣ page ∧ 0 < page)
    (hnew : ∀ pr ∈ h.allbase, pr.page ≠ page) :
    Threaded (c.initPage i page t)
      { h with allbase := ⟨i, page, t, freshList t⟩ :: h.allbase } := by
  have hne : ∀ pr ∈ h.allbase, pr.ref ≠ i := fun pr hpr e =>
    href (List.mem_map.mpr ⟨pr, hpr, e⟩)
  refine ⟨ht.refPage, ht.inuse, ht.numinuse, ?_, fun t' => ?_, fun pr hpr => ?_, fun pr hpr => ?_⟩
  · exact congrArg (i :: ·) ht.allbase
  · change Function.update c.sizebases t _ t' = _
    by_cases he : t' = t
    · subst he
      rw [Function.update_self, List.filter_cons_of_pos (by simp), ht.sizebases]
      rfl
    · rw [Function.update_of_ne he, List.filter_cons_of_neg (by simpa using fun e => he e.symm)]
      exact ht.sizebases t'
  · change Function.update c.refs i _ pr.ref = _
    rcases List.mem_cons.mp hpr with rfl | hpr
    · rw [Function.update_self, Pageref.record, freshList_headD htype, length_freshList]
    · rw [Function.update_of_ne (hne pr hpr)]
      exact ht.refs pr hpr
  · rcases List.mem_cons.mp hpr with rfl | hpr
    · exact ⟨_, chain_linkPage htype hpage.2 _ (le_refl _)⟩
    · obtain ⟨q, hq⟩ := ht.chain pr hpr
      refine ⟨q, hq.congr fun a ha => ?_⟩
      obtain ⟨o, ho, rfl⟩ := List.mem_map.mp ha
      have hlt := lt_pageSize_of_mem_offsets (hi.type pr hpr) ((hi.free pr hpr).2 o ho)
      have := pages_apart (hi.page_aligned hpr).1 hpage.1 (hnew pr hpr)
      exact linkPage_of_ne htype (by omega)

end Fresh

/-! ## Pagerefs and writes -/

/-- **A pageref is marked as used.** -/
theorem mark (ht : Threaded c h) {i : ℕ} (hi : c.inuse i = false) :
    Threaded (c.mark i) { h with inuse := Function.update h.inuse i true } := by
  refine ⟨ht.refPage, ?_, fun r => ?_, ht.allbase, ht.sizebases, ht.refs, ht.chain⟩
  · change Function.update c.inuse i true = _
    rw [ht.inuse]
  · change Function.update c.numinuse _ _ r = usedBits (Function.update c.inuse i true) r
    by_cases he : r = i / npagerefsPerPage
    · subst he
      rw [Function.update_self, usedBits_set hi, ht.numinuse]
    · rw [Function.update_of_ne he, usedBits_of_ne he, ht.numinuse]

theorem setRefPage (ht : Threaded c h) (r va : ℕ) :
    Threaded { c with refPage := Function.update c.refPage r va }
      { h with refPage := Function.update h.refPage r va } := by
  refine { ht with refPage := ?_ }
  change Function.update c.refPage r va = _
  rw [ht.refPage]

/-- **A write that touches no free block and no pageref in use.** -/
theorem write (ht : Threaded c h) {addr len : ℕ} (mem : ℕ → ℕ) (refs : ℕ → PagerefRec)
    (hfree : ∀ pr ∈ h.allbase, ∀ o ∈ pr.freelist,
      pr.page + o < addr ∨ addr + len ≤ pr.page + o)
    (href : ∀ pr ∈ h.allbase, c.refAddr pr.ref + 16 ≤ addr ∨ addr + len ≤ c.refAddr pr.ref) :
    Threaded (c.write addr len mem refs) h := by
  refine ⟨ht.refPage, ht.inuse, ht.numinuse, ht.allbase, ht.sizebases, fun pr hpr => ?_,
    fun pr hpr => ?_⟩
  · refine (if_neg ?_).trans (ht.refs pr hpr)
    have := href pr hpr
    omega
  · obtain ⟨q, hq⟩ := ht.chain pr hpr
    refine ⟨q, hq.congr fun a ha => if_neg ?_⟩
    obtain ⟨o, ho, rfl⟩ := List.mem_map.mp ha
    have := hfree pr hpr o ho
    omega

end Threaded

/-- The pageref that `allocpageref` finds is not in use. -/
theorem KernHeap.freeSlot_some {c : KernHeap} {i : ℕ} (hi : c.freeSlot = some i) :
    i / npagerefsPerPage < numPagerefpages ∧ c.inuse i = false := by
  obtain ⟨r, hr, hslot⟩ := List.exists_of_findSome?_eq_some hi
  unfold rootSlot at hslot
  split_ifs at hslot
  obtain ⟨hlo, hhi, hfree, -⟩ := firstIdx_eq_some.mp hslot
  have hr := List.mem_range.mp hr
  refine ⟨?_, by simpa using hfree⟩
  unfold npagerefsPerPage at *
  omega

end Os161
