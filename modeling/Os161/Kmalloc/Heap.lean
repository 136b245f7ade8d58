import Mathlib.Data.List.Flatten
import Mathlib.Data.List.Nodup
import Mathlib.Data.List.Pairwise
import Mathlib.Data.List.Perm.Basic
import Os161.Kmalloc.Model
import Os161.Lib.Transition

set_option autoImplicit false

/-!
# The heap and its pages

What the blocks that `kmalloc` handed out have to do with the pages it got.

* `PageAlloc.Spec`: what the heap relies on: pages handed out are disjoint from those still held.
* `HeapInv`: each block of each heap page is either live or on the free list, and the pages of the
  heap, of its pagerefs and of the large blocks are disjoint.
* `kmalloc_inv`, `kfree_inv`: both functions keep it.
* **`kfreeHeap_page`**: the pages that `kfree` gives back are those of the freed block, and no other
  live block lies on them.
-/

namespace Os161

open Transition

/-- The addresses of `n` pages from `va` on. -/
def vpages (va n : ℕ) : List ℕ := (List.range n).map fun i => va + i * pageSize

/-- A live block: its address and the size that was asked for. -/
structure KBlock where
  addr : ℕ
  size : ℕ
  deriving DecidableEq, Repr

/-- The pages of a block that is too large for a heap page. -/
def KBlock.npages (b : KBlock) : ℕ := wadd b.size (pageSize - 1) / pageSize

/-- The block consists of whole pages. -/
def KBlock.Large (b : KBlock) : Prop := largestSubpageSize ≤ b.size

instance : DecidablePred KBlock.Large := fun _ => inferInstanceAs (Decidable (_ ≤ _))

/-- The pages that a block lies on. -/
def KBlock.pages (b : KBlock) : List ℕ :=
  if b.Large then vpages b.addr b.npages else vpages (b.addr / pageSize * pageSize) 1

/-- **What the heap relies on.** `held` lists the pages handed out and not taken back, `Fits` says
how many may be asked for, `Freeable` which may be given back. -/
structure PageAlloc.Spec {σ : Type} (P : PageAlloc σ) (Inv : σ → Prop) (held : σ → List (ℕ × ℕ))
    (Fits Freeable : σ → ℕ → Prop) : Prop where
  fits_one : ∀ {s : σ}, Inv s → Fits s 1
  fits_pos : ∀ {s : σ} {n : ℕ}, Fits s n → 1 ≤ n
  alloc : ∀ {s s' : σ} {n va : ℕ}, Inv s → Fits s n → P.alloc n s = (va, s') →
    Inv s' ∧ (∀ e ∈ held s, e ∈ held s') ∧ (∀ va', Freeable s va' → Freeable s' va') ∧
      (va ≠ 0 → (va, n) ∈ held s' ∧ Freeable s' va ∧ pageSize ∣ va ∧
        ∀ q ∈ vpages va n, ∀ e ∈ held s, q ∉ vpages e.1 e.2)
  free : ∀ {s : σ} {va n : ℕ}, Inv s → (va, n) ∈ held s → Freeable s va →
    Inv (P.free va s) ∧ ∀ e ∈ held s, e ≠ (va, n) → e ∈ held (P.free va s)

/-- The pages of the pagerefs. -/
def Kheap.refPages (h : Kheap) : List (ℕ × ℕ) :=
  ((List.range numPagerefpages).filter fun r => h.refPage r ≠ 0).map fun r => (h.refPage r, 1)

/-- The pages that the heap and its blocks occupy. -/
def Kheap.holdings (h : Kheap) (live : List KBlock) : List (ℕ × ℕ) :=
  (h.allbase.map fun pr => (pr.page, 1)) ++
    (h.refPages ++ (live.filter (·.Large)).map fun b => (b.addr, b.npages))

/-- The positions of the blocks of a page. -/
def offsets (blktype : ℕ) : List ℕ :=
  (List.range (blocksPerPage blktype)).map fun i => i * blockSize blktype

/-- The block lies on the heap page of `pr`. -/
def KBlock.On (b : KBlock) (pr : Pageref) : Prop :=
  ¬ b.Large ∧ pr.blktype = blocktype b.size ∧
    ∃ o ∈ offsets pr.blktype, o ∉ pr.freelist ∧ b.addr = pr.page + o

/-- The listed pages do not overlap, and all of them are held. -/
structure Owned (pages held : List (ℕ × ℕ)) : Prop where
  nodup : (pages.flatMap fun e => vpages e.1 e.2).Nodup
  held : ∀ e ∈ pages, e ∈ held
  aligned : ∀ e ∈ pages, pageSize ∣ e.1 ∧ 0 < e.1 ∧ 1 ≤ e.2

/-- **The heap invariant.** -/
structure HeapInv (h : Kheap) (live : List KBlock) (held : List (ℕ × ℕ)) : Prop where
  refs : (h.allbase.map Pageref.ref).Nodup
  inuse : ∀ pr ∈ h.allbase, h.inuse pr.ref = true
  type : ∀ pr ∈ h.allbase, pr.blktype < sizes.length
  free : ∀ pr ∈ h.allbase, pr.freelist.Nodup ∧ ∀ o ∈ pr.freelist, o ∈ offsets pr.blktype
  owned : Owned (h.holdings live) held
  addrs : (live.map KBlock.addr).Nodup
  small : ∀ b ∈ live, ¬ b.Large → ∃ pr ∈ h.allbase, b.On pr
  used : ∀ pr ∈ h.allbase, ∀ o ∈ offsets pr.blktype, o ∉ pr.freelist →
    ∃ b ∈ live, ¬ b.Large ∧ b.addr = pr.page + o

theorem mem_vpages {va n q : ℕ} : q ∈ vpages va n ↔ ∃ i < n, q = va + i * pageSize := by
  simp only [vpages, List.mem_map, List.mem_range]
  exact exists_congr fun i => and_congr_right fun _ => eq_comm

theorem self_mem_vpages (va : ℕ) {n : ℕ} (h : 1 ≤ n) : va ∈ vpages va n :=
  mem_vpages.mpr ⟨0, h, by omega⟩

@[simp] theorem mem_vpages_one {va q : ℕ} : q ∈ vpages va 1 ↔ q = va := by
  rw [mem_vpages]
  constructor
  · rintro ⟨i, hi, rfl⟩
    obtain rfl : i = 0 := by omega
    omega
  · rintro rfl
    exact ⟨0, Nat.one_pos, by omega⟩

theorem nodup_vpages (va n : ℕ) : (vpages va n).Nodup :=
  List.nodup_range.map fun i j h => by unfold pageSize at h; omega

/-! ## Blocks of a page -/

section Blocks

variable {t o sz : ℕ}

theorem blockSize_pos (h : t < sizes.length) : 0 < blockSize t := by
  revert t; decide

theorem blocksPerPage_mul (h : t < sizes.length) : blocksPerPage t * blockSize t = pageSize := by
  revert t; decide

theorem blocksPerPage_pos (h : t < sizes.length) : 0 < blocksPerPage t := by
  revert t; decide

theorem mem_offsets : o ∈ offsets t ↔ ∃ i < blocksPerPage t, o = i * blockSize t := by
  simp only [offsets, List.mem_map, List.mem_range]
  exact exists_congr fun i => and_congr_right fun _ => eq_comm

theorem length_offsets (t : ℕ) : (offsets t).length = blocksPerPage t := by simp [offsets]

theorem nodup_offsets (h : t < sizes.length) : (offsets t).Nodup :=
  List.nodup_range.map fun _ _ he => Nat.eq_of_mul_eq_mul_right (blockSize_pos h) he

theorem lt_pageSize_of_mem_offsets (h : t < sizes.length) (ho : o ∈ offsets t) : o < pageSize := by
  obtain ⟨i, hi, rfl⟩ := mem_offsets.mp ho
  rw [← blocksPerPage_mul h]
  exact Nat.mul_lt_mul_of_pos_right hi (blockSize_pos h)

/-- An offset inside the page that is a multiple of the block size. -/
theorem mem_offsets_of_mod (h : t < sizes.length) (hlt : o < pageSize)
    (hmod : o % blockSize t = 0) : o ∈ offsets t := by
  have hpos := blockSize_pos h
  refine mem_offsets.mpr ⟨o / blockSize t, ?_, (Nat.div_mul_cancel (Nat.dvd_of_mod_eq_zero hmod)).symm⟩
  rw [Nat.div_lt_iff_lt_mul hpos, blocksPerPage_mul h]
  exact hlt

theorem blocktype_lt (h : sz < largestSubpageSize) : blocktype sz < sizes.length := by
  refine List.findIdx_lt_length_of_exists ⟨2048, by decide, ?_⟩
  unfold largestSubpageSize at h
  exact decide_eq_true (by omega)

theorem freshList_eq (t : ℕ) : freshList t = (offsets t).reverse := rfl

end Blocks

/-! ## Disjoint pages -/

namespace Owned

variable {l l' held held' : List (ℕ × ℕ)} {e : ℕ × ℕ}

theorem mono (h : Owned l held) (hsub : ∀ e ∈ l, e ∈ held → e ∈ held') : Owned l held' :=
  ⟨h.nodup, fun e he => hsub e he (h.held e he), h.aligned⟩

theorem perm (h : Owned l held) (hp : l'.Perm l) : Owned l' held :=
  ⟨(hp.flatMap_right _).nodup_iff.mpr h.nodup, fun e he => h.held e (hp.mem_iff.mp he),
    fun e he => h.aligned e (hp.mem_iff.mp he)⟩

/-- No piece of memory is listed twice. -/
theorem nodup_list (h : Owned l held) : l.Nodup := by
  refine (List.nodup_flatMap.mp h.nodup).2.imp_of_mem fun {e e'} he _ hdis heq => ?_
  have hself : e.1 ∈ vpages e.1 e.2 := self_mem_vpages _ (h.aligned e he).2.2
  exact hdis hself (heq ▸ hself)

/-- One piece of memory goes back. -/
theorem of_cons (h : Owned (e :: l) held) (hsub : ∀ e' ∈ held, e' ≠ e → e' ∈ held') :
    Owned l held' := by
  have hnd := h.nodup
  rw [List.flatMap_cons, List.nodup_append] at hnd
  obtain ⟨-, hl, hdis⟩ := hnd
  refine ⟨hl, fun e' he' => hsub e' (h.held e' (List.mem_cons_of_mem _ he')) ?_,
    fun e' he' => h.aligned e' (List.mem_cons_of_mem _ he')⟩
  rintro rfl
  have hself : e'.1 ∈ vpages e'.1 e'.2 := self_mem_vpages _ (h.aligned e' List.mem_cons_self).2.2
  exact hdis _ hself _ (List.mem_flatMap.mpr ⟨e', he', hself⟩) rfl

/-- One more piece of memory. -/
theorem cons (h : Owned l held) (he : e ∈ held) (ha : pageSize ∣ e.1 ∧ 0 < e.1 ∧ 1 ≤ e.2)
    (hnew : ∀ q ∈ vpages e.1 e.2, ∀ e' ∈ l, q ∉ vpages e'.1 e'.2) : Owned (e :: l) held := by
  refine ⟨?_, ?_, ?_⟩
  · rw [List.flatMap_cons, List.nodup_append]
    refine ⟨nodup_vpages _ _, h.nodup, fun q hq q' hq' hqq => ?_⟩
    obtain ⟨e', he', hmem⟩ := List.mem_flatMap.mp hq'
    exact hnew q hq e' he' (hqq ▸ hmem)
  · intro e' he'
    rcases List.mem_cons.mp he' with rfl | he'
    · exact he
    · exact h.held e' he'
  · intro e' he'
    rcases List.mem_cons.mp he' with rfl | he'
    · exact ha
    · exact h.aligned e' he'

end Owned

namespace HeapInv

variable {h : Kheap} {live : List KBlock} {held : List (ℕ × ℕ)} {pr pr' : Pageref} {b : KBlock}
  {e e' : ℕ × ℕ} {q o o' : ℕ}

/-- A page is occupied once. -/
theorem unique (hi : HeapInv h live held) (he : e ∈ h.holdings live) (he' : e' ∈ h.holdings live)
    (hq : q ∈ vpages e.1 e.2) (hq' : q ∈ vpages e'.1 e'.2) : e = e' := by
  have hdis := (List.nodup_flatMap.mp hi.owned.nodup).2
  by_contra hne
  have : Std.Symm (Function.onFun List.Disjoint fun e : ℕ × ℕ => vpages e.1 e.2) :=
    ⟨fun _ _ h q hq hq' => h hq' hq⟩
  exact hdis.forall he he' hne hq hq'

theorem mem_holdings_page (live : List KBlock) (hpr : pr ∈ h.allbase) :
    (pr.page, 1) ∈ h.holdings live :=
  List.mem_append_left _ (List.mem_map_of_mem hpr)

theorem mem_holdings_large (hb : b ∈ live) (hl : b.Large) : (b.addr, b.npages) ∈ h.holdings live := by
  refine List.mem_append_right _ (List.mem_append_right _ (List.mem_map_of_mem ?_))
  exact List.mem_filter.mpr ⟨hb, decide_eq_true hl⟩

/-- Two heap pages are different pages. -/
theorem nodup_pages (hi : HeapInv h live held) : (h.allbase.map Pageref.page).Nodup := by
  have howned := hi.owned.nodup
  unfold Kheap.holdings at howned
  rw [List.flatMap_append, List.flatMap_map] at howned
  have hnd := howned.of_append_left
  have hpages : (h.allbase.flatMap fun pr => vpages pr.page 1) = h.allbase.map Pageref.page := by
    induction h.allbase with
    | nil => rfl
    | cons pr prs ih => simp [vpages, List.flatMap_cons] at ih ⊢; exact ih
  rwa [hpages] at hnd

theorem page_inj (hi : HeapInv h live held) (hpr : pr ∈ h.allbase) (hpr' : pr' ∈ h.allbase)
    (he : pr.page = pr'.page) : pr = pr' :=
  List.inj_on_of_nodup_map hi.nodup_pages hpr hpr' he

/-- An address on a heap page determines the page and the offset. -/
theorem on_page_inj (hi : HeapInv h live held) (hpr : pr ∈ h.allbase) (hpr' : pr' ∈ h.allbase)
    (ho : o < pageSize) (ho' : o' < pageSize) (he : pr.page + o = pr'.page + o') :
    pr = pr' ∧ o = o' := by
  obtain ⟨m, hm⟩ := (hi.owned.aligned _ (mem_holdings_page live hpr)).1
  obtain ⟨m', hm'⟩ := (hi.owned.aligned _ (mem_holdings_page live hpr')).1
  have hpage : pr.page = pr'.page := by
    simp only at hm hm'
    rw [hm, hm'] at he ⊢
    unfold pageSize at *
    omega
  exact ⟨hi.page_inj hpr hpr' hpage, by omega⟩

/-- A block of whole pages does not start on a heap page. -/
theorem large_not_on_page (hi : HeapInv h live held) (hb : b ∈ live) (hl : b.Large)
    (hpr : pr ∈ h.allbase) (ho : o < pageSize) : b.addr ≠ pr.page + o := by
  intro he
  obtain ⟨⟨m, hm⟩, -, hn⟩ := hi.owned.aligned _ (mem_holdings_large hb hl)
  obtain ⟨⟨m', hm'⟩, -, -⟩ := hi.owned.aligned _ (mem_holdings_page live hpr)
  have hpage : b.addr = pr.page := by
    simp only at hm hm'
    rw [hm, hm'] at he ⊢
    unfold pageSize at *
    omega
  have howned := hi.owned.nodup
  unfold Kheap.holdings at howned
  rw [List.flatMap_append] at howned
  have hdis := List.disjoint_of_nodup_append howned
  refine hdis (a := pr.page) ?_ ?_
  · exact List.mem_flatMap.mpr ⟨_, List.mem_map_of_mem hpr, mem_vpages_one.mpr rfl⟩
  · refine List.mem_flatMap.mpr ⟨(b.addr, b.npages), ?_, hpage ▸ self_mem_vpages _ hn⟩
    exact List.mem_append_right _ (List.mem_map_of_mem
      (List.mem_filter.mpr ⟨hb, decide_eq_true hl⟩))

/-- A small block lies on one heap page, at one place. -/
theorem on_unique (hi : HeapInv h live held) (hpr : pr ∈ h.allbase) (hpr' : pr' ∈ h.allbase)
    (hb : b.On pr') (ho : o < pageSize) (he : b.addr = pr.page + o) :
    pr' = pr ∧ b.On pr ∧ o ∈ offsets pr.blktype ∧ o ∉ pr.freelist := by
  obtain ⟨hs, ht, o', ho', hnf, haddr⟩ := hb
  obtain ⟨rfl, rfl⟩ := hi.on_page_inj hpr' hpr
    (lt_pageSize_of_mem_offsets (hi.type pr' hpr') ho') ho (haddr.symm.trans he)
  exact ⟨rfl, ⟨hs, ht, o', ho', hnf, haddr⟩, ho', hnf⟩

end HeapInv

/-! ## Taking a block -/

theorem takeBlock_some {t a : ℕ} {prs prs' : List Pageref} (h : takeBlock t prs = some (a, prs')) :
    ∃ pre pr post o fl, prs = pre ++ pr :: post ∧ pr.blktype = t ∧ pr.freelist = o :: fl ∧
      a = pr.page + o ∧ prs' = pre ++ { pr with freelist := fl } :: post := by
  induction prs generalizing a prs' with
  | nil => cases h
  | cons pr prs ih =>
    have hrec : (takeBlock t prs).map (fun r => (r.1, pr :: r.2)) = some (a, prs') →
        ∃ pre pr' post o fl, pr :: prs = pre ++ pr' :: post ∧ pr'.blktype = t ∧
          pr'.freelist = o :: fl ∧ a = pr'.page + o ∧
          prs' = pre ++ { pr' with freelist := fl } :: post := by
      intro h
      obtain ⟨⟨a', prs''⟩, hr, he⟩ := Option.map_eq_some_iff.mp h
      cases he
      obtain ⟨pre, pr', post, o, fl, rfl, ht, hfl, ha, rfl⟩ := ih hr
      exact ⟨pr :: pre, pr', post, o, fl, rfl, ht, hfl, ha, rfl⟩
    rw [takeBlock] at h
    split at h
    · next o fl hfl =>
      split_ifs at h with ht
      · cases h
        exact ⟨[], pr, prs, o, fl, rfl, ht, hfl, rfl, rfl⟩
      · exact hrec h
    · exact hrec h

section Kmalloc

variable {h : Kheap} {live : List KBlock} {held held' : List (ℕ × ℕ)} {sz ptr : ℕ}

/-- The pages of the heap when one of them gets another free list. -/
def relist (pr : Pageref) (fl : List ℕ) (prs : List Pageref) : List Pageref :=
  prs.map fun p => if p.ref = pr.ref then { p with freelist := fl } else p

theorem mem_relist {pr p : Pageref} {fl : List ℕ} (hi : HeapInv h live held)
    (hpr : pr ∈ h.allbase) :
    p ∈ relist pr fl h.allbase ↔
      p = { pr with freelist := fl } ∨ p ∈ h.allbase ∧ p ≠ pr := by
  unfold relist
  rw [List.mem_map]
  constructor
  · rintro ⟨p', hp', rfl⟩
    split_ifs with hr
    · rw [List.inj_on_of_nodup_map hi.refs hp' hpr hr]
      exact .inl rfl
    · exact .inr ⟨hp', fun he => hr (congrArg Pageref.ref he)⟩
  · rintro (rfl | ⟨hp, hne⟩)
    · exact ⟨pr, hpr, if_pos rfl⟩
    · exact ⟨p, hp, if_neg fun hr => hne (List.inj_on_of_nodup_map hi.refs hp hpr hr)⟩

/-- **Another free list for one page**, and other small blocks. -/
theorem HeapInv.relist (hi : HeapInv h live held) {pr : Pageref} {fl : List ℕ}
    (hpr : pr ∈ h.allbase) (hfl : fl.Nodup ∧ ∀ o ∈ fl, o ∈ offsets pr.blktype)
    {live' : List KBlock} (hlarge : live'.filter (·.Large) = live.filter (·.Large))
    (haddrs : (live'.map KBlock.addr).Nodup)
    (hsmall : ∀ b ∈ live', ¬ b.Large →
      b.On { pr with freelist := fl } ∨ ∃ p ∈ h.allbase, p ≠ pr ∧ b.On p)
    (hused : ∀ o ∈ offsets pr.blktype, o ∉ fl → ∃ b ∈ live', ¬ b.Large ∧ b.addr = pr.page + o)
    (hother : ∀ p ∈ h.allbase, p ≠ pr → ∀ o ∈ offsets p.blktype, o ∉ p.freelist →
      ∃ b ∈ live', ¬ b.Large ∧ b.addr = p.page + o) :
    HeapInv { h with allbase := Os161.relist pr fl h.allbase } live' held := by
  have hmap : ∀ {β : Type} (g : Pageref → β), (∀ p fl, g { p with freelist := fl } = g p) →
      (Os161.relist pr fl h.allbase).map g = h.allbase.map g := by
    intro β g hg
    unfold Os161.relist
    rw [List.map_map]
    refine List.map_congr_left fun p _ => ?_
    simp only [Function.comp]
    split_ifs
    · exact hg p fl
    · rfl
  have hhold : Kheap.holdings { h with allbase := Os161.relist pr fl h.allbase } live' =
      h.holdings live := by
    unfold Kheap.holdings Kheap.refPages
    rw [hlarge, hmap (fun pr => (pr.page, 1)) fun _ _ => rfl]
  refine ⟨?_, ?_, ?_, ?_, hhold ▸ hi.owned, haddrs, ?_, ?_⟩
  · exact (hmap Pageref.ref fun _ _ => rfl) ▸ hi.refs
  · intro p hp
    rcases (mem_relist hi hpr).mp hp with rfl | ⟨hp, -⟩
    · exact hi.inuse pr hpr
    · exact hi.inuse p hp
  · intro p hp
    rcases (mem_relist hi hpr).mp hp with rfl | ⟨hp, -⟩
    · exact hi.type pr hpr
    · exact hi.type p hp
  · intro p hp
    rcases (mem_relist hi hpr).mp hp with rfl | ⟨hp, -⟩
    · exact hfl
    · exact hi.free p hp
  · intro b hb hs
    rcases hsmall b hb hs with hon | ⟨p, hp, hne, hon⟩
    · exact ⟨_, (mem_relist hi hpr).mpr (.inl rfl), hon⟩
    · exact ⟨p, (mem_relist hi hpr).mpr (.inr ⟨hp, hne⟩), hon⟩
  · intro p hp o ho hnf
    rcases (mem_relist hi hpr).mp hp with rfl | ⟨hp, hne⟩
    · exact hused o ho hnf
    · exact hother p hp hne o ho hnf

/-- **The first free block of a heap page** becomes live. -/
theorem HeapInv.takeFrom (hi : HeapInv h live held) {pr : Pageref} {o : ℕ} {fl : List ℕ}
    (hpr : pr ∈ h.allbase) (hfl : pr.freelist = o :: fl) (hsz : sz < largestSubpageSize)
    (htype : pr.blktype = blocktype sz) :
    pr.page + o ≠ 0 ∧ HeapInv { h with allbase := Os161.relist pr fl h.allbase }
      (⟨pr.page + o, sz⟩ :: live) held := by
  have hpos : 0 < pr.page :=
    (hi.owned.aligned _ (HeapInv.mem_holdings_page live hpr)).2.1
  have hfree := hi.free pr hpr
  rw [hfl] at hfree
  obtain ⟨hfo, hnd⟩ := List.nodup_cons.mp hfree.1
  have hoff := hfree.2 o List.mem_cons_self
  have ho : o < pageSize := lt_pageSize_of_mem_offsets (hi.type pr hpr) hoff
  have hs : ¬ KBlock.Large ⟨pr.page + o, sz⟩ := Nat.not_le.mpr hsz
  refine ⟨by omega, hi.relist hpr ⟨hnd, fun o' h' => hfree.2 o' (List.mem_cons_of_mem _ h')⟩
    ?_ ?_ ?_ ?_ ?_⟩
  · rw [List.filter_cons, if_neg (by simpa using hs)]
  · rw [List.map_cons, List.nodup_cons]
    refine ⟨fun hmem => ?_, hi.addrs⟩
    obtain ⟨b, hb, he⟩ := List.mem_map.mp hmem
    by_cases hl : b.Large
    · exact hi.large_not_on_page hb hl hpr ho he
    · obtain ⟨pr', hpr', hon⟩ := hi.small b hb hl
      have := (hi.on_unique hpr hpr' hon ho he).2.2.2
      rw [hfl] at this
      exact this List.mem_cons_self
  · intro b hb hl
    rcases List.mem_cons.mp hb with rfl | hb
    · exact .inl ⟨hs, htype, o, hoff, hfo, rfl⟩
    · obtain ⟨p, hp, hon⟩ := hi.small b hb hl
      by_cases he : p = pr
      · subst he
        obtain ⟨-, htb, o', ho', hnf, haddr⟩ := hon
        rw [hfl] at hnf
        exact .inl ⟨hl, htb, o', ho', fun hc => hnf (List.mem_cons_of_mem _ hc), haddr⟩
      · exact .inr ⟨p, hp, he, hon⟩
  · intro o' ho' hnf
    by_cases he : o' = o
    · subst he
      exact ⟨_, List.mem_cons_self, hs, rfl⟩
    · obtain ⟨b, hb, hl, haddr⟩ := hi.used pr hpr o' ho' (by rw [hfl]; simp [he, hnf])
      exact ⟨b, List.mem_cons_of_mem _ hb, hl, haddr⟩
  · intro p hp _ o' ho' hnf
    obtain ⟨b, hb, hl, haddr⟩ := hi.used p hp o' ho' hnf
    exact ⟨b, List.mem_cons_of_mem _ hb, hl, haddr⟩

/-- A free block of the first heap page that has one becomes live. -/
theorem HeapInv.take (hi : HeapInv h live held) (hsz : sz < largestSubpageSize)
    {prs : List Pageref} (ht : takeBlock (blocktype sz) h.allbase = some (ptr, prs)) :
    ptr ≠ 0 ∧ HeapInv { h with allbase := prs } (⟨ptr, sz⟩ :: live) held := by
  obtain ⟨pre, pr, post, o, fl, hall, htype, hfl, rfl, rfl⟩ := takeBlock_some ht
  have hpr : pr ∈ h.allbase := by rw [hall]; simp
  have hprs : pre ++ { pr with freelist := fl } :: post = Os161.relist pr fl h.allbase := by
    have hrefs := hi.refs
    rw [hall, List.map_append, List.map_cons, List.nodup_append, List.nodup_cons] at hrefs
    obtain ⟨-, ⟨hpost, -⟩, hpre⟩ := hrefs
    unfold Os161.relist
    rw [hall, List.map_append, List.map_cons, if_pos rfl]
    congr 1
    · refine (List.map_id' _).symm.trans (List.map_congr_left fun p hp => (if_neg ?_).symm)
      exact hpre _ (List.mem_map_of_mem hp) _ List.mem_cons_self
    · congr 1
      refine (List.map_id' _).symm.trans (List.map_congr_left fun p hp => (if_neg ?_).symm)
      exact fun he => hpost (he ▸ List.mem_map_of_mem hp)
  rw [hprs]
  exact hi.takeFrom hpr hfl hsz htype

theorem HeapInv.mono (hi : HeapInv h live held)
    (hsub : ∀ e ∈ h.holdings live, e ∈ held → e ∈ held') : HeapInv h live held' :=
  { hi with owned := hi.owned.mono hsub }

/-- **A fresh heap page**: all of its blocks are free. -/
theorem HeapInv.addPage (hi : HeapInv h live held) {ref page t : ℕ}
    (href : ref ∉ h.allbase.map Pageref.ref) (hinuse : h.inuse ref = true) (ht : t < sizes.length)
    (hheld : (page, 1) ∈ held) (hpage : pageSize ∣ page ∧ 0 < page)
    (hnew : ∀ e ∈ h.holdings live, page ∉ vpages e.1 e.2) :
    HeapInv { h with allbase := ⟨ref, page, t, freshList t⟩ :: h.allbase } live held := by
  refine ⟨?_, ?_, ?_, ?_, ?_, hi.addrs, ?_, ?_⟩
  · exact List.nodup_cons.mpr ⟨href, hi.refs⟩
  · intro p hp
    rcases List.mem_cons.mp hp with rfl | hp
    · exact hinuse
    · exact hi.inuse p hp
  · intro p hp
    rcases List.mem_cons.mp hp with rfl | hp
    · exact ht
    · exact hi.type p hp
  · intro p hp
    rcases List.mem_cons.mp hp with rfl | hp
    · rw [freshList_eq]
      exact ⟨List.nodup_reverse.mpr (nodup_offsets ht), fun o ho => List.mem_reverse.mp ho⟩
    · exact hi.free p hp
  · refine hi.owned.cons hheld ⟨hpage.1, hpage.2, le_refl _⟩ fun q hq e he => ?_
    rw [mem_vpages_one.mp hq]
    exact hnew e he
  · intro b hb hs
    obtain ⟨p, hp, hon⟩ := hi.small b hb hs
    exact ⟨p, List.mem_cons_of_mem _ hp, hon⟩
  · intro p hp o ho hnf
    rcases List.mem_cons.mp hp with rfl | hp
    · rw [freshList_eq, List.mem_reverse] at hnf
      exact absurd ho hnf
    · exact hi.used p hp o ho hnf

/-- A page for the pagerefs of a root that had none. -/
theorem refPages_update {r va : ℕ} (hr : r < numPagerefpages) (h0 : h.refPage r = 0) (hva : va ≠ 0) :
    ∃ A B, h.refPages = A ++ B ∧
      Kheap.refPages { h with refPage := Function.update h.refPage r va } = A ++ (va, 1) :: B := by
  obtain ⟨pre, post, hsplit⟩ := List.append_of_mem (List.mem_range.mpr hr)
  have hnd : (pre ++ r :: post).Nodup := hsplit ▸ List.nodup_range
  rw [List.nodup_append, List.nodup_cons] at hnd
  obtain ⟨-, ⟨hpost, -⟩, hpre⟩ := hnd
  have hkeep : ∀ l : List ℕ, r ∉ l →
      ((l.filter fun r' => Function.update h.refPage r va r' ≠ 0).map fun r' =>
        (Function.update h.refPage r va r', 1)) =
      (l.filter fun r' => h.refPage r' ≠ 0).map fun r' => (h.refPage r', 1) := by
    intro l hl
    have hne : ∀ r' ∈ l, Function.update h.refPage r va r' = h.refPage r' :=
      fun r' hr' => Function.update_of_ne (fun e : r' = r => hl (e ▸ hr')) _ _
    rw [List.filter_congr fun r' hr' => by rw [hne r' hr']]
    exact List.map_congr_left fun r' hr' => by rw [hne r' (List.mem_filter.mp hr').1]
  refine ⟨(pre.filter fun r' => h.refPage r' ≠ 0).map fun r' => (h.refPage r', 1),
    (post.filter fun r' => h.refPage r' ≠ 0).map fun r' => (h.refPage r', 1), ?_, ?_⟩
  · unfold Kheap.refPages
    rw [hsplit, List.filter_append, List.filter_cons, if_neg (by simpa using h0), List.map_append]
  · unfold Kheap.refPages
    simp only [hsplit, List.filter_append, List.filter_cons, List.map_append]
    rw [if_pos (by simpa using hva), List.map_cons, Function.update_self,
      hkeep pre fun hm => hpre r hm r List.mem_cons_self rfl, hkeep post hpost]

/-- The pages of the heap when a root gets its page. -/
theorem Kheap.holdings_setRefPage (live : List KBlock) {r va : ℕ} (hr : r < numPagerefpages)
    (h0 : h.refPage r = 0) (hva : va ≠ 0) :
    (Kheap.holdings { h with refPage := Function.update h.refPage r va } live).Perm
      ((va, 1) :: h.holdings live) := by
  obtain ⟨A, B, hold, hnew⟩ := refPages_update hr h0 hva
  unfold Kheap.holdings
  rw [hold, hnew]
  simp only [List.append_assoc, List.cons_append]
  rw [← List.append_assoc, ← List.append_assoc _ A]
  exact List.perm_middle

/-- **A root gets its page.** -/
theorem HeapInv.setRefPage (hi : HeapInv h live held) {r va : ℕ} (hr : r < numPagerefpages)
    (h0 : h.refPage r = 0) (hheld : (va, 1) ∈ held) (hpage : pageSize ∣ va ∧ 0 < va)
    (hnew : ∀ e ∈ h.holdings live, va ∉ vpages e.1 e.2) :
    HeapInv { h with refPage := Function.update h.refPage r va } live held := by
  refine ⟨hi.refs, hi.inuse, hi.type, hi.free, Owned.perm ?_
    (Kheap.holdings_setRefPage live hr h0 (by omega)), hi.addrs, hi.small, hi.used⟩
  refine hi.owned.cons hheld ⟨hpage.1, hpage.2, le_refl _⟩ fun q hq e he => ?_
  rw [mem_vpages_one.mp hq]
  exact hnew e he

/-- The order of the live blocks does not matter. -/
theorem HeapInv.perm (hi : HeapInv h live held) {live' : List KBlock} (hp : live'.Perm live) :
    HeapInv h live' held := by
  refine ⟨hi.refs, hi.inuse, hi.type, hi.free, hi.owned.perm ?_,
    (hp.map KBlock.addr).nodup_iff.mpr hi.addrs, fun b hb => hi.small b (hp.mem_iff.mp hb), ?_⟩
  · exact (((hp.filter _).map _).append_left _).append_left _
  · intro p hp' o ho hnf
    obtain ⟨b, hb, hs, haddr⟩ := hi.used p hp' o ho hnf
    exact ⟨b, hp.mem_iff.mpr hb, hs, haddr⟩

/-- Marking a pageref as used. -/
theorem HeapInv.setInuse (hi : HeapInv h live held) (i : ℕ) :
    HeapInv { h with inuse := Function.update h.inuse i true } live held := by
  refine ⟨hi.refs, fun p hp => ?_, hi.type, hi.free, hi.owned, hi.addrs, hi.small, hi.used⟩
  change Function.update h.inuse i true p.ref = true
  rw [Function.update_apply]
  split_ifs
  · rfl
  · exact hi.inuse p hp

variable {σ : Type} {P : PageAlloc σ} {Inv : σ → Prop} {heldBy : σ → List (ℕ × ℕ)}
  {Fits Freeable : σ → ℕ → Prop} {s s' : σ}

/-- **`allocpageref`** returns an unused pageref, and takes at most one page. -/
theorem allocpageref_spec (hP : P.Spec Inv heldBy Fits Freeable) (hs : Inv s)
    (hi : HeapInv h live (heldBy s)) {ref : Option ℕ} {h' : Kheap}
    (ha : allocpageref P h s = (ref, h', s')) :
    Inv s' ∧ (∀ e ∈ heldBy s, e ∈ heldBy s') ∧ (∀ va, Freeable s va → Freeable s' va) ∧
      HeapInv h' live (heldBy s') ∧ h'.allbase = h.allbase ∧
      (∀ e ∈ h'.holdings live, e ∈ h.holdings live ∨
        ∀ q ∈ vpages e.1 e.2, ∀ e' ∈ heldBy s, q ∉ vpages e'.1 e'.2) ∧
      ∀ i, ref = some i → h'.inuse i = true ∧ i ∉ h.allbase.map Pageref.ref := by
  unfold allocpageref at ha
  split at ha
  · cases ha
    exact ⟨hs, fun e he => he, fun va hv => hv, hi, rfl, fun e he => .inl he, fun i he => by cases he⟩
  · next i hfirst =>
    obtain ⟨hlt, hfree⟩ := Loop.firstIdx_some hfirst
    have hunused : h.inuse i = false := by simpa using hfree
    have hnew : i ∉ h.allbase.map Pageref.ref := by
      intro hm
      obtain ⟨p, hp, he⟩ := List.mem_map.mp hm
      have := hi.inuse p hp
      rw [he, hunused] at this
      cases this
    have hset := hi.setInuse i
    simp only at ha
    by_cases h0 : h.refPage (i / npagerefsPerPage) = 0
    · rw [if_pos h0] at ha
      rcases hr : P.alloc 1 s with ⟨va, s₁⟩
      obtain ⟨hinv, hsub, hfr, hok⟩ := hP.alloc hs (hP.fits_one hs) hr
      have hmono : HeapInv { h with inuse := Function.update h.inuse i true } live (heldBy s₁) :=
        hset.mono fun e _ he => hsub e he
      simp only [hr] at ha
      split_ifs at ha with hva
      · cases ha
        exact ⟨hinv, hsub, hfr, hmono, rfl, fun e he => .inl he, fun i he => by cases he⟩
      · cases ha
        obtain ⟨hheld, -, hdvd, hdis⟩ := hok hva
        have hr16 : i / npagerefsPerPage < numPagerefpages := by
          unfold npagerefsPerPage numPagerefpages at *
          omega
        have hperm : (Kheap.holdings { h with
              inuse := Function.update h.inuse i true
              refPage := Function.update h.refPage (i / npagerefsPerPage) va } live).Perm
            ((va, 1) :: h.holdings live) := Kheap.holdings_setRefPage live hr16 h0 hva
        have hown : Owned ((va, 1) :: h.holdings live) (heldBy s') :=
          hmono.owned.cons hheld ⟨hdvd, Nat.pos_of_ne_zero hva, le_refl _⟩
            fun q hq e he => hdis q hq e (hi.owned.held e he)
        refine ⟨hinv, hsub, hfr, ⟨hset.refs, hset.inuse, hset.type, hset.free, hown.perm hperm,
          hset.addrs, hset.small, hset.used⟩, rfl, fun e he => ?_, fun j hj => ?_⟩
        · rcases List.mem_cons.mp (hperm.mem_iff.mp he) with rfl | he
          · exact .inr hdis
          · exact .inl he
        · cases hj
          exact ⟨Function.update_self _ _ _, hnew⟩
    · rw [if_neg h0] at ha
      cases ha
      refine ⟨hs, fun e he => he, fun va hv => hv, hset, rfl, fun e he => .inl he, fun j hj => ?_⟩
      cases hj
      exact ⟨Function.update_self _ _ _, hnew⟩

/-- A fresh page hands out its first block. -/
theorem takeBlock_fresh {t : ℕ} (ht : t < sizes.length) (ref page : ℕ) (prs : List Pageref) :
    ∃ a prs', takeBlock t (⟨ref, page, t, freshList t⟩ :: prs) = some (a, prs') := by
  have hne : freshList t ≠ [] := by
    rw [freshList_eq, ne_eq, List.reverse_eq_nil_iff, ← List.length_eq_zero_iff, length_offsets]
    revert t; decide
  obtain ⟨o, fl, he⟩ := List.exists_cons_of_ne_nil hne
  exact ⟨page + o, _, by simp [takeBlock, he]; rfl⟩

/-- **A block of whole pages** becomes live. -/
theorem HeapInv.addLarge (hi : HeapInv h live held) {b : KBlock} (hl : b.Large)
    (hheld : (b.addr, b.npages) ∈ held) (hpage : pageSize ∣ b.addr ∧ 0 < b.addr ∧ 1 ≤ b.npages)
    (hnew : ∀ q ∈ vpages b.addr b.npages, ∀ e ∈ h.holdings live, q ∉ vpages e.1 e.2) :
    HeapInv h (b :: live) held := by
  have hperm : (h.holdings (b :: live)).Perm ((b.addr, b.npages) :: h.holdings live) := by
    unfold Kheap.holdings
    rw [List.filter_cons, if_pos (decide_eq_true hl), List.map_cons, ← List.append_assoc,
      ← List.append_assoc]
    exact List.perm_middle
  refine ⟨hi.refs, hi.inuse, hi.type, hi.free, (hi.owned.cons hheld hpage hnew).perm hperm,
    ?_, ?_, ?_⟩
  · rw [List.map_cons, List.nodup_cons]
    refine ⟨fun hm => ?_, hi.addrs⟩
    obtain ⟨b', hb', he⟩ := List.mem_map.mp hm
    have hself : b.addr ∈ vpages b.addr b.npages := self_mem_vpages _ hpage.2.2
    by_cases hl' : b'.Large
    · have hmem := HeapInv.mem_holdings_large (h := h) hb' hl'
      refine hnew _ hself _ hmem ?_
      rw [← he]
      exact self_mem_vpages _ (hi.owned.aligned _ hmem).2.2
    · obtain ⟨p, hp, -, -, o, ho, -, haddr⟩ := hi.small b' hb' hl'
      have hmem := HeapInv.mem_holdings_page live hp
      have hlt := lt_pageSize_of_mem_offsets (hi.type p hp) ho
      obtain ⟨m, hm⟩ := hpage.1
      obtain ⟨m', hm'⟩ := (hi.owned.aligned _ hmem).1
      have hpage : b.addr = p.page := by
        simp only at hm'
        rw [← he, haddr, hm'] at hm
        rw [← he, haddr, hm']
        unfold pageSize at *
        omega
      exact hnew _ hself _ hmem (hpage ▸ mem_vpages_one.mpr rfl)
  · intro b' hb' hs
    rcases List.mem_cons.mp hb' with rfl | hb'
    · exact absurd hl hs
    · exact hi.small b' hb' hs
  · intro p hp o ho hnf
    obtain ⟨b', hb', hs, haddr⟩ := hi.used p hp o ho hnf
    exact ⟨b', List.mem_cons_of_mem _ hb', hs, haddr⟩

/-- **`subpage_kmalloc`**: a free block of a known page, or a block of a fresh page. -/
theorem subpageKmalloc_inv (hP : P.Spec Inv heldBy Fits Freeable) (hs : Inv s)
    (hi : HeapInv h live (heldBy s)) (hsmall : sz < largestSubpageSize) {h' : Kheap}
    (hk : subpageKmalloc P sz h s = (ptr, h', s')) :
    Inv s' ∧ HeapInv h' (if ptr = 0 then live else ⟨ptr, sz⟩ :: live) (heldBy s') := by
  unfold subpageKmalloc at hk
  simp only at hk
  split at hk
  · next a prs ht =>
    cases hk
    obtain ⟨hne, hi'⟩ := hi.take hsmall ht
    rw [if_neg hne]
    exact ⟨hs, hi'⟩
  · rcases hr : P.alloc 1 s with ⟨prpage, s₁⟩
    obtain ⟨hinv, hsub, -, hok⟩ := hP.alloc hs (hP.fits_one hs) hr
    have hmono : HeapInv h live (heldBy s₁) := hi.mono fun e _ he => hsub e he
    simp only [hr] at hk
    by_cases hva : prpage = 0
    · rw [if_pos hva] at hk
      cases hk
      exact ⟨hinv, by rw [if_pos rfl]; exact hmono⟩
    · rw [if_neg hva] at hk
      obtain ⟨hheld, hfree, hdvd, hdis⟩ := hok hva
      have hfresh : ∀ e ∈ h.holdings live, prpage ∉ vpages e.1 e.2 := fun e he =>
        hdis prpage (mem_vpages_one.mpr rfl) e (hi.owned.held e he)
      rcases ha : allocpageref P h s₁ with ⟨ref, h₁, s₂⟩
      obtain ⟨hinv₂, hsub₂, hfr₂, hi₂, hall, hnew, href⟩ := allocpageref_spec hP hinv hmono ha
      have hfresh₂ : ∀ e ∈ h₁.holdings live, prpage ∉ vpages e.1 e.2 := by
        intro e he hq
        rcases hnew e he with he' | he'
        · exact hfresh e he' hq
        · exact he' prpage hq _ hheld (mem_vpages_one.mpr rfl)
      rw [ha] at hk
      cases ref with
      | none =>
        cases hk
        obtain ⟨hinv₃, hkeep⟩ := hP.free hinv₂ (hsub₂ _ hheld) (hfr₂ _ hfree)
        rw [if_pos rfl]
        refine ⟨hinv₃, hi₂.mono fun e he hes => hkeep e hes ?_⟩
        rintro rfl
        exact hfresh₂ _ he (mem_vpages_one.mpr rfl)
      | some ref =>
        obtain ⟨hset, hnotin⟩ := href ref rfl
        have ht := blocktype_lt hsmall
        have hi₃ := hi₂.addPage (hall ▸ hnotin) hset ht (hsub₂ _ hheld)
          ⟨hdvd, Nat.pos_of_ne_zero hva⟩ hfresh₂
        obtain ⟨a, prs, htake⟩ := takeBlock_fresh ht ref prpage h₁.allbase
        simp only [htake] at hk
        cases hk
        obtain ⟨hne, hi₄⟩ := hi₃.take hsmall htake
        rw [if_neg hne]
        exact ⟨hinv₂, hi₄⟩

/-- **`kmalloc`** of any size whose pages may be asked for. -/
theorem kmalloc_inv (hP : P.Spec Inv heldBy Fits Freeable) (hs : Inv s)
    (hi : HeapInv h live (heldBy s))
    (hfits : largestSubpageSize ≤ sz → Fits s (wadd sz (pageSize - 1) / pageSize)) {h' : Kheap}
    (hk : kmalloc P sz h s = (ptr, h', s')) :
    Inv s' ∧ HeapInv h' (if ptr = 0 then live else ⟨ptr, sz⟩ :: live) (heldBy s') := by
  unfold kmalloc at hk
  split_ifs at hk with hlarge
  · rcases hr : P.alloc (wadd sz (pageSize - 1) / pageSize) s with ⟨va, s₁⟩
    simp only [hr] at hk
    cases hk
    have hn := hP.fits_pos (hfits hlarge)
    obtain ⟨hinv, hsub, -, hok⟩ := hP.alloc hs (hfits hlarge) hr
    have hmono : HeapInv h live (heldBy s') := hi.mono fun e _ he => hsub e he
    refine ⟨hinv, ?_⟩
    split_ifs with hva
    · exact hmono
    · obtain ⟨hheld, -, hdvd, hdis⟩ := hok hva
      exact hmono.addLarge hlarge hheld ⟨hdvd, Nat.pos_of_ne_zero hva, hn⟩
        fun q hq e he => hdis q hq e (hi.owned.held e he)
  · exact subpageKmalloc_inv hP hs hi (Nat.not_le.mp hlarge) hk

/-! ## Giving a block back -/

section Kfree

variable {b : KBlock} {pr : Pageref} {o : ℕ}

/-- The blocks that are left when `b` is freed. -/
def freed (live : List KBlock) (b : KBlock) : List KBlock := live.filter fun b' => b'.addr ≠ b.addr

theorem mem_freed {b' : KBlock} : b' ∈ freed live b ↔ b' ∈ live ∧ b'.addr ≠ b.addr := by
  simp [freed]

theorem HeapInv.addrs_freed (hi : HeapInv h live held) : ((freed live b).map KBlock.addr).Nodup :=
  hi.addrs.sublist (List.filter_sublist.map _)

theorem HeapInv.perm_freed (hi : HeapInv h live held) (hb : b ∈ live) :
    live.Perm (b :: freed live b) := by
  have hnd := List.Nodup.of_map _ hi.addrs
  have hnd' : (b :: freed live b).Nodup :=
    List.nodup_cons.mpr ⟨fun hm => (mem_freed.mp hm).2 rfl, hnd.filter _⟩
  refine (List.perm_ext_iff_of_nodup hnd hnd').mpr fun b' => ?_
  rw [List.mem_cons, mem_freed]
  constructor
  · intro hb'
    by_cases he : b'.addr = b.addr
    · exact .inl (List.inj_on_of_nodup_map hi.addrs hb' hb he)
    · exact .inr ⟨hb', he⟩
  · rintro (rfl | ⟨hb', -⟩)
    · exact hb
    · exact hb'

/-- A small block leaves the large ones. -/
theorem HeapInv.large_freed (hi : HeapInv h live held) (hpr : pr ∈ h.allbase) (ho : o < pageSize)
    (haddr : b.addr = pr.page + o) :
    (freed live b).filter (·.Large) = live.filter (·.Large) := by
  unfold freed
  rw [List.filter_filter]
  refine List.filter_congr fun b' hb' => ?_
  by_cases hl : b'.Large
  · have := hi.large_not_on_page hb' hl hpr ho
    rw [← haddr] at this
    simp [hl, this]
  · simp [hl]

/-- The page search finds the page of a small block. -/
theorem HeapInv.findPage_on (hi : HeapInv h live held) (hpr : pr ∈ h.allbase) (hon : b.On pr) :
    findPage h b.addr = some pr := by
  obtain ⟨-, -, o, ho, -, haddr⟩ := hon
  have hlt := lt_pageSize_of_mem_offsets (hi.type pr hpr) ho
  obtain ⟨p, hp⟩ := Option.ne_none_iff_exists'.mp (show findPage h b.addr ≠ none from fun hn => by
    have := List.find?_eq_none.mp hn pr hpr
    simp only [decide_eq_true_eq] at this
    omega)
  have hmem := List.mem_of_find?_eq_some hp
  have hrange : p.page ≤ b.addr ∧ b.addr < p.page + pageSize := by
    have := List.find?_some (p := fun p : Pageref => decide (p.page ≤ b.addr ∧
      b.addr < p.page + pageSize)) hp
    simpa using this
  have := hi.on_page_inj hmem hpr (o := b.addr - p.page) (by omega) hlt (by omega)
  rw [hp, this.1]

/-- The page search finds nothing for a block of whole pages. -/
theorem HeapInv.findPage_large (hi : HeapInv h live held) (hb : b ∈ live) (hl : b.Large) :
    findPage h b.addr = none := by
  refine List.find?_eq_none.mpr fun p hp hc => ?_
  have hrange : p.page ≤ b.addr ∧ b.addr < p.page + pageSize := by simpa using hc
  exact hi.large_not_on_page hb hl hp (o := b.addr - p.page) (by omega) (by omega)

theorem HeapInv.pages_on (hi : HeapInv h live held) (hpr : pr ∈ h.allbase) (hon : b.On pr) :
    b.pages = vpages pr.page 1 := by
  obtain ⟨hs, -, o, ho, -, haddr⟩ := hon
  have hlt := lt_pageSize_of_mem_offsets (hi.type pr hpr) ho
  obtain ⟨m, hm⟩ := (hi.owned.aligned _ (HeapInv.mem_holdings_page live hpr)).1
  have hpage : b.addr / pageSize * pageSize = pr.page := by
    simp only at hm
    rw [haddr, hm]
    unfold pageSize at *
    omega
  rw [KBlock.pages, if_neg hs, hpage]

/-- When one block short of all are free, that block is the only one in use. -/
theorem HeapInv.only_block (hi : HeapInv h live held) (hpr : pr ∈ h.allbase)
    (ho : o ∈ offsets pr.blktype) (hnf : o ∉ pr.freelist)
    (hcount : pr.freelist.length + 1 = blocksPerPage pr.blktype) {o' : ℕ}
    (ho' : o' ∈ offsets pr.blktype) (hnf' : o' ∉ pr.freelist) : o' = o := by
  obtain ⟨hnd, hsub⟩ := hi.free pr hpr
  have hperm : (o :: pr.freelist).Perm (offsets pr.blktype) := by
    refine (List.subperm_of_subset (List.nodup_cons.mpr ⟨hnf, hnd⟩) ?_).perm_of_length_le ?_
    · intro x hx
      rcases List.mem_cons.mp hx with rfl | hx
      · exact ho
      · exact hsub x hx
    · rw [length_offsets, List.length_cons, hcount]
  rcases List.mem_cons.mp (hperm.mem_iff.mpr ho') with rfl | hmem
  · rfl
  · exact absurd hmem hnf'

/-- **A small block goes back** to the free list of its page. -/
theorem HeapInv.put (hi : HeapInv h live held) (hpr : pr ∈ h.allbase)
    (ho : o ∈ offsets pr.blktype) (hnf : o ∉ pr.freelist)
    (haddr : b.addr = pr.page + o) :
    HeapInv { h with allbase := Os161.relist pr (o :: pr.freelist) h.allbase } (freed live b)
      held := by
  have hlt : ∀ p ∈ h.allbase, ∀ o ∈ offsets p.blktype, o < pageSize :=
    fun p hp o ho => lt_pageSize_of_mem_offsets (hi.type p hp) ho
  refine hi.relist hpr ⟨List.nodup_cons.mpr ⟨hnf, (hi.free pr hpr).1⟩, ?_⟩ ?_ hi.addrs_freed
    ?_ ?_ ?_
  · intro o' ho'
    rcases List.mem_cons.mp ho' with rfl | ho'
    · exact ho
    · exact (hi.free pr hpr).2 o' ho'
  · exact hi.large_freed hpr (hlt pr hpr o ho) haddr
  · intro b' hb' hs'
    obtain ⟨hmem, hne⟩ := mem_freed.mp hb'
    obtain ⟨p, hp, hon⟩ := hi.small b' hmem hs'
    by_cases he : p = pr
    · subst he
      obtain ⟨-, ht, o', ho', hnf', haddr'⟩ := hon
      refine .inl ⟨hs', ht, o', ho', fun hc => ?_, haddr'⟩
      rcases List.mem_cons.mp hc with rfl | hc
      · exact hne (haddr'.trans haddr.symm)
      · exact hnf' hc
    · exact .inr ⟨p, hp, he, hon⟩
  · intro o' ho' hnf'
    obtain ⟨hne, hnf''⟩ : o' ≠ o ∧ o' ∉ pr.freelist := by simpa using hnf'
    obtain ⟨b', hb', hs', haddr'⟩ := hi.used pr hpr o' ho' hnf''
    exact ⟨b', mem_freed.mpr ⟨hb', by omega⟩, hs', haddr'⟩
  · intro p hp hne o' ho' hnf'
    obtain ⟨b', hb', hs', haddr'⟩ := hi.used p hp o' ho' hnf'
    refine ⟨b', mem_freed.mpr ⟨hb', fun he => hne ?_⟩, hs', haddr'⟩
    exact (hi.on_page_inj hp hpr (hlt p hp o' ho') (hlt pr hpr o ho)
      (haddr'.symm.trans (he.trans haddr))).1

/-- A pageref leaves the list of all pagerefs. -/
theorem HeapInv.perm_eraseP (hi : HeapInv h live held) (hpr : pr ∈ h.allbase) :
    h.allbase.Perm (pr :: h.allbase.eraseP fun p => p.ref = pr.ref) := by
  obtain ⟨p, l₁, l₂, -, hp, hall, he⟩ := List.exists_of_eraseP
    (p := fun p : Pageref => decide (p.ref = pr.ref)) hpr (by simp)
  have hmem : p ∈ h.allbase := by rw [hall]; simp
  obtain rfl := List.inj_on_of_nodup_map hi.refs hmem hpr (of_decide_eq_true hp)
  rw [he, hall]
  exact List.perm_middle

/-- The pages of the heap without one of its heap pages. -/
theorem HeapInv.holdings_removePage (hi : HeapInv h live held) (hpr : pr ∈ h.allbase)
    (ho : o < pageSize) (haddr : b.addr = pr.page + o) :
    (h.holdings live).Perm ((pr.page, 1) :: Kheap.holdings { h with
      inuse := Function.update h.inuse pr.ref false
      allbase := h.allbase.eraseP fun p => p.ref = pr.ref } (freed live b)) := by
  unfold Kheap.holdings
  rw [hi.large_freed hpr ho haddr]
  exact ((hi.perm_eraseP hpr).map fun pr : Pageref => (pr.page, 1)).append_right _

/-- **A page with one block in use** goes back with this block. -/
theorem HeapInv.removePage (hi : HeapInv h live held) (hpr : pr ∈ h.allbase)
    (ho : o ∈ offsets pr.blktype) (hnf : o ∉ pr.freelist)
    (haddr : b.addr = pr.page + o) (hcount : pr.freelist.length + 1 = blocksPerPage pr.blktype)
    (hsub : ∀ e ∈ held, e ≠ (pr.page, 1) → e ∈ held') :
    HeapInv { h with
      inuse := Function.update h.inuse pr.ref false
      allbase := h.allbase.eraseP fun p => p.ref = pr.ref } (freed live b) held' := by
  have hlt : ∀ p ∈ h.allbase, ∀ o ∈ offsets p.blktype, o < pageSize :=
    fun p hp o ho => lt_pageSize_of_mem_offsets (hi.type p hp) ho
  have hperm := hi.perm_eraseP hpr
  have hrefs := (hperm.map Pageref.ref).nodup_iff.mp hi.refs
  rw [List.map_cons, List.nodup_cons] at hrefs
  have hmem : ∀ p ∈ h.allbase.eraseP fun p => p.ref = pr.ref, p ∈ h.allbase ∧ p ≠ pr := by
    refine fun p hp => ⟨List.mem_of_mem_eraseP hp, ?_⟩
    rintro rfl
    exact hrefs.1 (List.mem_map_of_mem hp)
  have hhold := hi.holdings_removePage hpr (hlt pr hpr o ho) haddr
  refine ⟨hrefs.2, ?_, fun p hp => hi.type p (hmem p hp).1, fun p hp => hi.free p (hmem p hp).1,
    (hi.owned.perm hhold.symm).of_cons hsub, hi.addrs_freed, ?_, ?_⟩
  · intro p hp
    have hne : p.ref ≠ pr.ref := fun he => hrefs.1 (List.mem_map.mpr ⟨p, hp, he⟩)
    exact (Function.update_of_ne hne _ _).trans (hi.inuse p (hmem p hp).1)
  · intro b' hb' hs'
    obtain ⟨hlive, hne⟩ := mem_freed.mp hb'
    obtain ⟨p, hp, hon⟩ := hi.small b' hlive hs'
    rcases List.mem_cons.mp (hperm.mem_iff.mp hp) with rfl | hp'
    · obtain ⟨-, -, o', ho', hnf', haddr'⟩ := hon
      have := hi.only_block hpr ho hnf hcount ho' hnf'
      exact absurd (by rw [haddr', haddr, this]) hne
    · exact ⟨p, hp', hon⟩
  · intro p hp o' ho' hnf'
    obtain ⟨hp, hne⟩ := hmem p hp
    obtain ⟨b', hb', hs', haddr'⟩ := hi.used p hp o' ho' hnf'
    refine ⟨b', mem_freed.mpr ⟨hb', fun he => hne ?_⟩, hs', haddr'⟩
    exact (hi.on_page_inj hp hpr (hlt p hp o' ho') (hlt pr hpr o ho)
      (haddr'.symm.trans (he.trans haddr))).1

/-- **A block of whole pages** goes back. -/
theorem HeapInv.removeLarge (hi : HeapInv h live held) (hb : b ∈ live) (hl : b.Large)
    (hsub : ∀ e ∈ held, e ≠ (b.addr, b.npages) → e ∈ held') : HeapInv h (freed live b) held' := by
  have hhold : (h.holdings live).Perm ((b.addr, b.npages) :: h.holdings (freed live b)) := by
    unfold Kheap.holdings
    have := ((hi.perm_freed hb).filter (·.Large)).map fun b => (b.addr, b.npages)
    rw [List.filter_cons, if_pos (decide_eq_true hl), List.map_cons] at this
    refine ((this.append_left _).append_left _).trans ?_
    rw [← List.append_assoc, ← List.append_assoc]
    exact List.perm_middle
  refine ⟨hi.refs, hi.inuse, hi.type, hi.free, (hi.owned.perm hhold.symm).of_cons hsub,
    hi.addrs_freed, fun b' hb' hs' => hi.small b' (mem_freed.mp hb').1 hs', ?_⟩
  intro p hp o ho hnf
  obtain ⟨b', hb', hs', haddr'⟩ := hi.used p hp o ho hnf
  refine ⟨b', mem_freed.mpr ⟨hb', fun he => ?_⟩, hs', haddr'⟩
  exact hi.large_not_on_page hb hl hp (lt_pageSize_of_mem_offsets (hi.type p hp) ho)
    (he.symm.trans haddr')

/-- A block lies inside a piece of memory that the heap holds. -/
theorem HeapInv.pages_held (hi : HeapInv h live held) (hb : b ∈ live) :
    ∃ e ∈ h.holdings live, b.pages = vpages e.1 e.2 := by
  by_cases hl : b.Large
  · exact ⟨_, HeapInv.mem_holdings_large hb hl, if_pos hl⟩
  · obtain ⟨pr, hpr, hon⟩ := hi.small b hb hl
    exact ⟨_, HeapInv.mem_holdings_page live hpr, hi.pages_on hpr hon⟩

theorem freepageref_eq_ok {ref : ℕ} {h' : Kheap} (hf : freepageref h ref = .ok h') :
    h' = { h with inuse := Function.update h.inuse ref false } := by
  unfold freepageref at hf
  split_ifs at hf
  exact (Except.ok.inj hf).symm

/-- **`kfree` of a live block**: the block goes back to the free list of its page, or the memory it
lies on goes back, and then no other live block lies there. -/
theorem HeapInv.kfreeHeap_cases (hi : HeapInv h live held) (hb : b ∈ live) {h' : Kheap}
    {page : Option ℕ} (hk : kfreeHeap h b.addr = .ok (h', page)) :
    (page = none ∧ HeapInv h' (freed live b) held) ∨
    ∃ va n, page = some va ∧ (va, n) ∈ h.holdings live ∧ b.pages = vpages va n ∧
      (∀ held', (∀ e ∈ held, e ≠ (va, n) → e ∈ held') → HeapInv h' (freed live b) held') ∧
      ∀ b' ∈ freed live b, b'.pages.Disjoint b.pages := by
  have hpos : b.addr ≠ 0 := by
    by_cases hl : b.Large
    · exact (Nat.pos_iff_ne_zero.mp
        (hi.owned.aligned _ (HeapInv.mem_holdings_large hb hl)).2.1)
    · obtain ⟨pr, hpr, -, -, o, -, -, haddr⟩ := hi.small b hb hl
      have := (hi.owned.aligned _ (HeapInv.mem_holdings_page live hpr)).2.1
      simp only at this
      omega
  unfold kfreeHeap at hk
  rw [if_neg hpos] at hk
  by_cases hl : b.Large
  · rw [hi.findPage_large hb hl] at hk
    simp only at hk
    split_ifs at hk
    cases hk
    refine .inr ⟨_, b.npages, rfl, HeapInv.mem_holdings_large hb hl, if_pos hl,
      fun held' => hi.removeLarge hb hl, fun b' hb' q hq hq' => ?_⟩
    obtain ⟨hlive, hne⟩ := mem_freed.mp hb'
    obtain ⟨e, he, hpages⟩ := hi.pages_held hlive
    have huniq := hi.unique he (HeapInv.mem_holdings_large hb hl) (hpages ▸ hq)
      (by rwa [KBlock.pages, if_pos hl] at hq')
    by_cases hl' : b'.Large
    · have := hi.unique (HeapInv.mem_holdings_large hlive hl') (HeapInv.mem_holdings_large hb hl)
        (by rwa [KBlock.pages, if_pos hl'] at hq) (by rwa [KBlock.pages, if_pos hl] at hq')
      exact hne (congrArg Prod.fst this)
    · obtain ⟨p, hp, hon⟩ := hi.small b' hlive hl'
      have := hi.unique (HeapInv.mem_holdings_page live hp) (HeapInv.mem_holdings_large hb hl)
        (hi.pages_on hp hon ▸ hq) (by rwa [KBlock.pages, if_pos hl] at hq')
      exact hi.large_not_on_page hb hl hp pageSize_pos (congrArg Prod.fst this).symm
  · obtain ⟨pr, hpr, hon⟩ := hi.small b hb hl
    have hpages := hi.pages_on hpr hon
    rw [hi.findPage_on hpr hon] at hk
    obtain ⟨-, -, o, ho, hnf, haddr⟩ := hon
    have hoff : b.addr - pr.page = o := by omega
    simp only [hoff] at hk
    split_ifs at hk with hmod hcount
    · obtain ⟨h₁, hf, hk⟩ := bind_eq_ok.mp hk
      cases hk
      rw [freepageref_eq_ok hf]
      refine .inr ⟨_, 1, rfl, HeapInv.mem_holdings_page live hpr, hpages,
        fun held' => hi.removePage hpr ho hnf haddr hcount, fun b' hb' q hq hq' => ?_⟩
      obtain ⟨hlive, hne⟩ := mem_freed.mp hb'
      rw [hpages] at hq'
      by_cases hl' : b'.Large
      · have := hi.unique (HeapInv.mem_holdings_large hlive hl')
          (HeapInv.mem_holdings_page live hpr) (by rwa [KBlock.pages, if_pos hl'] at hq) hq'
        exact hi.large_not_on_page hlive hl' hpr pageSize_pos (congrArg Prod.fst this)
      · obtain ⟨p, hp, hon'⟩ := hi.small b' hlive hl'
        have := hi.unique (HeapInv.mem_holdings_page live hp) (HeapInv.mem_holdings_page live hpr)
          (hi.pages_on hp hon' ▸ hq) hq'
        obtain rfl := hi.page_inj hp hpr (congrArg Prod.fst this)
        obtain ⟨-, -, o', ho', hnf', haddr'⟩ := hon'
        have := hi.only_block hpr ho hnf hcount ho' hnf'
        exact hne (by rw [haddr', haddr, this])
    · cases hk
      have hlist : (h.allbase.map fun p =>
          if p.ref = pr.ref then { p with freelist := o :: p.freelist } else p) =
          Os161.relist pr (o :: pr.freelist) h.allbase := by
        refine List.map_congr_left fun p hp => ?_
        split_ifs with hr
        · rw [List.inj_on_of_nodup_map hi.refs hp hpr hr]
        · rfl
      rw [hlist]
      exact .inl ⟨rfl, hi.put hpr ho hnf haddr⟩

/-- **`kfree`** of a live block whose memory may be given back. -/
theorem kfree_inv {σ : Type} {P : PageAlloc σ} {Inv : σ → Prop} {heldBy : σ → List (ℕ × ℕ)}
    {Fits Freeable : σ → ℕ → Prop} {s s' : σ} (hP : P.Spec Inv heldBy Fits Freeable) (hs : Inv s)
    (hi : HeapInv h live (heldBy s)) (hb : b ∈ live)
    (hfree : ∀ h' va, kfreeHeap h b.addr = .ok (h', some va) → Freeable s va) {h' : Kheap}
    (hk : kfree P b.addr h s = .ok (h', s')) : Inv s' ∧ HeapInv h' (freed live b) (heldBy s') := by
  unfold kfree at hk
  obtain ⟨⟨h₁, page⟩, hr, hk⟩ := bind_eq_ok.mp hk
  cases hk
  rcases hi.kfreeHeap_cases hb hr with ⟨rfl, hi'⟩ | ⟨va, n, rfl, hheld, -, hi', -⟩
  · exact ⟨hs, hi'⟩
  · obtain ⟨hinv, hkeep⟩ := hP.free hs (hi.owned.held _ hheld) (hfree _ va hr)
    exact ⟨hinv, hi' _ hkeep⟩

end Kfree

end Kmalloc

end Os161
