import Os161.Kmalloc.Integrity

set_option autoImplicit false

/-!
# The steps of the threads

Each step of a thread keeps the invariant of the heap, and no assertion fails in it as long as
`KSys.RootsReady` holds.

* `KInv.advance`, `KInv.grow`, `KInv.release`: a call moves on, gets a page and gives one back.
* `KInv.markSlot`, `KInv.setRoot`, `KInv.deliver`: the pageref and the fresh page of a call.
* `KInv.subpageKmalloc`, `KInv.kfree`: the sections that hold the lock.
-/

namespace Os161

open Transition

/-! ## Pages that come and go -/

namespace Owned

variable {l held : List (ℕ × ℕ)} {e e' : ℕ × ℕ}

/-- The first piece of memory shares no page with the others. -/
theorem head_apart (h : Owned (e :: l) held) (he : e' ∈ l) : ∀ q ∈ vpages e.1 e.2,
    q ∉ vpages e'.1 e'.2 := by
  intro q hq hq'
  have hnd := h.nodup
  rw [List.flatMap_cons] at hnd
  exact List.disjoint_of_nodup_append hnd hq (List.mem_flatMap.mpr ⟨e', he, hq'⟩)

/-- A piece of memory is found by its address. -/
theorem eq_of_start (h : Owned l held) (he : e ∈ l) (he' : e' ∈ l) (heq : e.1 = e'.1) : e = e' := by
  by_contra hne
  obtain ⟨l₁, l₂, rfl⟩ := List.append_of_mem he
  have h' : Owned (e :: (l₁ ++ l₂)) held := h.perm List.perm_middle.symm
  have hmem : e' ∈ l₁ ++ l₂ := by
    simp only [List.mem_append, List.mem_cons] at he' ⊢
    exact he'.imp id fun hc => hc.resolve_left fun e => hne e.symm
  refine h'.head_apart hmem e.1 (self_mem_vpages _ (h.aligned e he).2.2) ?_
  rw [heq]
  exact self_mem_vpages _ (h.aligned e' he').2.2

/-- `free_kpages` takes one piece of memory. -/
theorem filter (h : Owned l l) (va : ℕ) :
    Owned (l.filter fun e => e.1 ≠ va) (l.filter fun e => e.1 ≠ va) :=
  ⟨h.nodup.sublist (List.filter_sublist.flatMap _), fun _ he => he,
    fun e he => h.aligned e (List.mem_of_mem_filter he)⟩

/-- And it keeps the others. -/
theorem mem_filter (h : Owned l held) (he : e ∈ l) (he' : e' ∈ l) (hne : e' ≠ e) :
    e' ∈ l.filter fun e' => e'.1 ≠ e.1 :=
  List.mem_filter.mpr ⟨he', decide_eq_true fun heq => hne (h.eq_of_start he' he heq)⟩

end Owned

namespace KSys.Fresh

variable {c : KSys} {va n : ℕ}

theorem pos (hf : c.Fresh va n) : va ≠ 0 := by
  have := hf.2.1
  unfold kseg0 at this
  omega

theorem page (hf : c.Fresh va n) : va % pageSize = 0 := Nat.mod_eq_zero_of_dvd hf.1

theorem not_mem (hf : c.Fresh va n) : ∀ q ∈ vpages va n, ∀ e ∈ c.held, q ∉ vpages e.1 e.2 :=
  fun _ hq e he => not_mem_vpages_of_apart (hf.2.2.2.2 e he) hq

/-- `alloc_kpages` gives one more piece of memory. -/
theorem owned (hf : c.Fresh va n) (h : Owned c.held c.held) :
    Owned ((va, n) :: c.held) ((va, n) :: c.held) :=
  (h.mono fun _ he _ => List.mem_cons_of_mem _ he).cons List.mem_cons_self
    ⟨hf.1, Nat.pos_of_ne_zero hf.pos, hf.2.2.1⟩ hf.not_mem

end KSys.Fresh

section Heap

variable {h : Kheap} {live live' : List KBlock} {held held' : List (ℕ × ℕ)} {b : KBlock}

theorem HeapInv.perm_of_freed (hi : HeapInv h live held) (hp : live.Perm (b :: live')) :
    (freed live b).Perm live' :=
  List.perm_cons b |>.mp ((hi.perm_freed (hp.mem_iff.mpr List.mem_cons_self)).symm.trans hp)

/-- **A block of whole pages goes back.** -/
theorem HeapInv.giveBack (hi : HeapInv h live held) (hp : live.Perm (b :: live')) (hl : b.Large)
    (hsub : ∀ e ∈ held, e ≠ (b.addr, b.npages) → e ∈ held') : HeapInv h live' held' :=
  (hi.removeLarge (hp.mem_iff.mpr List.mem_cons_self) hl hsub).perm (hi.perm_of_freed hp).symm

/-- The memory of a block of whole pages is apart from the rest. -/
theorem HeapInv.holdings_not_mem (hi : HeapInv h live held) (hp : live.Perm (b :: live'))
    (hl : b.Large) {e : ℕ × ℕ} (he : e ∈ h.holdings live') :
    ∀ q ∈ vpages b.addr b.npages, q ∉ vpages e.1 e.2 := by
  have hperm : (h.holdings live).Perm ((b.addr, b.npages) :: h.holdings live') := by
    unfold Kheap.holdings
    have := (hp.filter (·.Large)).map fun b => (b.addr, b.npages)
    rw [List.filter_cons, if_pos (decide_eq_true hl), List.map_cons] at this
    refine ((this.append_left _).append_left _).trans ?_
    rw [← List.append_assoc, ← List.append_assoc]
    exact List.perm_middle
  exact (hi.owned.perm hperm.symm).head_apart he

end Heap

/-! ## Calls that move on -/

namespace KInv

variable {c : KSys} {h : Kheap} {b : KBlock} {call call' : KCall} {rest calls' : List KCall}
  {sz page i va n : ℕ}

/-- **Other calls with the same pages and pagerefs.** -/
theorem withCalls (hk : KInv c h) (calls' : List KCall)
    (hb : (calls'.flatMap KCall.blocks).Perm (c.calls.flatMap KCall.blocks))
    (hr : (calls'.filterMap KCall.pageref).Perm (c.calls.filterMap KCall.pageref))
    (he : (calls'.filterMap KCall.emptied).Perm (c.calls.filterMap KCall.emptied))
    (hok : ∀ call ∈ calls', call.Ok h) : KInv { c with calls := calls' } h :=
  { hk with
    heap := hk.heap.perm (hb.append_left _)
    refs := (hr.append_left _).nodup_iff.mpr hk.refs
    inuse := fun i => (hk.inuse i).trans (hr.append_left _).mem_iff.symm
    calls := hok
    emptied := hk.emptied.trans (he.append_left _).symm }

/-- The call that moves on comes first. -/
theorem front (hk : KInv c h) (hc : call ∈ c.calls) :
    KInv { c with calls := call :: c.calls.erase call } h := by
  have hp : (call :: c.calls.erase call).Perm c.calls := (List.perm_cons_erase hc).symm
  exact hk.withCalls _ (hp.flatMap_right _) (hp.filterMap _) (hp.filterMap _)
    fun call hc => hk.calls call (hp.mem_iff.mp hc)

/-- **A call moves on.** -/
theorem advance (hk : KInv { c with calls := call :: rest } h) (hb : call'.blocks = call.blocks)
    (hr : call'.pageref = call.pageref) (he : call'.emptied = call.emptied) (hok : call'.Ok h) :
    KInv { c with calls := call' :: rest } h := by
  refine hk.withCalls (call' :: rest) ?_ ?_ ?_ fun call hc => ?_
  · rw [List.flatMap_cons, List.flatMap_cons, hb]
  · rw [List.filterMap_cons, List.filterMap_cons, hr]
  · rw [List.filterMap_cons, List.filterMap_cons, he]
  · rcases List.mem_cons.mp hc with rfl | hc
    · exact hok
    · exact hk.calls call (List.mem_cons_of_mem _ hc)

/-- A call that holds nothing returns. -/
theorem drop (hk : KInv { c with calls := call :: rest } h) (hb : call.blocks = [])
    (hr : call.pageref = none) (he : call.emptied = none) : KInv { c with calls := rest } h := by
  refine hk.withCalls rest ?_ ?_ ?_ fun call hc => hk.calls call (List.mem_cons_of_mem _ hc)
  · rw [List.flatMap_cons, hb, List.nil_append]
  · rw [List.filterMap_cons_none hr]
  · rw [List.filterMap_cons_none he]

/-- A call begins. -/
theorem start (hk : KInv c h) (hb : call.blocks = []) (hr : call.pageref = none)
    (he : call.emptied = none) (hok : call.Ok h) : KInv { c with calls := call :: c.calls } h := by
  refine hk.withCalls (call :: c.calls) ?_ ?_ ?_ fun call' hc => ?_
  · rw [List.flatMap_cons, hb, List.nil_append]
  · rw [List.filterMap_cons_none hr]
  · rw [List.filterMap_cons_none he]
  · rcases List.mem_cons.mp hc with rfl | hc
    · exact hok
    · exact hk.calls call' hc

/-- More pages for the heap, which lie in a new block. -/
theorem heap_grow (hk : KInv c h) (hf : c.Fresh va n) (hl : b.Large) (haddr : b.addr = va)
    (hn : b.npages = n) :
    HeapInv h (b :: (c.live ++ c.calls.flatMap KCall.blocks)) ((va, n) :: c.held) := by
  subst haddr hn
  have hmono : HeapInv h _ ((b.addr, b.npages) :: c.held) :=
    hk.heap.mono fun e _ he => List.mem_cons_of_mem _ he
  exact hmono.addLarge hl List.mem_cons_self ⟨hf.1, Nat.pos_of_ne_zero hf.pos, hf.2.2.1⟩
    fun q hq e he => hf.not_mem q hq e (hk.heap.owned.held e he)

theorem top_grow (hk : KInv c h) (hf : c.Fresh va n) :
    ∀ e ∈ (va, n) :: c.held, e.1 + e.2 * pageSize ≤ kseg1 := by
  intro e he
  rcases List.mem_cons.mp he with rfl | he
  · exact hf.2.2.2.1
  · exact hk.top e he

/-- **A call gets a page.** -/
theorem grow (hk : KInv { c with calls := call :: rest } h) (hf : c.Fresh va 1)
    (hb : call'.blocks = pageBlock va :: call.blocks) (hr : call'.pageref = call.pageref)
    (he : call'.emptied = call.emptied) (hok : call'.Ok h) :
    KInv { c with
      calls := call' :: rest
      held := (va, 1) :: c.held } h := by
  have hheap := hk.heap_grow (b := pageBlock va) hf (pageBlock_large va) rfl (npages_pageBlock va)
  refine { hk with
    heap := hheap.perm ?_
    held := hf.owned hk.held
    top := hk.top_grow hf
    refs := ?_
    inuse := fun i => ?_
    calls := fun call hc => ?_
    emptied := ?_ }
  · change (c.live ++ (call' :: rest).flatMap KCall.blocks).Perm _
    rw [List.flatMap_cons, hb]
    exact List.perm_middle
  · change (_ ++ (call' :: rest).filterMap KCall.pageref).Nodup
    rw [List.filterMap_cons, hr, ← List.filterMap_cons]
    exact hk.refs
  · change _ ↔ i ∈ _ ++ (call' :: rest).filterMap KCall.pageref
    rw [List.filterMap_cons, hr, ← List.filterMap_cons]
    exact hk.inuse i
  · rcases List.mem_cons.mp hc with rfl | hc
    · exact hok
    · exact hk.calls call (List.mem_cons_of_mem _ hc)
  · change c.emptied.Perm (_ ++ (call' :: rest).filterMap KCall.emptied)
    rw [List.filterMap_cons, he, ← List.filterMap_cons]
    exact hk.emptied

/-- **A call gives a piece of memory back.** -/
theorem release (hk : KInv c h) (b : KBlock) (calls' : List KCall) {returned' : List ℕ}
    (hb : (c.calls.flatMap KCall.blocks).Perm (b :: calls'.flatMap KCall.blocks)) (hl : b.Large)
    (hr : calls'.filterMap KCall.pageref = c.calls.filterMap KCall.pageref)
    (he : c.emptied.Perm (returned' ++ calls'.filterMap KCall.emptied))
    (hok : ∀ call ∈ calls', call.Ok h) :
    KInv { c.freeKpages b.addr with
      calls := calls'
      returned := returned' } h := by
  have hp : (c.live ++ c.calls.flatMap KCall.blocks).Perm
      (b :: (c.live ++ calls'.flatMap KCall.blocks)) :=
    (hb.append_left _).trans List.perm_middle
  have hmem : (b.addr, b.npages) ∈ c.held := hk.heap.owned.held _
    (HeapInv.mem_holdings_large (hp.mem_iff.mpr List.mem_cons_self) hl)
  refine { hk with
    heap := hk.heap.giveBack hp hl fun e he hne => hk.held.mem_filter hmem he hne
    held := hk.held.filter b.addr
    top := fun e he => hk.top e (List.mem_of_mem_filter he)
    refs := ?_
    inuse := fun i => ?_
    calls := hok
    emptied := he }
  · change (_ ++ calls'.filterMap KCall.pageref).Nodup
    rw [hr]
    exact hk.refs
  · change _ ↔ i ∈ _ ++ calls'.filterMap KCall.pageref
    rw [hr]
    exact hk.inuse i

/-! ## The pageref and the page of a call -/

theorem ok_mark (hok : call.Ok h) (i : ℕ) :
    call.Ok { h with inuse := Function.update h.inuse i true } := by
  cases call <;> exact hok

/-- A root that gets a page keeps what is known of the calls. -/
theorem ok_setRefPage (hok : call.Ok h) (r : ℕ) (hva : va ≠ 0) :
    call.Ok { h with refPage := Function.update h.refPage r va } := by
  have hne : ∀ r', h.refPage r' ≠ 0 → Function.update h.refPage r va r' ≠ 0 := by
    intro r' h0
    rw [Function.update_apply]
    split_ifs
    · exact hva
    · exact h0
  cases call with
  | oops | oopsDone => exact ⟨hok.1, hne _ hok.2⟩
  | allocPage | gotPage | allocRefs | gotRefs | noRef | freeEmpty | freeLarge => exact hok

/-- **`allocpageref`** marks a pageref for a call. -/
theorem markSlot (hk : KInv { c with calls := call :: rest } h) (hs : c.heap.freeSlot = some i)
    (call' : KCall) (hr : call.pageref = none) (hb : call'.blocks = call.blocks) (hr' : call'.pageref = some i)
    (he : call'.emptied = call.emptied) (hok : call'.Ok h) :
    KInv { c with
      heap := c.heap.mark i
      calls := call' :: rest } { h with inuse := Function.update h.inuse i true } := by
  obtain ⟨hroot, hfree⟩ := KernHeap.freeSlot_some hs
  have hfree' : h.inuse i = false := by
    rw [← hk.threaded.inuse]
    exact hfree
  have hrefs := hk.refs
  have hinuse := hk.inuse
  simp only [List.filterMap_cons_none hr] at hrefs hinuse
  have hnew : i ∉ h.allbase.map Pageref.ref ++ rest.filterMap KCall.pageref := fun hm => by
    rw [(hinuse i).mpr hm] at hfree'
    cases hfree'
  have hperm : (h.allbase.map Pageref.ref ++ (call' :: rest).filterMap KCall.pageref).Perm
      (i :: (h.allbase.map Pageref.ref ++ rest.filterMap KCall.pageref)) := by
    rw [List.filterMap_cons_some hr']
    exact List.perm_middle
  refine { hk with
    threaded := hk.threaded.mark hfree
    heap := (hk.heap.setInuse i).perm ?_
    refs := hperm.nodup_iff.mpr (List.nodup_cons.mpr ⟨hnew, hrefs⟩)
    inuse := fun j => ?_
    root := fun j hj => ?_
    calls := fun call hc => ?_
    emptied := ?_ }
  · change (_ ++ (call' :: rest).flatMap KCall.blocks).Perm _
    rw [List.flatMap_cons, hb, ← List.flatMap_cons]
  · refine Iff.trans ?_ hperm.mem_iff.symm
    rw [List.mem_cons, ← hinuse]
    change Function.update h.inuse i true j = true ↔ _
    rw [Function.update_apply]
    split_ifs with heq <;> simp [heq]
  · change Function.update h.inuse i true j = true at hj
    by_cases heq : j = i
    · exact heq ▸ hroot
    · rw [Function.update_of_ne heq] at hj
      exact hk.root j hj
  · rcases List.mem_cons.mp hc with rfl | hc
    · exact ok_mark hok i
    · exact ok_mark (hk.calls call (List.mem_cons_of_mem _ hc)) i
  · change c.emptied.Perm (_ ++ (call' :: rest).filterMap KCall.emptied)
    rw [List.filterMap_cons, he, ← List.filterMap_cons]
    exact hk.emptied

/-- **`allocpagerefpage`** gives a root its page. -/
theorem setRoot (hk : KInv { c with calls := .gotRefs sz page i va :: rest } h)
    (h0 : c.heap.refPage (i / npagerefsPerPage) = 0) :
    KInv { c with
      heap := { c.heap with
        refPage := Function.update c.heap.refPage (i / npagerefsPerPage) va }
      calls := .oopsDone sz page i :: rest }
      { h with refPage := Function.update h.refPage (i / npagerefsPerPage) va } := by
  obtain ⟨hmem, -⟩ := hk.call_page List.mem_cons_self (List.mem_cons_self ..)
  obtain ⟨hdvd, hpos, -⟩ := hk.heap.owned.aligned _ hmem
  have hperm : (c.live ++ (KCall.gotRefs sz page i va :: rest).flatMap KCall.blocks).Perm
      (pageBlock va :: (c.live ++ (KCall.oopsDone sz page i :: rest).flatMap KCall.blocks)) :=
    List.perm_middle
  have hback := hk.heap.giveBack hperm (pageBlock_large va) fun e he _ => he
  have hinuse : h.inuse i = true := (hk.inuse i).mpr
    (List.mem_append_right _ (List.mem_filterMap.mpr ⟨_, List.mem_cons_self, rfl⟩))
  have h0' : h.refPage (i / npagerefsPerPage) = 0 := by
    rw [← hk.threaded.refPage]
    exact h0
  refine { hk with
    threaded := hk.threaded.setRefPage _ va
    heap := hback.setRefPage (hk.root i hinuse) h0' (hk.heap.owned.held _ hmem) ⟨hdvd, hpos⟩ ?_
    page := fun pr hpr => ?_
    calls := fun call hc => ?_ }
  · intro e he
    have := hk.heap.holdings_not_mem hperm (pageBlock_large va) he va
    rw [npages_pageBlock] at this
    exact this (mem_vpages_one.mpr rfl)
  · change Function.update h.refPage _ va _ ≠ 0
    rw [Function.update_apply]
    split_ifs
    · exact hpos.ne'
    · exact hk.page pr hpr
  · rcases List.mem_cons.mp hc with rfl | hc
    · refine ⟨hk.calls _ List.mem_cons_self, ?_⟩
      change Function.update h.refPage _ va _ ≠ 0
      rw [Function.update_self]
      exact hpos.ne'
    · exact ok_setRefPage (hk.calls call (List.mem_cons_of_mem _ hc)) _ hpos.ne'

/-- A size that takes a heap page. -/
theorem small_size (hsz : sz < largestSubpageSize) : sz + pageSize ≤ wordSize := by
  unfold largestSubpageSize at hsz
  unfold pageSize wordSize
  omega

/-- **The first free block of a heap page becomes live.** -/
theorem take (hk : KInv c h) {pr : Pageref} {o : ℕ} {fl : List ℕ} (hpr : pr ∈ h.allbase)
    (hfl : pr.freelist = o :: fl) (hsz : sz < largestSubpageSize)
    (htype : pr.blktype = blocktype sz) :
    ∃ c', c.heap.doalloc pr.ref = .ok (pr.page + o, c') ∧
      KSys.Sound { c with
        heap := c'
        live := ⟨pr.page + o, sz⟩ :: c.live } := by
  have htop := hk.top _ (hk.heap.owned.held _ (HeapInv.mem_holdings_page _ hpr))
  obtain ⟨c', hdo, -, hthread⟩ := hk.threaded.doalloc hk.heap hpr hfl (by simpa using htop)
  have hrefs : (relist pr fl h.allbase).map Pageref.ref = h.allbase.map Pageref.ref :=
    Threaded.map_ref_relist pr fl h.allbase
  refine ⟨c', hdo, _, { hk with
    threaded := hthread
    heap := (hk.heap.takeFrom hpr hfl hsz htype).2
    refs := ?_
    inuse := fun i => ?_
    page := fun p hp => ?_
    size := fun b hb => ?_ }⟩
  · change ((relist pr fl h.allbase).map Pageref.ref ++ _).Nodup
    rw [hrefs]
    exact hk.refs
  · change _ ↔ i ∈ (relist pr fl h.allbase).map Pageref.ref ++ _
    rw [hrefs]
    exact hk.inuse i
  · rcases (mem_relist hk.heap hpr).mp hp with rfl | ⟨hp, -⟩
    · exact hk.page pr hpr
    · exact hk.page p hp
  · rcases List.mem_cons.mp hb with rfl | hb
    · exact small_size hsz
    · exact hk.size b hb

/-- **The fresh page of a call** joins the heap. -/
theorem addPage (hk : KInv { c with calls := .oopsDone sz page i :: c.calls } h) :
    KInv { c with heap := c.heap.initPage i page (blocktype sz) }
      { h with allbase := ⟨i, page, blocktype sz, freshList (blocktype sz)⟩ :: h.allbase } := by
  obtain ⟨hsz, hroot⟩ := hk.calls _ List.mem_cons_self
  obtain ⟨hmem, hnew⟩ := hk.call_page List.mem_cons_self (List.mem_cons_self ..)
  obtain ⟨hdvd, hpos, -⟩ := hk.heap.owned.aligned _ hmem
  have hperm : (c.live ++ (KCall.oopsDone sz page i :: c.calls).flatMap KCall.blocks).Perm
      (pageBlock page :: (c.live ++ c.calls.flatMap KCall.blocks)) := List.perm_middle
  have hback := hk.heap.giveBack hperm (pageBlock_large page) fun e he _ => he
  have hrefperm : (h.allbase.map Pageref.ref ++
      (KCall.oopsDone sz page i :: c.calls).filterMap KCall.pageref).Perm
      (i :: h.allbase.map Pageref.ref ++ c.calls.filterMap KCall.pageref) := List.perm_middle
  have hnd := hrefperm.nodup_iff.mp hk.refs
  have href : i ∉ h.allbase.map Pageref.ref := fun hm =>
    (List.nodup_cons.mp hnd.of_append_left).1 hm
  have hinuse : h.inuse i = true := (hk.inuse i).mpr (hrefperm.mem_iff.mpr List.mem_cons_self)
  refine { hk with
    threaded := hk.threaded.initPage hback href (blocktype_lt hsz) ⟨hdvd, hpos⟩ hnew
    heap := hback.addPage href hinuse (blocktype_lt hsz) (hk.heap.owned.held _ hmem) ⟨hdvd, hpos⟩ ?_
    refs := hnd
    inuse := fun j => (hk.inuse j).trans hrefperm.mem_iff
    page := fun pr hpr => ?_
    calls := fun call hc => ?_ }
  · intro e he
    have := hk.heap.holdings_not_mem hperm (pageBlock_large page) he page
    rw [npages_pageBlock] at this
    exact this (mem_vpages_one.mpr rfl)
  · rcases List.mem_cons.mp hpr with rfl | hpr
    · exact hroot
    · exact hk.page pr hpr
  · have hok := hk.calls call (List.mem_cons_of_mem _ hc)
    cases call <;> exact hok

/-- **The end of a `subpage_kmalloc`** that got its page and its pageref. -/
theorem deliver (hk : KInv { c with calls := .oopsDone sz page i :: c.calls } h) :
    Safe KSys.Sound (c.deliver sz page i) := by
  obtain ⟨hsz, -⟩ := hk.calls _ List.mem_cons_self
  have ht := blocktype_lt hsz
  have hne : freshList (blocktype sz) ≠ [] := fun hn => by
    have := Threaded.length_freshList (blocktype sz)
    rw [hn] at this
    exact (blocksPerPage_pos ht).ne this
  obtain ⟨o, fl, hfl⟩ := List.exists_cons_of_ne_nil hne
  obtain ⟨c', hdo, hsound⟩ := hk.addPage.take List.mem_cons_self hfl hsz rfl
  unfold KSys.deliver
  rw [show (c.heap.initPage i page (blocktype sz)).doalloc i = .ok (page + o, c') from hdo]
  exact hsound

/-! ## The sections that hold the lock -/

/-- **`subpage_kmalloc`** up to its release of the lock. -/
theorem subpageKmalloc (hk : KInv c h) (hsz : sz < largestSubpageSize) :
    Safe KSys.Sound (c.subpageKmalloc sz) := by
  unfold KSys.subpageKmalloc
  rw [hk.threaded.sizebases, hk.threaded.findFree fun pr hpr => by simpa using hpr]
  rcases hfind : (h.allbase.filter fun pr => pr.blktype = blocktype sz).find?
      fun pr => 0 < pr.freelist.length with _ | pr
  · rw [hfind]
    exact (show KSys.Sound _ from ⟨h, hk.start rfl rfl rfl hsz⟩)
  · obtain ⟨hpr, htype⟩ := List.mem_filter.mp (List.mem_of_find?_eq_some hfind)
    have hfree := List.find?_some hfind
    obtain ⟨o, fl, hfl⟩ := List.exists_cons_of_length_pos (of_decide_eq_true hfree)
    obtain ⟨c', hdo, hsound⟩ := hk.take hpr hfl hsz (of_decide_eq_true htype)
    rw [hfind]
    change Safe _ (c.heap.doalloc pr.ref >>= _)
    rw [hdo]
    exact hsound

/-- **`kmalloc`** of whole pages. -/
theorem kmallocLarge (hk : KInv c h) (hl : largestSubpageSize ≤ sz)
    (hsz : sz + pageSize ≤ wordSize) : Safe KSys.Sound (c.kmallocLarge sz va) := by
  unfold KSys.kmallocLarge
  split_ifs
  · exact ⟨h, hk⟩
  · refine Safe.require_bind fun hf => ?_
    rw [kassert_bind hf.page]
    refine ⟨h, { hk with
      heap := hk.heap_grow (b := ⟨va, sz⟩) hf hl rfl rfl
      held := hf.owned hk.held
      top := hk.top_grow hf
      size := fun b hb => ?_ }⟩
    rcases List.mem_cons.mp hb with rfl | hb
    · exact hsz
    · exact hk.size b hb

section Kfree

variable {pr : Pageref} {o : ℕ}

/-- A block that is freed is not one of those that the calls hold. -/
theorem freed_append (hk : KInv c h) (hb : b ∈ c.live) :
    freed (c.live ++ c.calls.flatMap KCall.blocks) b =
      freed c.live b ++ c.calls.flatMap KCall.blocks := by
  have haddrs := hk.heap.addrs
  rw [List.map_append] at haddrs
  unfold freed
  rw [List.filter_append]
  congr 1
  refine List.filter_eq_self.mpr fun g hg => decide_eq_true fun he => ?_
  exact List.disjoint_of_nodup_append haddrs (List.mem_map_of_mem hb)
    (he ▸ List.mem_map_of_mem hg)

theorem size_freed (hk : KInv c h) : ∀ b' ∈ freed c.live b, b'.size + pageSize ≤ wordSize :=
  fun b' hb' => hk.size b' (mem_freed.mp hb').1

/-- The page search of `kfree`. -/
theorem findRef (hk : KInv c h) (ptr : ℕ) :
    c.heap.findRef ptr (h.allbase.map Pageref.ref) = .ok ((findPage h ptr).map Pageref.ref) :=
  hk.threaded.findRef fun pr hpr => ⟨hpr, hk.heap.type pr hpr⟩

/-- **`kfree`** of a block of whole pages leaves the heap as it is. -/
theorem kfree_large (hk : KInv c h) (hb : b ∈ c.live) (hl : b.Large) :
    Safe KSys.Sound (c.kfree b) := by
  have hmem := List.mem_append_left (c.calls.flatMap KCall.blocks) hb
  have hfind := hk.findRef b.addr
  unfold KSys.kfree KernHeap.subpageKfree
  rw [hk.threaded.allbase, hfind, hk.heap.findPage_large hmem hl]
  have hperm : (freed c.live b ++ (KCall.freeLarge b :: c.calls).flatMap KCall.blocks).Perm
      (c.live ++ c.calls.flatMap KCall.blocks) := by
    refine List.Perm.trans ?_ (hk.heap.perm_freed hmem).symm
    rw [hk.freed_append hb]
    exact List.perm_middle
  refine (show KSys.Sound _ from ⟨h, { hk with
    heap := hk.heap.perm hperm
    calls := fun call hc => ?_
    size := hk.size_freed }⟩)
  rcases List.mem_cons.mp hc with rfl | hc
  · exact hl
  · exact hk.calls call hc

/-- A block of a heap page on its way to the free list: the search, the check and the push. -/
theorem kfree_push (hk : KInv c h) (hb : b ∈ c.live) (hpr : pr ∈ h.allbase)
    (hon : b.On pr) :
    ∃ o c', o ∈ offsets pr.blktype ∧ o ∉ pr.freelist ∧ b.addr = pr.page + o ∧
      c'.refPage = c.heap.refPage ∧ c'.inuse = c.heap.inuse ∧
      Threaded c' { h with allbase := relist pr (o :: pr.freelist) h.allbase } ∧
      c.heap.subpageKfree b.addr =
        (if pr.freelist.length + 1 = blocksPerPage pr.blktype then do
          let h₂ ← (c'.removeLists pr.ref pr.blktype).freepageref pr.ref
          return (.emptied pr.page, h₂)
        else return (.kept, c')) := by
  have hmem := List.mem_append_left (c.calls.flatMap KCall.blocks) hb
  have hfind := hk.findRef b.addr
  have hsome := hk.heap.findPage_on hpr hon
  obtain ⟨-, -, o, ho, hnf, haddr⟩ := hon
  obtain ⟨c', hpush, hroot, hrec, hthread⟩ := hk.threaded.pushFree hk.heap hpr ho hnf
  refine ⟨o, c', ho, hnf, haddr, hroot, hthread.inuse.trans hk.threaded.inuse.symm, hthread, ?_⟩
  have hoff : b.addr - pr.record.pageaddr = o := by
    change b.addr - pr.page = o
    omega
  have hmod : o % blockSize pr.record.blktype = 0 := by
    obtain ⟨j, -, rfl⟩ := mem_offsets.mp ho
    exact Nat.mul_mod_left _ _
  unfold KernHeap.subpageKfree
  rw [hk.threaded.allbase, hfind, hsome]
  change (if (b.addr - (c.heap.refs pr.ref).pageaddr) % blockSize (c.heap.refs pr.ref).blktype ≠ 0
    then _ else c.heap.pushFree pr.ref (b.addr - (c.heap.refs pr.ref).pageaddr) >>= _) = _
  rw [hk.threaded.refs pr hpr, hoff, if_neg (not_not.mpr hmod), hpush]
  change (if (c'.refs pr.ref).nfree = _ then _ else _) = _
  rw [hrec]
  rfl

/-- **`kfree`** of a block whose page keeps other blocks. -/
theorem kfree_kept (hk : KInv c h) (hb : b ∈ c.live) (hpr : pr ∈ h.allbase) (hon : b.On pr)
    (hcount : pr.freelist.length + 1 ≠ blocksPerPage pr.blktype) :
    Safe KSys.Sound (c.kfree b) := by
  obtain ⟨o, c', ho, hnf, haddr, -, -, hthread, hkfree⟩ := hk.kfree_push hb hpr hon
  have hput := hk.heap.put hpr ho hnf haddr
  rw [hk.freed_append hb] at hput
  have hrefs : (relist pr (o :: pr.freelist) h.allbase).map Pageref.ref =
      h.allbase.map Pageref.ref := Threaded.map_ref_relist pr _ h.allbase
  unfold KSys.kfree
  rw [hkfree, if_neg hcount]
  refine (show KSys.Sound _ from ⟨_, { hk with
    threaded := hthread
    heap := hput
    refs := ?_
    inuse := fun i => ?_
    page := fun p hp => ?_
    size := hk.size_freed }⟩)
  · change ((relist pr (o :: pr.freelist) h.allbase).map Pageref.ref ++ _).Nodup
    rw [hrefs]
    exact hk.refs
  · change _ ↔ i ∈ (relist pr (o :: pr.freelist) h.allbase).map Pageref.ref ++ _
    rw [hrefs]
    exact hk.inuse i
  · rcases (mem_relist hk.heap hpr).mp hp with rfl | ⟨hp, -⟩
    · exact hk.page pr hpr
    · exact hk.page p hp

/-- **`kfree`** of the last block of a page, when the earlier roots are ready. -/
theorem kfree_emptied (hk : KInv c h) (hb : b ∈ c.live) (hpr : pr ∈ h.allbase) (hon : b.On pr)
    (hcount : pr.freelist.length + 1 = blocksPerPage pr.blktype)
    (hready : ∀ r < pr.ref / npagerefsPerPage, c.heap.refPage r = 0 → c.heap.numinuse r = 0) :
    Safe KSys.Sound (c.kfree b) := by
  obtain ⟨o, c₁, ho, hnf, haddr, hroot, hbits, hthread, hkfree⟩ := hk.kfree_push hb hpr hon
  have hput := hk.heap.put hpr ho hnf haddr
  have hlt := lt_pageSize_of_mem_offsets (hk.heap.type pr hpr) ho
  have hmem := HeapInv.mem_holdings_page (c.live ++ c.calls.flatMap KCall.blocks) hpr
  obtain ⟨hdvd, hpos, -⟩ := hk.heap.owned.aligned _ hmem
  have hinuse := hk.heap.inuse pr hpr
  obtain ⟨c₂, hremove, -, hthread₂⟩ := hthread.remove hput
    ((mem_relist hk.heap hpr).mpr (.inl rfl)) (hk.root _ hinuse) (by
      rw [hroot, hk.threaded.refPage]
      exact hk.page pr hpr) fun r hr h0 => by
      rw [hthread.numinuse, hbits, ← hk.threaded.numinuse]
      exact hready r hr (hroot ▸ h0)
  simp only [Threaded.eraseP_relist hk.heap pr] at hthread₂
  have hback : HeapInv _ _ c.held :=
    hk.heap.removePage hpr ho hnf haddr hcount fun e he _ => he
  have hperm := hk.heap.holdings_removePage hpr hlt haddr
  have hgrow := hback.addLarge (pageBlock_large pr.page)
    (by rw [npages_pageBlock]; exact hk.heap.owned.held _ hmem)
    ⟨hdvd, hpos, by rw [npages_pageBlock]⟩ fun q hq e he => by
      rw [npages_pageBlock] at hq
      exact (hk.heap.owned.perm hperm.symm).head_apart he q hq
  rw [hk.freed_append hb] at hgrow
  have hrefperm := ((hk.heap.perm_eraseP hpr).map Pageref.ref).append_right
    (c.calls.filterMap KCall.pageref)
  have hnd := List.nodup_cons.mp (hrefperm.nodup_iff.mp hk.refs)
  unfold KSys.kfree
  rw [hkfree, if_pos hcount, hremove]
  refine (show KSys.Sound _ from ⟨_, { hk with
    threaded := hthread₂
    heap := hgrow.perm List.perm_middle
    refs := hnd.2
    inuse := fun i => ?_
    root := fun i hi => ?_
    page := fun p hp => hk.page p (List.mem_of_mem_eraseP hp)
    calls := fun call hc => ?_
    size := hk.size_freed
    emptied := (hk.emptied.cons pr.page).trans List.perm_middle.symm }⟩)
  · change Function.update h.inuse pr.ref false i = true ↔ _
    by_cases he : i = pr.ref
    · subst he
      rw [Function.update_self]
      exact ⟨Bool.noConfusion, fun hm => absurd hm hnd.1⟩
    · rw [Function.update_of_ne he, hk.inuse, hrefperm.mem_iff]
      exact List.mem_cons.trans (or_iff_right he)
  · change Function.update h.inuse pr.ref false i = true at hi
    by_cases he : i = pr.ref
    · subst he
      rw [Function.update_self] at hi
      cases hi
    · rw [Function.update_of_ne he] at hi
      exact hk.root i hi
  · rcases List.mem_cons.mp hc with rfl | hc
    · trivial
    · have hok := hk.calls call hc
      cases call <;> exact hok

/-- **`kfree`** up to its release of the lock. -/
theorem kfree (hk : KInv c h) (hb : b ∈ c.live) (hready : c.RootsReady (.kfree b)) :
    Safe KSys.Sound (c.kfree b) := by
  rcases hk.heap.live_cases (List.mem_append_left _ hb) with ⟨pr, hpr, hon⟩ | ⟨hl, -⟩
  · by_cases hcount : pr.freelist.length + 1 = blocksPerPage pr.blktype
    · refine hk.kfree_emptied hb hpr hon hcount ?_
      have hrec := hk.threaded.refs pr hpr
      have hlt : ∃ o < pageSize, b.addr = pr.page + o := by
        obtain ⟨-, -, o, ho, -, haddr⟩ := hon
        exact ⟨o, lt_pageSize_of_mem_offsets (hk.heap.type pr hpr) ho, haddr⟩
      obtain ⟨o, ho, haddr⟩ := hlt
      refine hready pr.ref (hk.mem_allbase.mpr ⟨pr, hpr, rfl⟩) ?_ ?_ ?_
      · rw [hrec, haddr]
        exact Nat.le_add_right _ _
      · rw [hrec, haddr]
        exact Nat.add_lt_add_left ho _
      · rw [hrec]
        exact hcount
    · exact hk.kfree_kept hb hpr hon hcount
  · exact hk.kfree_large hb hl

end Kfree

/-- **A write inside a live block** touches neither a free list nor a pageref. -/
theorem write (hk : KInv c h) (hb : b ∈ c.live) (mem : ℕ → ℕ) (refs : ℕ → PagerefRec) :
    KInv { c with heap := c.heap.write b.addr b.len mem refs } h := by
  have hmem := List.mem_append_left (c.calls.flatMap KCall.blocks) hb
  refine { hk with threaded := hk.threaded.write mem refs (fun pr hpr o ho => ?_) fun pr hpr => ?_ }
  · have := hk.heap.free_apart hmem hpr ho
    have := blockSize_pos (hk.heap.type pr hpr)
    omega
  · have := hk.heap.ref_apart hmem (hk.root _ (hk.heap.inuse pr hpr)) (hk.page pr hpr)
    have := mod_lt_npagerefs pr.ref
    unfold KernHeap.refAddr
    rw [hk.threaded.refPage]
    unfold npagerefsPerPage at *
    unfold pageSize at *
    omega

/-! ## The steps of calls in progress -/

/-- **A call goes on.** -/
theorem resume (hk : KInv c h) (hc : call ∈ c.calls) : Safe KSys.Sound (c.resume call) := by
  have hfront := hk.front hc
  have hok := hk.calls call hc
  cases call with
  | allocPage | allocRefs => trivial
  | gotPage sz page =>
    unfold KSys.resume
    simp only
    cases hs : c.heap.freeSlot with
    | none => exact ⟨h, hfront.advance rfl rfl rfl trivial⟩
    | some i =>
      simp only
      split_ifs with h0
      · exact ⟨_, hfront.markSlot hs _ rfl rfl rfl rfl hok⟩
      · refine (hfront.markSlot hs (.oopsDone sz page i) rfl rfl rfl rfl ⟨hok, ?_⟩).deliver
        rw [← hk.threaded.refPage]
        exact h0
  | gotRefs sz page i va =>
    unfold KSys.resume
    simp only
    split_ifs with h0
    · refine ⟨h, hfront.advance rfl rfl rfl ⟨hok, ?_⟩⟩
      rw [← hk.threaded.refPage]
      exact h0
    · exact (hfront.setRoot (not_not.mp h0)).deliver
  | oops sz page i va =>
    refine ⟨h, hfront.release (pageBlock va) (.oopsDone sz page i :: _) ?_
      (pageBlock_large va) rfl hfront.emptied fun call hc => ?_⟩
    · exact .refl _
    · rcases List.mem_cons.mp hc with rfl | hc
      · exact hok
      · exact hk.calls call (List.mem_of_mem_erase hc)
  | oopsDone sz page i =>
    unfold KSys.resume
    simp only
    rw [kassert_bind (by rw [hk.threaded.refPage]; exact hok.2)]
    exact hfront.deliver
  | noRef page =>
    exact ⟨h, hfront.release (pageBlock page) _ (.refl _) (pageBlock_large page) rfl
      hfront.emptied fun call hc => hk.calls call (List.mem_of_mem_erase hc)⟩
  | freeEmpty page =>
    exact ⟨h, hfront.release (pageBlock page) _ (.refl _) (pageBlock_large page) rfl
      (hfront.emptied.trans List.perm_middle) fun call hc => hk.calls call (List.mem_of_mem_erase hc)⟩
  | freeLarge b =>
    have hdvd : pageSize ∣ b.addr := (hk.heap.owned.aligned _ (HeapInv.mem_holdings_large
      (List.mem_append_right _ (List.mem_flatMap.mpr ⟨_, hc, List.mem_singleton_self b⟩)) hok)).1
    unfold KSys.resume
    simp only
    rw [kassert_bind (Nat.mod_eq_zero_of_dvd hdvd)]
    exact ⟨h, hfront.release b _ (.refl _) hok rfl hfront.emptied
      fun call hc => hk.calls call (List.mem_of_mem_erase hc)⟩

/-- **`alloc_kpages`** returns to a call. -/
theorem allocKpages (hk : KInv c h) (hc : call ∈ c.calls) :
    Safe KSys.Sound (c.allocKpages call va) := by
  have hfront := hk.front hc
  have hok := hk.calls call hc
  unfold KSys.allocKpages
  cases call with
  | allocPage sz =>
    simp only
    split_ifs
    · exact ⟨h, hfront.drop rfl rfl rfl⟩
    · refine Safe.require_bind fun hf => ?_
      rw [kassert_bind hf.page]
      exact ⟨h, hfront.grow hf rfl rfl rfl hok⟩
  | allocRefs sz page i =>
    refine Safe.require_bind fun hf => ?_
    rw [kassert_bind hf.page]
    exact ⟨h, hfront.grow hf rfl rfl rfl hok⟩
  | gotPage | gotRefs | oops | oopsDone | noRef | freeEmpty | freeLarge => trivial

end KInv

/-- **One step.** -/
theorem kstep_safe (c : KSys) (a : KAction) (hc : c.Sound) (hready : c.RootsReady a) :
    Safe KSys.Sound (kstep c a) := by
  obtain ⟨h, hk⟩ := hc
  cases a with
  | kmalloc sz => exact Safe.require_bind fun hsz => hk.subpageKmalloc hsz
  | kmallocLarge sz va => exact Safe.require_bind fun hsz => hk.kmallocLarge hsz.1 hsz.2
  | allocKpages call va => exact Safe.require_bind fun hc => hk.allocKpages hc
  | resume call => exact Safe.require_bind fun hc => hk.resume hc
  | kfree b => exact Safe.require_bind fun hb => hk.kfree hb hready
  | write b mem refs => exact Safe.require_bind fun hb => ⟨h, hk.write hb mem refs⟩

/-- **In every run whose steps find the earlier roots ready, no assertion fails and the integrity of
the heap holds.** -/
theorem heapSound {as : List KAction} (hready : Along kstep KSys.RootsReady .init as) :
    HeapSound as := by
  have hrun := Safe.run kstep_safe KSys.sound_init hready
  exact hrun.mono fun c ⟨_, hk⟩ => hk.integrity

/-- One block from start to end: the page, the page of pagerefs, the block, and both frees. -/
def oneBlock : List KAction :=
  [.kmalloc 100, .allocKpages (.allocPage 100) kseg0, .resume (.gotPage 100 kseg0),
    .allocKpages (.allocRefs 100 kseg0 0) (kseg0 + pageSize),
    .resume (.gotRefs 100 kseg0 0 (kseg0 + pageSize)), .kfree ⟨kseg0 + 3968, 100⟩,
    .resume (.freeEmpty kseg0)]

theorem heapSound_oneBlock : HeapSound oneBlock := heapSound (by decide +kernel)

/-! ## More threads than a root has pagerefs -/

/-- The page of the `j`-th thread. -/
def crowdPage (j : ℕ) : ℕ := kseg0 + j * pageSize

/-- `k` threads that wait for the page of the first root, one after the other. -/
def crowd : ℕ → List KAction
  | 0 => []
  | k + 1 => crowd k ++ [.kmalloc 16, .allocKpages (.allocPage 16) (crowdPage k),
      .resume (.gotPage 16 (crowdPage k))]

/-- The state when `k` threads wait. -/
def crowded (k : ℕ) : KSys where
  heap := { KernHeap.init with
    inuse := fun i => decide (i < k)
    numinuse := Function.update (fun _ => 0) 0 k }
  calls := (List.range k).reverse.map fun j => .allocRefs 16 (crowdPage j) j
  live := []
  held := (List.range k).reverse.map fun j => (crowdPage j, 1)
  emptied := []
  returned := []

theorem crowded_fresh {k : ℕ} (hk : k < npagerefsPerPage) (calls : List KCall) :
    KSys.Fresh { crowded k with calls := calls } (crowdPage k) 1 := by
  unfold npagerefsPerPage at hk
  refine ⟨?_, Nat.le_add_right _ _, le_refl _, ?_, fun e he => .inr ?_⟩
  · unfold crowdPage pageSize kseg0
    omega
  · unfold crowdPage pageSize kseg0 kseg1
    omega
  · obtain ⟨j, hj, rfl⟩ := List.mem_map.mp he
    have := List.mem_range.mp (List.mem_reverse.mp hj)
    unfold crowdPage pageSize
    simp only
    omega

theorem crowded_freeSlot {k : ℕ} (hk : k < npagerefsPerPage) : (crowded k).heap.freeSlot = some k := by
  have hslot : (crowded k).heap.rootSlot 0 = some k := by
    unfold KernHeap.rootSlot
    rw [if_neg (by simpa [crowded] using hk)]
    refine Loop.firstIdx_eq_some.mpr ⟨by omega, by omega, ?_, fun j _ hj => ?_⟩
    · simp [crowded]
    · simpa [crowded] using hj
  unfold KernHeap.freeSlot
  rw [show List.range numPagerefpages = 0 :: List.range' 1 15 by decide, List.findSome?_cons, hslot]

theorem crowded_mark {k : ℕ} (hk : k < npagerefsPerPage) :
    (crowded k).heap.mark k = (crowded (k + 1)).heap := by
  have h0 : k / npagerefsPerPage = 0 := Nat.div_eq_of_lt hk
  unfold KernHeap.mark crowded
  simp only [h0, Function.update_self, Function.update_idem]
  congr 1
  funext i
  rw [Function.update_apply]
  split_ifs with he
  · simp [he]
  · simp only [decide_eq_decide]
    omega

/-- One more thread waits. -/
theorem run_crowded {k : ℕ} (hk : k < npagerefsPerPage) :
    run kstep (crowded k) [.kmalloc 16, .allocKpages (.allocPage 16) (crowdPage k),
      .resume (.gotPage 16 (crowdPage k))] = .ok (crowded (k + 1)) := by
  have hfresh := crowded_fresh hk (.allocPage 16 :: (crowded k).calls)
  have halloc : kstep { crowded k with calls := .allocPage 16 :: (crowded k).calls }
      (.allocKpages (.allocPage 16) (crowdPage k)) = .ok { crowded k with
        calls := .gotPage 16 (crowdPage k) :: (crowded k).calls
        held := (crowdPage k, 1) :: (crowded k).held } := by
    refine (require_bind List.mem_cons_self).trans ((if_neg hfresh.pos).trans
      ((require_bind hfresh).trans ((kassert_bind hfresh.page).trans ?_)))
    unfold KSys.move
    simp only [List.erase_cons_head]
    rfl
  have hresume : kstep { crowded k with
      calls := .gotPage 16 (crowdPage k) :: (crowded k).calls
      held := (crowdPage k, 1) :: (crowded k).held } (.resume (.gotPage 16 (crowdPage k))) =
      .ok (crowded (k + 1)) := by
    refine (require_bind List.mem_cons_self).trans ?_
    unfold KSys.resume
    simp only [crowded_freeSlot hk]
    rw [if_pos (show (crowded k).heap.refPage _ = 0 from rfl), crowded_mark hk]
    unfold KSys.move
    simp only [List.erase_cons_head]
    unfold crowded
    simp only [List.range_succ, List.reverse_append, List.reverse_singleton, List.singleton_append,
      List.map_cons]
  have hstart : kstep (crowded k) (.kmalloc 16) =
      .ok { crowded k with calls := .allocPage 16 :: (crowded k).calls } := rfl
  rw [run_cons, hstart]
  change run kstep _ (_ :: _) = _
  rw [run_cons, halloc]
  change run kstep _ (_ :: _) = _
  rw [run_cons, hresume]
  rfl

theorem run_crowd {k : ℕ} (hk : k ≤ npagerefsPerPage) :
    run kstep .init (crowd k) = .ok (crowded k) := by
  induction k with
  | zero =>
    have hinit : KSys.init = crowded 0 := by
      unfold KSys.init crowded KernHeap.init
      simp
    rw [hinit]
    rfl
  | succ k ih =>
    rw [crowd, run_append_of_ok kstep _ (ih (by omega))]
    exact run_crowded hk

/-- The thread after them: its pageref is on the page of the second root, and it frees its block. -/
def lateThread : List KAction :=
  [.kmalloc 16, .allocKpages (.allocPage 16) (crowdPage 256), .resume (.gotPage 16 (crowdPage 256)),
    .allocKpages (.allocRefs 16 (crowdPage 256) 256) (crowdPage 257),
    .resume (.gotRefs 16 (crowdPage 256) 256 (crowdPage 257)), .kfree ⟨crowdPage 256 + 4080, 16⟩]

/-- **The kernel panics** in `freepageref`: the first root has its pagerefs in use, but no page. -/
theorem not_heapSound_crowd : ¬ HeapSound (crowd 256 ++ lateThread) := by
  have hpanic : (run kstep (crowded 256) lateThread).map (fun _ => ()) =
      .error (.panic .kassert) := by decide +kernel
  unfold HeapSound
  rw [run_append_of_ok kstep lateThread (run_crowd (le_refl 256))]
  cases hr : run kstep (crowded 256) lateThread with
  | ok c =>
    rw [hr] at hpanic
    cases hpanic
  | error e =>
    rw [hr] at hpanic
    obtain rfl : e = .panic .kassert := Except.error.inj hpanic
    exact id

end Os161
