import Os161.Boot.Reserved

set_option autoImplicit false

/-!
# Kernel memory across the boot

`kmalloc` and `kfree` before and after `vm_bootstrap`, between the operations of user faults and
exits on the coremap.

* `KernSys.step`: the calls in any order; a caller frees what it holds.
* `HandoverOk`: the calls that do not mix the memory of `ram_stealmem` with that of the coremap.
* **`handover_sound`**: along a run of such calls every call of `frame_kfree` frees one block of the
  coremap, inside its array, and a `kfree` that gives memory back frees the frames of its block.
* `stolen_page_freed`: a page that was stolen before the boot and freed after it.
-/

namespace Os161

open Transition

/-- The kernel: its pages, the heap, the blocks in use, and the block of the coremap's array. -/
structure KernSys where
  pages : KPages
  heap : Kheap
  live : List KBlock
  array : Option KBlock

/-- The calls. -/
inductive KernAction
  | kmalloc (sz : ℕ)
  | kfree (b : KBlock)
  | bootstrap (garbage : ℕ → CmEntry)
  | user (a : CmAction)

/-- The operations of faults and exits. -/
def CmAction.isUser : CmAction → Bool
  | .kalloc _ | .kfree _ => false
  | _ => true

namespace KernSys

/-- After `ram_bootstrap`. -/
def start (ram : RamLayout) : KernSys := ⟨KPages.start ram, Kheap.empty, [], none⟩

/-- One call. The boot happens once, and its array is never freed. -/
def step (s : KernSys) : KernAction → Except Stop KernSys
  | .kmalloc sz =>
    let (ptr, heap, pages) := kmalloc kpages sz s.heap s.pages
    return { s with pages, heap, live := if ptr = 0 then s.live else ⟨ptr, sz⟩ :: s.live }
  | .kfree b => do
    require (b ∈ s.live ∧ s.array ≠ some b)
    let (heap, pages) ← kfree kpages b.addr s.heap s.pages
    return { s with pages, heap, live := freed s.live b }
  | .bootstrap garbage => do
    require (s.pages.cms.isNone = true)
    let (coremap, heap, pages) ← vmBootstrap garbage s.heap s.pages
    let b : KBlock := ⟨coremap, s.pages.ram.frames * sizeofCmEntry⟩
    return ⟨pages, heap, if coremap = 0 then s.live else b :: s.live,
      if coremap = 0 then none else some b⟩
  | .user a =>
    match s.pages.cms with
    | some c => do
      require (a.isUser = true)
      let c' ← c.step a
      return { s with pages := { s.pages with cms := some c' } }
    | none => .error .blocked

end KernSys

/-- The next pageref lies on a page that is there already. -/
def Kheap.RefReady (h : Kheap) : Prop :=
  ∀ i, Loop.firstIdx (fun i => !h.inuse i) 0 (numPagerefpages * npagerefsPerPage) = some i →
    h.refPage (i / npagerefsPerPage) ≠ 0

/-- **The calls that keep stolen memory and the coremap apart.** No request wraps around when it is
rounded up to pages or added to `firstpaddr`. At the boot the array has 103 entries or more, or there
is a free block or a pageref for it. After the boot no block is freed whose memory was stolen, as long
as another block does not keep its page. -/
def HandoverOk (s : KernSys) : KernAction → Prop
  | .kmalloc sz => largestSubpageSize ≤ sz → s.pages.Fits (wadd sz (pageSize - 1) / pageSize)
  | .kfree b => s.pages.cms.isSome = true →
      (∃ b' ∈ freed s.live b, ¬ b'.pages.Disjoint b.pages) ∨
      ∀ e ∈ s.pages.stolen, (vpages (paddrToKvaddr e.1) e.2).Disjoint b.pages
  | .bootstrap _ => 103 ≤ s.pages.ram.frames ∨
      (takeBlock (blocktype (s.pages.ram.frames * sizeofCmEntry)) s.heap.allbase).isSome = true ∨
      s.heap.RefReady
  | .user _ => True

/-- **The invariant**: that of the pages and that of the heap. -/
def KernInv (s : KernSys) : Prop := s.pages.Inv ∧ HeapInv s.heap s.live s.pages.held

section Steps

variable {s s' : KernSys} {p p' : KPages} {h h' : Kheap} {b : KBlock} {coremap : ℕ}

/-! ## The boot -/

/-- A small array whose pageref has a page takes at most one page. -/
theorem stolen_of_ready (hc : p.cms = none) (hr : p.ram.Ok) (hF : p.ram.frames < 103)
    (hready : (takeBlock (blocktype (p.ram.frames * sizeofCmEntry)) h.allbase).isSome = true ∨
      h.RefReady)
    (hk : kmalloc kpages (p.ram.frames * sizeofCmEntry) h p = (coremap, h', p')) :
    p'.cms = none ∧ p'.ram.firstpaddr ≤ p.ram.firstpaddr + pageSize := by
  have hsame : p' = p → p'.cms = none ∧ p'.ram.firstpaddr ≤ p.ram.firstpaddr + pageSize := by
    rintro rfl
    exact ⟨hc, Nat.le_add_right _ _⟩
  have hfit : p.Fits 1 := by
    refine ⟨le_refl _, fun _ => ?_⟩
    have h₁ := hr.le
    have h₂ := hr.top
    unfold pageSize wordSize
    omega
  unfold kmalloc at hk
  rw [if_neg (by unfold largestSubpageSize sizeofCmEntry; omega)] at hk
  unfold subpageKmalloc at hk
  simp only [kpages_alloc] at hk
  split at hk
  · exact hsame (Prod.mk.inj (Prod.mk.inj hk).2).2.symm
  · next htake =>
    have hready := hready.resolve_left (by rw [htake]; exact Bool.false_ne_true)
    rcases hs : KPages.allocKpages 1 p with ⟨prpage, p₁⟩
    simp only [hs] at hk
    rcases KPages.allocKpages_none hc hr hfit hs with ⟨rfl, rfl⟩ | ⟨hva, -, rfl⟩
    · rw [if_pos rfl] at hk
      exact hsame (Prod.mk.inj (Prod.mk.inj hk).2).2.symm
    have hpos : prpage ≠ 0 := hva ▸ paddrToKvaddr_ne_zero (Nat.le_trans hr.le hr.top)
    rw [if_neg hpos] at hk
    have hdone : p' = ⟨⟨p.ram.firstpaddr + 1 * pageSize, p.ram.lastpaddr⟩, none,
          (p.ram.firstpaddr, 1) :: p.stolen, p.calls⟩ →
        p'.cms = none ∧ p'.ram.firstpaddr ≤ p.ram.firstpaddr + pageSize := by
      rintro rfl
      exact ⟨rfl, Nat.le_of_eq (by rw [Nat.one_mul])⟩
    rcases hi : Loop.firstIdx (fun i => !h.inuse i) 0 (numPagerefpages * npagerefsPerPage) with _ | i
    · simp only [allocpageref, hi] at hk
      exact hdone (Prod.mk.inj (Prod.mk.inj hk).2).2.symm
    · simp only [allocpageref, hi, if_neg (hready i hi)] at hk
      split at hk <;> exact hdone (Prod.mk.inj (Prod.mk.inj hk).2).2.symm

/-- **The boot** keeps the invariant when it reserves what it steals. -/
theorem kernInv_bootstrap {g : ℕ → CmEntry} (hi : KernInv s) (hc : s.pages.cms = none)
    (hok : HandoverOk s (.bootstrap g))
    (hb : vmBootstrap g s.heap s.pages = .ok (coremap, h', p')) :
    p'.Inv ∧ HeapInv h' (if coremap = 0 then s.live else
      ⟨coremap, s.pages.ram.frames * sizeofCmEntry⟩ :: s.live) p'.held := by
  have hr := (hi.1.before hc).1
  obtain ⟨p₁, hk, rfl, -⟩ := vmBootstrap_eq_ok hr hb
  have hfits : largestSubpageSize ≤ s.pages.ram.frames * sizeofCmEntry →
      s.pages.Fits (wadd (s.pages.ram.frames * sizeofCmEntry) (pageSize - 1) / pageSize) := by
    have h₁ := (s.pages.ram.layout hr).ramFrames_le
    have h₂ := hr.le
    have h₃ := hr.top
    change s.pages.ram.frames ≤ _ at h₁
    intro hlarge
    rw [wadd_of_lt (by unfold sizeofCmEntry pageSize wordSize; omega)]
    unfold largestSubpageSize sizeofCmEntry at hlarge
    refine ⟨?_, fun _ => ?_⟩ <;> unfold sizeofCmEntry pageSize at *
    · omega
    · unfold wordSize
      omega
  obtain ⟨hp₁, hheap⟩ := kmalloc_inv kpages_spec hi.1 hi.2 hfits hk
  have hsteal : p₁.cms = none ∧ ∀ k < s.pages.ram.frames,
      (s.pages.ram.layout hr).frameAddr k < p₁.ram.firstpaddr →
        reserved (s.pages.ram.layout hr) k = true := by
    by_cases hF : 103 ≤ s.pages.ram.frames
    · obtain ⟨hc₁, hfirst⟩ := stolen_of_large hc hr hF hk
      refine ⟨hc₁, fun k _ hlt => reserved_of_lt (Nat.lt_of_lt_of_le hlt ?_)⟩
      rw [hfirst]
      split_ifs
      · exact Nat.add_le_add_left (Nat.zero_le _) _
      · exact le_refl _
    · obtain ⟨hc₁, hfirst⟩ :=
        stolen_of_ready hc hr (Nat.not_le.mp hF) (hok.resolve_left hF) hk
      refine ⟨hc₁, fun k hkF hlt => ?_⟩
      have hlt' : s.pages.ram.firstpaddr + k * pageSize < s.pages.ram.firstpaddr + pageSize :=
        Nat.lt_of_lt_of_le hlt hfirst
      have hk0 : k = 0 := by
        unfold pageSize at hlt'
        omega
      subst hk0
      change (decide (0 < s.pages.ram.frames) && decide (0 ≤ _)) = true
      simp [hkF]
  obtain ⟨hc₁, hres⟩ := hsteal
  have hheld : KPages.held { p₁ with cms := some (CmSys.boot (s.pages.ram.layout hr) g) } =
      p₁.held := by
    unfold KPages.held
    rw [hc₁]
    rfl
  refine ⟨⟨hp₁.aligned, by rintro ⟨⟩, ?_, hp₁.calls⟩, hheld ▸ hheap⟩
  rintro _ ⟨⟩
  refine ⟨cmInv_boot _ _, fun e he i hie k hkF hframe => ?_⟩
  rw [CmSys.boot_cm, cmBootstrap_ram] at hframe ⊢
  refine hres k ?_ ?_
  · rwa [CmSys.boot_cm, Coremap.ramFrames, cmBootstrap_ram] at hkF
  · have hbelow := (hp₁.before hc₁).2 e he
    have : (i + 1) * pageSize ≤ e.2 * pageSize := Nat.mul_le_mul_right _ hie
    unfold pageSize at *
    omega

/-! ## A block that is freed -/

/-- The memory that such a call gives back came from the coremap. -/
theorem HandoverOk.freeable (hi : KernInv s) (hb : b ∈ s.live) (hok : HandoverOk s (.kfree b))
    {va : ℕ} (hk : kfreeHeap s.heap b.addr = .ok (h', some va)) : s.pages.Freeable va := by
  intro c hc
  rcases hi.2.kfreeHeap_cases hb hk with ⟨hn, -⟩ | ⟨va', n, he, hheld, hpages, -, hdis⟩
  · cases hn
  obtain rfl := Option.some.inj he
  rcases hok (by rw [hc]; rfl) with ⟨b', hb', hmeet⟩ | hstolen
  · exact absurd (hdis b' hb') hmeet
  rcases KPages.mem_held.mp (hi.2.owned.held _ hheld) with ⟨e, hes, he⟩ | ⟨c', hc', a, ha, ho, he⟩
  · obtain ⟨hva, hn⟩ := Prod.mk.inj he
    have hself := self_mem_vpages va (hi.2.owned.aligned _ hheld).2.2
    rw [← hpages] at hself
    have hmem : va ∈ vpages (paddrToKvaddr e.1) e.2 := by
      rw [← hva]
      exact self_mem_vpages va (hi.1.aligned e hes).2.2.1
    exact absurd hself (hstolen e hes hmem)
  · obtain rfl := Option.some.inj (hc.symm.trans hc')
    exact ⟨a, ha, ho, (Prod.mk.inj he).1⟩

/-! ## Every call -/

/-- An operation of a fault or an exit leaves the kernel blocks. -/
theorem kernelAllocs_step {c c' : CmSys} {a : CmAction} (hcm : CmInv c) (ha : a.isUser = true)
    (hs : c.step a = .ok c') : KPages.kernelAllocs c' = KPages.kernelAllocs c := by
  unfold KPages.kernelAllocs
  cases a with
  | kalloc n => cases ha
  | kfree a => cases ha
  | alloc vaddr as =>
    rcases hr : c.alloc vaddr as with ⟨paddr, c₁⟩
    obtain rfl : c₁ = c' := by
      have := Except.ok.inj hs
      rwa [hr] at this
    rcases CmSys.alloc_cases hr with ⟨-, rfl, -⟩ | ⟨k, -, -, -, rfl⟩
    · rfl
    · exact List.filter_cons_of_neg (by simp)
  | asfree as =>
    cases hs
    change (c.live.filter _).filter _ = _
    rw [List.filter_filter]
    refine List.filter_congr fun a _ => ?_
    by_cases ho : a.owner = none <;> simp [ho]
  | evict as =>
    simp only [CmSys.step] at hs
    split at hs
    · next hr =>
      cases hs
      obtain ⟨-, -, -, -, -, rfl⟩ := CmSys.evict_cases hcm hr
      rfl
    · cases hs
  | updateVaddr as pos vaddr =>
    obtain ⟨-, hs⟩ := require_bind_ok.mp hs
    cases hs
    rfl
  | setClean as k =>
    obtain ⟨-, hs⟩ := require_bind_ok.mp hs
    cases hs
    rfl

/-- **Every call that keeps the two memories apart keeps the invariant.** -/
theorem kernInv_step {a : KernAction} (hi : KernInv s) (hok : HandoverOk s a)
    (hs : s.step a = .ok s') : KernInv s' := by
  cases a with
  | kmalloc sz =>
    simp only [KernSys.step] at hs
    rcases hk : kmalloc kpages sz s.heap s.pages with ⟨ptr, heap, pages⟩
    simp only [hk] at hs
    cases hs
    exact kmalloc_inv kpages_spec hi.1 hi.2 hok hk
  | kfree b =>
    obtain ⟨⟨hb, -⟩, hs⟩ := require_bind_ok.mp hs
    obtain ⟨⟨heap, pages⟩, hk, hs⟩ := bind_eq_ok.mp hs
    cases hs
    exact kfree_inv kpages_spec hi.1 hi.2 hb (fun h' va hf => hok.freeable hi hb hf) hk
  | bootstrap g =>
    obtain ⟨hc, hs⟩ := require_bind_ok.mp hs
    obtain ⟨⟨coremap, heap, pages⟩, hb, hs⟩ := bind_eq_ok.mp hs
    cases hs
    exact kernInv_bootstrap hi (Option.isNone_iff_eq_none.mp hc) hok hb
  | user a =>
    simp only [KernSys.step] at hs
    split at hs
    · next c hc =>
      obtain ⟨ha, hs⟩ := require_bind_ok.mp hs
      obtain ⟨c', hstep, hs⟩ := bind_eq_ok.mp hs
      cases hs
      obtain ⟨hcm, hres⟩ := hi.1.after c hc
      have hram := ram_step hcm hstep
      refine ⟨⟨hi.1.aligned, by rintro ⟨⟩, ?_, hi.1.calls⟩, ?_⟩
      · rintro _ ⟨⟩
        refine ⟨cmInv_step hcm hstep, ?_⟩
        unfold Coremap.ramFrames
        rw [hram]
        exact hres
      · have hheld : KPages.held { s.pages with cms := some c' } = s.pages.held := by
          unfold KPages.held
          rw [hc]
          simp only [Option.elim_some, kernelAllocs_step hcm ha hstep]
        change HeapInv s.heap s.live (KPages.held { s.pages with cms := some c' })
        exact hheld ▸ hi.2
    · cases hs

end Steps

/-! ## Runs -/

section Run

variable {ram : RamLayout} {acts : List KernAction} {s t : KernSys} {b : KBlock}

theorem kernInv_start (ram : RamLayout) : KernInv (KernSys.start ram) := by
  refine ⟨KPages.inv_start ram, ?_⟩
  refine ⟨List.nodup_nil, ?_, ?_, ?_, ⟨List.nodup_nil, ?_, ?_⟩, List.nodup_nil, ?_, ?_⟩ <;>
    (intro x hx; cases hx)

/-- The coremap before and after a call that frees exactly the frames of the block. -/
def FreesBlock (c c' : CmSys) (b : KBlock) : Prop :=
  ∀ k, c'.cm.entry k =
    if k < c.cm.ramFrames ∧ paddrToKvaddr (c.cm.ram.frameAddr k) ∈ b.pages
    then kfreeEntry (c.cm.entry k) else c.cm.entry k

/-- **Kernel memory across the boot.** In a run whose calls keep stolen memory and the coremap apart,
every call of `frame_kfree` has its index inside the coremap and frees one block that
`frame_kalloc` handed out; and a `kfree` leaves the coremap, or frees exactly the frames of the pages
of its block, on which no other live block lies. -/
theorem handover_sound (hok : Along KernSys.step HandoverOk (KernSys.start ram) acts)
    (h : run KernSys.step (KernSys.start ram) acts = .ok s) :
    (∀ call ∈ s.pages.calls, call.Sound) ∧
    ∀ b t c, HandoverOk s (.kfree b) → s.step (.kfree b) = .ok t → s.pages.cms = some c →
      (t.pages.cms = some c ∧ t.pages.calls = s.pages.calls) ∨
      ∃ c' call, t.pages.cms = some c' ∧ t.pages.calls = call :: s.pages.calls ∧ FreesBlock c c' b ∧
        ∀ b' ∈ t.live, b'.pages.Disjoint b.pages := by
  have hi := run_inv_along KernSys.step (P := KernInv)
    (fun _ _ _ hi hok hs => kernInv_step hi hok hs) (kernInv_start ram) hok h
  refine ⟨hi.1.calls, fun b t c hb hs hc => ?_⟩
  obtain ⟨⟨hmem, -⟩, hs⟩ := require_bind_ok.mp hs
  obtain ⟨⟨heap, pages⟩, hk, hs⟩ := bind_eq_ok.mp hs
  cases hs
  obtain ⟨⟨h₁, page⟩, hr, hk⟩ := bind_eq_ok.mp hk
  cases hk
  rcases hi.2.kfreeHeap_cases hmem hr with ⟨rfl, -⟩ | ⟨va, n, rfl, hheld, hpages, -, hdis⟩
  · exact .inl ⟨hc, rfl⟩
  · obtain ⟨hcm, -⟩ := hi.1.after c hc
    obtain ⟨a, ha, ho, hva⟩ := hb.freeable hi hmem hr c hc
    have hn := hi.1.npages_of_held hc (hi.2.owned.held _ hheld) ha hva
    rw [hva, hn] at hpages
    have hfree := KPages.freeKpages_eq hcm hc ha ho
    refine .inr ⟨c.kfree a, ⟨paddrToKvaddr a.paddr, c⟩, ?_, ?_, fun k => ?_, hdis⟩
    · change (s.pages.freeKpages va).cms = _
      rw [hva, hfree]
    · change (s.pages.freeKpages va).calls = _
      rw [hva, hfree]
    · rw [kfree_entry hcm ha ho k, hpages]
      refine if_congr (and_congr_right fun hk => ?_) rfl rfl
      have htop : c.cm.ram.frameAddr k ≤ 512 * 1024 * 1024 :=
        Nat.le_trans (Nat.le_of_lt (c.cm.ram.frameAddr_lt hk)) c.cm.ram.lastpaddr_le
      have hpa : a.paddr ≤ 512 * 1024 * 1024 :=
        Nat.le_trans (Nat.le_add_right _ _) (KPages.top_of_live hcm ha)
      rw [mem_vpages_paddrToKvaddr htop hpa, Alloc.mem_pages]

/-- The boot, and a kernel page after it. -/
def bootCalls : List KernAction := [.bootstrap fun _ => evictedEntry, .kmalloc 4096]

/-- The page of `bootCalls` is freed. -/
theorem handover_sound_bootCalls :
    ∃ s t c c', run KernSys.step (KernSys.start ram1M) bootCalls = .ok s ∧
      s.step (.kfree ⟨0x80032000, 4096⟩) = .ok t ∧ s.pages.cms = some c ∧ t.pages.cms = some c' ∧
      FreesBlock c c' ⟨0x80032000, 4096⟩ := by
  have hrun : (run KernSys.step (KernSys.start ram1M) bootCalls).toOption.map
      (fun s => (s.pages.stolen, s.pages.calls.length, s.pages.cms.isSome)) =
      some ([(0x30000, 2)], 0, true) := by decide +kernel
  have hfree : (run KernSys.step (KernSys.start ram1M)
      (bootCalls ++ [.kfree ⟨0x80032000, 4096⟩])).toOption.map
      (fun s => s.pages.calls.length) = some 1 := by decide +kernel
  have hboot : ∀ g t, (KernSys.start ram1M).step (.bootstrap g) = .ok t →
      t.pages.cms.isSome = true := by
    intro g t ht
    obtain ⟨-, ht⟩ := require_bind_ok.mp ht
    obtain ⟨⟨coremap, heap, pages⟩, hb, ht⟩ := bind_eq_ok.mp ht
    cases ht
    obtain ⟨p₁, -, rfl, -⟩ := vmBootstrap_eq_ok ram1M.toRam_ok hb
    rfl
  obtain ⟨s, hs, hobs⟩ := exists_ok_of_toOption hrun
  obtain ⟨hstolen, hobs⟩ := Prod.mk.inj hobs
  obtain ⟨hcalls, hsome⟩ := Prod.mk.inj hobs
  obtain ⟨t, ht, hlen⟩ := exists_ok_of_toOption hfree
  obtain ⟨u, hu, ht⟩ := (run_concat_ok _).mp ht
  obtain rfl := Except.ok.inj (hs.symm.trans hu)
  have hok : Along KernSys.step HandoverOk (KernSys.start ram1M) bootCalls := by
    refine ⟨.inl (by decide), fun t ht => ⟨fun _ => ⟨by decide, fun hc => ?_⟩, fun _ _ => trivial⟩⟩
    have := hboot _ t ht
    rw [hc] at this
    cases this
  have hkfree : HandoverOk s (.kfree ⟨0x80032000, 4096⟩) := by
    refine fun _ => .inr ?_
    rw [hstolen]
    intro e he q hq hq'
    obtain rfl := List.mem_singleton.mp he
    have : ∀ q ∈ vpages (paddrToKvaddr 0x30000) 2, q ∉ KBlock.pages ⟨0x80032000, 4096⟩ := by decide
    exact this q hq hq'
  obtain ⟨-, hsound⟩ := handover_sound hok hs
  obtain ⟨c, hc⟩ := Option.isSome_iff_exists.mp hsome
  rcases hsound _ t c hkfree ht hc with ⟨-, hsame⟩ | ⟨c', call, hc', -, hfrees, -⟩
  · rw [hsame, hcalls] at hlen
    cases hlen
  · exact ⟨s, t, c, c', hs, ht, hc, hc', hfrees⟩

/-- A page that is allocated before the boot and freed after it. -/
def spanningCalls : List KernAction :=
  [.kmalloc 4096, .bootstrap fun _ => evictedEntry, .kfree ⟨0x80030000, 4096⟩]

/-- Its index wraps around: `frame_kfree` reads and writes far behind the array. -/
theorem stolen_page_freed :
    ∃ s call, run KernSys.step (KernSys.start ram1M) spanningCalls = .ok s ∧
      call ∈ s.pages.calls ∧ call.before.cm.ramFrames = 207 ∧
      call.before.cm.ram.frameIndex (wsub call.addr kseg0) = 1048575 := by
  have hrun : (run KernSys.step (KernSys.start ram1M) spanningCalls).toOption.map
      (fun s => s.pages.calls.map fun call => (call.before.cm.ramFrames,
        call.before.cm.ram.frameIndex (wsub call.addr kseg0))) = some [(207, 1048575)] := by
    decide +kernel
  obtain ⟨s, hs, hobs⟩ := exists_ok_of_toOption hrun
  obtain ⟨call, calls, hcalls, hcall, -⟩ := List.map_eq_cons_iff.mp hobs
  obtain ⟨hframes, hindex⟩ := Prod.mk.inj hcall
  exact ⟨s, call, hs, by rw [hcalls]; exact List.mem_cons_self, hframes, hindex⟩

end Run

end Os161
