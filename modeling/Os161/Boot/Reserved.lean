import Os161.Boot.Pages

set_option autoImplicit false

/-!
# What the boot takes and what it reserves

`cm_bootstrap` gets the memory for its array from `kmalloc`, which steals pages, and marks a number
of frames `FIXED` that it computes from the size of the array.

* `vmBootstrap`: `vm_bootstrap`, that is `cm_bootstrap` with its call of `kmalloc`.
* **`bootstrap_reserves_iff`**: the stolen frames are those reserved for 103 frames of memory and
  more. Below that the array is a small block, for which `kmalloc` takes two pages: one for the
  block and one for the pagerefs.
-/

namespace Os161

open Transition

/-- `vm_bootstrap`: the address of the array and the state it leaves. A boot without memory for the
array ends at its first entry. -/
def vmBootstrap (garbage : ℕ → CmEntry) (h : Kheap) (s : KPages) :
    Except Stop (ℕ × Kheap × KPages) :=
  if hr : s.ram.Ok then
    let ram := s.ram.layout hr
    let (coremap, h', s') := kmalloc kpages (ram.ramFrames * sizeofCmEntry) h s
    if coremap = 0 ∧ 0 < ram.ramFrames then .error (.panic .nullPointer)
    else .ok (coremap, h', { s' with cms := some (CmSys.boot ram garbage) })
  else .error .blocked

section Reserved

variable {ram : RamLayout} {g : ℕ → CmEntry} {coremap : ℕ} {h h' : Kheap} {s s' : KPages}

theorem vmBootstrap_eq_ok (hr : s.ram.Ok) (hb : vmBootstrap g h s = .ok (coremap, h', s')) :
    ∃ s₁, kmalloc kpages ((s.ram.layout hr).ramFrames * sizeofCmEntry) h s = (coremap, h', s₁) ∧
      s' = { s₁ with cms := some (CmSys.boot (s.ram.layout hr) g) } ∧
      (coremap = 0 → (s.ram.layout hr).ramFrames = 0) := by
  unfold vmBootstrap at hb
  rw [dif_pos hr] at hb
  rcases hk : kmalloc kpages ((s.ram.layout hr).ramFrames * sizeofCmEntry) h s with ⟨p, h₁, s₁⟩
  simp only [hk] at hb
  split_ifs at hb with hc
  obtain ⟨rfl, he⟩ := Prod.mk.inj (Except.ok.inj hb)
  obtain ⟨rfl, rfl⟩ := Prod.mk.inj he
  exact ⟨s₁, rfl, rfl, fun h0 => by_contra fun hne => hc ⟨h0, Nat.pos_of_ne_zero hne⟩⟩

/-- The boot of an empty heap. -/
theorem vmBootstrap_start {r : ℕ × Kheap × KPages}
    (hk : kmalloc kpages (ram.ramFrames * sizeofCmEntry) Kheap.empty (KPages.start ram) = r)
    (hne : r.1 ≠ 0) :
    vmBootstrap g Kheap.empty (KPages.start ram) =
      .ok (r.1, r.2.1, { r.2.2 with cms := some (CmSys.boot ram g) }) := by
  subst hk
  have hr : (KPages.start ram).ram.Ok := ram.toRam_ok
  unfold vmBootstrap
  rw [dif_pos hr]
  exact if_neg fun hc => hne hc.1

/-- An array of 103 entries or more is a block of whole pages. -/
theorem stolen_of_large (hc : s.cms = none) (hr : s.ram.Ok)
    (hF : 103 ≤ (s.ram.layout hr).ramFrames)
    (hk : kmalloc kpages ((s.ram.layout hr).ramFrames * sizeofCmEntry) h s = (coremap, h', s')) :
    s'.cms = none ∧ s'.ram.firstpaddr = s.ram.firstpaddr + if coremap = 0 then 0 else
      ((s.ram.layout hr).ramFrames * sizeofCmEntry + (pageSize - 1)) / pageSize * pageSize := by
  have hle := (s.ram.layout hr).ramFrames_le
  have hmem := hr.le
  have htop := hr.top
  generalize (s.ram.layout hr).ramFrames = F at *
  have hsum : wadd (F * sizeofCmEntry) (pageSize - 1) = F * sizeofCmEntry + (pageSize - 1) :=
    wadd_of_lt (by unfold sizeofCmEntry pageSize wordSize; omega)
  unfold kmalloc at hk
  rw [if_pos (by unfold largestSubpageSize sizeofCmEntry; omega), hsum] at hk
  have hfit : s.Fits ((F * sizeofCmEntry + (pageSize - 1)) / pageSize) := by
    refine ⟨?_, fun _ => ?_⟩
    · unfold sizeofCmEntry pageSize
      omega
    · unfold wordSize sizeofCmEntry pageSize
      omega
  generalize (F * sizeofCmEntry + (pageSize - 1)) / pageSize = n at hk hfit ⊢
  rcases hs : kpages.alloc n s with ⟨va, s₁⟩
  simp only [hs] at hk
  obtain ⟨rfl, hks⟩ := Prod.mk.inj hk
  obtain ⟨-, rfl⟩ := Prod.mk.inj hks
  rcases KPages.allocKpages_none hc hr hfit hs with ⟨rfl, rfl⟩ | ⟨hva, -, rfl⟩
  · exact ⟨hc, by rw [if_pos rfl]; rfl⟩
  · have hne : va ≠ 0 := hva ▸ paddrToKvaddr_ne_zero (Nat.le_trans hmem htop)
    exact ⟨rfl, by rw [if_neg hne]⟩

/-- The pages of the array are reserved, also when the last one is full. -/
theorem reserved_of_lt {k : ℕ} (hk : ram.frameAddr k < ram.firstpaddr +
    (ram.ramFrames * sizeofCmEntry + (pageSize - 1)) / pageSize * pageSize) :
    reserved ram k = true := by
  unfold RamLayout.frameAddr sizeofCmEntry pageSize at hk
  unfold reserved sizeofCmEntry pageSize
  simp only [Bool.and_eq_true, decide_eq_true_eq]
  omega

/-- A smaller array is a block of a heap page, which comes with a page of pagerefs. -/
theorem stolen_of_small (hF : ram.ramFrames < 103)
    (hk : kmalloc kpages (ram.ramFrames * sizeofCmEntry) Kheap.empty (KPages.start ram) =
      (coremap, h, s)) (hne : coremap ≠ 0) :
    s.ram.firstpaddr = ram.firstpaddr + 2 * pageSize ∧ 2 ≤ ram.ramFrames := by
  unfold kmalloc at hk
  rw [if_neg (by unfold largestSubpageSize sizeofCmEntry; omega)] at hk
  unfold subpageKmalloc at hk
  have htake : takeBlock (blocktype (ram.ramFrames * sizeofCmEntry)) Kheap.empty.allbase = none := by
    simp only [Kheap.empty, takeBlock]
  rcases hr : KPages.allocKpages 1 (KPages.start ram) with ⟨prpage, s₁⟩
  simp only [htake, kpages_alloc, hr] at hk
  have hi := KPages.inv_start ram
  rcases KPages.allocKpages_none rfl ram.toRam_ok (kpages_spec.fits_one hi) hr with
    ⟨rfl, -⟩ | ⟨hva, hok₁, he₁⟩
  · rw [if_pos rfl] at hk
    exact absurd (Prod.mk.inj hk).1.symm hne
  have hi₁ := (kpages_spec.alloc hi (kpages_spec.fits_one hi) ((kpages_alloc _ _).trans hr)).1
  have hpos : prpage ≠ 0 := hva ▸ paddrToKvaddr_ne_zero (Nat.le_trans ram.le ram.lastpaddr_le)
  rw [if_neg hpos] at hk
  have hfirst : Loop.firstIdx (fun i => !Kheap.empty.inuse i) 0
      (numPagerefpages * npagerefsPerPage) = some 0 :=
    Loop.firstIdx_eq_some.mpr ⟨le_refl _, by decide, rfl, fun j _ hj => absurd hj (Nat.not_lt_zero j)⟩
  rcases hr₂ : KPages.allocKpages 1 s₁ with ⟨va, s₂⟩
  have hhead : Kheap.empty.refPage (0 / npagerefsPerPage) = 0 := rfl
  unfold allocpageref at hk
  simp only [hfirst, if_pos hhead, kpages_alloc, hr₂] at hk
  subst he₁
  rcases KPages.allocKpages_none rfl hok₁ (kpages_spec.fits_one hi₁) hr₂ with
    ⟨rfl, -⟩ | ⟨hva₂, hok₂, he₂⟩
  · rw [if_pos rfl] at hk
    exact absurd (Prod.mk.inj hk).1.symm hne
  have hpos₂ : va ≠ 0 := hva₂ ▸ paddrToKvaddr_ne_zero (Nat.le_trans hok₁.le hok₁.top)
  rw [if_neg hpos₂] at hk
  have hs : s = s₂ := by
    simp only at hk
    split at hk <;> exact (Prod.mk.inj (Prod.mk.inj hk).2).2.symm
  subst hs he₂
  have hle₂ : ram.firstpaddr + 1 * pageSize + 1 * pageSize ≤ ram.lastpaddr := hok₂.le
  refine ⟨?_, ?_⟩
  · change ram.firstpaddr + 1 * pageSize + 1 * pageSize = _
    omega
  · unfold RamLayout.ramFrames pageSize at *
    omega

/-- **The reservation of the boot.** When the array got its memory: all frames that were stolen
since `firstpaddr` was sampled are `FIXED`, and none of them is ever allocated, if and only if there
are 103 frames or more. -/
theorem bootstrap_reserves_iff
    (hboot : vmBootstrap g Kheap.empty (KPages.start ram) = .ok (coremap, h, s))
    (hne : coremap ≠ 0) :
    (∃ c, s.cms = some c ∧
      (∀ k, ram.frameAddr k < s.ram.firstpaddr →
        k < ram.ramFrames ∧ (c.cm.entry k).state = .fixed) ∧
      ∀ acts t, run CmSys.step c acts = .ok t →
        ∀ a ∈ t.live, ∀ k, ram.frameAddr k < s.ram.firstpaddr → ¬ a.Holds ram k) ↔
    103 ≤ ram.ramFrames := by
  obtain ⟨s₁, hk, rfl, -⟩ := vmBootstrap_eq_ok ram.toRam_ok hboot
  constructor
  · rintro ⟨c, hc, hfixed, -⟩
    by_contra hlt
    obtain ⟨hfirst, h2⟩ := stolen_of_small (Nat.not_le.mp hlt) hk hne
    obtain rfl := Option.some.inj hc
    have := (hfixed 1 (by
      simp only [hfirst]
      unfold RamLayout.frameAddr pageSize
      omega)).2
    have hentry := (cmBootstrap_entry (g := g) (show 1 < ram.ramFrames by omega)).2.2
    rw [if_neg] at hentry
    · rw [CmSys.boot_cm] at this
      exact FrameState.noConfusion (hentry.symm.trans this)
    · unfold reserved sizeofCmEntry pageSize
      simp
      omega
  · intro hF
    have hfirst := (stolen_of_large (s := KPages.start ram) rfl ram.toRam_ok hF hk).2
    rw [if_neg hne] at hfirst
    have hres : ∀ k, ram.frameAddr k < s₁.ram.firstpaddr → reserved ram k = true := by
      intro k hk
      rw [hfirst] at hk
      exact reserved_of_lt hk
    have hlt : ∀ {k}, reserved ram k = true → k < ram.ramFrames := fun hr => by
      unfold reserved at hr
      simp at hr
      exact hr.1
    refine ⟨_, rfl, fun k hk => ?_, fun acts t ht a ha k hk hhold => ?_⟩
    · have hr := hres k hk
      refine ⟨hlt hr, (cmBootstrap_entry (hlt hr)).2.2.trans ?_⟩
      rw [if_pos hr]
    · obtain ⟨hi, hram⟩ := cmInv_run ht
      have hno := (hi.held a ha k (hram ▸ hhold)).1
      rw [hram] at hno
      exact Bool.noConfusion (hno.symm.trans (hres k hk))

/-- A machine with one megabyte of memory: 208 frames are left for the coremap. -/
def ram1M : RamLayout where
  firstpaddr := 0x30000
  lastpaddr := 0x100000
  firstpaddr_pos := smallRam.firstpaddr_pos
  firstpaddr_dvd := smallRam.firstpaddr_dvd
  le := by decide
  lastpaddr_le := by decide

theorem bootstrap_reserves_ram1M :
    ∃ c, (∀ k, ram1M.frameAddr k < 0x32000 → (c.cm.entry k).state = .fixed) ∧
      ∀ acts t, run CmSys.step c acts = .ok t →
        ∀ a ∈ t.live, ∀ k, ram1M.frameAddr k < 0x32000 → ¬ a.Holds ram1M k := by
  have hk : kmalloc kpages (ram1M.ramFrames * sizeofCmEntry) Kheap.empty (KPages.start ram1M) =
      (0x80030000, Kheap.empty, ⟨⟨0x32000, 0x100000⟩, none, [(0x30000, 2)], []⟩) := rfl
  have hboot := vmBootstrap_start (g := fun _ => evictedEntry) hk (by decide)
  obtain ⟨c, -, hfixed, hnever⟩ := (bootstrap_reserves_iff hboot (by decide)).mpr (by decide)
  exact ⟨c, fun k hk => (hfixed k hk).2, hnever⟩

/-- A machine with half a megabyte: 80 frames. -/
def ram512k : RamLayout where
  firstpaddr := 0x30000
  lastpaddr := 0x80000
  firstpaddr_pos := smallRam.firstpaddr_pos
  firstpaddr_dvd := smallRam.firstpaddr_dvd
  le := by decide
  lastpaddr_le := by decide

/-- There the page of the pagerefs is a `FREE` frame, and the next kernel page. -/
theorem pagerefs_free_ram512k :
    ∃ coremap h s c t,
      vmBootstrap (fun _ => evictedEntry) Kheap.empty (KPages.start ram512k) =
        .ok (coremap, h, s) ∧ coremap ≠ 0 ∧ s.cms = some c ∧
      ram512k.frameAddr 1 < s.ram.firstpaddr ∧
      h.refPage 0 = paddrToKvaddr (ram512k.frameAddr 1) ∧ (c.cm.entry 1).state = .free ∧
      run CmSys.step c [.kalloc 1] = .ok t ∧ ⟨ram512k.frameAddr 1, 1, none⟩ ∈ t.live := by
  have hne : (kmalloc kpages (ram512k.ramFrames * sizeofCmEntry) Kheap.empty
      (KPages.start ram512k)).1 ≠ 0 := by decide
  exact ⟨_, _, _, _, _, vmBootstrap_start rfl hne, hne, rfl, by decide, by decide, by decide, rfl,
    by decide⟩

end Reserved

end Os161
