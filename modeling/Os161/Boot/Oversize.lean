import Os161.Boot.Handover
import Os161.Coremap.FirstFit
import Os161.Kmalloc.Apart

set_option autoImplicit false

/-!
# Sizes near the top of the address space

`kmalloc` rounds a size up to pages in 32-bit arithmetic and passes the count on, after the boot to
`frame_kalloc` and before it to `ram_stealmem`. Both take a count that wrapped around to zero for a
request that succeeds.

* `BlockOk`: the block lies in physical memory that was handed out, no frame of it is `FREE` and no
  live block overlaps it.
* `Satisfiable`: there is memory for the size.
* `kallocScan_zero_isSome`: a search for no frame stops at a `FREE` frame.
* **`kmalloc_ok_iff`**: the sizes for which a non-`NULL` result is such a block.
-/

namespace Os161

open Transition

/-- The frame `k` has a byte of the block. -/
def KBlock.Touches (b : KBlock) (ram : RamLayout) (k : ℕ) : Prop :=
  b.addr < paddrToKvaddr (ram.frameAddr k) + pageSize ∧
    paddrToKvaddr (ram.frameAddr k) < b.addr + b.size

/-- **The block is memory of its own.** All of its bytes lie in physical memory and on pages that were
handed out, its frames are allocated in the coremap, and it overlaps none of the live blocks. -/
structure BlockOk (live : List KBlock) (p : KPages) (b : KBlock) : Prop where
  inside : kseg0 ≤ b.addr ∧ b.addr + b.size ≤ kseg0 + 512 * 1024 * 1024
  held : ∀ x, b.addr ≤ x → x < b.addr + b.size → ∃ e ∈ p.held, e.1 ≤ x ∧ x < e.1 + e.2 * pageSize
  allocated : ∀ c, p.cms = some c → ∀ k < c.cm.ramFrames, b.Touches c.cm.ram k →
    (c.cm.entry k).state = .fixed
  apart : ∀ b' ∈ live, b.addr + b.size ≤ b'.addr ∨ b'.addr + b'.len ≤ b.addr

/-- There are `n` consecutive pages left: `FREE` frames after the boot, memory to steal before it. -/
def KPages.HasRoom (p : KPages) (n : ℕ) : Prop :=
  match p.cms with
  | some c => ∃ f, f + n ≤ c.cm.ramFrames ∧ c.cm.FreeRun n f
  | none => p.ram.firstpaddr + n * pageSize ≤ p.ram.lastpaddr

/-- There is memory for a block of `sz` bytes: its pages, or a free block or a page for one. -/
def KernSys.Satisfiable (s : KernSys) (sz : ℕ) : Prop :=
  if largestSubpageSize ≤ sz then s.pages.HasRoom ((sz + (pageSize - 1)) / pageSize)
  else (takeBlock (blocktype sz) s.heap.allbase).isSome = true ∨ s.pages.HasRoom 1

/-- What `kmalloc(sz)` should do: a result other than `NULL` is a block of this size, and without
memory for it the result is `NULL`. -/
def KernSys.KmallocOk (s : KernSys) (sz : ℕ) : Prop :=
  ((kmalloc kpages sz s.heap s.pages).1 ≠ 0 →
    BlockOk s.live (kmalloc kpages sz s.heap s.pages).2.2
      ⟨(kmalloc kpages sz s.heap s.pages).1, sz⟩) ∧
  (¬ s.Satisfiable sz → (kmalloc kpages sz s.heap s.pages).1 = 0)

/-- The sizes that both allocators handle: no rounding and, before the boot, no address wraps
around; or, after it, no frame is `FREE`. -/
def KPages.Handles (p : KPages) (sz : ℕ) : Prop :=
  match p.cms with
  | some c => sz ≤ wordSize - pageSize ∨ ∀ k < c.cm.ramFrames, (c.cm.entry k).state ≠ .free
  | none => p.ram.firstpaddr + sz ≤ wordSize - pageSize

section Held

variable {p : KPages} {c : CmSys} {e : ℕ × ℕ} {k : ℕ}

/-- A held page lies in physical memory. -/
theorem KPages.Inv.held_inside (hi : p.Inv) (he : e ∈ p.held) :
    kseg0 ≤ e.1 ∧ pageSize ∣ e.1 ∧ e.1 + e.2 * pageSize ≤ kseg0 + 512 * 1024 * 1024 := by
  rcases KPages.mem_held.mp he with ⟨e', he', rfl⟩ | ⟨c, hc, a, ha, -, rfl⟩
  · obtain ⟨hd, -, -, htop⟩ := hi.aligned e' he'
    simp only
    rw [paddrToKvaddr_eq (by omega)]
    refine ⟨Nat.le_add_left _ _, (Nat.dvd_add_right hd).mpr (by decide), by omega⟩
  · have htop := KPages.top_of_live (hi.after c hc).1 ha
    obtain ⟨-, -, f, hf, -⟩ := (hi.after c hc).1.range a ha
    have hd : pageSize ∣ a.paddr := hf ▸ c.cm.ram.frameAddr_dvd f
    simp only
    rw [paddrToKvaddr_eq (by omega)]
    exact ⟨Nat.le_add_left _ _, (Nat.dvd_add_right hd).mpr (by decide), by omega⟩

/-- The frames of held pages are allocated. -/
theorem KPages.Inv.fixed_of_held (hi : p.Inv) (hc : p.cms = some c) (he : e ∈ p.held)
    (hk : k < c.cm.ramFrames) (hmem : paddrToKvaddr (c.cm.ram.frameAddr k) ∈ vpages e.1 e.2) :
    (c.cm.entry k).state = .fixed := by
  obtain ⟨hcm, hres⟩ := hi.after c hc
  have htop : c.cm.ram.frameAddr k ≤ 512 * 1024 * 1024 :=
    Nat.le_trans (Nat.le_of_lt (c.cm.ram.frameAddr_lt hk)) c.cm.ram.lastpaddr_le
  rcases KPages.mem_held.mp he with ⟨e', he', rfl⟩ | ⟨c', hc', a, ha, ho, rfl⟩
  · obtain ⟨hd, -, -, hle⟩ := hi.aligned e' he'
    obtain ⟨i, hie, hframe⟩ := (mem_vpages_paddrToKvaddr htop (by omega)).mp hmem
    have hr := hres e' he' i hie k hk hframe
    have hno : ∀ a ∈ c.live, ¬ a.Holds c.cm.ram k := fun a ha hak => by
      rw [(hcm.held a ha k hak).1] at hr
      exact Bool.noConfusion hr
    rw [(hcm.unheld k hk hno).2.2, if_pos hr]
  · obtain rfl := Option.some.inj (hc.symm.trans hc')
    have hle := KPages.top_of_live hcm ha
    have hhold : a.Holds c.cm.ram k := (mem_vpages_paddrToKvaddr htop (by omega)).mp hmem
    have hok := (hcm.held a ha k hhold).2
    unfold EntryOk at hok
    rw [ho] at hok
    exact hok.1

end Held

section Block

variable {s : KernSys} {p : KPages} {h : Kheap} {live : List KBlock} {b : KBlock} {sz n va : ℕ}

/-- **A block that the heap knows is memory of its own.** -/
theorem blockOk_of_inv (hp : p.Inv) (hh : HeapInv h (b :: live) p.held)
    (hsz : b.size ≤ wordSize - pageSize) : BlockOk live p b := by
  have hlen : b.size ≤ b.len := size_le_len (by unfold wordSize pageSize at *; omega)
  obtain ⟨e, he, hlo, hhi, -⟩ := hh.live_inside List.mem_cons_self
  have hheld := hh.owned.held e he
  obtain ⟨hbase, hd, htop⟩ := hp.held_inside hheld
  refine ⟨⟨by omega, by omega⟩, fun x hx hx' => ⟨e, hheld, by omega, by omega⟩, ?_, ?_⟩
  · rintro c hc k hk ⟨hbelow, habove⟩
    refine hp.fixed_of_held hc hheld hk ?_
    have hframe := c.cm.ram.frameAddr_add_le hk
    have hlast := c.cm.ram.lastpaddr_le
    obtain ⟨m, hm⟩ := hd
    obtain ⟨j, hj⟩ := c.cm.ram.frameAddr_dvd k
    rw [paddrToKvaddr_eq (by omega)] at hbelow habove ⊢
    -- both addresses are multiples of the page size
    refine mem_vpages.mpr ⟨j + 0x80000 - m, ?_, ?_⟩ <;> unfold kseg0 pageSize at * <;> omega
  · intro b' hb'
    have hne : b ≠ b' := by
      rintro rfl
      exact (List.nodup_cons.mp hh.addrs).1 (List.mem_map_of_mem hb')
    have := hh.live_apart List.mem_cons_self (List.mem_cons_of_mem _ hb') hne
    omega

/-- Pages are only handed out where there is room. -/
theorem KPages.hasRoom_of_alloc (hi : p.Inv) (hf : p.Fits n) (hne : (p.allocKpages n).1 ≠ 0) :
    p.HasRoom n := by
  rcases hs : p.allocKpages n with ⟨va, p'⟩
  rw [hs] at hne
  unfold HasRoom
  cases hc : p.cms with
  | none =>
    rcases allocKpages_none hc (hi.before hc).1 hf hs with ⟨rfl, -⟩ | ⟨-, hok, rfl⟩
    · exact absurd rfl hne
    · exact hok.le
  | some c =>
    unfold allocKpages at hs
    rw [hc] at hs
    simp only at hs
    rcases hr : c.kalloc n with ⟨pa, c'⟩
    simp only [hr] at hs
    obtain ⟨hva, -⟩ := Prod.mk.inj hs
    rcases CmSys.kalloc_cases hr with ⟨rfl, -⟩ | ⟨f, -, hle, hfree, -⟩
    · rw [if_pos rfl] at hva
      exact absurd hva.symm hne
    · exact ⟨f, hle, hfree⟩

/-- Sizes whose pages may be asked for are handled as they should be. -/
theorem KernSys.kmallocOk_of_fits (hi : KernInv s) (hsz : sz ≤ wordSize - pageSize)
    (hfit : largestSubpageSize ≤ sz → s.pages.Fits (wadd sz (pageSize - 1) / pageSize)) :
    s.KmallocOk sz := by
  rcases hk : kmalloc kpages sz s.heap s.pages with ⟨ptr, h', p'⟩
  have hinv := kmalloc_inv kpages_spec hi.1 hi.2 hfit hk
  unfold KmallocOk
  rw [hk]
  refine ⟨fun hne => ?_, fun hno => by_contra fun hne => hno ?_⟩
  · have hheap := hinv.2
    rw [if_neg hne] at hheap
    exact blockOk_of_inv hinv.1 hheap hsz
  · unfold Satisfiable
    unfold kmalloc at hk
    split_ifs at hk ⊢ with hl
    · have hround : wadd sz (pageSize - 1) = sz + (pageSize - 1) :=
        wadd_of_lt (by unfold wordSize pageSize at *; omega)
      have hroom := KPages.hasRoom_of_alloc hi.1 (hfit hl)
      rw [hround] at hk hroom
      refine hroom ?_
      rw [kpages_alloc] at hk
      rcases ha : KPages.allocKpages ((sz + (pageSize - 1)) / pageSize) s.pages with ⟨va, p₁⟩
      simp only [ha] at hk
      obtain ⟨rfl, -⟩ := Prod.mk.inj hk
      exact hne
    · unfold subpageKmalloc at hk
      cases htake : takeBlock (blocktype sz) s.heap.allbase with
      | some r => exact .inl rfl
      | none =>
        refine .inr (KPages.hasRoom_of_alloc hi.1 (kpages_spec.fits_one hi.1) fun h0 => hne ?_)
        rcases ha : KPages.allocKpages 1 s.pages with ⟨va, p₁⟩
        rw [ha] at h0
        simp only [htake, kpages_alloc, ha] at hk
        rw [if_pos h0] at hk
        exact (Prod.mk.inj hk).1.symm

end Block

/-! ## Sizes that wrap around -/

section Wrap

variable {s : KernSys} {c : CmSys} {cm : Coremap} {sz n i first k : ℕ}

/-- The search for a run of no frames stops at the first `FREE` frame. -/
theorem kallocScan_zero_isSome (hlo : i ≤ k) (hhi : k < i + n) (hk : (cm.entry k).state = .free) :
    ∃ f, kallocScan cm 0 n i first = some f := by
  induction n generalizing i first with
  | zero => omega
  | succ n ih =>
    rw [kallocScan]
    by_cases hfree : (cm.entry i).state = .free
    · rw [if_pos hfree, if_pos (Nat.zero_le _)]
      exact ⟨_, rfl⟩
    · rw [if_neg hfree]
      have hne : i ≠ k := fun e => hfree (e ▸ hk)
      exact ih (by omega) (by omega)

/-- A search finds nothing where no frame is `FREE`. -/
theorem kallocScan_full {m : ℕ} (hfull : ∀ k, i ≤ k → k < i + n → (cm.entry k).state ≠ .free) :
    kallocScan cm m n i first = none := by
  induction n generalizing i first with
  | zero => rfl
  | succ n ih =>
    rw [kallocScan, if_neg (hfull i (le_refl _) (by omega))]
    exact ih fun k h₁ h₂ => hfull k (by omega) (by omega)

/-- A size that wraps around when it is rounded up counts as no pages. -/
theorem roundup_wraps (hsz : sz < wordSize) (hlarge : wordSize - pageSize < sz) :
    wadd sz (pageSize - 1) / pageSize = 0 := by
  unfold wadd wordSize pageSize at *
  omega

/-- After the boot a request for no frames is granted where a frame is `FREE`, and no entry
changes. -/
theorem kalloc_zero (hk : k < c.cm.ramFrames) (hfree : (c.cm.entry k).state = .free) :
    ∃ f ≤ c.cm.ramFrames, (c.kalloc 0).1 = c.cm.ram.frameAddr f ∧
      (c.kalloc 0).2.cm.entry = c.cm.entry := by
  rcases hr : c.kalloc 0 with ⟨pa, c'⟩
  rcases CmSys.kalloc_cases hr with ⟨rfl, -⟩ | ⟨f, rfl, hle, -, -, -, -, -, he⟩
  · obtain ⟨f, hf⟩ : ∃ f, kallocScan c.cm 0 c.cm.ramFrames 0 0 = some f :=
      kallocScan_zero_isSome (Nat.zero_le k) (by omega) hfree
    have : (c.kalloc 0).1 = c.cm.ram.frameAddr f := by
      unfold CmSys.kalloc frameKalloc
      simp only [hf]
    rw [hr] at this
    exact absurd this.symm (c.cm.ram.frameAddr_ne_zero f)
  · exact ⟨f, hle, rfl, funext fun j => by rw [he, if_neg (by omega)]⟩

/-- **After the boot** such a size gives the address of a frame. -/
theorem kmalloc_wraps (hc : s.pages.cms = some c) (hsz : sz < wordSize)
    (hlarge : wordSize - pageSize < sz) (hk : k < c.cm.ramFrames)
    (hfree : (c.cm.entry k).state = .free) :
    ∃ f ≤ c.cm.ramFrames,
      (kmalloc kpages sz s.heap s.pages).1 = paddrToKvaddr (c.cm.ram.frameAddr f) := by
  obtain ⟨f, hle, hpa, -⟩ := kalloc_zero hk hfree
  refine ⟨f, hle, ?_⟩
  unfold kmalloc
  rw [if_pos (by unfold largestSubpageSize wordSize pageSize at *; omega),
    roundup_wraps hsz hlarge, kpages_alloc]
  unfold KPages.allocKpages
  simp only [hc, hpa, if_neg (c.cm.ram.frameAddr_ne_zero f)]

/-- **Before the boot** a size that does not fit below the end of the addresses gives the next page
to steal. -/
theorem kmalloc_wraps_steal (hi : KernInv s) (hc : s.pages.cms = none) (hsz : sz < wordSize)
    (hlarge : wordSize - pageSize < s.pages.ram.firstpaddr + sz) :
    (kmalloc kpages sz s.heap s.pages).1 = paddrToKvaddr s.pages.ram.firstpaddr := by
  have hok := (hi.1.before hc).1
  have hle := hok.le
  have htop := hok.top
  obtain ⟨m, hm⟩ := hok.dvd
  have hsteal : ramStealmem (wadd sz (pageSize - 1) / pageSize) s.pages.ram =
      (s.pages.ram.firstpaddr, { s.pages.ram with
        firstpaddr := wadd s.pages.ram.firstpaddr
          (wadd sz (pageSize - 1) / pageSize * pageSize % wordSize) }) := by
    unfold ramStealmem
    refine if_neg (Nat.not_lt.mpr (Nat.le_trans ?_ hle))
    -- the sum is back at or below `firstpaddr`
    unfold wadd wordSize pageSize at *
    omega
  unfold kmalloc
  rw [if_pos (by unfold largestSubpageSize wordSize pageSize at *; omega), kpages_alloc]
  unfold KPages.allocKpages
  simp only [hc, hsteal, if_neg (Nat.pos_iff_ne_zero.mp hok.pos)]

end Wrap

section Main

variable {s : KernSys} {c : CmSys} {sz : ℕ}

/-- An address in physical memory and a size beyond it make no block. -/
theorem not_kmallocOk_of_addr {pa : ℕ} (hpa : pa ≤ 512 * 1024 * 1024)
    (hk : (kmalloc kpages sz s.heap s.pages).1 = paddrToKvaddr pa)
    (hbig : wordSize - pageSize < pa + sz) : ¬ s.KmallocOk sz := by
  intro hok
  have hne : (kmalloc kpages sz s.heap s.pages).1 ≠ 0 := hk ▸ paddrToKvaddr_ne_zero hpa
  have hin := (hok.1 hne).inside.2
  simp only at hin
  rw [hk, paddrToKvaddr_eq hpa] at hin
  unfold kseg0 wordSize pageSize at *
  omega

/-- **The sizes that `kmalloc` handles.** Before the boot and after it, and for every consistent state
of the pages and the heap: a result other than `NULL` is a block of the size, in memory of its own,
and a size for which there is no memory gives `NULL`, if and only if neither the rounding to pages nor
an address wraps around, or no frame is `FREE` after the boot. -/
theorem kmalloc_ok_iff (hi : KernInv s) (hsz : sz < wordSize) :
    s.KmallocOk sz ↔ s.pages.Handles sz := by
  unfold KPages.Handles
  cases hc : s.pages.cms with
  | none =>
    have hr := (hi.1.before hc).1
    constructor
    · intro hok
      by_contra hbig
      exact not_kmallocOk_of_addr (Nat.le_trans hr.le hr.top)
        (kmalloc_wraps_steal hi hc hsz (Nat.not_le.mp hbig)) (Nat.not_le.mp hbig) hok
    · intro hle
      simp only at hle
      obtain ⟨m, hm⟩ := hr.dvd
      refine KernSys.kmallocOk_of_fits hi (by omega) fun hl => ⟨?_, fun _ => ?_⟩
      · rw [wadd_of_lt (by unfold wordSize pageSize at *; omega)]
        unfold largestSubpageSize pageSize at *
        omega
      · rw [wadd_of_lt (by unfold wordSize pageSize at *; omega)]
        unfold wordSize pageSize at *
        omega
  | some c =>
    simp only
    constructor
    · intro hok
      by_contra hbig
      push Not at hbig
      obtain ⟨hbig, k, hk, hfree⟩ := hbig
      obtain ⟨f, hf, haddr⟩ := kmalloc_wraps hc hsz hbig hk hfree
      have hmem := c.cm.ram.le
      have hlast := c.cm.ram.lastpaddr_le
      have hframe : c.cm.ram.frameAddr f ≤ 512 * 1024 * 1024 := by
        have := Nat.le_trans (Nat.mul_le_mul_right pageSize hf) (Nat.div_mul_le_self _ _)
        unfold RamLayout.frameAddr
        omega
      exact not_kmallocOk_of_addr hframe haddr (by omega) hok
    · intro hle
      by_cases hsmall : sz ≤ wordSize - pageSize
      · refine KernSys.kmallocOk_of_fits hi hsmall fun hl => ⟨?_, fun hn => ?_⟩
        · rw [wadd_of_lt (by unfold wordSize pageSize at *; omega)]
          unfold largestSubpageSize pageSize at *
          omega
        · rw [hc] at hn
          cases hn
      · -- no frame is `FREE`, so the request is refused
        have hnone := hle.resolve_left hsmall
        have hscan : kallocScan c.cm 0 c.cm.ramFrames 0 0 = none :=
          kallocScan_full fun k _ hk => hnone k (by omega)
        have hzero : (kmalloc kpages sz s.heap s.pages).1 = 0 := by
          unfold kmalloc
          rw [if_pos (by unfold largestSubpageSize wordSize pageSize at *; omega),
            roundup_wraps hsz (Nat.not_le.mp hsmall), kpages_alloc]
          unfold KPages.allocKpages CmSys.kalloc frameKalloc
          simp only [hc, hscan, if_true]
        exact ⟨fun hne => absurd hzero hne, fun _ => hzero⟩

/-- The first call of a machine with one megabyte is its boot. -/
def bootCall : List KernAction := [.bootstrap fun _ => evictedEntry]

/-- After the boot frame 2 is the first `FREE` one. -/
theorem exists_booted : ∃ s c, run KernSys.step (KernSys.start ram1M) bootCall = .ok s ∧
    KernInv s ∧ s.pages.cms = some c ∧ 2 < c.cm.ramFrames ∧ (c.cm.entry 2).state = .free ∧
      (kmalloc kpages 0xffffffff s.heap s.pages).1 = paddrToKvaddr 0x32000 ∧
      ((kmalloc kpages 0xffffffff s.heap s.pages).2.2.cms.map fun c => (c.cm.entry 2).state) =
        some .free := by
  have hrun : (run KernSys.step (KernSys.start ram1M) bootCall).toOption.map
      (fun s => (s.pages.cms.map fun c => (decide (2 < c.cm.ramFrames), (c.cm.entry 2).state),
        (kmalloc kpages 0xffffffff s.heap s.pages).1,
        (kmalloc kpages 0xffffffff s.heap s.pages).2.2.cms.map fun c => (c.cm.entry 2).state)) =
      some (some (true, .free), 0x80032000, some .free) := by decide +kernel
  obtain ⟨s, hs, hobs⟩ := exists_ok_of_toOption hrun
  obtain ⟨hcms, hobs⟩ := Prod.mk.inj hobs
  obtain ⟨haddr, hafter⟩ := Prod.mk.inj hobs
  obtain ⟨c, hc, hentry⟩ := Option.map_eq_some_iff.mp hcms
  obtain ⟨hlt, hfree⟩ := Prod.mk.inj hentry
  have hok : Along KernSys.step HandoverOk (KernSys.start ram1M) bootCall :=
    ⟨.inl (by decide), fun _ _ => trivial⟩
  have hi := run_inv_along KernSys.step (P := KernInv)
    (fun _ _ _ hi hok hs => kernInv_step hi hok hs) (kernInv_start ram1M) hok hs
  exact ⟨s, c, hs, hi, hc, of_decide_eq_true hlt, hfree, haddr, hafter⟩

/-- Two pages after the boot. -/
theorem kmalloc_ok_booted : ∃ s, run KernSys.step (KernSys.start ram1M) bootCall = .ok s ∧
    s.KmallocOk 5000 := by
  obtain ⟨s, c, hs, hi, hc, -⟩ := exists_booted
  refine ⟨s, hs, (kmalloc_ok_iff hi (by decide)).mpr ?_⟩
  unfold KPages.Handles
  rw [hc]
  exact .inl (by decide)

/-- The largest size gives the address of a frame that is `FREE` and stays `FREE`. -/
theorem kmalloc_oversize : ∃ s, run KernSys.step (KernSys.start ram1M) bootCall = .ok s ∧
    (kmalloc kpages 0xffffffff s.heap s.pages).1 = paddrToKvaddr (ram1M.frameAddr 2) ∧
    ((kmalloc kpages 0xffffffff s.heap s.pages).2.2.cms.map fun c => (c.cm.entry 2).state) =
      some .free ∧ ¬ s.KmallocOk 0xffffffff := by
  obtain ⟨s, c, hs, -, -, -, -, haddr, hafter⟩ := exists_booted
  exact ⟨s, hs, haddr, hafter, not_kmallocOk_of_addr (by decide) haddr (by decide)⟩

end Main

end Os161
