import Os161.Coremap.Live
import Os161.Kmalloc.Heap

set_option autoImplicit false

/-!
# Where the pages of the kernel come from

`alloc_kpages` and `free_kpages` over the boot: `ram_stealmem` before `cm_bootstrap`, the coremap
after it.

* `ramStealmem`: the allocator of `ram.c`.
* `kpages`: both functions, as a supply of pages for the heap.
* **`kpages_spec`**: what the heap relies on holds of them. A page may be given back after the boot
  when the coremap handed it out.
-/

namespace Os161

/-- The file-scope variables of `ram.c`. -/
structure Ram where
  firstpaddr : ℕ
  lastpaddr : ℕ
  deriving DecidableEq, Repr

/-- The number of whole pages between the two, `ram_frames` at the boot. -/
def Ram.frames (r : Ram) : ℕ := (r.lastpaddr - r.firstpaddr) / pageSize

/-- `ram_stealmem`: the address of the pages, `0` on failure. -/
def ramStealmem (npages : ℕ) (r : Ram) : ℕ × Ram :=
  let size := npages * pageSize % wordSize
  if r.lastpaddr < wadd r.firstpaddr size then (0, r)
  else (r.firstpaddr, { r with firstpaddr := wadd r.firstpaddr size })

/-- What `ram_bootstrap` leaves. -/
def RamLayout.toRam (ram : RamLayout) : Ram := ⟨ram.firstpaddr, ram.lastpaddr⟩

/-- The variables describe free memory, as `ram_bootstrap` set them up. -/
structure Ram.Ok (r : Ram) : Prop where
  pos : 0 < r.firstpaddr
  dvd : pageSize ∣ r.firstpaddr
  le : r.firstpaddr ≤ r.lastpaddr
  top : r.lastpaddr ≤ 512 * 1024 * 1024

instance (r : Ram) : Decidable r.Ok :=
  decidable_of_iff (0 < r.firstpaddr ∧ pageSize ∣ r.firstpaddr ∧ r.firstpaddr ≤ r.lastpaddr ∧
      r.lastpaddr ≤ 512 * 1024 * 1024)
    ⟨fun ⟨h₁, h₂, h₃, h₄⟩ => ⟨h₁, h₂, h₃, h₄⟩, fun ⟨h₁, h₂, h₃, h₄⟩ => ⟨h₁, h₂, h₃, h₄⟩⟩

/-- What `cm_bootstrap` samples. -/
def Ram.layout (r : Ram) (h : r.Ok) : RamLayout where
  firstpaddr := r.firstpaddr
  lastpaddr := r.lastpaddr
  firstpaddr_pos := h.pos
  firstpaddr_dvd := h.dvd
  le := h.le
  lastpaddr_le := h.top

theorem RamLayout.toRam_ok (ram : RamLayout) : ram.toRam.Ok :=
  ⟨ram.firstpaddr_pos, ram.firstpaddr_dvd, ram.le, ram.lastpaddr_le⟩

/-- A call of `frame_kfree`: its argument, and the coremap it finds with the allocations that are
live then. -/
structure FreeCall where
  addr : ℕ
  before : CmSys

/-- The memory that the kernel pages come from: `ram.c`, the coremap once it is bootstrapped, the
pages that `ram_stealmem` handed out, and the calls of `frame_kfree` so far. -/
structure KPages where
  ram : Ram
  cms : Option CmSys
  stolen : List (ℕ × ℕ)
  calls : List FreeCall

namespace KPages

/-- After `ram_bootstrap`. -/
def start (ram : RamLayout) : KPages := ⟨ram.toRam, none, [], []⟩

/-- `alloc_kpages`. -/
def allocKpages (npages : ℕ) (s : KPages) : ℕ × KPages :=
  match s.cms with
  | some c =>
    let (pa, c') := c.kalloc npages
    (if pa = 0 then 0 else paddrToKvaddr pa, { s with cms := some c' })
  | none =>
    let (pa, ram) := ramStealmem npages s.ram
    if pa = 0 then (0, { s with ram := ram })
    else (paddrToKvaddr pa, { s with ram := ram, stolen := (pa, npages) :: s.stolen })

/-- `free_kpages`. Before the boot it leaks the memory; after it, it makes no difference between
the coremap's pages and stolen ones. -/
def freeKpages (addr : ℕ) (s : KPages) : KPages :=
  match s.cms with
  | some c =>
    { s with
      cms := some { c with
        cm := frameKfree c.cm addr
        live := c.live.filter fun a => a.owner ≠ none ∨ paddrToKvaddr a.paddr ≠ addr }
      calls := ⟨addr, c⟩ :: s.calls }
  | none => s

/-- The kernel blocks that the coremap handed out. -/
def kernelAllocs (c : CmSys) : List Alloc := c.live.filter fun a => a.owner = none

/-- The pages handed out by `alloc_kpages` and not taken back. -/
def held (s : KPages) : List (ℕ × ℕ) :=
  (s.stolen.map fun e => (paddrToKvaddr e.1, e.2)) ++
    s.cms.elim [] fun c => (kernelAllocs c).map fun a => (paddrToKvaddr a.paddr, a.npages)

/-- The sizes that `alloc_kpages` may be asked for: at least one page, and before the boot none that
wraps around the address space. -/
def Fits (s : KPages) (n : ℕ) : Prop :=
  1 ≤ n ∧ (s.cms = none → s.ram.firstpaddr + n * pageSize < wordSize)

/-- The addresses that `free_kpages` may be given: after the boot, those of the coremap's blocks. -/
def Freeable (s : KPages) (va : ℕ) : Prop :=
  ∀ c, s.cms = some c → ∃ a ∈ c.live, a.owner = none ∧ va = paddrToKvaddr a.paddr

end KPages

/-- `alloc_kpages` and `free_kpages`. -/
def kpages : PageAlloc KPages := ⟨KPages.allocKpages, KPages.freeKpages⟩

theorem kpages_alloc (n : ℕ) (s : KPages) : kpages.alloc n s = s.allocKpages n := rfl

/-- The call frees the frames of one live kernel block, at an index inside the coremap, and touches
no other entry. -/
def FreeCall.Sound (call : FreeCall) : Prop :=
  call.before.cm.ram.frameIndex (wsub call.addr kseg0) < call.before.cm.ramFrames ∧
  ∃ a ∈ call.before.live, a.owner = none ∧ call.addr = paddrToKvaddr a.paddr ∧
    ∀ k, (frameKfree call.before.cm call.addr).entry k =
      if k < call.before.cm.ramFrames ∧ call.before.cm.ram.frameAddr k ∈ a.pages
      then kfreeEntry (call.before.cm.entry k) else call.before.cm.entry k

/-- **The pages of the kernel.** Stolen pages lie below the memory still to be stolen, and after the
boot below the memory of the coremap or in a reserved frame. -/
structure KPages.Inv (s : KPages) : Prop where
  aligned : ∀ e ∈ s.stolen, pageSize ∣ e.1 ∧ 0 < e.1 ∧ 1 ≤ e.2 ∧
    e.1 + e.2 * pageSize ≤ 512 * 1024 * 1024
  before : s.cms = none → s.ram.Ok ∧ ∀ e ∈ s.stolen, e.1 + e.2 * pageSize ≤ s.ram.firstpaddr
  after : ∀ c, s.cms = some c → CmInv c ∧ ∀ e ∈ s.stolen, ∀ i < e.2, ∀ k < c.cm.ramFrames,
    c.cm.ram.frameAddr k = e.1 + i * pageSize → reserved c.cm.ram k = true
  calls : ∀ call ∈ s.calls, call.Sound

/-! ## Addresses of the kernel -/

section Address

variable {pa pa' n n' q : ℕ}

theorem paddrToKvaddr_eq (h : pa ≤ 512 * 1024 * 1024) : paddrToKvaddr pa = pa + kseg0 :=
  wadd_of_lt (by unfold kseg0 wordSize; omega)

theorem paddrToKvaddr_ne_zero (h : pa ≤ 512 * 1024 * 1024) : paddrToKvaddr pa ≠ 0 := by
  rw [paddrToKvaddr_eq h]
  unfold kseg0
  omega

theorem mem_vpages_paddrToKvaddr (hq : q ≤ 512 * 1024 * 1024) (h : pa ≤ 512 * 1024 * 1024) :
    paddrToKvaddr q ∈ vpages (paddrToKvaddr pa) n ↔ ∃ i < n, q = pa + i * pageSize := by
  rw [mem_vpages, paddrToKvaddr_eq hq, paddrToKvaddr_eq h]
  refine exists_congr fun i => and_congr_right fun _ => ?_
  omega

/-- Blocks of physical memory with a common page are at the same place there. -/
theorem page_of_mem_vpages (h : pa + n * pageSize ≤ 512 * 1024 * 1024)
    (h' : pa' + n' * pageSize ≤ 512 * 1024 * 1024)
    (hq : q ∈ vpages (paddrToKvaddr pa) n) (hq' : q ∈ vpages (paddrToKvaddr pa') n') :
    ∃ i < n, ∃ j < n', pa + i * pageSize = pa' + j * pageSize := by
  obtain ⟨i, hi, rfl⟩ := mem_vpages.mp hq
  obtain ⟨j, hj, he⟩ := mem_vpages.mp hq'
  rw [paddrToKvaddr_eq (by omega), paddrToKvaddr_eq (by omega)] at he
  exact ⟨i, hi, j, hj, by omega⟩

theorem dvd_paddrToKvaddr (h : pa ≤ 512 * 1024 * 1024) (hd : pageSize ∣ pa) :
    pageSize ∣ paddrToKvaddr pa := by
  rw [paddrToKvaddr_eq h]
  exact (Nat.dvd_add_right hd).mpr (by decide)

end Address

/-! ## Stealing -/

/-- `ram_stealmem`: the memory is used up, or the next pages. -/
theorem ramStealmem_cases {n pa : ℕ} {r r' : Ram} (hr : r.Ok)
    (hn : r.firstpaddr + n * pageSize < wordSize) (h : ramStealmem n r = (pa, r')) :
    (pa = 0 ∧ r' = r) ∨
    (pa = r.firstpaddr ∧ r' = { r with firstpaddr := r.firstpaddr + n * pageSize } ∧ r'.Ok) := by
  have hsize : n * pageSize % wordSize = n * pageSize := Nat.mod_eq_of_lt (by omega)
  unfold ramStealmem at h
  simp only [hsize, wadd_of_lt hn] at h
  split_ifs at h with hle
  · cases h
    exact .inl ⟨rfl, rfl⟩
  · cases h
    refine .inr ⟨rfl, rfl, ⟨?_, ?_, Nat.not_lt.mp hle, hr.top⟩⟩
    · exact Nat.lt_of_lt_of_le hr.pos (Nat.le_add_right _ _)
    · exact (Nat.dvd_add_right hr.dvd).mpr ⟨n, Nat.mul_comm _ _⟩

/-! ## The supply -/

namespace KPages

variable {s s' : KPages} {c c' : CmSys} {a b : Alloc} {e : ℕ × ℕ} {n va : ℕ}

theorem mem_held_stolen (he : e ∈ s.stolen) : (paddrToKvaddr e.1, e.2) ∈ s.held :=
  List.mem_append_left _ (List.mem_map_of_mem he)

theorem mem_held_alloc (hc : s.cms = some c) (ha : a ∈ c.live) (ho : a.owner = none) :
    (paddrToKvaddr a.paddr, a.npages) ∈ s.held := by
  refine List.mem_append_right _ ?_
  rw [hc]
  exact List.mem_map_of_mem (List.mem_filter.mpr ⟨ha, decide_eq_true ho⟩)

theorem mem_held :
    e ∈ s.held ↔ (∃ e' ∈ s.stolen, e = (paddrToKvaddr e'.1, e'.2)) ∨
      ∃ c, s.cms = some c ∧ ∃ a ∈ c.live, a.owner = none ∧
        e = (paddrToKvaddr a.paddr, a.npages) := by
  constructor
  · intro he
    rcases List.mem_append.mp he with he | he
    · obtain ⟨e', he', rfl⟩ := List.mem_map.mp he
      exact .inl ⟨e', he', rfl⟩
    · cases hc : s.cms with
      | none => rw [hc] at he; cases he
      | some c =>
        rw [hc] at he
        obtain ⟨a, ha, rfl⟩ := List.mem_map.mp he
        obtain ⟨hlive, ho⟩ := List.mem_filter.mp ha
        exact .inr ⟨c, rfl, a, hlive, of_decide_eq_true ho, rfl⟩
  · rintro (⟨e', he', rfl⟩ | ⟨c, hc, a, ha, ho, rfl⟩)
    · exact mem_held_stolen he'
    · exact mem_held_alloc hc ha ho

/-- A live block lies in physical memory. -/
theorem top_of_live (hi : CmInv c) (ha : a ∈ c.live) :
    a.paddr + a.npages * pageSize ≤ 512 * 1024 * 1024 := by
  obtain ⟨-, -, f, hf, hle⟩ := hi.range a ha
  have htop := c.cm.ram.lastpaddr_le
  have hmem := c.cm.ram.le
  have : (f + a.npages) * pageSize ≤ c.cm.ram.lastpaddr - c.cm.ram.firstpaddr :=
    Nat.le_trans (Nat.mul_le_mul_right _ hle) (Nat.div_mul_le_self _ _)
  rw [hf]
  unfold RamLayout.frameAddr pageSize at *
  omega

/-- Two live blocks with a common page are one. -/
theorem eq_of_mem_vpages (hi : CmInv c) (ha : a ∈ c.live) (hb : b ∈ c.live) {q : ℕ}
    (hqa : q ∈ vpages (paddrToKvaddr a.paddr) a.npages)
    (hqb : q ∈ vpages (paddrToKvaddr b.paddr) b.npages) : a = b := by
  obtain ⟨i, hia, j, hjb, he⟩ :=
    page_of_mem_vpages (top_of_live hi ha) (top_of_live hi hb) hqa hqb
  obtain ⟨-, -, f, hf, hle⟩ := hi.range a ha
  have hframe : c.cm.ram.frameAddr (f + i) = a.paddr + i * pageSize := by
    rw [hf]
    unfold RamLayout.frameAddr
    rw [Nat.add_mul, Nat.add_assoc]
  exact hi.unique ha hb ⟨i, hia, hframe⟩ ⟨j, hjb, hframe.trans he⟩

/-- A live block has no page in common with a stolen one. -/
theorem Inv.stolen_disjoint (hi : s.Inv) (hc : s.cms = some c) (he : e ∈ s.stolen)
    (ha : a ∈ c.live) {q : ℕ} (hqe : q ∈ vpages (paddrToKvaddr e.1) e.2)
    (hqa : q ∈ vpages (paddrToKvaddr a.paddr) a.npages) : False := by
  obtain ⟨hcm, hres⟩ := hi.after c hc
  obtain ⟨j, hj, i, hia, heq⟩ :=
    page_of_mem_vpages (hi.aligned e he).2.2.2 (top_of_live hcm ha) hqe hqa
  obtain ⟨-, -, f, hf, hle⟩ := hcm.range a ha
  have hframe : c.cm.ram.frameAddr (f + i) = a.paddr + i * pageSize := by
    rw [hf]
    unfold RamLayout.frameAddr
    rw [Nat.add_mul, Nat.add_assoc]
  have hr := hres e he j hj (f + i) (by omega) (hframe.trans heq.symm)
  rw [(hcm.held a ha (f + i) ⟨i, hia, hframe⟩).1] at hr
  cases hr

/-- `alloc_kpages` before the boot: failure, or the next pages. -/
theorem allocKpages_none (hc : s.cms = none) (hok : s.ram.Ok) (hfit : s.Fits n)
    (hs : s.allocKpages n = (va, s')) :
    (va = 0 ∧ s' = s) ∨
    (paddrToKvaddr s.ram.firstpaddr = va ∧ s'.ram.Ok ∧
      s' = ⟨⟨s.ram.firstpaddr + n * pageSize, s.ram.lastpaddr⟩, none,
        (s.ram.firstpaddr, n) :: s.stolen, s.calls⟩) := by
  obtain ⟨ram, cms, stolen, calls⟩ := s
  simp only at hc
  subst hc
  unfold allocKpages at hs
  simp only at hs
  rcases hr : ramStealmem n ram with ⟨pa, ram'⟩
  simp only [hr] at hs
  rcases ramStealmem_cases hok (hfit.2 rfl) hr with ⟨rfl, rfl⟩ | ⟨rfl, rfl, hok'⟩
  · rw [if_pos rfl] at hs
    obtain ⟨rfl, rfl⟩ := Prod.mk.inj hs
    exact .inl ⟨rfl, rfl⟩
  · rw [if_neg (Nat.pos_iff_ne_zero.mp hok.pos)] at hs
    obtain ⟨rfl, rfl⟩ := Prod.mk.inj hs
    exact .inr ⟨rfl, hok', rfl⟩

/-- A block of the coremap is held with its length only. -/
theorem Inv.npages_of_held (hi : s.Inv) (hc : s.cms = some c) (hheld : (va, n) ∈ s.held)
    (ha : a ∈ c.live) (hva : va = paddrToKvaddr a.paddr) : n = a.npages := by
  obtain ⟨hcm, -⟩ := hi.after c hc
  have hself := self_mem_vpages (paddrToKvaddr a.paddr) (hcm.range a ha).1
  rcases mem_held.mp hheld with ⟨e, he, heq⟩ | ⟨c', hc', b, hb, -, heq⟩
  · obtain ⟨hva', -⟩ := Prod.mk.inj heq
    have hself' := self_mem_vpages (paddrToKvaddr e.1) (hi.aligned e he).2.2.1
    refine (hi.stolen_disjoint hc he ha hself' ?_).elim
    rw [← hva', hva]
    exact hself
  · obtain rfl := Option.some.inj (hc.symm.trans hc')
    obtain ⟨hva', rfl⟩ := Prod.mk.inj heq
    have hself' := self_mem_vpages (paddrToKvaddr b.paddr) (hcm.range b hb).1
    rw [eq_of_mem_vpages hcm hb ha hself' (by rw [← hva', hva]; exact hself)]

/-- Before the boot: the next pages are new. -/
theorem inv_steal (hi : s.Inv) (hc : s.cms = none) (hfit : s.Fits n)
    (hs : s.allocKpages n = (va, s')) :
    s'.Inv ∧ (∀ e ∈ s.held, e ∈ s'.held) ∧ (∀ va', s.Freeable va' → s'.Freeable va') ∧
      (va ≠ 0 → (va, n) ∈ s'.held ∧ s'.Freeable va ∧ pageSize ∣ va ∧
        ∀ q ∈ vpages va n, ∀ e ∈ s.held, q ∉ vpages e.1 e.2) := by
  obtain ⟨hok, hbelow⟩ := hi.before hc
  rcases allocKpages_none hc hok hfit hs with ⟨rfl, rfl⟩ | ⟨rfl, hok', rfl⟩
  · exact ⟨hi, fun e he => he, fun va' hv => hv, fun hne => absurd rfl hne⟩
  have htop := hok'.le
  have hlast := hok.top
  simp only at htop
  have hpa : s.ram.firstpaddr ≤ 512 * 1024 * 1024 := by omega
  have hold : ∀ {e}, e ∈ s.held → ∃ e' ∈ s.stolen, e = (paddrToKvaddr e'.1, e'.2) := by
    intro e he
    rcases mem_held.mp he with he | ⟨c, hc', -⟩
    · exact he
    · rw [hc] at hc'
      cases hc'
  refine ⟨⟨?_, fun _ => ⟨hok', ?_⟩, (by rintro c ⟨⟩), hi.calls⟩, ?_, ?_, fun _ => ⟨?_, ?_, ?_, ?_⟩⟩
  · intro e he
    rcases List.mem_cons.mp he with rfl | he
    · exact ⟨hok.dvd, hok.pos, hfit.1, by simp only; omega⟩
    · exact hi.aligned e he
  · intro e he
    rcases List.mem_cons.mp he with rfl | he
    · exact le_refl _
    · exact Nat.le_trans (hbelow e he) (Nat.le_add_right _ _)
  · intro e he
    obtain ⟨e', he', rfl⟩ := hold he
    exact mem_held_stolen (List.mem_cons_of_mem _ he')
  · rintro va' - c ⟨⟩
  · exact mem_held_stolen (e := (s.ram.firstpaddr, n)) List.mem_cons_self
  · rintro c ⟨⟩
  · exact dvd_paddrToKvaddr hpa hok.dvd
  · intro q hq e he hqe
    obtain ⟨e', he', rfl⟩ := hold he
    obtain ⟨i, hin, j, hj, heq⟩ :=
      page_of_mem_vpages (show s.ram.firstpaddr + n * pageSize ≤ 512 * 1024 * 1024 by omega)
        (hi.aligned e' he').2.2.2 hq hqe
    have := hbelow e' he'
    have : (j + 1) * pageSize ≤ e'.2 * pageSize := Nat.mul_le_mul_right _ hj
    unfold pageSize at *
    omega

/-- After the boot: a block of the coremap. -/
theorem inv_kalloc (hi : s.Inv) (hc : s.cms = some c) (hn : 1 ≤ n)
    (hs : s.allocKpages n = (va, s')) :
    s'.Inv ∧ (∀ e ∈ s.held, e ∈ s'.held) ∧ (∀ va', s.Freeable va' → s'.Freeable va') ∧
      (va ≠ 0 → (va, n) ∈ s'.held ∧ s'.Freeable va ∧ pageSize ∣ va ∧
        ∀ q ∈ vpages va n, ∀ e ∈ s.held, q ∉ vpages e.1 e.2) := by
  obtain ⟨hcm, hres⟩ := hi.after c hc
  obtain ⟨ram, cms, stolen, calls⟩ := s
  simp only at hc
  subst hc
  unfold allocKpages at hs
  simp only at hs
  rcases hr : c.kalloc n with ⟨pa, c'⟩
  have hcm' := cmInv_kalloc hcm hn hr
  simp only [hr] at hs
  obtain ⟨hva, rfl⟩ := Prod.mk.inj hs
  rcases CmSys.kalloc_cases hr with ⟨rfl, rfl⟩ | ⟨f, hpa, hle, -, hram, hlive, -, -, -⟩
  · rw [if_pos rfl] at hva
    exact ⟨hi, fun e he => he, fun va' hv => hv, fun hne => absurd hva.symm hne⟩
  · have hne : pa ≠ 0 := hpa ▸ c.cm.ram.frameAddr_ne_zero f
    rw [if_neg hne] at hva
    subst hva
    have hnew : (⟨pa, n, none⟩ : Alloc) ∈ c'.live := by rw [hlive]; exact List.mem_cons_self
    have hkeep : ∀ a ∈ c.live, a ∈ c'.live := fun a ha => by
      rw [hlive]; exact List.mem_cons_of_mem _ ha
    have hinv : Inv ⟨ram, some c', stolen, calls⟩ := by
      refine ⟨hi.aligned, by rintro ⟨⟩, ?_, hi.calls⟩
      rintro _ ⟨⟩
      refine ⟨hcm', ?_⟩
      unfold Coremap.ramFrames
      rw [hram]
      exact hres
    have htop := top_of_live hcm' hnew
    refine ⟨hinv, ?_, ?_, fun _ => ⟨?_, ?_, ?_, ?_⟩⟩
    · intro e he
      rcases mem_held.mp he with ⟨e', he', rfl⟩ | ⟨_, ⟨⟩, a, ha, ho, rfl⟩
      · exact mem_held_stolen (s := ⟨ram, some c', stolen, calls⟩) he'
      · exact mem_held_alloc (s := ⟨ram, some c', stolen, calls⟩) rfl (hkeep a ha) ho
    · rintro va' hv _ ⟨⟩
      obtain ⟨a, ha, ho, he⟩ := hv c rfl
      exact ⟨a, hkeep a ha, ho, he⟩
    · exact mem_held_alloc (s := ⟨ram, some c', stolen, calls⟩) (a := ⟨pa, n, none⟩) rfl hnew rfl
    · rintro _ ⟨⟩
      exact ⟨_, hnew, rfl, rfl⟩
    · refine dvd_paddrToKvaddr (by simp only at htop; omega) ?_
      rw [hpa]
      exact c.cm.ram.frameAddr_dvd f
    · intro q hq e he hqe
      rcases mem_held.mp he with ⟨e', he', rfl⟩ | ⟨_, ⟨⟩, a, ha, ho, rfl⟩
      · exact hinv.stolen_disjoint rfl he' hnew hqe hq
      · have heq := eq_of_mem_vpages hcm' hnew (hkeep a ha) hq hqe
        have hdis := hcm'.disjoint
        rw [hlive, List.pairwise_cons] at hdis
        have hhold : Alloc.Holds c'.cm.ram ⟨pa, n, none⟩ f := Alloc.holds_first (by rw [hram, hpa]) hn
        exact hdis.1 a ha f hhold (heq ▸ hhold)

/-- `free_kpages` of a block of the coremap is `frame_kfree` of this block. -/
theorem freeKpages_eq (hi : CmInv c) (hc : s.cms = some c) (ha : a ∈ c.live) (ho : a.owner = none) :
    s.freeKpages (paddrToKvaddr a.paddr) = { s with
      cms := some (c.kfree a), calls := ⟨paddrToKvaddr a.paddr, c⟩ :: s.calls } := by
  unfold freeKpages
  simp only [hc]
  congr 2
  unfold CmSys.kfree
  congr 1
  refine List.filter_congr fun b hb => decide_eq_decide.mpr ?_
  constructor
  · rintro h rfl
    rcases h with h | h
    · exact h ho
    · exact h rfl
  · intro hne
    by_contra hc
    push Not at hc
    obtain ⟨-, hpaddr⟩ := hc
    have hself := self_mem_vpages (paddrToKvaddr a.paddr) (hi.range a ha).1
    have hself' := self_mem_vpages (paddrToKvaddr b.paddr) (hi.range b hb).1
    rw [hpaddr] at hself'
    exact hne (eq_of_mem_vpages hi hb ha (by rw [hpaddr]; exact hself') hself)

/-- `free_kpages` makes a sound call of `frame_kfree` for a block of the coremap. -/
theorem sound_of_live (hi : CmInv c) (ha : a ∈ c.live) (ho : a.owner = none) :
    FreeCall.Sound ⟨paddrToKvaddr a.paddr, c⟩ := by
  obtain ⟨hpos, -, f, hf, hle⟩ := hi.range a ha
  refine ⟨?_, a, ha, ho, rfl, kfree_entry hi ha ho⟩
  have hlt : f < c.cm.ramFrames := by omega
  have h₁ := c.cm.ram.frameAddr_lt hlt
  have h₂ := c.cm.ram.lastpaddr_le
  simp only [hf]
  rw [paddrToKvaddr, wsub_wadd (by unfold wordSize; omega), c.cm.ram.frameIndex_frameAddr hlt]
  exact hlt

/-- A page goes back. -/
theorem inv_free (hi : s.Inv) (hheld : (va, n) ∈ s.held) (hfree : s.Freeable va) :
    (s.freeKpages va).Inv ∧ ∀ e ∈ s.held, e ≠ (va, n) → e ∈ (s.freeKpages va).held := by
  obtain ⟨ram, cms, stolen, calls⟩ := s
  cases cms with
  | none => exact ⟨hi, fun e he _ => he⟩
  | some c =>
    obtain ⟨hcm, hres⟩ := hi.after c rfl
    obtain ⟨a, ha, ho, hva⟩ := hfree c rfl
    rw [hva] at hheld ⊢
    rw [freeKpages_eq hcm rfl ha ho]
    refine ⟨⟨hi.aligned, by rintro ⟨⟩, ?_, ?_⟩, fun e he hne => ?_⟩
    · rintro _ ⟨⟩
      exact ⟨cmInv_kfree hcm ha ho, hres⟩
    · intro call hcall
      rcases List.mem_cons.mp hcall with rfl | hcall
      · exact sound_of_live hcm ha ho
      · exact hi.calls call hcall
    · rcases mem_held.mp he with ⟨e', he', rfl⟩ | ⟨_, ⟨⟩, b, hb, hob, rfl⟩
      · exact mem_held_stolen (s := ⟨ram, some (c.kfree a), stolen, _⟩) he'
      · refine mem_held_alloc (s := ⟨ram, some (c.kfree a), stolen, _⟩) rfl
          (List.mem_filter.mpr ⟨hb, ?_⟩) hob
        refine decide_eq_true fun hba => hne ?_
        subst hba
        rw [hi.npages_of_held rfl hheld ha rfl]

end KPages

theorem KPages.inv_start (ram : RamLayout) : (KPages.start ram).Inv := by
  refine ⟨?_, fun _ => ⟨ram.toRam_ok, ?_⟩, (by rintro c ⟨⟩), ?_⟩ <;> (intro e he; cases he)

/-- **What the heap relies on** holds of `alloc_kpages` and `free_kpages`. -/
theorem kpages_spec : kpages.Spec KPages.Inv KPages.held KPages.Fits KPages.Freeable where
  fits_one := fun {s} hi => by
    refine ⟨le_refl _, fun hc => ?_⟩
    have h₁ := (hi.before hc).1.le
    have h₂ := (hi.before hc).1.top
    unfold pageSize wordSize
    omega
  fits_pos := fun hf => hf.1
  alloc := fun {s s' n va} hi hf hs => by
    cases hc : s.cms with
    | none => exact KPages.inv_steal hi hc hf hs
    | some c => exact KPages.inv_kalloc hi hc hf.1 hs
  free := fun hi hheld hfree => KPages.inv_free hi hheld hfree

end Os161
