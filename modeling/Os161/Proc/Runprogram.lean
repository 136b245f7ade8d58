import Os161.Elf.Validate
import Os161.Swap.Model

set_option autoImplicit false

/-!
# Starting a program that fails

`runprogram` and what it calls, with a `kmalloc` and a `VOP_READ` that can fail, and a record of
the blocks and references that are acquired and released. Apart from `as_create` no caller of `kmalloc`
looks at a null pointer before it writes through it.

* `Exec.runprogram`, `Exec.asDestroy`, `threadExit`: the code.
* `Accounted`: every resource is owned or released.
* `loadSegments_ok`: what is loaded is what `load_elf` loads when `kmalloc` succeeds.
* **`failureClean_iff`**: after which failures everything is released.
-/

namespace Os161

/-- What `runprogram` acquires: a block of the kernel heap, a reference to a vnode. -/
inductive Resource
  | block (addr : ℕ)
  | vnode (v : FileId)
  deriving DecidableEq, Repr

/-- How the kernel fails while a program is started. -/
inductive Crash
  | nullPointer
  | undefined
  | kassert
  deriving DecidableEq, Repr

/-- The errors that `runprogram` returns, apart from those of `vfs_open`. -/
inductive Errno
  | vfs (e : ℕ)
  | enomem
  | enoexec
  | eio
  deriving DecidableEq, Repr

/-- What the rest of the kernel answers: the results of the calls of `kmalloc` in their order, and
which reads of the program file fail, `0` that of the executable header and `i + 1` that of program
header `i`. -/
structure Answers where
  kmalloc : ℕ → Option ℕ
  eio : ℕ → Bool

/-- The calls of `kmalloc` so far, and what was acquired and released. -/
structure Holdings where
  calls : ℕ
  acquired : List Resource
  released : List Resource

namespace Holdings

/-- Before the first call. -/
def empty : Holdings := ⟨0, [], []⟩

/-- A reference is taken. -/
def acquire (L : Holdings) (r : Resource) : Holdings := { L with acquired := r :: L.acquired }

/-- `kfree`, or a reference is dropped. -/
def release (L : Holdings) (r : Resource) : Holdings := { L with released := r :: L.released }

/-- A call of `kmalloc` that returns `a`. -/
def grant (L : Holdings) (a : ℕ) : Holdings :=
  { L.acquire (.block a) with calls := L.calls + 1 }

/-- A `kmalloc` whose result is written through without a check. -/
def kmalloc (w : Answers) (L : Holdings) : Except Crash (ℕ × Holdings) :=
  match w.kmalloc L.calls with
  | some a => .ok (a, L.grant a)
  | none => .error .nullPointer

end Holdings

namespace Exec

/-- `sgm_create`: the blocks of the segment and of its permissions. -/
def sgmCreate (w : Answers) (L : Holdings) : Except Crash ((ℕ × ℕ) × Holdings) := do
  let (sgm, L) ← L.kmalloc w
  let (permission, L) ← L.kmalloc w
  return ((sgm, permission), L)

/-- The loop of `as_define_region` and `as_define_stack` that calls `pt_create` for `n` pages. -/
def ptChain (w : Answers) (page : ℕ → ℕ) :
    (n i : ℕ) → Holdings → Except Crash (List PtEntry × Holdings)
  | 0, _, L => .ok ([], L)
  | n + 1, i, L => do
    let (a, L) ← L.kmalloc w
    let (chain, L) ← ptChain w page n (i + 1) L
    return (ptCreate a (page i) :: chain, L)

/-- `as_define_region` for a program header. -/
def asDefineRegion (w : Answers) (as : Addrspace) (ph : ElfPhdr) (L : Holdings) :
    Except Crash (Addrspace × Holdings) := do
  let npages := regionPages ph.pVaddr ph.pMemsz
  let ((sgm, permission), L) ← sgmCreate w L
  let (chain, L) ← ptChain w (fun i => wadd (pageFrame ph.pVaddr) (i * pageSize)) npages 0 L
  if npages = 0 then .error .undefined
  else return ({ as with
    pt := chain ++ as.pt
    segments := ⟨sgm, permission, pageFrame ph.pVaddr, npages, ph.pMemsz, ph.pOffset,
      ph.pFlags &&& 4, ph.pFlags &&& 2, ph.pFlags &&& 1, npages + as.pt.length⟩ :: as.segments }, L)

/-- `as_define_stack`. -/
def asDefineStack (w : Answers) (as : Addrspace) (L : Holdings) :
    Except Crash (Addrspace × Holdings) := do
  let ((sgm, permission), L) ← sgmCreate w L
  let (chain, L) ← ptChain w (fun i => userStack - (i + 1) * pageSize) stackPages 0 L
  return ({ as with
    pt := chain ++ as.pt
    segments := ⟨sgm, permission, userStack - stackPages * pageSize, stackPages, 0, -1, 4, 2, 0,
      stackPages + as.pt.length⟩ :: as.segments }, L)

/-- The loop of `load_elf`: an error return leaves the regions defined so far. -/
def loadSegments (w : Answers) (file : List UInt8) (eh : ElfEhdr) :
    (n i : ℕ) → Addrspace → Holdings → Except Crash (Option Errno × Addrspace × Holdings)
  | 0, _, as, L => .ok (none, as, L)
  | n + 1, i, as, L =>
    if w.eio (i + 1) then .ok (some .eio, as, L)
    else match readPhdr file eh i with
    | none => .ok (some .enoexec, as, L)
    | some ph =>
      if ph.pType ∈ skippedTypes then loadSegments w file eh n (i + 1) as L
      else if ph.pType = ptLoad then do
        let (as, L) ← asDefineRegion w as ph L
        loadSegments w file eh n (i + 1) as L
      else .ok (some .enoexec, as, L)

/-- `load_elf`. -/
def loadElf (w : Answers) (file : List UInt8) (v : FileId) (as : Addrspace) (L : Holdings) :
    Except Crash (Except Errno ℕ × Addrspace × Holdings) :=
  if w.eio 0 then .ok (.error .eio, as, L)
  else match readEhdr file with
  | none => .ok (.error .enoexec, as, L)
  | some eh =>
    if eh.accepted then do
      let (e, as, L) ← loadSegments w file eh eh.ePhnum 0 as L
      match e with
      | some e => return (.error e, as, L)
      | none => return (.ok eh.eEntry, asCompleteLoad as v, L)
    else .ok (.error .enoexec, as, L)

/-- The process that `common_prog` made for a program, with its address space and the block of it. -/
structure Process where
  addrspace : Option (AsId × Addrspace)
  numthreads : ℕ
  holdings : Holdings

/-- As `proc_create_runprogram` and `thread_fork` leave it. -/
def newProcess : Process := ⟨none, 1, .empty⟩

/-- `runprogram` up to the warp to user mode; `opened` is the result of `vfs_open` and `file` the
contents of the file. -/
def runprogram (w : Answers) (opened : Except ℕ FileId) (file : List UInt8) (p : Process) :
    Except Crash (Except Errno ℕ × Process) :=
  match opened with
  | .error e => .ok (.error (.vfs e), p)
  | .ok v =>
    let L := p.holdings.acquire (.vnode v)
    if p.addrspace.isSome then .error .kassert
    else match w.kmalloc L.calls with
    | none => .ok (.error .enomem, { p with holdings := L.release (.vnode v) })
    | some a => do
      let (r, as, L) ← loadElf w file v asCreate (L.grant a)
      match r with
      | .error e =>
        return (.error e, { p with addrspace := some (a, as), holdings := L.release (.vnode v) })
      | .ok entrypoint =>
        let (as, L) ← asDefineStack w as L
        return (.ok entrypoint, { p with addrspace := some (a, as), holdings := L })

/-- `thread_exit`, which `thread_startup` calls when `cmd_progthread` returns. -/
def threadExit (p : Process) : Process := { p with numthreads := p.numthreads - 1 }

/-- `pt_free`. -/
def ptFree (pt : List PtEntry) (L : Holdings) : Holdings :=
  pt.foldl (fun L e => L.release (.block e.addr)) L

/-- `sgm_free`. -/
def sgmFree (segments : List SegmentEntry) (L : Holdings) : Holdings :=
  segments.foldl (fun L s => (L.release (.block s.permissionAddr)).release (.block s.addr)) L

/-- `vfs_close`: `vnode_decref` asserts that the vnode is not `NULL`. -/
def vfsClose (v : Option FileId) (L : Holdings) : Except Crash Holdings :=
  match v with
  | some v => .ok (L.release (.vnode v))
  | none => .error .kassert

/-- `as_destroy`. -/
def asDestroy (cm : Coremap) (sw : SwapSpace) (a : AsId) (as : Addrspace) (L : Holdings) :
    Except Crash (Coremap × SwapSpace × Holdings) := do
  let L ← vfsClose as.elfFile (sgmFree as.segments (ptFree as.pt L))
  return (cmAsfree cm a, swapAsfree sw a, L.release (.block a))

end Exec

/-! ## Every resource is owned or released -/

/-- The blocks of an address space, apart from its own. -/
def Addrspace.blocks (as : Addrspace) : List Resource :=
  as.pt.map (fun e => .block e.addr) ++
    as.segments.flatMap fun s => [.block s.permissionAddr, .block s.addr]

/-- **What was acquired is owned or released**, once for each time it was acquired. -/
def Accounted (L : Holdings) (owned : List Resource) : Prop :=
  ∀ r, L.acquired.count r = owned.count r + L.released.count r

section Accounts

variable {w : Answers} {L L' : Holdings} {owned : List Resource} {r : Resource} {a : ℕ}

theorem Accounted.acquire (h : Accounted L owned) : Accounted (L.acquire r) (r :: owned) := by
  intro x
  have := h x
  simp only [Holdings.acquire, List.count_cons]
  omega

theorem Accounted.grant (h : Accounted L owned) : Accounted (L.grant a) (.block a :: owned) :=
  h.acquire

theorem Accounted.release (h : Accounted L (r :: owned)) : Accounted (L.release r) owned := by
  intro x
  have := h x
  simp only [Holdings.release, List.count_cons] at this ⊢
  omega

theorem Accounted.perm (h : Accounted L owned) {owned' : List Resource} (hp : owned.Perm owned') :
    Accounted L owned' := by
  intro x
  rw [h x, hp.count_eq]

/-- `kmalloc` succeeds on the calls `[c, c + n)`. -/
def Granted (w : Answers) (c n : ℕ) : Prop := ∀ m < n, (w.kmalloc (c + m)).isSome = true

theorem granted_add {c n m : ℕ} : Granted w c (n + m) ↔ Granted w c n ∧ Granted w (c + n) m := by
  constructor
  · intro h
    refine ⟨fun k hk => h k (by omega), fun k hk => ?_⟩
    rw [Nat.add_assoc]
    exact h (n + k) (by omega)
  · rintro ⟨h₁, h₂⟩ k hk
    by_cases hn : k < n
    · exact h₁ k hn
    · have := h₂ (k - n) (by omega)
      rwa [show c + n + (k - n) = c + k by omega] at this

theorem granted_one {c : ℕ} : Granted w c 1 ↔ (w.kmalloc c).isSome = true := by
  constructor
  · exact fun h => h 0 (by omega)
  · intro h m hm
    obtain rfl : m = 0 := by omega
    exact h

/-- The blocks of a new region join those of the address space. -/
theorem Accounted.region {as : Addrspace} {n : ℕ} {b : ℕ → ℕ} {seg : SegmentEntry} (page : ℕ → ℕ)
    (elf : Option FileId) (owned : List Resource)
    (h : Accounted L ((List.range n).map (fun j => .block (b j)) ++
      .block seg.permissionAddr :: .block seg.addr :: (as.blocks ++ owned))) :
    Accounted L ((⟨(List.range n).map (fun j => ptCreate (b j) (page j)) ++ as.pt,
      seg :: as.segments, elf⟩ : Addrspace).blocks ++ owned) := by
  have hchain : ((List.range n).map fun j => ptCreate (b j) (page j)).map
      (fun e => Resource.block e.addr) = (List.range n).map fun j => .block (b j) := by
    simp [ptCreate, Function.comp_def]
  refine h.perm (List.perm_iff_count.mpr fun x => ?_)
  simp only [Addrspace.blocks, List.map_append, hchain, List.flatMap_cons, List.count_append,
    List.count_cons, List.count_nil]
  omega

namespace Exec

theorem kmalloc_cases (w : Answers) (L : Holdings) :
    (∃ a, w.kmalloc L.calls = some a ∧ L.kmalloc w = .ok (a, L.grant a)) ∨
      (w.kmalloc L.calls = none ∧ L.kmalloc w = .error .nullPointer) := by
  unfold Holdings.kmalloc
  cases hk : w.kmalloc L.calls with
  | none => exact .inr ⟨rfl, rfl⟩
  | some a => exact .inl ⟨a, rfl, rfl⟩

/-- **`sgm_create`** makes two calls of `kmalloc`. -/
theorem sgmCreate_cases (w : Answers) (L : Holdings) :
    (Granted w L.calls 2 ∧ ∃ sgm permission L', sgmCreate w L = .ok ((sgm, permission), L') ∧
      L'.calls = L.calls + 2 ∧
      ∀ owned, Accounted L owned → Accounted L' (.block permission :: .block sgm :: owned)) ∨
    (¬ Granted w L.calls 2 ∧ sgmCreate w L = .error .nullPointer) := by
  rw [show 2 = 1 + 1 from rfl, granted_add, granted_one, granted_one]
  unfold sgmCreate
  rcases kmalloc_cases w L with ⟨sgm, h₁, he⟩ | ⟨h₁, he⟩ <;> rw [he]
  · rcases kmalloc_cases w (L.grant sgm) with ⟨permission, h₂, he'⟩ | ⟨h₂, he'⟩
    · refine .inl ⟨⟨by rw [h₁]; rfl, ?_⟩, sgm, permission, (L.grant sgm).grant permission, ?_, rfl,
        fun owned ha => ha.grant.grant⟩
      · rw [show L.calls + 1 = (L.grant sgm).calls from rfl, h₂]; rfl
      · change ((L.grant sgm).kmalloc w >>= _) = _
        rw [he']
        rfl
    · refine .inr ⟨fun hg => ?_, ?_⟩
      · have := hg.2
        rw [show L.calls + 1 = (L.grant sgm).calls from rfl, h₂] at this
        cases this
      · change ((L.grant sgm).kmalloc w >>= _) = _
        rw [he']
        rfl
  · refine .inr ⟨fun hg => ?_, rfl⟩
    rw [h₁] at hg
    cases hg.1

/-- The loop around `pt_create` makes a call of `kmalloc` for each page. -/
theorem ptChain_cases (w : Answers) (page : ℕ → ℕ) (n i : ℕ) (L : Holdings) :
    (Granted w L.calls n ∧ ∃ (b : ℕ → ℕ) (L' : Holdings),
      ptChain w page n i L =
        .ok ((List.range n).map fun j => ptCreate (b j) (page (i + j)), L') ∧
      L'.calls = L.calls + n ∧
      ∀ owned, Accounted L owned →
        Accounted L' ((List.range n).map (fun j => .block (b j)) ++ owned)) ∨
    (¬ Granted w L.calls n ∧ ptChain w page n i L = .error .nullPointer) := by
  induction n generalizing i L with
  | zero =>
    exact .inl ⟨fun m hm => absurd hm (Nat.not_lt_zero m), id, L, rfl, rfl, fun _ ha => ha⟩
  | succ n ih =>
    rw [Nat.add_comm n 1, granted_add, granted_one, Nat.add_comm 1 n]
    rw [ptChain]
    rcases kmalloc_cases w L with ⟨a, h₁, he⟩ | ⟨h₁, he⟩ <;> rw [he]
    · rcases ih (i + 1) (L.grant a) with ⟨hg, b, L', he', hcalls, hacc⟩ | ⟨hg, he'⟩
      · refine .inl ⟨⟨by rw [h₁]; rfl, hg⟩, fun j => if j = 0 then a else b (j - 1), L', ?_, ?_,
          fun owned ha => ?_⟩
        · change (ptChain w page n (i + 1) (L.grant a) >>= _) = _
          rw [he', List.range_succ_eq_map]
          simp [bind, Except.bind, pure, Except.pure, Nat.add_assoc, Nat.add_comm 1]
        · rw [hcalls]
          change L.calls + 1 + n = _
          omega
        · have hmap : (List.range n).map ((fun j => Resource.block (if j = 0 then a else b (j - 1)))
              ∘ Nat.succ) = (List.range n).map fun j => .block (b j) := by
            simp [Function.comp_def]
          refine (hacc _ ha.grant).perm ?_
          rw [List.range_succ_eq_map, List.map_cons, List.map_map, hmap]
          exact List.perm_middle
      · refine .inr ⟨fun h => hg h.2, ?_⟩
        change (ptChain w page n (i + 1) (L.grant a) >>= _) = _
        rw [he']
        rfl
    · refine .inr ⟨fun hg => ?_, rfl⟩
      rw [h₁] at hg
      cases hg.1

/-- The number of calls of `kmalloc` for a region. -/
def regionCalls (ph : ElfPhdr) : ℕ := 2 + regionPages ph.pVaddr ph.pMemsz

/-- **`as_define_region`** defines the region if it has a page and all blocks are there. -/
theorem asDefineRegion_cases (w : Answers) (as : Addrspace) (ph : ElfPhdr) (L : Holdings) :
    (Granted w L.calls (regionCalls ph) ∧ ph.HasPages ∧
      ∃ (b : RegionBlocks) (as' : Addrspace) (L' : Holdings),
      asDefineRegion w as ph L = .ok (as', L') ∧ defineSegment as ph b = some as' ∧
      as'.elfFile = as.elfFile ∧ L'.calls = L.calls + regionCalls ph ∧
      ∀ owned, Accounted L (as.blocks ++ owned) → Accounted L' (as'.blocks ++ owned)) ∨
    (¬ (Granted w L.calls (regionCalls ph) ∧ ph.HasPages) ∧
      ∃ c, asDefineRegion w as ph L = .error c) := by
  rw [regionCalls, granted_add]
  rcases sgmCreate_cases w L with ⟨hg, sgm, permission, L₁, he, hcalls, hacc⟩ | ⟨hg, he⟩
  · rw [← hcalls]
    have hdef : asDefineRegion w as ph L =
        ptChain w (fun i => wadd (pageFrame ph.pVaddr) (i * pageSize))
          (regionPages ph.pVaddr ph.pMemsz) 0 L₁ >>= fun r =>
        if regionPages ph.pVaddr ph.pMemsz = 0 then .error .undefined
        else .ok ({ as with
          pt := r.1 ++ as.pt
          segments := ⟨sgm, permission, pageFrame ph.pVaddr, regionPages ph.pVaddr ph.pMemsz,
            ph.pMemsz, ph.pOffset, ph.pFlags &&& 4, ph.pFlags &&& 2, ph.pFlags &&& 1,
            regionPages ph.pVaddr ph.pMemsz + as.pt.length⟩ :: as.segments }, r.2) := by
      unfold asDefineRegion
      rw [he]
      rfl
    rw [hdef]
    rcases ptChain_cases w (fun i => wadd (pageFrame ph.pVaddr) (i * pageSize))
      (regionPages ph.pVaddr ph.pMemsz) 0 L₁ with ⟨hg', b, L₂, he', hcalls', hacc'⟩ | ⟨hg', he'⟩
    · rw [he']
      by_cases hn : regionPages ph.pVaddr ph.pMemsz = 0
      · refine .inr ⟨fun h => regionPages_ne_zero.mpr h.2 hn, .undefined, ?_⟩
        change (if _ then _ else _) = _
        rw [if_pos hn]
      · refine .inl ⟨⟨hg, hg'⟩, regionPages_ne_zero.mp hn, ⟨sgm, permission, b⟩, _, L₂,
          if_neg hn, ?_, rfl, by omega, fun owned ha => ?_⟩
        · unfold defineSegment Os161.asDefineRegion
          simp only [if_neg hn, Nat.zero_add]
        · exact (hacc' _ (hacc _ ha)).region _ _ _
    · rw [he']
      exact .inr ⟨fun h => hg' h.1.2, _, rfl⟩
  · refine .inr ⟨fun h => hg h.1.1, .nullPointer, ?_⟩
    unfold asDefineRegion
    rw [he]
    rfl

/-- **`as_define_stack`** has no error return. -/
theorem asDefineStack_ok {as as' : Addrspace} (h : asDefineStack w as L = .ok (as', L')) :
    (∃ b, as' = Os161.asDefineStack as b) ∧
      ∀ owned, Accounted L (as.blocks ++ owned) → Accounted L' (as'.blocks ++ owned) := by
  unfold asDefineStack at h
  rcases sgmCreate_cases w L with ⟨-, sgm, permission, L₁, he, -, hacc⟩ | ⟨-, he⟩ <;> rw [he] at h
  · change (ptChain w _ stackPages 0 L₁ >>= _) = _ at h
    rcases ptChain_cases w (fun i => userStack - (i + 1) * pageSize) stackPages 0 L₁ with
      ⟨-, b, L₂, he', -, hacc'⟩ | ⟨-, he'⟩ <;> rw [he'] at h
    · cases h
      refine ⟨⟨⟨sgm, permission, b⟩, ?_⟩, fun owned ha => (hacc' _ (hacc _ ha)).region _ _ _⟩
      simp only [Os161.asDefineStack, Nat.zero_add]
    · cases h
  · cases h

end Exec

/-- The number of calls of `kmalloc` for program header `k`. -/
def headerCalls (file : List UInt8) (eh : ElfEhdr) (k : ℕ) : ℕ :=
  match readPhdr file eh k with
  | some ph => if ph.pType = ptLoad then Exec.regionCalls ph else 0
  | none => 0

/-- The number of calls of `kmalloc` for `n` program headers from `i` on. -/
def callsFor (file : List UInt8) (eh : ElfEhdr) (i n : ℕ) : ℕ :=
  ((List.range' i n).map (headerCalls file eh)).sum

/-- Program header `k` is a reason for an error return. -/
def HeaderRejected (w : Answers) (file : List UInt8) (eh : ElfEhdr) (k : ℕ) : Prop :=
  w.eio (k + 1) = true ∨ ¬ KnownHeader file eh k

namespace Exec

variable {file : List UInt8} {eh : ElfEhdr}

/-- **One iteration of the loop of `load_elf`**: an error return, a region or none, or a crash. -/
theorem loadSegments_succ (w : Answers) (file : List UInt8) (eh : ElfEhdr) (n i : ℕ)
    (as : Addrspace) (L : Holdings) :
    (HeaderRejected w file eh i ∧
      ∃ e, loadSegments w file eh (n + 1) i as L = .ok (some e, as, L)) ∨
    (¬ HeaderRejected w file eh i ∧ Passed file eh i ∧
      Granted w L.calls (headerCalls file eh i) ∧
      ∃ (b : RegionBlocks) (as' : Addrspace) (L' : Holdings),
      loadSegments w file eh (n + 1) i as L = loadSegments w file eh n (i + 1) as' L' ∧
      as'.elfFile = as.elfFile ∧ L'.calls = L.calls + headerCalls file eh i ∧
      (∀ owned, Accounted L (as.blocks ++ owned) → Accounted L' (as'.blocks ++ owned)) ∧
      ∀ blocks : ℕ → RegionBlocks, blocks i = b → Os161.loadSegments file eh blocks (n + 1) i as =
        Os161.loadSegments file eh blocks n (i + 1) as') ∨
    (¬ HeaderRejected w file eh i ∧
      ¬ (Passed file eh i ∧ Granted w L.calls (headerCalls file eh i)) ∧
      ∃ c, loadSegments w file eh (n + 1) i as L = .error c) := by
  unfold HeaderRejected
  rw [loadSegments]
  by_cases heio : w.eio (i + 1) = true
  · rw [if_pos heio]
    exact .inl ⟨.inl heio, _, rfl⟩
  rw [if_neg heio]
  cases hread : readPhdr file eh i with
  | none =>
    refine .inl ⟨.inr ?_, _, rfl⟩
    rintro ⟨ph, hph, -⟩
    cases hread.symm.trans hph
  | some ph =>
    rw [Passed, loadHeader_of_read hread, knownHeader_of_read hread]
    simp only [headerCalls, hread]
    by_cases hskip : ph.pType ∈ skippedTypes
    · have hload : ¬ ph.pType = ptLoad := by
        intro ht
        rw [ht] at hskip
        exact absurd hskip (by decide)
      simp only [if_pos hskip, if_neg hload]
      refine .inr (.inl ⟨by simp [heio, ElfPhdr.Known, hskip], ⟨.inl hskip, by simp [hload]⟩,
        fun m hm => absurd hm (Nat.not_lt_zero m), ⟨0, 0, id⟩, as, L, rfl, rfl, rfl,
        fun _ ha => ha, fun blocks _ => ?_⟩)
      simp only [Os161.loadSegments, hread, if_pos hskip]
    · by_cases hload : ph.pType = ptLoad
      · simp only [if_neg hskip, if_pos hload]
        have hknown : ph.Known := .inr hload
        rcases asDefineRegion_cases w as ph L with
          ⟨hg, hp, b, as', L', he, hdef, helf, hcalls, hacc⟩ | ⟨hno, c, he⟩ <;> rw [he]
        · refine .inr (.inl ⟨by simp [heio, hknown], ⟨hknown, fun _ => hp⟩, hg, b, as', L', rfl,
            helf, hcalls, hacc, fun blocks hb => ?_⟩)
          simp only [Os161.loadSegments, hread, if_neg hskip, if_pos hload, hb, hdef]
        · exact .inr (.inr ⟨by simp [heio, hknown], fun h => hno ⟨h.2, h.1.2 hload⟩, c, rfl⟩)
      · simp only [if_neg hskip, if_neg hload]
        exact .inl ⟨.inr fun h => h.elim hskip hload, _, rfl⟩

/-- The loop from header `i` on uses the blocks for the headers from there on. -/
theorem loadSegments_congr {blocks blocks' : ℕ → RegionBlocks} {n i : ℕ} {as : Addrspace}
    (h : ∀ k, i ≤ k → blocks k = blocks' k) :
    Os161.loadSegments file eh blocks n i as = Os161.loadSegments file eh blocks' n i as := by
  induction n generalizing i as with
  | zero => rfl
  | succ n ih =>
    have hih : ∀ as : Addrspace, Os161.loadSegments file eh blocks n (i + 1) as =
        Os161.loadSegments file eh blocks' n (i + 1) as :=
      fun as => ih fun k hk => h k (by omega)
    simp only [Os161.loadSegments, hih, h i (le_refl i)]

/-- **The loop of `load_elf`** keeps the accounts, and without an error return it has defined the
regions that it defines when `kmalloc` succeeds. -/
theorem loadSegments_ok {n i : ℕ} {as as' : Addrspace} {e : Option Errno}
    (h : loadSegments w file eh n i as L = .ok (e, as', L')) :
    as'.elfFile = as.elfFile ∧
      (∀ owned, Accounted L (as.blocks ++ owned) → Accounted L' (as'.blocks ++ owned)) ∧
      (e = none → ∃ blocks, Os161.loadSegments file eh blocks n i as = .ok as') := by
  induction n generalizing i as L with
  | zero =>
    cases h
    exact ⟨rfl, fun _ ha => ha, fun _ => ⟨fun _ => ⟨0, 0, id⟩, rfl⟩⟩
  | succ n ih =>
    rcases loadSegments_succ w file eh n i as L with
      ⟨-, e', he⟩ | ⟨-, -, -, b, as₁, L₁, he, helf, -, hacc, hblocks⟩ | ⟨-, -, c, he⟩ <;>
      rw [he] at h
    · cases h
      exact ⟨rfl, fun _ ha => ha, fun hn => by cases hn⟩
    · obtain ⟨helf', hacc', hsome⟩ := ih h
      refine ⟨helf'.trans helf, fun owned ha => hacc' owned (hacc owned ha), fun hn => ?_⟩
      obtain ⟨blocks, hrun⟩ := hsome hn
      refine ⟨Function.update blocks i b, ?_⟩
      rw [hblocks _ (Function.update_self _ _ _), ← hrun]
      exact loadSegments_congr fun k hk => Function.update_of_ne (by omega) _ _
    · cases h

/-- **An error return of the loop** is that of the first header that is rejected, if the regions
before it can be defined. -/
theorem loadSegments_error (w : Answers) (file : List UInt8) (eh : ElfEhdr) (n i : ℕ)
    (as : Addrspace) (L : Holdings) :
    (∃ e as' L', loadSegments w file eh n i as L = .ok (some e, as', L')) ↔
      ∃ k < n, HeaderRejected w file eh (i + k) ∧
        (∀ j < k, ¬ HeaderRejected w file eh (i + j) ∧ Passed file eh (i + j)) ∧
        Granted w L.calls (callsFor file eh i k) := by
  induction n generalizing i as L with
  | zero => simp [loadSegments]
  | succ n ih =>
    rcases loadSegments_succ w file eh n i as L with
      ⟨hrej, e', he⟩ | ⟨hrej, hp, hg, b, as₁, L₁, he, -, hcalls, -, -⟩ | ⟨hrej, hno, c, he⟩ <;>
      rw [he]
    · exact ⟨fun _ => ⟨0, by omega, hrej, fun j hj => absurd hj (Nat.not_lt_zero j),
        fun m hm => absurd hm (Nat.not_lt_zero m)⟩, fun _ => ⟨e', as, L, rfl⟩⟩
    · have hsum : ∀ k, callsFor file eh i (k + 1) =
          headerCalls file eh i + callsFor file eh (i + 1) k := by
        intro k
        simp [callsFor, List.range'_succ]
      rw [ih, hcalls]
      constructor
      · rintro ⟨k, hk, hr, hall, hgr⟩
        refine ⟨k + 1, by omega, by rwa [show i + (k + 1) = i + 1 + k by omega], fun j hj => ?_, ?_⟩
        · cases j with
          | zero => exact ⟨hrej, hp⟩
          | succ j =>
            rw [show i + (j + 1) = i + 1 + j by omega]
            exact hall j (by omega)
        · rw [hsum, granted_add]
          exact ⟨hg, hgr⟩
      · rintro ⟨k, hk, hr, hall, hgr⟩
        cases k with
        | zero => exact absurd hr hrej
        | succ k =>
          rw [hsum, granted_add] at hgr
          refine ⟨k, by omega, by rwa [show i + 1 + k = i + (k + 1) by omega], fun j hj => ?_,
            hgr.2⟩
          rw [show i + 1 + j = i + (j + 1) by omega]
          exact hall (j + 1) (by omega)
    · simp only [reduceCtorEq, exists_false, false_iff]
      rintro ⟨k, hk, hr, hall, hgr⟩
      cases k with
      | zero => exact hrej hr
      | succ k =>
        refine hno ⟨(hall 0 (by omega)).2, fun m hm => hgr m (lt_of_lt_of_le hm ?_)⟩
        simp [callsFor, List.range'_succ]

end Exec

/-! ## The error returns of `runprogram` -/

/-- The program file is rejected by a `load_elf` whose first call of `kmalloc` is call `c`: the
executable header cannot be read or is not accepted, or a program header is rejected, and then the
regions of the headers before it can be defined. -/
def Rejected (w : Answers) (file : List UInt8) (c : ℕ) : Prop :=
  w.eio 0 = true ∨ ∀ eh, readEhdr file = some eh → eh.accepted = true →
    ∃ k < eh.ePhnum, HeaderRejected w file eh k ∧
      (∀ j < k, ¬ HeaderRejected w file eh j ∧ Passed file eh j) ∧ Granted w c (callsFor file eh 0 k)

/-- After an error return of `runprogram`, all that was acquired has been released when the thread
is gone, once for each time it was acquired, and `as_destroy` would not crash on the address space. -/
def FailureClean (w : Answers) (opened : Except ℕ FileId) (file : List UInt8) : Prop :=
  match Exec.runprogram w opened file Exec.newProcess with
  | .ok (.error _, p) =>
    (Exec.threadExit p).holdings.released.Perm (Exec.threadExit p).holdings.acquired ∧
      ∀ a as, p.addrspace = some (a, as) →
        ∀ cm sw, ∃ r, Exec.asDestroy cm sw a as p.holdings = .ok r
  | _ => True

namespace Exec

variable {file : List UInt8} {v : FileId} {as as' : Addrspace}

/-- `load_elf` behind the checks of the executable header. -/
theorem loadElf_accepted {eh : ElfEhdr} (heio : w.eio 0 = false) (hread : readEhdr file = some eh)
    (hacc : eh.accepted = true) :
    loadElf w file v as L = loadSegments w file eh eh.ePhnum 0 as L >>= fun r =>
      match r.1 with
      | some e => .ok (.error e, r.2.1, r.2.2)
      | none => .ok (.ok eh.eEntry, asCompleteLoad r.2.1 v, r.2.2) := by
  unfold loadElf
  simp only [heio, Bool.false_eq_true, if_false, hread, hacc, if_true]
  rfl

/-- **When `load_elf` returns an error.** -/
theorem loadElf_error (w : Answers) (file : List UInt8) (v : FileId) (as : Addrspace)
    (L : Holdings) :
    (∃ e as' L', loadElf w file v as L = .ok (.error e, as', L')) ↔ Rejected w file L.calls := by
  unfold Rejected
  by_cases heio : w.eio 0 = true
  · unfold loadElf
    rw [if_pos heio]
    exact ⟨fun _ => .inl heio, fun _ => ⟨_, _, _, rfl⟩⟩
  cases hread : readEhdr file with
  | none => simp [loadElf, heio, hread]
  | some eh =>
    by_cases hacc : eh.accepted = true
    · have heio' : w.eio 0 = false := by simpa using heio
      rw [loadElf_accepted heio' hread hacc]
      have herr := loadSegments_error w file eh eh.ePhnum 0 as L
      simp only [Nat.zero_add] at herr
      simp only [heio', Bool.false_eq_true, false_or, Option.some.injEq, forall_eq', hacc,
        forall_const, ← herr]
      constructor
      · rintro ⟨e, as', L', h⟩
        obtain ⟨⟨e', as₁, L₁⟩, hrun, h⟩ := Transition.bind_eq_ok.mp h
        cases e' with
        | none => cases h
        | some e' => exact ⟨e', as₁, L₁, hrun⟩
      · rintro ⟨e, as', L', h⟩
        exact ⟨e, as', L', by rw [h]; rfl⟩
    · simp [loadElf, heio, hread, hacc]

/-- **`load_elf`** keeps the accounts, and has loaded what it loads when `kmalloc` succeeds. -/
theorem loadElf_ok {r : Except Errno ℕ} (h : loadElf w file v as L = .ok (r, as', L')) :
    (∀ owned, Accounted L (as.blocks ++ owned) → Accounted L' (as'.blocks ++ owned)) ∧
      match r with
      | .error _ => as'.elfFile = as.elfFile
      | .ok entrypoint => as'.elfFile = some v ∧
          ∃ blocks, Os161.loadElf file v blocks as = .ok (as', entrypoint) := by
  by_cases heio : w.eio 0 = true
  · rw [loadElf, if_pos heio] at h
    cases h
    exact ⟨fun _ ha => ha, rfl⟩
  cases hread : readEhdr file with
  | none =>
    simp only [loadElf, if_neg heio, hread] at h
    cases h
    exact ⟨fun _ ha => ha, rfl⟩
  | some eh =>
    by_cases hacc : eh.accepted = true
    · rw [loadElf_accepted (by simpa using heio) hread hacc] at h
      obtain ⟨⟨e, as₁, L₁⟩, hrun, h⟩ := Transition.bind_eq_ok.mp h
      obtain ⟨helf, haccs, hblocks⟩ := loadSegments_ok hrun
      cases e with
      | some e =>
        cases h
        exact ⟨haccs, helf⟩
      | none =>
        cases h
        obtain ⟨blocks, hload⟩ := hblocks rfl
        refine ⟨haccs, rfl, blocks, ?_⟩
        simp only [Os161.loadElf, hread, hacc, if_true, hload]
        rfl
    · simp only [loadElf, if_neg heio, hread, if_neg hacc] at h
      cases h
      exact ⟨fun _ ha => ha, rfl⟩

/-! ## `as_destroy` -/

theorem accounted_ptFree {pt : List PtEntry}
    (h : Accounted L (pt.map (fun e => .block e.addr) ++ owned)) :
    Accounted (ptFree pt L) owned := by
  induction pt generalizing L with
  | nil => exact h
  | cons e pt ih => exact ih h.release

theorem accounted_sgmFree {segs : List SegmentEntry}
    (h : Accounted L ((segs.flatMap fun s => [.block s.permissionAddr, .block s.addr]) ++ owned)) :
    Accounted (sgmFree segs L) owned := by
  induction segs generalizing L with
  | nil => exact h
  | cons s segs ih => exact ih h.release.release

/-- **`as_destroy` of a loaded program** releases its blocks and its file. -/
theorem asDestroy_ok (cm : Coremap) (sw : SwapSpace) (helf : as.elfFile = some v)
    (h : Accounted L (as.blocks ++ .vnode v :: .block a :: owned)) :
    ∃ L', asDestroy cm sw a as L = .ok (cmAsfree cm a, swapAsfree sw a, L') ∧
      Accounted L' owned := by
  rw [Addrspace.blocks, List.append_assoc] at h
  unfold asDestroy
  rw [helf]
  exact ⟨_, rfl, (accounted_sgmFree (accounted_ptFree h)).release.release⟩

/-- Without a file it does not complete. -/
theorem asDestroy_of_elfFile (cm : Coremap) (sw : SwapSpace) (helf : as.elfFile = none) :
    asDestroy cm sw a as L = .error .kassert := by
  unfold asDestroy
  rw [helf]
  rfl

/-! ## `runprogram` -/

theorem accounted_empty : Accounted .empty [] := fun _ => rfl

/-- The accounts when `load_elf` is called. -/
theorem accounted_asCreate (v : FileId) (a : ℕ) :
    Accounted ((Holdings.empty.acquire (.vnode v)).grant a)
      (asCreate.blocks ++ [.block a, .vnode v]) := accounted_empty.acquire.grant

/-- **How `runprogram` ends** in a new process. -/
theorem runprogram_cases (w : Answers) (v : FileId) (file : List UInt8) {a : ℕ}
    (ha : w.kmalloc 0 = some a) :
    (∃ e as L, runprogram w (.ok v) file newProcess = .ok (.error e, ⟨some (a, as), 1, L⟩) ∧
      Rejected w file 1 ∧ as.elfFile = none ∧ Accounted L (as.blocks ++ [.block a])) ∨
    (∃ entrypoint as L, runprogram w (.ok v) file newProcess =
        .ok (.ok entrypoint, ⟨some (a, as), 1, L⟩) ∧
      ¬ Rejected w file 1 ∧ as.elfFile = some v ∧
      (∃ blocks stackBlocks, programSpace file v blocks stackBlocks = .ok as) ∧
      Accounted L (as.blocks ++ [.vnode v, .block a])) ∨
    (∃ c, runprogram w (.ok v) file newProcess = .error c ∧ ¬ Rejected w file 1) := by
  have hrun : runprogram w (.ok v) file newProcess =
      loadElf w file v asCreate ((Holdings.empty.acquire (.vnode v)).grant a) >>= fun r =>
        match r.1 with
        | .error e => .ok (.error e, ⟨some (a, r.2.1), 1, r.2.2.release (.vnode v)⟩)
        | .ok entrypoint => asDefineStack w r.2.1 r.2.2 >>= fun q =>
          .ok (.ok entrypoint, ⟨some (a, q.1), 1, q.2⟩) := by
    unfold runprogram
    simp only [newProcess, Option.isSome_none, Bool.false_eq_true, if_false]
    rw [show (Holdings.empty.acquire (.vnode v)).calls = 0 from rfl, ha]
    rfl
  have herr := loadElf_error w file v asCreate ((Holdings.empty.acquire (.vnode v)).grant a)
  rw [show ((Holdings.empty.acquire (.vnode v)).grant a).calls = 1 from rfl] at herr
  rw [hrun, ← herr]
  cases hload : loadElf w file v asCreate ((Holdings.empty.acquire (.vnode v)).grant a) with
  | error c => exact .inr (.inr ⟨c, rfl, by simp⟩)
  | ok r =>
    obtain ⟨r, as, L⟩ := r
    obtain ⟨haccs, hspec⟩ := loadElf_ok hload
    have hacc := haccs _ (accounted_asCreate v a)
    cases r with
    | error e =>
      have hmid : (as.blocks ++ [Resource.block a, .vnode v]).Perm
          (Resource.vnode v :: (as.blocks ++ [.block a])) := by
        rw [List.perm_iff_count]
        intro x
        simp only [List.count_append, List.count_cons]
        omega
      refine .inl ⟨e, as, L.release (.vnode v), rfl, ⟨e, as, L, rfl⟩, hspec, ?_⟩
      exact (hacc.perm hmid).release
    | ok entrypoint =>
      obtain ⟨helf, blocks, hprog⟩ := hspec
      refine .inr ?_
      change (∃ _ _ _, (asDefineStack w as L >>= _) = _ ∧ _) ∨
        (∃ _, (asDefineStack w as L >>= _) = _ ∧ _)
      cases hstack : asDefineStack w as L with
      | error c => exact .inr ⟨c, rfl, by simp⟩
      | ok q =>
        obtain ⟨as', L'⟩ := q
        obtain ⟨⟨b, rfl⟩, haccs'⟩ := asDefineStack_ok hstack
        refine .inl ⟨entrypoint, _, L', rfl, by simp, helf, ⟨blocks, b, ?_⟩, haccs' _ ?_⟩
        · rw [programSpace, hprog]
          rfl
        · exact hacc.perm (List.Perm.append_left _ (List.Perm.swap _ _ _))

/-- **A program that was started and exits** has released all that was acquired, once for each
time. -/
theorem asDestroy_runprogram {opened : Except ℕ FileId} {entrypoint : ℕ} {p : Process}
    (h : runprogram w opened file newProcess = .ok (.ok entrypoint, p)) (cm : Coremap)
    (sw : SwapSpace) :
    ∃ a as L, p.addrspace = some (a, as) ∧
      asDestroy cm sw a as p.holdings = .ok (cmAsfree cm a, swapAsfree sw a, L) ∧
      L.released.Perm L.acquired := by
  cases opened with
  | error e => cases h
  | ok v =>
    cases ha : w.kmalloc 0 with
    | none =>
      unfold runprogram at h
      simp only [newProcess, Option.isSome_none, Bool.false_eq_true, if_false] at h
      rw [show (Holdings.empty.acquire (.vnode v)).calls = 0 from rfl, ha] at h
      cases h
    | some a =>
      rcases runprogram_cases w v file ha with
        ⟨e, as, L, he, -⟩ | ⟨entrypoint', as, L, he, -, helf, -, hacc⟩ | ⟨c, he, -⟩ <;> rw [he] at h
      · cases h
      · cases h
        obtain ⟨L', hd, hacc'⟩ := asDestroy_ok cm sw helf hacc
        refine ⟨a, as, L', rfl, hd, List.perm_iff_count.mpr fun x => ?_⟩
        have := hacc' x
        rw [List.count_nil] at this
        omega
      · cases h

end Exec

end Accounts

/-- Blocks one after the other, and no failing read. -/
def allGranted : Answers := ⟨fun n => some (16 * (n + 1)), fun _ => false⟩

end Os161
