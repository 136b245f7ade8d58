import Os161.Lib.Loop
import Os161.Machine.Word

set_option autoImplicit false

/-!
# The coremap

`coremap.c`: one entry for every frame of free physical memory. The array is a function on frame
indices, of which the first `ram_frames` are the array's cells; each operation is one critical
section of `cm_lock`.

* `cmBootstrap`: the state the boot leaves; `reserved`: the frames it marks `FIXED`.
* `frameKalloc`, `frameKfree`: blocks of consecutive kernel frames.
* `frameAlloc`, `cmAsfree`: frames of a user address space.
* `cmEvict`, `cmUpdateVaddr`, `cmUpdateState`, `cmCheckState`: replacement.

Each operation comes with one lemma that gives every entry afterwards.
-/

namespace Os161

open Loop

/-- `frame_state`. -/
inductive FrameState
  /-- a free frame -/
  | free
  /-- a kernel frame, never a victim -/
  | fixed
  /-- a user frame being filled from the ELF file or the swap file, not a victim -/
  | loading
  /-- a user frame that can be chosen as victim -/
  | clean
  deriving DecidableEq, Repr

/-- The address of a `struct addrspace`. Where the code keeps a pointer that may be `NULL` the
model has an option. -/
abbrev AsId : Type := ℕ

/-- `cm_entry`. -/
structure CmEntry where
  as : Option AsId
  virtAddr : ℕ
  state : FrameState
  npages : ℕ
  timestamp : ℕ
  deriving DecidableEq, Repr

/-- The file-scope variables of `coremap.c`. -/
structure Coremap where
  ram : RamLayout
  entry : ℕ → CmEntry
  timestamp : ℕ

/-- `-1` stored in an unsigned field. -/
def noStamp : ℕ := wordSize - 1

/-- `sizeof(cm_entry)`: five words. -/
def sizeofCmEntry : ℕ := 20

namespace Coremap

/-- `ram_frames`. -/
def ramFrames (cm : Coremap) : ℕ := cm.ram.ramFrames

/-- `timestamp++`. -/
def tick (cm : Coremap) : Coremap := { cm with timestamp := wadd cm.timestamp 1 }

/-- Write entry `k`. -/
def setEntry (cm : Coremap) (k : ℕ) (e : CmEntry) : Coremap :=
  { cm with entry := Function.update cm.entry k e }

@[simp] theorem setEntry_ram (cm : Coremap) (k : ℕ) (e : CmEntry) :
    (cm.setEntry k e).ram = cm.ram := rfl
@[simp] theorem setEntry_timestamp (cm : Coremap) (k : ℕ) (e : CmEntry) :
    (cm.setEntry k e).timestamp = cm.timestamp := rfl
@[simp] theorem setEntry_ramFrames (cm : Coremap) (k : ℕ) (e : CmEntry) :
    (cm.setEntry k e).ramFrames = cm.ramFrames := rfl
@[simp] theorem tick_ram (cm : Coremap) : cm.tick.ram = cm.ram := rfl
@[simp] theorem tick_entry (cm : Coremap) : cm.tick.entry = cm.entry := rfl
@[simp] theorem tick_ramFrames (cm : Coremap) : cm.tick.ramFrames = cm.ramFrames := rfl

theorem setEntry_entry (cm : Coremap) (k j : ℕ) (e : CmEntry) :
    (cm.setEntry k e).entry j = if j = k then e else cm.entry j :=
  Function.update_apply _ _ _ _

@[simp] theorem setEntry_entry_self (cm : Coremap) (k : ℕ) (e : CmEntry) :
    (cm.setEntry k e).entry k = e := Function.update_self _ _ _

theorem setEntry_entry_ne (cm : Coremap) {k j : ℕ} (e : CmEntry) (h : j ≠ k) :
    (cm.setEntry k e).entry j = cm.entry j := Function.update_of_ne h _ _

end Coremap

/-! ## Boot -/

/-- The frames that `cm_bootstrap` marks `FIXED`: `i <= space/PAGE_SIZE` with
`space = ram_frames*sizeof(cm_entry)`. -/
def reserved (ram : RamLayout) (i : ℕ) : Bool :=
  i < ram.ramFrames && i ≤ ram.ramFrames * sizeofCmEntry / pageSize

/-- One iteration of the loop of `cm_bootstrap`. -/
def bootEntry (ram : RamLayout) (i : ℕ) (cm : Coremap) : Coremap :=
  let e : CmEntry := ⟨none, 0, .free, 0, noStamp⟩
  if i ≤ ram.ramFrames * sizeofCmEntry / pageSize then
    (cm.setEntry i { e with state := .fixed, timestamp := cm.timestamp }).tick
  else cm.setEntry i e

/-- `cm_bootstrap`, after its call of `kmalloc`; `garbage` is what the fresh array held. -/
def cmBootstrap (ram : RamLayout) (garbage : ℕ → CmEntry) : Coremap :=
  forRange 0 ram.ramFrames (bootEntry ram) ⟨ram, garbage, 0⟩

/-! ## The operations -/

/-- `first = i` where frame `i` starts a run of `FREE` frames. -/
def runStart (cm : Coremap) (i first : ℕ) : ℕ :=
  if i = 0 ∨ (cm.entry (i - 1)).state ≠ .free then i else first

/-- The search loop of `frame_kalloc` from index `i` on, with the local variable `first`; `some` is
the value of `first` when `found` is set. -/
def kallocScan (cm : Coremap) (nframes : ℕ) : (n i first : ℕ) → Option ℕ
  | 0, _, _ => none
  | n + 1, i, first =>
    if (cm.entry i).state = .free then
      if nframes ≤ i - runStart cm i first + 1 then some (runStart cm i first)
      else kallocScan cm nframes n (i + 1) (runStart cm i first)
    else kallocScan cm nframes n (i + 1) first

/-- The entry that `frame_kalloc` writes for frame `i` of a block of `nframes` from `first`. -/
def kallocEntry (cm : Coremap) (first nframes i : ℕ) (e : CmEntry) : CmEntry where
  as := none
  virtAddr := paddrToKvaddr (cm.ram.frameAddr i)
  state := .fixed
  npages := if i = first then nframes else e.npages
  timestamp := cm.timestamp

/-- `frame_kalloc`: the address of the block, `0` on failure. -/
def frameKalloc (cm : Coremap) (nframes : ℕ) : ℕ × Coremap :=
  match kallocScan cm nframes cm.ramFrames 0 0 with
  | some first =>
    (cm.ram.frameAddr first,
      Coremap.tick { cm with
        entry :=
          forRange first nframes
            (fun i g => Function.update g i (kallocEntry cm first nframes i (g i))) cm.entry })
  | none => (0, cm)

/-- `frame_alloc`: the address of the frame, `0` on failure. -/
def frameAlloc (cm : Coremap) (vaddr : ℕ) (as : AsId) : ℕ × Coremap :=
  match firstIdx (fun i => (cm.entry i).state = .free) 0 cm.ramFrames with
  | some i => (cm.ram.frameAddr i, (cm.setEntry i ⟨some as, vaddr, .loading, 1, cm.timestamp⟩).tick)
  | none => (0, cm)

/-- The entry of a freed kernel frame; `frame_kfree` does not write the `as` field. -/
def kfreeEntry (e : CmEntry) : CmEntry :=
  { e with state := .free, npages := 0, virtAddr := 0, timestamp := noStamp }

/-- `frame_kfree` once the coremap is up. The index comes from an unsigned subtraction and is not
checked against `ram_frames`. -/
def frameKfree (cm : Coremap) (vaddr : ℕ) : Coremap :=
  let pos := cm.ram.frameIndex (wsub vaddr kseg0)
  { cm with
    entry :=
      forRange pos (cm.entry pos).npages
        (fun j g => Function.update g j (kfreeEntry (g j))) cm.entry }

/-- The loop body of `cm_asfree`. -/
def asfreeEntry (as : AsId) (e : CmEntry) : CmEntry :=
  if e.as = some as ∧ e.state ≠ .fixed then ⟨none, 0, .free, 0, noStamp⟩ else e

/-- `cm_asfree`. -/
def cmAsfree (cm : Coremap) (as : AsId) : Coremap :=
  { cm with
    entry :=
      forRange 0 cm.ramFrames
        (fun i g => Function.update g i (asfreeEntry as (g i))) cm.entry }

/-- The frames that `cm_evict` considers: those of the address space that are neither `FIXED` nor
`LOADING`. -/
def evictable (cm : Coremap) (as : AsId) (i : ℕ) : Bool :=
  (cm.entry i).as = some as ∧ (cm.entry i).state ≠ .fixed ∧ (cm.entry i).state ≠ .loading

/-- The entry of a frame whose page is being written out. -/
def evictedEntry : CmEntry := ⟨none, 0, .loading, 0, noStamp⟩

/-- `cm_evict`: the victim page, the address of its frame and its index. `none` is the
`"Cannot find victim!"` panic. -/
def cmEvict (cm : Coremap) (as : AsId) : Option (ℕ × ℕ × ℕ × Coremap) :=
  match (argMin (evictable cm as) (fun i => (cm.entry i).timestamp) 0 cm.ramFrames
      cm.timestamp none).2 with
  | some pos =>
    some ((cm.entry pos).virtAddr, cm.ram.frameAddr pos, pos, cm.setEntry pos evictedEntry)
  | none => none

/-- `cm_update_vaddr`. -/
def cmUpdateVaddr (cm : Coremap) (as : AsId) (pos vaddr : ℕ) : Coremap :=
  (cm.setEntry pos ⟨some as, vaddr, .loading, 1, cm.timestamp⟩).tick

/-- `cm_check_state`. -/
def cmCheckState (cm : Coremap) (paddr : ℕ) (state : FrameState) : Bool :=
  (cm.entry (cm.ram.frameIndex paddr)).state = state

/-- `cm_update_state`. -/
def cmUpdateState (cm : Coremap) (paddr : ℕ) (state : FrameState) : Coremap :=
  let pos := cm.ram.frameIndex paddr
  cm.setEntry pos { cm.entry pos with state := state }

/-! ## What each operation leaves in every entry -/

section Spec

variable {cm cm' : Coremap} {as : AsId} {vaddr paddr pos n k : ℕ}

theorem forRange_bootEntry (ram : RamLayout) (g : ℕ → CmEntry) (n : ℕ) (j : ℕ) :
    let cm := forRange 0 n (bootEntry ram) ⟨ram, g, 0⟩
    cm.ram = ram ∧ (n ≤ j → cm.entry j = g j) ∧
      (j < n → (cm.entry j).as = none ∧ (cm.entry j).npages = 0 ∧
        (cm.entry j).state =
          if j ≤ ram.ramFrames * sizeofCmEntry / pageSize then .fixed else .free) := by
  have := forRange_inv (bootEntry ram)
    (fun m cm => cm.ram = ram ∧ ∀ j, (m ≤ j → cm.entry j = g j) ∧
      (j < m → (cm.entry j).as = none ∧ (cm.entry j).npages = 0 ∧
        (cm.entry j).state =
          if j ≤ ram.ramFrames * sizeofCmEntry / pageSize then .fixed else .free))
    n 0 ⟨ram, g, 0⟩ ⟨rfl, fun j => ⟨fun _ => rfl, fun h => by omega⟩⟩
    (fun m cm _ _ ⟨hr, hcm⟩ => by
      have hbody : (bootEntry ram m cm).ram = ram ∧ ∀ j, (bootEntry ram m cm).entry j =
          if j = m then (bootEntry ram m cm).entry m else cm.entry j := by
        unfold bootEntry
        split_ifs <;> refine ⟨hr, fun j => ?_⟩ <;>
          simp only [Coremap.tick_entry, Coremap.setEntry_entry, if_true]
      refine ⟨hbody.1, fun j => ⟨fun hj => ?_, fun hj => ?_⟩⟩
      · rw [hbody.2, if_neg (by omega)]
        exact (hcm j).1 (by omega)
      · rw [hbody.2]
        by_cases e : j = m
        · subst e
          rw [if_pos rfl]
          unfold bootEntry
          split_ifs with h <;> simp
        · rw [if_neg e]
          exact (hcm j).2 (by omega))
  rw [Nat.zero_add] at this
  exact ⟨this.1, this.2 j⟩

@[simp] theorem cmBootstrap_ram (ram : RamLayout) (g : ℕ → CmEntry) :
    (cmBootstrap ram g).ram = ram := (forRange_bootEntry ram g _ 0).1

/-- **The boot** leaves every entry unowned, the reserved ones `FIXED` and the others `FREE`. -/
theorem cmBootstrap_entry {ram : RamLayout} {g : ℕ → CmEntry} (h : k < ram.ramFrames) :
    ((cmBootstrap ram g).entry k).as = none ∧ ((cmBootstrap ram g).entry k).npages = 0 ∧
      ((cmBootstrap ram g).entry k).state = if reserved ram k then .fixed else .free := by
  have := (forRange_bootEntry ram g ram.ramFrames k).2.2 h
  refine ⟨this.1, this.2.1, this.2.2.trans (if_congr ?_ rfl rfl)⟩
  simp [reserved, h]

/-- The search finds a run of `FREE` frames inside the array. -/
theorem kallocScan_some {n m i first f : ℕ}
    (hfirst : 0 < i → (cm.entry (i - 1)).state = .free →
      first < i ∧ ∀ j, first ≤ j → j < i → (cm.entry j).state = .free)
    (h : kallocScan cm n m i first = some f) :
    f + n ≤ i + m ∧ ∀ j, f ≤ j → j < f + n → (cm.entry j).state = .free := by
  induction m generalizing i first with
  | zero => cases h
  | succ m ih =>
    rw [kallocScan] at h
    by_cases hfree : (cm.entry i).state = .free
    · rw [if_pos hfree] at h
      have hrun : runStart cm i first ≤ i ∧
          ∀ j, runStart cm i first ≤ j → j < i + 1 → (cm.entry j).state = .free := by
        unfold runStart
        split_ifs with hc
        · exact ⟨le_refl _, fun j h₁ h₂ => by rw [show j = i by omega]; exact hfree⟩
        · push Not at hc
          obtain ⟨hlt, hall⟩ := hfirst (by omega) hc.2
          refine ⟨by omega, fun j h₁ h₂ => ?_⟩
          by_cases e : j = i
          · rw [e]; exact hfree
          · exact hall j h₁ (by omega)
      split_ifs at h with hlen
      · obtain rfl := Option.some.inj h
        exact ⟨by omega, fun j h₁ h₂ => hrun.2 j h₁ (by omega)⟩
      · have := ih (fun _ _ => ⟨by omega, hrun.2⟩) h
        exact ⟨by omega, this.2⟩
    · rw [if_neg hfree] at h
      have := ih (fun _ hc => absurd (by simpa using hc) hfree) h
      exact ⟨by omega, this.2⟩

/-- **`frame_kalloc`** either fails and changes nothing, or turns a run of `n` `FREE` frames into a
kernel block whose length is in its first entry. -/
theorem frameKalloc_cases (h : frameKalloc cm n = (paddr, cm')) :
    (paddr = 0 ∧ cm' = cm) ∨ ∃ f, paddr = cm.ram.frameAddr f ∧ f + n ≤ cm.ramFrames ∧
      (∀ j, f ≤ j → j < f + n → (cm.entry j).state = .free) ∧
      cm'.ram = cm.ram ∧ cm'.timestamp = wadd cm.timestamp 1 ∧
      ∀ j, cm'.entry j =
        if f ≤ j ∧ j < f + n then kallocEntry cm f n j (cm.entry j) else cm.entry j := by
  unfold frameKalloc at h
  split at h
  · next f hf =>
    cases h
    have := kallocScan_some (fun h => absurd h (lt_irrefl _)) hf
    exact .inr ⟨f, rfl, by omega, this.2, rfl, rfl, fun j => forRange_update _ n f _ j⟩
  · cases h
    exact .inl ⟨rfl, rfl⟩

/-- **`frame_alloc`** fails exactly when no frame is `FREE`, and else takes the first one. -/
theorem frameAlloc_cases (h : frameAlloc cm vaddr as = (paddr, cm')) :
    (paddr = 0 ∧ cm' = cm ∧ ∀ j < cm.ramFrames, (cm.entry j).state ≠ .free) ∨
    ∃ k, paddr = cm.ram.frameAddr k ∧ k < cm.ramFrames ∧ (cm.entry k).state = .free ∧
      cm' = (cm.setEntry k ⟨some as, vaddr, .loading, 1, cm.timestamp⟩).tick := by
  unfold frameAlloc at h
  split at h
  · next k hk =>
    cases h
    have := firstIdx_some hk
    exact .inr ⟨k, rfl, this.1, by simpa using this.2, rfl⟩
  · next hk =>
    cases h
    refine .inl ⟨rfl, rfl, fun j hj => ?_⟩
    simpa using firstIdx_eq_none.mp hk j (Nat.zero_le _) (by omega)

/-- **`frame_kfree`** frees the entries that the length field of the addressed one covers. -/
theorem frameKfree_entry (j : ℕ) :
    (frameKfree cm vaddr).entry j =
      if cm.ram.frameIndex (wsub vaddr kseg0) ≤ j ∧ j < cm.ram.frameIndex (wsub vaddr kseg0) +
        (cm.entry (cm.ram.frameIndex (wsub vaddr kseg0))).npages
      then kfreeEntry (cm.entry j) else cm.entry j :=
  forRange_update (fun _ => kfreeEntry) _ _ _ j

@[simp] theorem frameKfree_ram : (frameKfree cm vaddr).ram = cm.ram := rfl

theorem cmAsfree_entry (j : ℕ) :
    (cmAsfree cm as).entry j =
      if j < cm.ramFrames then asfreeEntry as (cm.entry j) else cm.entry j := by
  refine (forRange_update (fun _ => asfreeEntry as) _ _ _ j).trans (if_congr ?_ rfl rfl)
  omega

@[simp] theorem cmAsfree_ram : (cmAsfree cm as).ram = cm.ram := rfl

/-- **`cm_evict`** picks an own frame in state `FREE` or `CLEAN` with the least timestamp, if that
is below the counter. -/
theorem cmEvict_cases {r : ℕ × ℕ × ℕ × Coremap} (h : cmEvict cm as = some r) :
    ∃ pos, r = ((cm.entry pos).virtAddr, cm.ram.frameAddr pos, pos, cm.setEntry pos evictedEntry) ∧
      pos < cm.ramFrames ∧ evictable cm as pos = true ∧
      (cm.entry pos).timestamp < cm.timestamp ∧
      ∀ i < cm.ramFrames, evictable cm as i = true →
        (cm.entry pos).timestamp ≤ (cm.entry i).timestamp := by
  unfold cmEvict at h
  have hspec := argMin_spec (evictable cm as) (fun i => (cm.entry i).timestamp) cm.ramFrames
    cm.timestamp
  split at h
  · next pos hpos =>
    rw [hpos] at hspec
    cases h
    exact ⟨pos, rfl, hspec.1, hspec.2.1, hspec.2.2.1, fun i hi he => (hspec.2.2.2 i hi he).1⟩
  · cases h

/-- `cm_evict` panics exactly when no own frame is a candidate stamped before the counter. -/
theorem cmEvict_eq_none :
    cmEvict cm as = none ↔
      ∀ i < cm.ramFrames, evictable cm as i = true → cm.timestamp ≤ (cm.entry i).timestamp := by
  have hspec := argMin_spec (evictable cm as) (fun i => (cm.entry i).timestamp) cm.ramFrames
    cm.timestamp
  unfold cmEvict
  constructor
  · intro h
    split at h
    · cases h
    · next hpos => rw [hpos] at hspec; exact hspec
  · intro h
    split
    · next pos hpos =>
      rw [hpos] at hspec
      exact absurd hspec.2.2.1 (Nat.not_lt.mpr (h pos hspec.1 hspec.2.1))
    · rfl

@[simp] theorem cmUpdateVaddr_ram : (cmUpdateVaddr cm as pos vaddr).ram = cm.ram := rfl

theorem cmUpdateVaddr_entry (j : ℕ) :
    (cmUpdateVaddr cm as pos vaddr).entry j =
      if j = pos then ⟨some as, vaddr, .loading, 1, cm.timestamp⟩ else cm.entry j :=
  cm.setEntry_entry _ _ _

@[simp] theorem cmUpdateState_ram {st : FrameState} : (cmUpdateState cm paddr st).ram = cm.ram := rfl

theorem cmUpdateState_entry {st : FrameState} (hk : k < cm.ramFrames) (j : ℕ) :
    (cmUpdateState cm (cm.ram.frameAddr k) st).entry j =
      if j = k then { cm.entry k with state := st } else cm.entry j := by
  unfold cmUpdateState
  rw [cm.ram.frameIndex_frameAddr hk]
  exact cm.setEntry_entry _ _ _

theorem cmCheckState_frameAddr {st : FrameState} (hk : k < cm.ramFrames) :
    cmCheckState cm (cm.ram.frameAddr k) st = decide ((cm.entry k).state = st) := by
  unfold cmCheckState
  rw [cm.ram.frameIndex_frameAddr hk]

end Spec

end Os161
