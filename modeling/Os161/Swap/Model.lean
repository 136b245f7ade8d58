import Os161.Coremap.Model

set_option autoImplicit false

/-!
# The swap file

`swap.c`: the array `swapspace`, one entry for every page of the swap file, and the file. The two
halves of `swap_in` and of `swap_out` are separate operations: the search of the array under
`sw_lock`, and the transfer of the page, which runs without the lock.

* `swapInFind`, `swapOutFind`, `swapAsfree`: the critical sections.
* `readPage`, `writePage`: the transfers at byte offset `i*PAGE_SIZE`.
-/

namespace Os161

open Loop

/-- `SWAP_SIZE`: the pages of a 9 MB file. -/
def swapSize : ℕ := 9 * 1024 * 1024 / 4096

/-- The bytes of a page. -/
abbrev Page : Type := Fin pageSize → UInt8

/-- `swap_entry`. -/
structure SwapEntry where
  as : Option AsId
  vaddr : ℕ
  deriving DecidableEq, Repr

/-- The file-scope variables of `swap.c`. -/
structure SwapSpace where
  entry : ℕ → SwapEntry
  swapfile : ℕ → UInt8

namespace SwapSpace

/-- Write entry `i`. -/
def setEntry (sw : SwapSpace) (i : ℕ) (e : SwapEntry) : SwapSpace :=
  { sw with entry := Function.update sw.entry i e }

@[simp] theorem setEntry_swapfile (sw : SwapSpace) (i : ℕ) (e : SwapEntry) :
    (sw.setEntry i e).swapfile = sw.swapfile := rfl

theorem setEntry_entry (sw : SwapSpace) (i j : ℕ) (e : SwapEntry) :
    (sw.setEntry i e).entry j = if j = i then e else sw.entry j :=
  Function.update_apply _ _ _ _

end SwapSpace

/-- `swapspace_bootstrap`, with what the swap file holds. -/
def swapspaceBootstrap (file : ℕ → UInt8) : SwapSpace := ⟨fun _ => ⟨none, 0⟩, file⟩

/-- The search of `swap_in`: the slot of the page, which is released. `none` is the
`"vaddr not found!"` panic. -/
def swapInFind (sw : SwapSpace) (as : AsId) (vaddr : ℕ) : Option (ℕ × SwapSpace) :=
  match firstIdx (fun i => (sw.entry i).as = some as ∧ (sw.entry i).vaddr = vaddr) 0 swapSize with
  | some i => some (i, sw.setEntry i ⟨none, 0⟩)
  | none => none

/-- The search of `swap_out`: a free slot, which is taken. `none` is the `"swapfile is full!"`
panic. -/
def swapOutFind (sw : SwapSpace) (as : AsId) (vaddr : ℕ) : Option (ℕ × SwapSpace) :=
  match firstIdx (fun i => (sw.entry i).as = none) 0 swapSize with
  | some i => some (i, sw.setEntry i ⟨some as, vaddr⟩)
  | none => none

/-- `VOP_READ` of the page at `i*PAGE_SIZE`. -/
def readPage (sw : SwapSpace) (i : ℕ) : Page := fun o => sw.swapfile (i * pageSize + o)

/-- `VOP_WRITE` of the page at `i*PAGE_SIZE`. -/
def writePage (sw : SwapSpace) (i : ℕ) (page : Page) : SwapSpace :=
  { sw with
    swapfile := fun a =>
      if h : i * pageSize ≤ a ∧ a - i * pageSize < pageSize then page ⟨a - i * pageSize, h.2⟩
      else sw.swapfile a }

/-- The loop body of `swap_asfree`. -/
def asfreeSlot (as : AsId) (e : SwapEntry) : SwapEntry := if e.as = some as then ⟨none, 0⟩ else e

/-- `swap_asfree`. -/
def swapAsfree (sw : SwapSpace) (as : AsId) : SwapSpace :=
  { sw with
    entry :=
      forRange 0 swapSize (fun i g => Function.update g i (asfreeSlot as (g i))) sw.entry }

/-! ## What each operation does -/

section Spec

variable {sw sw' : SwapSpace} {as : AsId} {vaddr i j : ℕ} {page : Page}

/-- **`swap_in` finds a slot of the page** and empties it. -/
theorem swapInFind_some (h : swapInFind sw as vaddr = some (i, sw')) :
    i < swapSize ∧ sw.entry i = ⟨some as, vaddr⟩ ∧ sw' = sw.setEntry i ⟨none, 0⟩ := by
  unfold swapInFind at h
  split at h
  · next k hk =>
    cases h
    have hfound := firstIdx_some hk
    have htag : (sw.entry i).as = some as ∧ (sw.entry i).vaddr = vaddr := by simpa using hfound.2
    refine ⟨hfound.1, ?_, rfl⟩
    rw [← htag.1, ← htag.2]
  · cases h

/-- `swap_in` panics exactly when the page has no slot. -/
theorem swapInFind_eq_none :
    swapInFind sw as vaddr = none ↔ ∀ i < swapSize, sw.entry i ≠ ⟨some as, vaddr⟩ := by
  have hsearch : swapInFind sw as vaddr = none ↔ firstIdx
      (fun i => (sw.entry i).as = some as ∧ (sw.entry i).vaddr = vaddr) 0 swapSize = none := by
    unfold swapInFind
    split <;> simp_all
  rw [hsearch, firstIdx_eq_none]
  constructor
  · intro h i hi he
    have := h i (Nat.zero_le _) (by omega)
    simp [he] at this
  · intro h i _ hi
    by_contra hc
    have htag : (sw.entry i).as = some as ∧ (sw.entry i).vaddr = vaddr := by simpa using hc
    refine h i (by omega) ?_
    rw [← htag.1, ← htag.2]

/-- **`swap_out` finds an empty slot** and tags it with the page. -/
theorem swapOutFind_some (h : swapOutFind sw as vaddr = some (i, sw')) :
    i < swapSize ∧ (sw.entry i).as = none ∧ sw' = sw.setEntry i ⟨some as, vaddr⟩ := by
  unfold swapOutFind at h
  split at h
  · next k hk =>
    cases h
    have hfound := firstIdx_some hk
    exact ⟨hfound.1, by simpa using hfound.2, rfl⟩
  · cases h

theorem swapAsfree_entry (j : ℕ) :
    (swapAsfree sw as).entry j =
      if j < swapSize then asfreeSlot as (sw.entry j) else sw.entry j := by
  unfold swapAsfree
  generalize swapSize = n
  refine (forRange_update (fun _ => asfreeSlot as) n 0 sw.entry j).trans (if_congr ?_ rfl rfl)
  omega

theorem swapAsfree_swapfile : (swapAsfree sw as).swapfile = sw.swapfile := by
  unfold swapAsfree
  generalize swapSize = n
  rfl

@[simp] theorem readPage_setEntry {e : SwapEntry} : readPage (sw.setEntry j e) i = readPage sw i := rfl

@[simp] theorem readPage_swapAsfree : readPage (swapAsfree sw as) i = readPage sw i := by
  unfold readPage
  rw [swapAsfree_swapfile]

@[simp] theorem writePage_entry : (writePage sw i page).entry = sw.entry := rfl

/-- A page reads back as it was written. -/
@[simp] theorem readPage_writePage_self : readPage (writePage sw i page) i = page := by
  funext o
  have ho : i * pageSize ≤ i * pageSize + o ∧ i * pageSize + o - i * pageSize < pageSize :=
    ⟨Nat.le_add_right _ _, by rw [Nat.add_sub_cancel_left]; exact o.isLt⟩
  change (if h : _ then _ else _) = page o
  rw [dif_pos ho]
  simp only [Nat.add_sub_cancel_left]

/-- Writing a page leaves the others as they are. -/
theorem readPage_writePage_ne (h : j ≠ i) : readPage (writePage sw i page) j = readPage sw j := by
  funext o
  have ho : ¬ (i * pageSize ≤ j * pageSize + o ∧ j * pageSize + o - i * pageSize < pageSize) := by
    have := o.isLt
    unfold pageSize at *
    omega
  simp only [readPage, writePage, dif_neg ho]

end Spec

end Os161
