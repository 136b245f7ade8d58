import Os161.Machine.Stop
import Os161.Swap.Model

set_option autoImplicit false

/-!
# Swapping by several address spaces at once

Each address space runs at most one `swap_in` or `swap_out` at a time, and the steps of different
address spaces interleave: the search under `sw_lock` is one step, the transfer of the page is
another one.

* `SwapSys.step`: the steps, with `inSwap` the `in_swap` flags by which `vm_fault` decides which of
  the two functions to call.
* `Delivered`: every page read is the one written by the latest `swap_out` of that page.
* **`delivered_of_writeSafe`**: this holds in every run in which no page is written to a slot that
  a `swap_in` has released and not read yet.
* **`not_delivered_of_reused_slot`**: such a write breaks it.
-/

namespace Os161

open Transition

/-- Where an address space is inside `swap.c`. -/
inductive SwapPc
  | idle
  /-- in `swap_in`, before `VOP_READ` of the slot -/
  | reading (vaddr slot : ℕ)
  /-- in `swap_out`, before `VOP_WRITE` of the slot -/
  | writing (vaddr slot : ℕ)
  deriving DecidableEq, Repr

/-- The completed transfers. -/
inductive SwapEvent
  | wrote (as : AsId) (vaddr : ℕ) (page : Page)
  | read (as : AsId) (vaddr : ℕ) (page : Page)

/-- The swap space, the progress of every address space, its `in_swap` flags and the transfers so
far, the newest first. -/
structure SwapSys where
  sw : SwapSpace
  pc : AsId → SwapPc
  inSwap : AsId → ℕ → Bool
  events : List SwapEvent

/-- The steps of the address spaces. -/
inductive SwapAction
  | swapIn (as : AsId) (vaddr : ℕ)
  | swapOut (as : AsId) (vaddr : ℕ)
  | read (as : AsId)
  | write (as : AsId) (page : Page)
  | asfree (as : AsId)

namespace SwapSys

/-- After `swapspace_bootstrap`. -/
def init (file : ℕ → UInt8) : SwapSys :=
  ⟨swapspaceBootstrap file, fun _ => .idle, fun _ _ => false, []⟩

/-- The address space `as` goes on at `pc`. -/
def goto (s : SwapSys) (as : AsId) (pc : SwapPc) : SwapSys :=
  { s with pc := Function.update s.pc as pc }

/-- Set or clear one `in_swap` flag. -/
def setInSwap (s : SwapSys) (as : AsId) (vaddr : ℕ) (b : Bool) : SwapSys :=
  { s with inSwap := Function.update s.inSwap as (Function.update (s.inSwap as) vaddr b) }

/-- `swap_asfree`: no page of the address space is left in the swap file. -/
def asfree (s : SwapSys) (as : AsId) : SwapSys :=
  { s with
    sw := swapAsfree s.sw as
    inSwap := Function.update s.inSwap as fun _ => false }

/-- One step. `vm_fault` swaps in a page whose flag is set, after it cleared the flag, and
`pt_update` sets the flag after `swap_out`. -/
def step (s : SwapSys) : SwapAction → Except Stop SwapSys
  | .swapIn as vaddr => do
    require (s.pc as = .idle ∧ s.inSwap as vaddr = true)
    match swapInFind s.sw as vaddr with
    | some (i, sw) => return ({ s with sw := sw }.setInSwap as vaddr false).goto as (.reading vaddr i)
    | none => .error (.panic .swapVaddrNotFound)
  | .swapOut as vaddr => do
    require (s.pc as = .idle ∧ s.inSwap as vaddr = false)
    match swapOutFind s.sw as vaddr with
    | some (i, sw) => return { s with sw := sw }.goto as (.writing vaddr i)
    | none => .error (.panic .swapfileFull)
  | .read as =>
    match s.pc as with
    | .reading vaddr i =>
      return { s with events := .read as vaddr (readPage s.sw i) :: s.events }.goto as .idle
    | _ => .error .blocked
  | .write as page =>
    match s.pc as with
    | .writing vaddr i =>
      return ({ s with
        sw := writePage s.sw i page
        events := .wrote as vaddr page :: s.events }.setInSwap as vaddr true).goto as .idle
    | _ => .error .blocked
  | .asfree as => do
    require (s.pc as = .idle)
    return s.asfree as

end SwapSys

/-- The bytes that the latest `swap_out` of the page wrote. -/
def latest (as : AsId) (vaddr : ℕ) : List SwapEvent → Option Page
  | [] => none
  | .wrote as' vaddr' page :: es =>
    if as' = as ∧ vaddr' = vaddr then some page else latest as vaddr es
  | .read _ _ _ :: es => latest as vaddr es

/-- Every `swap_in` delivered what the latest `swap_out` of its page wrote. -/
def Delivered : List SwapEvent → Prop
  | [] => True
  | .wrote _ _ _ :: es => Delivered es
  | .read as vaddr page :: es => latest as vaddr es = some page ∧ Delivered es

/-- The step writes no slot that another address space released in `swap_in` and still has to
read. -/
def WriteSafe (s : SwapSys) : SwapAction → Prop
  | .write as _ => ∀ vaddr i, s.pc as = .writing vaddr i → ∀ as' vaddr', s.pc as' ≠ .reading vaddr' i
  | _ => True

/-- **The swap invariant**: the tags of the slots are exactly the pages in the swap file and the
pages being written, and slots hold what was written last. -/
structure SwapInv (s : SwapSys) : Prop where
  unique : ∀ i < swapSize, ∀ j < swapSize, (s.sw.entry i).as ≠ none →
    s.sw.entry i = s.sw.entry j → i = j
  tagged : ∀ i < swapSize, ∀ as vaddr, s.sw.entry i = ⟨some as, vaddr⟩ →
    s.inSwap as vaddr = true ∨ s.pc as = .writing vaddr i
  writing : ∀ as vaddr i, s.pc as = .writing vaddr i →
    i < swapSize ∧ s.sw.entry i = ⟨some as, vaddr⟩ ∧ s.inSwap as vaddr = false
  saved : ∀ as vaddr, s.inSwap as vaddr = true → ∃ i < swapSize,
    s.sw.entry i = ⟨some as, vaddr⟩ ∧ latest as vaddr s.events = some (readPage s.sw i)
  reading : ∀ as vaddr i, s.pc as = .reading vaddr i →
    latest as vaddr s.events = some (readPage s.sw i) ∧ s.inSwap as vaddr = false
  delivered : Delivered s.events

section Step

variable {s s' : SwapSys} {as as' : AsId} {vaddr vaddr' i : ℕ} {page : Page} {sw : SwapSpace}

@[simp] theorem SwapSys.goto_sw (pc : SwapPc) : (s.goto as pc).sw = s.sw := rfl
@[simp] theorem SwapSys.goto_inSwap (pc : SwapPc) : (s.goto as pc).inSwap = s.inSwap := rfl
@[simp] theorem SwapSys.goto_events (pc : SwapPc) : (s.goto as pc).events = s.events := rfl
@[simp] theorem SwapSys.setInSwap_sw (b : Bool) : (s.setInSwap as vaddr b).sw = s.sw := rfl
@[simp] theorem SwapSys.setInSwap_pc (b : Bool) : (s.setInSwap as vaddr b).pc = s.pc := rfl
@[simp] theorem SwapSys.setInSwap_events (b : Bool) :
    (s.setInSwap as vaddr b).events = s.events := rfl

@[simp] theorem SwapSys.goto_pc (pc : SwapPc) :
    (s.goto as pc).pc as' = if as' = as then pc else s.pc as' := Function.update_apply _ _ _ _

@[simp] theorem SwapSys.setInSwap_inSwap (b : Bool) :
    (s.setInSwap as vaddr b).inSwap as' vaddr' =
      if as' = as ∧ vaddr' = vaddr then b else s.inSwap as' vaddr' := by
  unfold setInSwap
  by_cases h : as' = as
  · subst h
    simp [Function.update_apply]
  · simp [h]

theorem swapInv_init (file : ℕ → UInt8) : SwapInv (SwapSys.init file) where
  unique _ _ _ _ h := absurd rfl h
  tagged _ _ _ _ h := by cases h
  writing _ _ _ h := by cases h
  saved _ _ h := by cases h
  reading _ _ _ h := by cases h
  delivered := trivial

/-- `swap_in` releases the slot of the page; its bytes stay there. -/
theorem SwapInv.swapIn (h : SwapInv s) (hidle : s.pc as = .idle) (hin : s.inSwap as vaddr = true)
    (hfind : swapInFind s.sw as vaddr = some (i, sw)) :
    SwapInv (({ s with sw := sw }.setInSwap as vaddr false).goto as (.reading vaddr i)) := by
  obtain ⟨hi, htag, rfl⟩ := swapInFind_some hfind
  obtain ⟨j, hj, hjtag, hlatest⟩ := h.saved as vaddr hin
  obtain rfl : i = j := h.unique i hi j hj (by rw [htag]; simp) (by rw [htag, hjtag])
  refine ⟨?_, ?_, ?_, ?_, ?_, h.delivered⟩
  · intro k hk l hl hne heq
    have := h.unique k hk l hl
    simp only [SwapSys.goto_sw, SwapSys.setInSwap_sw, SwapSpace.setEntry_entry] at hne heq
    grind
  · intro k hk as' vaddr' he
    have := h.tagged k hk as' vaddr'
    have := h.unique k hk i hi
    simp only [SwapSys.goto_sw, SwapSys.setInSwap_sw, SwapSpace.setEntry_entry] at he
    simp only [SwapSys.goto_pc, SwapSys.goto_inSwap, SwapSys.setInSwap_inSwap, SwapSys.setInSwap_pc]
    grind
  · intro as' vaddr' k hpc
    have := h.writing as' vaddr' k
    simp only [SwapSys.goto_pc, SwapSys.setInSwap_pc] at hpc
    simp only [SwapSys.goto_sw, SwapSys.setInSwap_sw, SwapSpace.setEntry_entry, SwapSys.goto_inSwap,
      SwapSys.setInSwap_inSwap]
    grind
  · intro as' vaddr' hs
    have := h.saved as' vaddr'
    simp only [SwapSys.goto_inSwap, SwapSys.setInSwap_inSwap] at hs
    simp only [SwapSys.goto_sw, SwapSys.setInSwap_sw, SwapSpace.setEntry_entry, readPage_setEntry,
      SwapSys.goto_events, SwapSys.setInSwap_events]
    grind
  · intro as' vaddr' k hpc
    have := h.reading as' vaddr' k
    simp only [SwapSys.goto_pc, SwapSys.setInSwap_pc] at hpc
    simp only [SwapSys.goto_sw, SwapSys.setInSwap_sw, readPage_setEntry, SwapSys.goto_events,
      SwapSys.setInSwap_events, SwapSys.goto_inSwap, SwapSys.setInSwap_inSwap]
    grind

/-- `swap_out` tags an empty slot, which no finished or running transfer uses. -/
theorem SwapInv.swapOut (h : SwapInv s) (hidle : s.pc as = .idle) (hout : s.inSwap as vaddr = false)
    (hfind : swapOutFind s.sw as vaddr = some (i, sw)) :
    SwapInv ({ s with sw := sw }.goto as (.writing vaddr i)) := by
  obtain ⟨hi, hfree, rfl⟩ := swapOutFind_some hfind
  have hnew : ∀ k < swapSize, s.sw.entry k ≠ ⟨some as, vaddr⟩ := by
    intro k hk he
    rcases h.tagged k hk as vaddr he with hs | hw
    · rw [hout] at hs; cases hs
    · rw [hidle] at hw; cases hw
  refine ⟨?_, ?_, ?_, ?_, ?_, h.delivered⟩
  · intro k hk l hl hne heq
    have := h.unique k hk l hl
    have := hnew k hk
    have := hnew l hl
    simp only [SwapSys.goto_sw, SwapSpace.setEntry_entry] at hne heq
    grind
  · intro k hk as' vaddr' he
    have := h.tagged k hk as' vaddr'
    simp only [SwapSys.goto_sw, SwapSpace.setEntry_entry] at he
    simp only [SwapSys.goto_pc, SwapSys.goto_inSwap]
    grind
  · intro as' vaddr' k hpc
    have := h.writing as' vaddr' k
    simp only [SwapSys.goto_pc] at hpc
    simp only [SwapSys.goto_sw, SwapSpace.setEntry_entry, SwapSys.goto_inSwap]
    grind
  · intro as' vaddr' hs
    obtain ⟨k, hk, htag, hlatest⟩ := h.saved as' vaddr' hs
    have hki : k ≠ i := by
      rintro rfl
      rw [htag] at hfree
      cases hfree
    refine ⟨k, hk, ?_, hlatest⟩
    rw [SwapSys.goto_sw, SwapSpace.setEntry_entry, if_neg hki]
    exact htag
  · intro as' vaddr' k hpc
    have := h.reading as' vaddr' k
    simp only [SwapSys.goto_pc] at hpc
    simp only [SwapSys.goto_sw, readPage_setEntry, SwapSys.goto_events, SwapSys.goto_inSwap]
    grind

/-- `VOP_READ` delivers the page that the slot still holds. -/
theorem SwapInv.read (h : SwapInv s) (hpc : s.pc as = .reading vaddr i) :
    SwapInv ({ s with
      events := .read as vaddr (readPage s.sw i) :: s.events }.goto as .idle) := by
  refine ⟨h.unique, ?_, ?_, h.saved, ?_, (h.reading as vaddr i hpc).1, h.delivered⟩
  · intro k hk as' vaddr' he
    have := h.tagged k hk as' vaddr' he
    simp only [SwapSys.goto_pc, SwapSys.goto_inSwap]
    grind
  · intro as' vaddr' k hpc'
    simp only [SwapSys.goto_pc] at hpc'
    split_ifs at hpc'
    exact h.writing as' vaddr' k hpc'
  · intro as' vaddr' k hpc'
    simp only [SwapSys.goto_pc] at hpc'
    split_ifs at hpc'
    exact h.reading as' vaddr' k hpc'

/-- `VOP_WRITE` saves the page; the condition is used for the slots that are being read. -/
theorem SwapInv.write (h : SwapInv s) (hpc : s.pc as = .writing vaddr i)
    (hsafe : ∀ as' vaddr', s.pc as' ≠ .reading vaddr' i) :
    SwapInv (({ s with
      sw := writePage s.sw i page
      events := .wrote as vaddr page :: s.events }.setInSwap as vaddr true).goto as .idle) := by
  obtain ⟨hi, htag, hout⟩ := h.writing as vaddr i hpc
  refine ⟨h.unique, ?_, ?_, ?_, ?_, h.delivered⟩
  · intro k hk as' vaddr' he
    have := h.tagged k hk as' vaddr' he
    simp only [SwapSys.goto_pc, SwapSys.goto_inSwap, SwapSys.setInSwap_inSwap, SwapSys.setInSwap_pc]
    grind
  · intro as' vaddr' k hpc'
    have := h.writing as' vaddr' k
    simp only [SwapSys.goto_pc, SwapSys.setInSwap_pc] at hpc'
    simp only [SwapSys.goto_sw, SwapSys.setInSwap_sw, writePage_entry, SwapSys.goto_inSwap,
      SwapSys.setInSwap_inSwap]
    grind
  · intro as' vaddr' hs
    simp only [SwapSys.goto_inSwap, SwapSys.setInSwap_inSwap] at hs
    by_cases hpage : as' = as ∧ vaddr' = vaddr
    · obtain ⟨rfl, rfl⟩ := hpage
      refine ⟨i, hi, htag, ?_⟩
      simp [latest]
    · rw [if_neg hpage] at hs
      obtain ⟨k, hk, hktag, hlatest⟩ := h.saved as' vaddr' hs
      have hki : k ≠ i := by
        rintro rfl
        rw [htag] at hktag
        cases hktag
        exact hpage ⟨rfl, rfl⟩
      refine ⟨k, hk, hktag, ?_⟩
      have hne : ¬ (as = as' ∧ vaddr = vaddr') := fun e => hpage ⟨e.1.symm, e.2.symm⟩
      simp only [SwapSys.goto_events, SwapSys.setInSwap_events, latest, if_neg hne,
        SwapSys.goto_sw, SwapSys.setInSwap_sw, readPage_writePage_ne hki]
      exact hlatest
  · intro as' vaddr' k hpc'
    simp only [SwapSys.goto_pc, SwapSys.setInSwap_pc] at hpc'
    split_ifs at hpc' with has
    have hki : k ≠ i := by
      rintro rfl
      exact hsafe as' vaddr' hpc'
    have hne : ¬ (as = as' ∧ vaddr = vaddr') := fun e => has e.1.symm
    have hne' : ¬ (as' = as ∧ vaddr' = vaddr) := fun e => has e.1
    simp only [SwapSys.goto_events, SwapSys.setInSwap_events, latest, if_neg hne, SwapSys.goto_sw,
      SwapSys.setInSwap_sw, readPage_writePage_ne hki, SwapSys.goto_inSwap,
      SwapSys.setInSwap_inSwap, if_neg hne']
    exact h.reading as' vaddr' k hpc'

/-- `swap_asfree` empties the slots of one address space. -/
theorem SwapInv.asfree (h : SwapInv s) (hidle : s.pc as = .idle) : SwapInv (s.asfree as) := by
  unfold SwapSys.asfree
  refine ⟨?_, ?_, ?_, ?_, ?_, h.delivered⟩
  · intro k hk l hl hne heq
    have := h.unique k hk l hl
    simp only [swapAsfree_entry, if_pos hk, if_pos hl, asfreeSlot] at hne heq
    grind
  · intro k hk as' vaddr' he
    have := h.tagged k hk as' vaddr'
    simp only [swapAsfree_entry, if_pos hk, asfreeSlot] at he
    simp only [Function.update_apply]
    grind
  · intro as' vaddr' k hpc
    obtain ⟨hk, htag, hout⟩ := h.writing as' vaddr' k hpc
    have hne : as' ≠ as := by
      rintro rfl
      rw [hidle] at hpc
      cases hpc
    refine ⟨hk, ?_, ?_⟩
    · simp [swapAsfree_entry, hk, asfreeSlot, htag, hne]
    · simpa [Function.update_of_ne hne] using hout
  · intro as' vaddr' hs
    by_cases hne : as' = as
    · subst hne
      simp at hs
    · simp only [Function.update_of_ne hne] at hs
      obtain ⟨k, hk, htag, hlatest⟩ := h.saved as' vaddr' hs
      refine ⟨k, hk, ?_, by rw [readPage_swapAsfree]; exact hlatest⟩
      simp [swapAsfree_entry, hk, asfreeSlot, htag, hne]
  · intro as' vaddr' k hpc
    have hne : as' ≠ as := by
      rintro rfl
      rw [hidle] at hpc
      cases hpc
    have := h.reading as' vaddr' k hpc
    simpa [Function.update_of_ne hne, readPage_swapAsfree] using this

/-- **A step that meets the condition keeps the invariant.** -/
theorem swapInv_step {a : SwapAction} (h : SwapInv s) (hsafe : WriteSafe s a)
    (hs : s.step a = .ok s') : SwapInv s' := by
  cases a with
  | swapIn as vaddr =>
    obtain ⟨⟨hidle, hin⟩, hs⟩ := require_bind_ok.mp hs
    split at hs
    · next hfind => cases hs; exact h.swapIn hidle hin hfind
    · cases hs
  | swapOut as vaddr =>
    obtain ⟨⟨hidle, hout⟩, hs⟩ := require_bind_ok.mp hs
    split at hs
    · next hfind => cases hs; exact h.swapOut hidle hout hfind
    · cases hs
  | read as =>
    simp only [SwapSys.step] at hs
    split at hs
    · next hpc => cases hs; exact h.read hpc
    · cases hs
  | write as page =>
    simp only [SwapSys.step] at hs
    split at hs
    · next hpc => cases hs; exact h.write hpc (hsafe _ _ hpc)
    · cases hs
  | asfree as =>
    obtain ⟨hidle, hs⟩ := require_bind_ok.mp hs
    obtain rfl : s.asfree as = s' := Except.ok.inj hs
    exact h.asfree hidle

end Step

/-! ## Runs -/

section Run

variable {file : ℕ → UInt8} {acts : List SwapAction} {s : SwapSys}

/-- **No swapped page is lost or mixed up** in a run that never writes a released slot before it is
read: each `swap_in` delivers what the latest `swap_out` of the page wrote, and finds its slot. -/
theorem delivered_of_writeSafe (h : run SwapSys.step (SwapSys.init file) acts = .ok s)
    (hsafe : Along SwapSys.step WriteSafe (SwapSys.init file) acts) :
    Delivered s.events ∧
      ∀ as vaddr, s.inSwap as vaddr = true → swapInFind s.sw as vaddr ≠ none := by
  have hi : SwapInv s := run_inv_along SwapSys.step (fun _ _ _ hi hc hs => swapInv_step hi hc hs)
    (swapInv_init file) hsafe h
  refine ⟨hi.delivered, fun as vaddr hin hnone => ?_⟩
  obtain ⟨i, hlt, htag, -⟩ := hi.saved as vaddr hin
  exact swapInFind_eq_none.mp hnone i hlt htag

/-- Address space 1 swaps its page out and in again. -/
def roundTrip : List SwapAction :=
  [.swapOut 1 0x400000, .write 1 fun _ => 1, .swapIn 1 0x400000, .read 1]

theorem delivered_roundTrip :
    ∃ s, run SwapSys.step (SwapSys.init fun _ => 0) roundTrip = .ok s ∧ s.events.length = 2 ∧
      Delivered s.events := by
  refine ⟨_, rfl, rfl, ?_⟩
  refine (delivered_of_writeSafe (show run SwapSys.step (SwapSys.init fun _ => 0) roundTrip = .ok _
    from rfl) ?_).1
  refine ⟨trivial, fun t ht => ⟨?_, fun t ht => ⟨trivial, fun t ht => ⟨trivial, fun t ht => trivial⟩⟩⟩⟩
  cases ht
  intro vaddr i _ as' vaddr'
  rw [SwapSys.goto_pc]
  split_ifs <;> exact SwapPc.noConfusion

/-- Address space 2 takes the slot that 1 has released, and writes it before 1 has read it. -/
def reusedSlot : List SwapAction :=
  [.swapOut 1 0x400000, .write 1 fun _ => 1, .swapIn 1 0x400000, .swapOut 2 0x500000,
    .write 2 fun _ => 2, .read 1]

/-- **Reusing a slot too early** delivers the page of another address space. -/
theorem not_delivered_of_reused_slot :
    ¬ ∀ (file : ℕ → UInt8) (acts : List SwapAction) (s : SwapSys),
      run SwapSys.step (SwapSys.init file) acts = .ok s → Delivered s.events := by
  intro h
  have hdel := h (fun _ => 0) reusedSlot _ rfl
  have hpage : (fun _ => 1 : Page) = readPage _ 0 := Option.some.inj hdel.1
  have := congrFun hpage ⟨0, pageSize_pos⟩
  revert this
  decide

end Run

end Os161
