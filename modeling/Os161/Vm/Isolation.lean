import Os161.Vm.Served

set_option autoImplicit false

/-!
# Address spaces do not see each other

What a process reads depends on its own regions and its own stores. The others may define regions
that overlap or that are not regular, fault, drive pages out, exit, and an earlier address space may have
had the same name.

* `serial_run`: faults are serviced one at a time.
* `transparentAt_run`: every state after the creation of an address space is transparent for it.
* **`memory_isolated`**: what a load returns, and that it does, with conditions on the own regions only.
-/

namespace Os161

open Transition Addrspace

section Run

variable {ram : RamLayout} {garbage : ℕ → CmEntry} {file mem : ℕ → UInt8}
  {files : FileId → List UInt8} {pre acts : List VmAction} {s₀ s : VmState} {as : AsId}

/-- **At most one process has a fault** in every reachable state. -/
theorem serial_run (hser : Along VmState.step Serial (VmState.boot ram garbage file mem files) acts)
    (h : run VmState.step (VmState.boot ram garbage file mem files) acts = .ok s) :
    Own s ∧ s.files = files ∧ ∀ as as' P P', s.procs as = some P → s.procs as' = some P' →
      P.stack ≠ [] → P'.stack ≠ [] → as = as' := by
  refine run_inv_along VmState.step (P := fun s => Own s ∧ s.files = files ∧ ∀ as as' P P',
    s.procs as = some P → s.procs as' = some P' → P.stack ≠ [] → P'.stack ≠ [] → as = as')
    (fun s a t hs hC ht => ?_)
    ⟨own_boot, rfl, fun _ _ _ _ hP => by cases hP⟩ hser h
  obtain ⟨hown, hfiles, hone⟩ := hs
  have hstep := vmStep_of_step ht
  exact ⟨own_step hown hstep, (files_of_vmStep hstep).trans hfiles, serial_step hown hone hC hstep⟩

/-- An address space that does not exist is transparent. -/
theorem transparentAt_of_gone {m : Flat} (hown : Own s) (hfiles : s.files = files)
    (hone : ∀ as as' P P', s.procs as = some P → s.procs as' = some P' → P.stack ≠ [] →
      P'.stack ≠ [] → as = as') (hgone : s.procs as = none) : TransparentAt files s as m where
  own := hown
  coherent := coherentAt_of_gone hown hgone
  static := hfiles
  serial := hone
  strangers _ _ _ _ _ _ i _ _ hslot :=
    (hown.gone as hgone).2 i hslot.1 (congrArg SwapEntry.as hslot.2)
  shows P hP := by rw [hgone] at hP; cases hP
  fillable P hP := by rw [hgone] at hP; cases hP

/-- **Every state after the creation of an address space** is transparent for it. -/
theorem transparentAt_run (h₀ : TransparentAt files s₀ as .empty)
    (hdef : Along VmState.step (fun s a => Serial s a ∧
      (a.actor = some as → DefineApart s a ∧ Orderly s a)) s₀ acts)
    (h : run VmState.step s₀ acts = .ok s) : TransparentAt files s as (flatRun acts as) :=
  run_inv_history VmState.step (P := fun s m => TransparentAt files s as (m as)) flatStep
    (fun _ _ _ _ hs hC ht => transparentAt_step hs hC.1 hC.2 ht) h₀ hdef h

/-- **The memory of an address space is its own.** From the time when the address space does not exist
yet, and with conditions on its own regions only, a load returns the last byte that was stored to its
address by this process, or the initial byte; and a load of a page of a loaded program does return,
when no other process has a fault in progress, unless memory or the swap file is full. -/
theorem memory_isolated
    (hser : Along VmState.step Serial (VmState.boot ram garbage file mem files) pre)
    (hpre : run VmState.step (VmState.boot ram garbage file mem files) pre = .ok s₀)
    (hnew : s₀.procs as = none)
    (hdef : Along VmState.step (fun s a => Serial s a ∧
      (a.actor = some as → DefineApart s a ∧ Orderly s a)) s₀ acts)
    (h : run VmState.step s₀ acts = .ok s) :
    (∀ a b s', s.step (.load as a b) = .ok s' →
      b = ((flatRun acts as).stored a).getD ((flatRun acts as).initial files a)) ∧
    ∀ P a, s.cur = some as → s.procs as = some P → P.stage = .running → P.stack = [] →
      P.space.elfFile ≠ none → (∀ as' Q, as' ≠ as → s.procs as' = some Q → Q.stack = []) →
      a < userspaceTop → pageFrame a ∈ P.space.pages →
      ∃ acts' t, (∀ x ∈ acts', VmAction.Handles as x) ∧ run VmState.step s acts' = .ok t ∧
        (t.step (.load as a
            (((flatRun acts as).stored a).getD ((flatRun acts as).initial files a))) = .ok t ∨
          Full t as) := by
  obtain ⟨hown, hfiles, hone⟩ := serial_run hser hpre
  have hshown := transparentAt_run (transparentAt_of_gone hown hfiles hone hnew) hdef h
  refine ⟨fun a b s' hs => hshown.load hs, fun P a hcur hP hrun hst helf hidle ha hp => ?_⟩
  have hserve : Serving files (flatRun acts as) as s P := ⟨hshown, hcur, hP, hrun, helf⟩
  exact hserve.returns hst ha hp hidle

/-- Another process defines the same region twice. -/
def overlapRun : List VmAction :=
  [.create 1, .defineRegion 1 0 0 pageSize 4 2 0 ⟨0, 0, fun _ => 0⟩,
    .defineRegion 1 0 0 pageSize 4 2 0 ⟨0, 0, fun _ => 0⟩]

/-- A byte goes to the swap file and comes back next to a process whose regions overlap. -/
theorem memory_isolated_overlapRun : ∃ s, run VmState.step wideBoot (swapRun ++ overlapRun) = .ok s ∧
    (∃ P, s.procs 1 = some P ∧ ¬ P.space.pages.Nodup) ∧
    ∀ b s', s.step (.load 0 5 b) = .ok s' → b = 7 := by
  obtain ⟨s, P, hs, hP, hdup⟩ : ∃ s P, run VmState.step wideBoot (swapRun ++ overlapRun) = .ok s ∧
      s.procs 1 = some P ∧ ¬ P.space.pages.Nodup := ⟨_, _, rfl, rfl, by decide⟩
  have hnil : run VmState.step wideBoot [] = .ok wideBoot := rfl
  have hser : Along VmState.step Serial wideBoot [] := trivial
  have hdef : Along VmState.step (fun s a => Serial s a ∧
      (a.actor = some 0 → DefineApart s a ∧ Orderly s a)) wideBoot (swapRun ++ overlapRun) :=
    Along.append _ (Along.mono _ (fun _ _ hd => ⟨hd.2.serial, fun _ => hd⟩) along_swapRun)
      fun t _ => .of_forall _ (by simp [overlapRun, Serial, VmAction.actor])
  obtain ⟨hload, -⟩ := memory_isolated hser hnil rfl hdef hs
  exact ⟨s, hs, ⟨P, hP, hdup⟩, hload 5⟩

end Run

end Os161
