import Os161.Vm.Coherence

set_option autoImplicit false

/-!
# The three tables

The page tables, the coremap and the swap map say the same about every address space that has no
fault in progress and whose `as_destroy` has not begun. `as_destroy` frees the frames first and the
page table last: in between, its entries are for frames that may belong to somebody else.

* `Tagged`: the entry of the coremap of a page; `HasSlot`: the entry of the swap map.
* **`tables_agree`**: the agreement, in every reachable state.
* **`not_tablesAgree`**: it fails between `cm_asfree` and the end of `as_destroy`.
-/

namespace Os161

open Transition Addrspace

/-- Frame `k` holds page `v` of the address space, loaded. -/
def Tagged (s : VmState) (as : AsId) (v k : ℕ) : Prop :=
  k < s.cms.cm.ramFrames ∧
    s.cms.cm.entry k = ⟨some as, v, .clean, 1, (s.cms.cm.entry k).timestamp⟩

/-- Slot `i` holds page `v` of the address space. -/
def HasSlot (s : VmState) (as : AsId) (v i : ℕ) : Prop := i < swapSize ∧ s.sw.entry i = ⟨some as, v⟩

section Agreement

variable {s : VmState} {as as' : AsId} {P P' : Proc} {e e' : PtEntry} {k : ℕ}

/-- **No two entries of any address spaces share a frame.** -/
theorem CoherentAt.frame_unique (hown : Own s) (h : CoherentAt s as) (hP : s.procs as = some P)
    (hP' : s.procs as' = some P') (hrun : P.stage = .running) (hrun' : P'.stage = .running)
    (he : e ∈ P.space.pt) (he' : e' ∈ P'.space.pt) (hin : e.inMem = true) (hin' : e'.inMem = true)
    (hf : e.frame = e'.frame) : as = as' ∧ e = e' := by
  obtain ⟨k, hk, hk₁⟩ := (hown.proc _ _ hP).pt hrun e he hin
  obtain ⟨k', hk', hk₂⟩ := (hown.proc _ _ hP').pt hrun' e' he' hin'
  obtain rfl : k = k' := s.cms.cm.ram.frameAddr_injective (hk.symm.trans (hf.trans hk'))
  obtain rfl := hown.cm.holds_unique hk₁ hk₂
  obtain rfl := Option.some.inj (hP.symm.trans hP')
  refine ⟨rfl, entry_unique (h.placed.nodup _ hP) he he' ?_⟩
  have hb := h.backed _ hP hrun
  have hback : ∀ x ∈ P.space.pt, x.inMem = true → x.frame = s.cms.cm.ram.frameAddr k →
      (∃ st, s.cms.tag k = some (as, x.page, st)) ∨ Leaves P x.page k := fun x hx hxin hxf => by
    obtain ⟨j, hj, hback⟩ := hb.entry x hx hxin
    obtain rfl := s.cms.cm.ram.frameAddr_injective (hj.symm.trans hxf)
    exact hback
  -- a frame that is being written out has no tag
  have hno : ∀ {v w st}, s.cms.tag k = some (as, v, st) → ¬ Leaves P w k := by
    rintro v w st ht ⟨act, paddr, hact, -, hph⟩
    have hfr := (hown.proc _ _ hP).acts act (List.mem_of_mem_head? hact)
    rw [hph] at hfr
    exact hown.cm.not_pending_of_tag ht as hfr.2
  rcases hback e he hin hk with ⟨st, ht⟩ | hl <;> rcases hback e' he' hin' hk' with ⟨st', ht'⟩ | hl'
  · rw [ht, Option.some.injEq, Prod.mk.injEq, Prod.mk.injEq] at ht'
    exact ht'.2.1
  · exact absurd hl' (hno ht)
  · exact absurd hl (hno ht')
  · obtain ⟨act, paddr, hact, hv, -⟩ := hl
    obtain ⟨act', paddr', hact', hv', -⟩ := hl'
    obtain rfl := Option.some.inj (hact.symm.trans hact')
    exact Option.some.inj (hv.symm.trans hv')

/-- An entry of the coremap with the address space is for a page in memory. -/
theorem CoherentAt.entry_of_as (h : CoherentAt s as) (hP : s.procs as = some P) (hrun : P.stage = .running)
    (hst : P.stack = []) (hk : k < s.cms.cm.ramFrames) (has : (s.cms.cm.entry k).as = some as) :
    ∃ e ∈ P.space.pt, e.inMem = true ∧ e.frame = s.cms.cm.ram.frameAddr k := by
  have ht : s.cms.tag k = some (as, (s.cms.cm.entry k).virtAddr, (s.cms.cm.entry k).state) :=
    CmSys.tag_eq_some.mpr ⟨hk, has, rfl, rfl⟩
  obtain ⟨-, hin | ⟨act, victim, hact, -⟩⟩ := (h.placed.fault _ hP hrun).tagged k _ _ ht
  · obtain ⟨e, he, -, hmem, hf⟩ := Addrspace.InMem.entry hin
    exact ⟨e, he, hmem, hf⟩
  · rw [hst] at hact
    cases hact

/-- The pages with a slot are those whose entry says so. -/
theorem CoherentAt.holds_iff {v : ℕ} (h : CoherentAt s as) (hP : s.procs as = some P)
    (hrun : P.stage = .running) (hst : P.stack = []) :
    (∃ i, HasSlot s as v i) ↔ ∃ e ∈ P.space.pt, e.page = v ∧ e.inSwap = true := by
  refine ((h.placed.slots _ hP hrun).held v).trans (or_iff_left ?_)
  rintro ⟨act, hact, -⟩
  rw [hst] at hact
  cases hact

/-- A page has one slot. -/
theorem CoherentAt.slot_unique {v i j : ℕ} (h : CoherentAt s as) (hi : HasSlot s as v i)
    (hj : HasSlot s as v j) : i = j :=
  h.placed.apart i hi.1 j hj.1 v hi.2 hj.2

end Agreement

section Run

variable {ram : RamLayout} {garbage : ℕ → CmEntry} {file mem : ℕ → UInt8}
  {files : FileId → List UInt8} {pre acts : List VmAction} {s₀ s : VmState} {as : AsId} {P : Proc}

/-- **The tables agree** on every address space whose regions share no page, from its `as_create` to its
`as_destroy`, whatever the others do: without a fault in progress, the entries in memory are the frames
tagged with it and the swapped ones are its slots; and at any time it shares no frame and no slot with
the entries of any address space. -/
theorem tables_agree
    (hpre : run VmState.step (VmState.boot ram garbage file mem files) pre = .ok s₀)
    (hnew : s₀.procs as = none)
    (hdef : Along VmState.step (fun s a => a.actor = some as → DefineApart s a) s₀ acts)
    (h : run VmState.step s₀ acts = .ok s) (hP : s.procs as = some P) (hrun : P.stage = .running) :
    (P.stack = [] →
      ((∀ e ∈ P.space.pt, e.inMem = true →
          ∃ k, e.frame = s.cms.cm.ram.frameAddr k ∧ Tagged s as e.page k) ∧
        ∀ k < s.cms.cm.ramFrames, (s.cms.cm.entry k).as = some as →
          ∃! e, e ∈ P.space.pt ∧ e.inMem = true ∧ e.frame = s.cms.cm.ram.frameAddr k) ∧
      ((∀ e ∈ P.space.pt, e.inSwap = true ↔ ∃! i, HasSlot s as e.page i) ∧
        ∀ i < swapSize, ∀ v, s.sw.entry i = ⟨some as, v⟩ →
          ∃ e ∈ P.space.pt, e.page = v ∧ e.inSwap = true) ∧
      ∀ e ∈ P.space.pt, ¬ (e.inMem = true ∧ e.inSwap = true)) ∧
    ∀ as' P', s.procs as' = some P' → P'.stage = .running →
      ∀ e ∈ P.space.pt, ∀ e' ∈ P'.space.pt,
        (e.inMem = true → e'.inMem = true → e.frame = e'.frame → as = as' ∧ e = e') ∧
        ∀ i, HasSlot s as e.page i → HasSlot s as' e'.page i → as = as' ∧ e = e' := by
  obtain ⟨hown, hc⟩ := coherentAt_run (own_run hpre) hnew hdef h
  refine ⟨fun hst => ⟨⟨fun e he hin => ?_, fun k hk has => ?_⟩,
    ⟨fun e he => ?_, fun i hi v hv => ?_⟩, fun e he hboth => ?_⟩,
    fun as' P' hP' hrun' e he e' he' => ⟨fun hin hin' hf => ?_, fun i hi hi' => ?_⟩⟩
  · obtain ⟨k, hk, hf, hent⟩ := hc.clean hown hP hrun hst he hin
    exact ⟨k, hf, hk, hent⟩
  · obtain ⟨e, he, hin, hf⟩ := hc.entry_of_as hP hrun hst hk has
    refine ⟨e, ⟨he, hin, hf⟩, fun e' ⟨he', hin', hf'⟩ => ?_⟩
    exact (hc.frame_unique hown hP hP hrun hrun he' he hin' hin (hf'.trans hf.symm)).2
  · constructor
    · intro hs
      obtain ⟨i, hi⟩ := (hc.holds_iff hP hrun hst).mpr ⟨e, he, rfl, hs⟩
      exact ⟨i, hi, fun j hj => hc.slot_unique hj hi⟩
    · rintro ⟨i, hi, -⟩
      obtain ⟨e', he', hp, hs⟩ := (hc.holds_iff hP hrun hst).mp ⟨i, hi⟩
      obtain rfl := entry_unique (hc.placed.nodup _ hP) he' he hp
      exact hs
  · exact (hc.holds_iff hP hrun hst).mp ⟨i, hi, hv⟩
  · have hno := (hc.placed.slots _ hP hrun).apart e he hboth.1
    rw [hboth.2] at hno
    cases hno
  · exact hc.frame_unique hown hP hP' hrun hrun' he he' hin hin' hf
  · have heq := hi.2.symm.trans hi'.2
    obtain rfl : as = as' := Option.some.inj (congrArg SwapEntry.as heq)
    obtain rfl := Option.some.inj (hP.symm.trans hP')
    exact ⟨rfl, entry_unique (hc.placed.nodup _ hP) he he' (congrArg SwapEntry.vaddr heq)⟩

/-- The entry of the first page. -/
theorem mem_firstPage : wideEntry 0 0 ∈ (wideSpace 1 (wideEntry 0)).pt :=
  List.mem_of_getElem? (getElem?_wideTable Nat.one_pos)

theorem tables_agree_firstPage : ∃ s, run VmState.step wideBoot firstPageRun = .ok s ∧
    ∃ P, s.procs 0 = some P ∧ ∃ e ∈ P.space.pt, e.inMem = true ∧
      ∃ k, e.frame = s.cms.cm.ram.frameAddr k ∧ Tagged s 0 e.page k := by
  obtain ⟨s, hs, h⟩ := run_firstPageRun
  have hin : (wideEntry 0 0).inMem = true := by decide
  have hnil : run VmState.step wideBoot [] = .ok wideBoot := rfl
  have hdef : Along VmState.step (fun s a => a.actor = some 0 → DefineApart s a) wideBoot
      firstPageRun :=
    Along.mono _ (fun _ a hd (_ : a.actor = some 0) => hd) along_firstPageRun
  exact ⟨s, hs, _, h.proc, _, mem_firstPage, hin,
    ((tables_agree hnil rfl hdef hs h.proc rfl).1 rfl).1.1 _ mem_firstPage hin⟩

/-- **In `as_destroy`, after `cm_asfree`**, the page table of the address space is still for frames
that are `FREE`. -/
theorem not_tablesAgree : ∃ acts s P, Along VmState.step DefineApart wideBoot acts ∧
    run VmState.step wideBoot acts = .ok s ∧ s.procs 0 = some P ∧ P.stack = [] ∧
      ∃ e ∈ P.space.pt, e.inMem = true ∧ ∃ k < s.cms.cm.ramFrames,
        e.frame = s.cms.cm.ram.frameAddr k ∧ (s.cms.cm.entry k).as = none ∧
          (s.cms.cm.entry k).state = .free := by
  obtain ⟨s, hs, h⟩ := run_firstPageRun
  have hlt : 15 < s.cms.cm.ramFrames := by
    unfold Coremap.ramFrames
    rw [h.ram]
    decide
  have hfree : (s.cms.asfree 0).cm.entry 15 = ⟨none, 0, .free, 0, noStamp⟩ := by
    refine (cmAsfree_entry 15).trans ?_
    rw [if_pos hlt, h.frame]
    rfl
  let P : Proc := ⟨wideSpace 1 (wideEntry 0), [], .cmFreed⟩
  have hexit : s.step (.exitCm 0) = .ok (({ s with cms := s.cms.asfree 0 }).setProc 0 P) := by
    have hcurrent : s.current 0 = .ok ⟨wideSpace 1 (wideEntry 0), [], .running⟩ :=
      current_ok h.cur h.proc rfl
    simp only [VmState.step, hcurrent]
    rfl
  refine ⟨firstPageRun ++ [.exitCm 0], ({ s with cms := s.cms.asfree 0 }).setProc 0 P, P, ?_, ?_,
    setProc_self _ _ _, rfl, wideEntry 0 0, mem_firstPage, by decide, 15, hlt, ?_, ?_⟩
  · exact Along.append _ along_firstPageRun fun t _ => .of_forall _ (by simp [DefineApart])
  · exact (run_append_of_ok _ _ hs).trans (run_cons_of_ok _ _ hexit)
  · change smallRam.frameAddr 15 = s.cms.cm.ram.frameAddr 15
    rw [h.ram]
  · exact ⟨congrArg CmEntry.as hfree, congrArg CmEntry.state hfree⟩

end Run

end Os161
