import Os161.Coremap.Tag
import Os161.Vm.Steps

set_option autoImplicit false

/-!
# Every address space keeps to its own frames

What holds of the machine for all address spaces, whatever their regions are: the page table, the
faults and the TLB of an address space refer to frames that are its own, a frame leaves it only in
`cm_asfree`, and an address space that does not exist owns nothing.

* `Pc.phase`: what a fault has to do with a frame.
* `Agree`: what one address space sees of two states is the same.
* `Own`: the invariant.
* **`own_step`**: every step keeps it; **`agree_of_vmStep`**: and leaves the other address spaces.
-/

namespace Os161

open Transition

/-- What a fault has to do with a frame: it has none yet, or a frame of its own whose page is leaving,
or one that is being loaded, or one that is loaded. -/
inductive Phase
  | search
  | leaving (pos paddr : ℕ)
  | loading (paddr : ℕ)
  | loaded (paddr : ℕ)
  deriving DecidableEq

/-- The phase of a fault. -/
def Pc.phase : Pc → Phase
  | .alloc | .evict => .search
  | .swapOutFind _ pos paddr => .leaving pos paddr
  | .swapOutCopy _ pos paddr _ _ _ => .leaving pos paddr
  | .swapOutWrite _ pos paddr _ _ => .leaving pos paddr
  | .update _ pos paddr => .leaving pos paddr
  | .replace _ paddr => .loading paddr
  | .swapInFind paddr => .loading paddr
  | .swapInRead paddr _ => .loading paddr
  | .fill _ paddr _ _ _ _ => .loading paddr
  | .elfRead paddr => .loading paddr
  | .setClean paddr => .loading paddr
  | .map paddr => .loaded paddr

/-- The frame of a phase. -/
def Phase.paddr : Phase → Option ℕ
  | .search => none
  | .leaving _ paddr => some paddr
  | .loading paddr => some paddr
  | .loaded paddr => some paddr

/-- The frame of a fault is in the coremap as the phase says. -/
def FrameOk (s : CmSys) (as : AsId) (page : ℕ) : Phase → Prop
  | .search => True
  | .leaving pos paddr => paddr = s.cm.ram.frameAddr pos ∧ (as, pos) ∈ s.pending
  | .loading paddr => ∃ k, paddr = s.cm.ram.frameAddr k ∧ s.tag k = some (as, page, .loading)
  | .loaded paddr => ∃ k, paddr = s.cm.ram.frameAddr k ∧ s.Holds as k

/-- What the address space sees is the same in both states. -/
structure Agree (as : AsId) (s s' : VmState) : Prop where
  ram : s'.cms.cm.ram = s.cms.cm.ram
  tag : ∀ k v st, s'.cms.tag k = some (as, v, st) ↔ s.cms.tag k = some (as, v, st)
  pending : ∀ k, (as, k) ∈ s'.cms.pending ↔ (as, k) ∈ s.cms.pending
  slot : ∀ i < swapSize, ∀ v, s'.sw.entry i = ⟨some as, v⟩ ↔ s.sw.entry i = ⟨some as, v⟩
  procs : s'.procs as = s.procs as

/-- The process of an address space and the frames. -/
structure ProcOwn (s : CmSys) (sw : SwapSpace) (as : AsId) (P : Proc) : Prop where
  linked : Linked P.space.segments P.space.pages
  pt : P.stage = .running → ∀ e ∈ P.space.pt, e.inMem = true →
    ∃ k, e.frame = s.cm.ram.frameAddr k ∧ s.Holds as k
  acts : ∀ act ∈ P.stack, FrameOk s as act.page act.pc.phase
  frames : (P.stack.filterMap fun act => act.pc.phase.paddr).Nodup
  tail : ∀ act ∈ P.stack.tail, act.access.isSome = true
  pending : ∀ k, (as, k) ∈ s.pending → ∃ act ∈ P.stack, ∃ paddr, act.pc.phase = .leaving k paddr
  idle : P.stage ≠ .running → P.stack = [] ∧ ∀ k, ¬ s.Holds as k
  slots : P.stage = .swapFreed → ∀ i < swapSize, (sw.entry i).as ≠ some as

/-- The TLB maps only frames of the current address space. -/
def MapsOwn (s : VmState) : Prop :=
  ∀ as P, s.cur = some as → s.procs as = some P → P.stage = .running →
    ∀ v f d, s.tlb.Maps v f d → ∃ k, f = s.cms.cm.ram.frameAddr k ∧ s.cms.Holds as k

/-- **The ownership invariant.** -/
structure Own (s : VmState) : Prop where
  cm : CmInv s.cms
  gone : ∀ as, s.procs as = none →
    (∀ k, ¬ s.cms.Holds as k) ∧ ∀ i < swapSize, (s.sw.entry i).as ≠ some as
  proc : ∀ as P, s.procs as = some P → ProcOwn s.cms s.sw as P
  maps : MapsOwn s
  cur : ∀ as, s.cur = some as → s.procs as ≠ none
  next : s.tlb.nextVictim < numTlb

section Frame

variable {s s' s'' : VmState} {c c' : CmSys} {as as' : AsId} {P : Proc} {page : ℕ} {ph : Phase}

/-! ## The frame rule -/

theorem FrameOk.congr (h : FrameOk c as page ph) (hram : c'.cm.ram = c.cm.ram)
    (hk : ∀ k, ph.paddr = some (c.cm.ram.frameAddr k) →
      (∀ v st, c.tag k = some (as, v, st) → c'.tag k = some (as, v, st)) ∧
        ((as, k) ∈ c.pending → (as, k) ∈ c'.pending)) : FrameOk c' as page ph := by
  cases ph with
  | search => trivial
  | leaving pos paddr =>
    obtain ⟨rfl, hp⟩ := h
    exact ⟨by rw [hram], (hk pos rfl).2 hp⟩
  | loading paddr =>
    obtain ⟨k, rfl, ht⟩ := h
    exact ⟨k, by rw [hram], (hk k rfl).1 _ _ ht⟩
  | loaded paddr =>
    obtain ⟨k, rfl, hh⟩ := h
    refine ⟨k, by rw [hram], ?_⟩
    rcases hh with ⟨v, st, ht⟩ | hp
    · exact .inl ⟨v, st, (hk k rfl).1 _ _ ht⟩
    · exact .inr ((hk k rfl).2 hp)

namespace Agree

theorem refl (as : AsId) (s : VmState) : Agree as s s :=
  ⟨rfl, fun _ _ _ => Iff.rfl, fun _ => Iff.rfl, fun _ _ _ => Iff.rfl, rfl⟩

theorem holds (h : Agree as s s') {k : ℕ} : s'.cms.Holds as k ↔ s.cms.Holds as k := by
  unfold CmSys.Holds
  simp only [h.tag, h.pending]

theorem slot_as (h : Agree as s s') {i : ℕ} (hi : i < swapSize) :
    (s'.sw.entry i).as = some as ↔ (s.sw.entry i).as = some as := by
  constructor
  · intro he
    have := (h.slot i hi (s'.sw.entry i).vaddr).mp (by rw [← he])
    rw [this]
  · intro he
    have := (h.slot i hi (s.sw.entry i).vaddr).mpr (by rw [← he])
    rw [this]

/-- The others see nothing of a change to the coremap, to their own slots and to a process. -/
theorem of_only (hc : CmSys.OnlyOf as s.cms s'.cms)
    (hsw : ∀ i < swapSize, ∀ v, s'.sw.entry i = ⟨some as', v⟩ ↔ s.sw.entry i = ⟨some as', v⟩)
    (hp : s'.procs as' = s.procs as') (hne : as' ≠ as) : Agree as' s s' :=
  ⟨hc.ram, hc.tag as' hne, hc.pending as' hne, hsw, hp⟩

end Agree

theorem setProc_self (s : VmState) (as : AsId) (P : Proc) : (s.setProc as P).procs as = some P :=
  Function.update_self _ _ _

theorem setProc_of_ne (s : VmState) (P : Proc) (hne : as' ≠ as) :
    (s.setProc as P).procs as' = s.procs as' := Function.update_of_ne hne _ _

/-- **The frame rule** of a process. -/
theorem ProcOwn.of_agree (h : ProcOwn s.cms s.sw as P) (ha : Agree as s s') :
    ProcOwn s'.cms s'.sw as P where
  linked := h.linked
  pt := fun hrun e he hin => by
    obtain ⟨k, hf, hk⟩ := h.pt hrun e he hin
    exact ⟨k, by rw [ha.ram]; exact hf, ha.holds.mpr hk⟩
  acts := fun act hact => (h.acts act hact).congr ha.ram fun k _ =>
    ⟨fun v st => (ha.tag k v st).mpr, (ha.pending k).mpr⟩
  frames := h.frames
  tail := h.tail
  pending := fun k hk => h.pending k ((ha.pending k).mp hk)
  idle := fun hs => ⟨(h.idle hs).1, fun k hk => (h.idle hs).2 k (ha.holds.mp hk)⟩
  slots := fun hs i hi he => h.slots hs i hi ((ha.slot_as hi).mp he)

end Frame

/-! ## The steps of a fault -/

section Go

variable {s s' : VmState} {as as' : AsId} {P : Proc} {act r : Activation} {rest : List Activation}
  {k : ℕ}

/-- A fault that another one interrupted is copying. -/
theorem phase_of_access (h : r.access.isSome = true) :
    (∃ pos paddr, r.pc.phase = .leaving pos paddr) ∨ ∃ paddr, r.pc.phase = .loading paddr := by
  unfold Activation.access at h
  split at h
  · next hpc => exact .inl ⟨_, _, by rw [hpc]; rfl⟩
  · next hpc => exact .inr ⟨_, by rw [hpc]; rfl⟩
  · cases h

/-- **The step of a fault is invisible to the other address spaces.** -/
theorem agree_of_goStep (hi : CmInv s.cms) (hf : FrameOk s.cms as act.page act.pc.phase)
    (h : GoStep s as P act rest s') (hne : as' ≠ as) : Agree as' s s' := by
  have hproc : ∀ (t : VmState) (Q : Proc), t.procs = s.procs →
      (t.setProc as Q).procs as' = s.procs as' :=
    fun t Q ht => (setProc_of_ne t Q hne).trans (by rw [ht])
  have hsame : ∀ i < swapSize, ∀ v,
      s.sw.entry i = ⟨some as', v⟩ ↔ s.sw.entry i = ⟨some as', v⟩ := fun _ _ _ => Iff.rfl
  have hrefl := CmSys.OnlyOf.refl as s.cms
  cases h with
  | full hpc hs => exact .of_only (.alloc hi rfl) hsame (hproc _ _ rfl) hne
  | alloc hpc hs _ => exact .of_only (.alloc hi hs) hsame (hproc _ _ rfl) hne
  | evict hpc hs => exact .of_only (.evict hi hs) hsame (hproc _ _ rfl) hne
  | swapOutFind hpc hs =>
    obtain ⟨-, hfree, rfl⟩ := swapOutFind_some hs
    refine .of_only hrefl (fun j _ v => ?_) (hproc _ _ rfl) hne
    change (s.sw.setEntry _ _).entry j = _ ↔ _
    rw [SwapSpace.setEntry_entry]
    split_ifs with hj
    · subst hj
      constructor
      · intro he
        cases he
        exact absurd rfl hne
      · intro he
        rw [he] at hfree
        cases hfree
    · exact Iff.rfl
  | swapOutCopy => exact .of_only hrefl hsame (hproc _ _ rfl) hne
  | swapOutCopied => exact .of_only hrefl hsame (hproc _ _ rfl) hne
  | swapOutWrite => exact .of_only hrefl hsame (hproc _ _ rfl) hne
  | update hpc =>
    rw [hpc] at hf
    exact .of_only (.updateVaddr hi hf.2) hsame (hproc _ _ rfl) hne
  | replace => exact .of_only hrefl hsame (hproc _ _ rfl) hne
  | swapInFind hpc hs =>
    obtain ⟨-, htag, rfl⟩ := swapInFind_some hs
    refine .of_only hrefl (fun j _ v => ?_) (hproc _ _ rfl) hne
    change (s.sw.setEntry _ _).entry j = _ ↔ _
    rw [SwapSpace.setEntry_entry]
    split_ifs with hj
    · subst hj
      rw [htag]
      constructor
      · intro he
        cases he
      · intro he
        cases he
        exact absurd rfl hne
    · exact Iff.rfl
  | swapInRead => exact .of_only hrefl hsame (hproc _ _ rfl) hne
  | fill => exact .of_only hrefl hsame (hproc _ _ rfl) hne
  | elfRead => exact .of_only hrefl hsame (hproc _ _ rfl) hne
  | setClean hpc =>
    rw [hpc] at hf
    obtain ⟨k, rfl, ht⟩ := hf
    exact .of_only (.setClean ht) hsame (hproc _ _ rfl) hne
  | map => exact .of_only hrefl hsame (hproc _ _ rfl) hne

/-- The address space keeps its frames during a fault. -/
theorem holds_of_goStep (hi : CmInv s.cms) (hf : FrameOk s.cms as act.page act.pc.phase)
    (h : GoStep s as P act rest s') (hk : s.cms.Holds as k) : s'.cms.Holds as k := by
  cases h with
  | full hpc hs => exact CmSys.holds_alloc hi rfl hk
  | alloc hpc hs _ => exact CmSys.holds_alloc hi hs hk
  | evict hpc hs => exact CmSys.holds_evict hi hs hk
  | update hpc =>
    rw [hpc] at hf
    exact CmSys.holds_updateVaddr hi hf.2 hk
  | setClean hpc =>
    rw [hpc] at hf
    obtain ⟨k', rfl, ht⟩ := hf
    exact CmSys.holds_setClean ht hk
  | _ => exact hk

@[simp] theorem phase_filled (paddr : ℕ) : (act.filled paddr).phase = .loading paddr := by
  unfold Activation.filled
  split_ifs <;> rfl

@[simp] theorem phase_copying (what : Fill) (paddr dst len : ℕ) (buf : ℕ → UInt8) (done : ℕ) :
    (act.copying what paddr dst len buf done).phase = .loading paddr := by
  unfold Activation.copying
  split_ifs
  · cases what <;> rfl
  · cases what <;> rfl
  · rfl

theorem mem_ptUpdate {pt : List PtEntry} {e : PtEntry} {v : ℕ} (h : e ∈ ptUpdate pt v)
    (hin : e.inMem = true) : e ∈ pt := by
  induction pt with
  | nil => exact h
  | cons e' pt ih =>
    rw [ptUpdate] at h
    split_ifs at h with hv
    · rcases List.mem_cons.mp h with rfl | h
      · cases hin
      · exact List.mem_cons_of_mem _ h
    · rcases List.mem_cons.mp h with rfl | h
      · exact List.mem_cons_self
      · exact List.mem_cons_of_mem _ (ih h)

theorem mem_ptSetFrame {pt : List PtEntry} {e : PtEntry} {j paddr : ℕ}
    (h : e ∈ ptSetFrame pt j paddr) : e ∈ pt ∨ e.frame = paddr := by
  unfold ptSetFrame at h
  obtain ⟨i, hi, rfl⟩ := List.getElem_of_mem h
  rw [List.getElem_modify]
  split_ifs
  · exact .inr rfl
  · exact .inl (List.getElem_mem _)

/-- The frames of the interrupted faults are pending or loading. -/
theorem ProcOwn.rest_frame {c : CmSys} {sw : SwapSpace} (h : ProcOwn c sw as P)
    (hst : P.stack = act :: rest) (hr : r ∈ rest)
    (hk : r.pc.phase.paddr = some (c.cm.ram.frameAddr k)) :
    (as, k) ∈ c.pending ∨ ∃ v, c.tag k = some (as, v, .loading) := by
  have hok := h.acts r (by rw [hst]; exact List.mem_cons_of_mem _ hr)
  rcases phase_of_access (h.tail r (by rw [hst]; exact hr)) with ⟨pos, paddr, e⟩ | ⟨paddr, e⟩
  · rw [e] at hok hk
    obtain ⟨rfl, hp⟩ := hok
    obtain rfl := c.cm.ram.frameAddr_injective (Option.some.inj hk)
    exact .inl hp
  · rw [e] at hok hk
    obtain ⟨k', rfl, ht⟩ := hok
    obtain rfl := c.cm.ram.frameAddr_injective (Option.some.inj hk)
    exact .inr ⟨_, ht⟩

/-- **The innermost fault goes on**, with its frame or with one that is not pending or loading. -/
theorem ProcOwn.advance {c c' : CmSys} {sw sw' : SwapSpace} {P' : Proc} {act' : Activation}
    (h : ProcOwn c sw as P) (hst : P.stack = act :: rest) (hrun : P.stage = .running)
    (hst' : P'.stack = act' :: rest) (hrun' : P'.stage = .running)
    (hseg : P'.space.segments = P.space.segments) (hpages : P'.space.pages = P.space.pages)
    (hram : c'.cm.ram = c.cm.ram) (hholds : ∀ k, c.Holds as k → c'.Holds as k)
    (hpt : ∀ e ∈ P'.space.pt, e.inMem = true →
      e ∈ P.space.pt ∨ act'.pc.phase = .loading e.frame)
    (htop : FrameOk c' as act'.page act'.pc.phase)
    (hfresh : ∀ k, act'.pc.phase.paddr = some (c.cm.ram.frameAddr k) →
      act.pc.phase.paddr = some (c.cm.ram.frameAddr k) ∨
        (as, k) ∉ c.pending ∧ ∀ v, c.tag k ≠ some (as, v, .loading))
    (hkeep : ∀ k, act.pc.phase.paddr ≠ some (c.cm.ram.frameAddr k) →
      act'.pc.phase.paddr ≠ some (c.cm.ram.frameAddr k) →
      (∀ v st, c.tag k = some (as, v, st) → c'.tag k = some (as, v, st)) ∧
        ((as, k) ∈ c.pending → (as, k) ∈ c'.pending))
    (hpend : ∀ k, (as, k) ∈ c'.pending → (∃ paddr, act'.pc.phase = .leaving k paddr) ∨
      ((as, k) ∈ c.pending ∧ ∀ paddr, act.pc.phase ≠ .leaving k paddr)) :
    ProcOwn c' sw' as P' := by
  have hframes := h.frames
  rw [hst, List.filterMap_cons] at hframes
  -- the frames of the interrupted faults are neither the old nor the new one of this fault
  have hold : ∀ r ∈ rest, ∀ k, r.pc.phase.paddr = some (c.cm.ram.frameAddr k) →
      act.pc.phase.paddr ≠ some (c.cm.ram.frameAddr k) := by
    intro r hr k hk he
    rw [he] at hframes
    exact (List.nodup_cons.mp hframes).1 (List.mem_filterMap.mpr ⟨r, hr, hk⟩)
  have hnew : ∀ r ∈ rest, ∀ k, r.pc.phase.paddr = some (c.cm.ram.frameAddr k) →
      act'.pc.phase.paddr ≠ some (c.cm.ram.frameAddr k) := by
    intro r hr k hk he
    rcases hfresh k he with hsame | ⟨hno, hnl⟩
    · exact hold r hr k hk hsame
    · rcases h.rest_frame hst hr hk with hp | ⟨v, ht⟩
      · exact hno hp
      · exact hnl v ht
  have hrest : (rest.filterMap fun act => act.pc.phase.paddr).Nodup := by
    revert hframes
    cases act.pc.phase.paddr with
    | none => exact id
    | some p => exact fun hn => (List.nodup_cons.mp hn).2
  refine ⟨by rw [hseg, hpages]; exact h.linked, fun _ e he hin => ?_, fun r hr => ?_, ?_, ?_,
    fun k hk => ?_, fun hs => absurd hrun' hs, fun hs => ?_⟩
  · rcases hpt e he hin with hmem | hph
    · obtain ⟨k, hf, hk⟩ := h.pt hrun e hmem hin
      exact ⟨k, by rw [hram]; exact hf, hholds k hk⟩
    · rw [hph] at htop
      obtain ⟨k, hf, ht⟩ := htop
      exact ⟨k, hf, .inl ⟨_, _, ht⟩⟩
  · rw [hst'] at hr
    rcases List.mem_cons.mp hr with rfl | hr
    · exact htop
    · refine (h.acts r (by rw [hst]; exact List.mem_cons_of_mem _ hr)).congr hram fun k hk => ?_
      exact hkeep k (hold r hr k hk) (hnew r hr k hk)
  · rw [hst', List.filterMap_cons]
    cases hp : act'.pc.phase.paddr with
    | none => exact hrest
    | some p =>
      refine List.nodup_cons.mpr ⟨fun hmem => ?_, hrest⟩
      obtain ⟨r, hr, hrp⟩ := List.mem_filterMap.mp hmem
      have hrk : ∃ k, p = c.cm.ram.frameAddr k := by
        have hok := h.acts r (by rw [hst]; exact List.mem_cons_of_mem _ hr)
        rcases phase_of_access (h.tail r (by rw [hst]; exact hr)) with ⟨pos, paddr, e⟩ | ⟨paddr, e⟩
        · rw [e] at hok hrp
          cases hrp
          exact ⟨_, hok.1⟩
        · rw [e] at hok hrp
          cases hrp
          exact ⟨_, hok.choose_spec.1⟩
      obtain ⟨k, rfl⟩ := hrk
      exact hnew r hr k hrp hp
  · rw [hst']
    exact fun r hr => h.tail r (by rw [hst]; exact hr)
  · rw [hst']
    rcases hpend k hk with ⟨paddr, hl⟩ | ⟨hold', hno⟩
    · exact ⟨act', List.mem_cons_self, paddr, hl⟩
    · obtain ⟨r, hr, paddr, hl⟩ := h.pending k hold'
      rw [hst] at hr
      rcases List.mem_cons.mp hr with rfl | hr
      · exact absurd hl (hno paddr)
      · exact ⟨r, List.mem_cons_of_mem _ hr, paddr, hl⟩
  · rw [hrun'] at hs
    cases hs

/-- The innermost fault goes on with its frame, which stays as it is. -/
theorem ProcOwn.keep {c : CmSys} {sw sw' : SwapSpace} {P' : Proc} {act' : Activation}
    (h : ProcOwn c sw as P) (hst : P.stack = act :: rest) (hrun : P.stage = .running)
    (hst' : P'.stack = act' :: rest) (hrun' : P'.stage = .running)
    (hseg : P'.space.segments = P.space.segments) (hpages : P'.space.pages = P.space.pages)
    (hpt : ∀ e ∈ P'.space.pt, e.inMem = true →
      e ∈ P.space.pt ∨ act'.pc.phase = .loading e.frame)
    (hpage : act'.page = act.page) (hph : act'.pc.phase = act.pc.phase) :
    ProcOwn c sw' as P' := by
  refine h.advance hst hrun hst' hrun' hseg hpages rfl (fun _ => id) hpt ?_
    (fun k hk => .inl (by rw [← hph]; exact hk)) (fun k _ _ => ⟨fun _ _ => id, id⟩) fun k hk => ?_
  · rw [hpage, hph]
    exact h.acts act (by rw [hst]; exact List.mem_cons_self)
  · rw [hph]
    by_cases hl : ∃ paddr, act.pc.phase = .leaving k paddr
    · exact .inl hl
    · exact .inr ⟨hk, fun paddr he => hl ⟨paddr, he⟩⟩

/-- **The step of a fault** keeps the process and its frames together. -/
theorem procOwn_of_goStep (hi : CmInv s.cms) (h : ProcOwn s.cms s.sw as P)
    (hst : P.stack = act :: rest) (hrun : P.stage = .running) (hgo : GoStep s as P act rest s') :
    ∃ P', s'.procs as = some P' ∧ P'.stage = .running ∧ ProcOwn s'.cms s'.sw as P' := by
  have hf := h.acts act (by rw [hst]; exact List.mem_cons_self)
  have hholds := fun k => holds_of_goStep (k := k) hi hf hgo
  cases hgo with
  | full hpc hs =>
    refine ⟨_, setProc_self _ _ _, hrun, ?_⟩
    rcases CmSys.tag_alloc hi (Prod.eta (s.cms.alloc act.page as)).symm with
      ⟨-, he, -⟩ | ⟨k, -, hne, -⟩
    · change ProcOwn (s.cms.alloc act.page as).2 s.sw as _
      rw [he]
      exact h.keep hst hrun rfl hrun rfl rfl (fun _ he _ => .inl he) rfl (by rw [hpc]; rfl)
    · exact absurd hs hne
  | @alloc paddr cms hpc hs hne =>
    refine ⟨_, setProc_self _ _ _, hrun, ?_⟩
    change ProcOwn cms s.sw as _
    rcases CmSys.tag_alloc hi hs with ⟨h0, -⟩ | ⟨k, rfl, -, hno, hram, hpend, htag⟩
    · exact absurd h0 hne
    have hnew : (as, k) ∉ s.cms.pending ∧ ∀ v, s.cms.tag k ≠ some (as, v, .loading) :=
      ⟨fun hp => hno as (.inr hp), fun v ht => hno as (.inl ⟨v, _, ht⟩)⟩
    refine h.advance hst hrun rfl hrun rfl map_page_ptSetFrame hram hholds (fun e he _ => ?_) ?_
      (fun k' hk' => .inr ?_) (fun k' _ hk' => ?_) fun k' hk' => .inr ?_
    · refine (mem_ptSetFrame he).imp_right fun hfr => ?_
      rw [hfr]
      exact phase_filled _
    · rw [show ({ act with pc := act.filled _ } : Activation).pc.phase = _ from phase_filled _]
      exact ⟨k, by rw [hram], by rw [htag, if_pos rfl]⟩
    · rw [show ({ act with pc := act.filled _ } : Activation).pc.phase = _ from phase_filled _]
        at hk'
      obtain rfl := s.cms.cm.ram.frameAddr_injective (Option.some.inj hk')
      exact hnew
    · rw [show ({ act with pc := act.filled _ } : Activation).pc.phase = _ from phase_filled _]
        at hk'
      refine ⟨fun v st ht => ?_, fun hp => by rw [hpend]; exact hp⟩
      rw [htag, if_neg]
      · exact ht
      · rintro rfl
        exact hk' rfl
    · rw [hpend] at hk'
      exact ⟨hk', fun paddr he => by rw [hpc] at he; cases he⟩
  | @evict victim paddr pos cms hpc hs =>
    refine ⟨_, setProc_self _ _ _, hrun, ?_⟩
    change ProcOwn cms s.sw as _
    obtain ⟨rfl, hold, hram, hpend, htag⟩ := CmSys.tag_evict hi hs
    refine h.advance hst hrun rfl hrun rfl rfl hram hholds (fun _ he _ => .inl he) ?_
      (fun k' hk' => .inr ?_) (fun k' _ hk' => ?_) fun k' hk' => ?_
    · exact ⟨by rw [hram], by rw [hpend]; exact List.mem_cons_self⟩
    · obtain rfl := s.cms.cm.ram.frameAddr_injective (Option.some.inj hk')
      exact ⟨hi.not_pending_of_tag hold as, fun v ht => by rw [hold] at ht; cases ht⟩
    · refine ⟨fun v st ht => ?_, fun hp => by rw [hpend]; exact List.mem_cons_of_mem _ hp⟩
      rw [htag, if_neg]
      · exact ht
      · rintro rfl
        exact hk' rfl
    · rw [hpend] at hk'
      rcases List.mem_cons.mp hk' with he | hk'
      · cases he
        exact .inl ⟨_, rfl⟩
      · exact .inr ⟨hk', fun paddr he => by rw [hpc] at he; cases he⟩
  | @update victim pos paddr hpc =>
    refine ⟨_, setProc_self _ _ _, hrun, ?_⟩
    change ProcOwn (s.cms.updateVaddr as pos act.page) s.sw as _
    rw [hpc] at hf
    obtain ⟨rfl, hp⟩ := hf
    have htag := CmSys.tag_updateVaddr act.page hi hp
    refine h.advance hst hrun rfl hrun rfl map_page_ptUpdate rfl hholds
      (fun e he hin => .inl (mem_ptUpdate he hin)) ⟨_, rfl, by rw [htag, if_pos rfl]⟩
      (fun k' hk' => .inl (by rw [hpc]; exact hk')) (fun k' _ hk' => ?_) fun k' hk' => ?_
    · have hne : k' ≠ _ := fun e => hk' (by rw [e]; rfl)
      refine ⟨fun v st ht => by rw [htag, if_neg hne]; exact ht, fun hp' => ?_⟩
      exact (CmSys.mem_pending_updateVaddr k').mpr ⟨hp', fun e => hne (Prod.mk.inj e).2⟩
    · obtain ⟨hp', hne⟩ := (CmSys.mem_pending_updateVaddr k').mp hk'
      refine .inr ⟨hp', fun paddr he => hne ?_⟩
      rw [hpc] at he
      cases he
      rfl
  | @setClean paddr hpc =>
    refine ⟨_, setProc_self _ _ _, hrun, ?_⟩
    change ProcOwn (s.cms.setClean paddr) s.sw as _
    rw [hpc] at hf
    obtain ⟨k, rfl, ht⟩ := hf
    have htag := CmSys.tag_setClean ht
    refine h.advance hst hrun rfl hrun rfl rfl rfl hholds (fun _ he _ => .inl he)
      ⟨k, rfl, .inl ⟨_, _, by rw [htag, if_pos rfl]⟩⟩
      (fun k' hk' => .inl (by rw [hpc]; exact hk')) (fun k' _ hk' => ?_) fun k' hk' => .inr ?_
    · have hne : k' ≠ k := fun e => hk' (by rw [e]; rfl)
      exact ⟨fun v st ht => by rw [htag, if_neg hne]; exact ht, id⟩
    · exact ⟨hk', fun paddr he => by rw [hpc] at he; cases he⟩
  | replace hpc =>
    refine ⟨_, setProc_self _ _ _, hrun, h.keep hst hrun rfl hrun rfl map_page_ptSetFrame
      (fun e he _ => ?_) rfl ?_⟩
    · refine (mem_ptSetFrame he).imp_right fun hfr => ?_
      rw [hfr]
      exact phase_filled _
    · rw [hpc]
      exact phase_filled _
  | map hpc =>
    refine ⟨_, setProc_self _ _ _, hrun, ?_⟩
    rw [hpc] at hf
    have hframes := h.frames
    rw [hst, List.filterMap_cons, hpc] at hframes
    refine ⟨h.linked, h.pt, fun r hr => h.acts r (by rw [hst]; exact List.mem_cons_of_mem _ hr),
      (List.nodup_cons.mp hframes).2, fun r hr => ?_, fun k hk => ?_, fun hs => absurd hrun hs,
      fun hs => by rw [hrun] at hs; cases hs⟩
    · exact h.tail r (by rw [hst]; exact List.mem_of_mem_tail hr)
    · obtain ⟨r, hr, paddr, hl⟩ := h.pending k hk
      rw [hst] at hr
      rcases List.mem_cons.mp hr with rfl | hr
      · rw [hpc] at hl
        cases hl
      · exact ⟨r, hr, paddr, hl⟩
  | fill hpc _ _ _ | elfRead hpc _ _ =>
    exact ⟨_, setProc_self _ _ _, hrun, h.keep hst hrun rfl hrun rfl rfl (fun _ he _ => .inl he) rfl
      (by rw [hpc, phase_copying]; rfl)⟩
  | swapOutFind hpc _ | swapOutCopy hpc _ _ | swapOutCopied hpc _ _ | swapOutWrite hpc
  | swapInFind hpc _ | swapInRead hpc =>
    exact ⟨_, setProc_self _ _ _, hrun, h.keep hst hrun rfl hrun rfl rfl (fun _ he _ => .inl he) rfl
      (by rw [hpc]; rfl)⟩

end Go

/-! ## The steps of the machine -/

/-- The address space whose page table, frames or slots an action is about. -/
def VmAction.actor : VmAction → Option AsId
  | .create as | .defineRegion as _ _ _ _ _ _ _ | .defineStack as _ | .completeLoad as _ => some as
  | .exitCm as | .exitSwap as | .exitDone as | .fault as _ | .go as _ => some as
  | .switch _ | .load _ _ _ | .store _ _ _ | .kalloc _ | .kfree _ | .kwrite _ _ => none

section Step

variable {s s' : VmState} {as as' : AsId} {P : Proc} {act : Activation} {rest : List Activation}
  {a : VmAction}

theorem Agree.of_eq (hc : s'.cms = s.cms) (hsw : s'.sw = s.sw) (hp : s'.procs as = s.procs as) :
    Agree as s s' := by
  refine ⟨by rw [hc], fun _ _ _ => by rw [hc], fun _ => by rw [hc], fun _ _ _ => by rw [hsw], hp⟩

theorem cmInv_of_goStep (hi : CmInv s.cms) (hf : FrameOk s.cms as act.page act.pc.phase)
    (h : GoStep s as P act rest s') : CmInv s'.cms := by
  cases h with
  | full hpc hs => exact cmInv_alloc hi rfl
  | alloc hpc hs _ => exact cmInv_alloc hi hs
  | evict hpc hs => exact cmInv_evict hi hs
  | update hpc =>
    rw [hpc] at hf
    exact cmInv_updateVaddr hi hf.2
  | setClean hpc =>
    rw [hpc] at hf
    obtain ⟨k, rfl, ht⟩ := hf
    obtain ⟨hk, has, -⟩ := CmSys.tag_eq_some.mp ht
    exact cmInv_setClean hi hk has
  | _ => exact hi

theorem cmInv_of_vmStep (h : Own s) (hstep : VmStep s a s') : CmInv s'.cms := by
  cases hstep with
  | exitCm => exact cmInv_asfree h.cm
  | kalloc hn hs => exact cmInv_kalloc h.cm hn hs
  | kfree ha ho => exact cmInv_kfree h.cm ha ho
  | fault _ _ _ _ _ _ hf => cases hf <;> exact h.cm
  | go hcur hP hrun hst hgo =>
    exact cmInv_of_goStep h.cm ((h.proc _ _ hP).acts _ (by rw [hst]; exact List.mem_cons_self)) hgo
  | _ => exact h.cm

/-- `swap_asfree` clears the slots of the address space. -/
theorem swapAsfree_slot {sw : SwapSpace} {i v : ℕ} (hi : i < swapSize) :
    (swapAsfree sw as).entry i = ⟨some as', v⟩ ↔ sw.entry i = ⟨some as', v⟩ ∧ as' ≠ as := by
  rw [swapAsfree_entry, if_pos hi, asfreeSlot]
  split_ifs with he
  · constructor
    · intro h
      cases h
    · rintro ⟨h, hne⟩
      rw [h] at he
      exact absurd (Option.some.inj he) hne
  · refine (and_iff_left_of_imp fun h hc => he ?_).symm
    rw [h, hc]

/-- **An action is invisible to the address spaces it is not about.** -/
theorem agree_of_vmStep (h : Own s) (hstep : VmStep s a s') (hne : a.actor ≠ some as') :
    Agree as' s s' := by
  have hsp : ∀ {as : AsId} {Q : Proc}, some as ≠ some as' → (s.setProc as Q).procs as' = s.procs as' :=
    fun hn => setProc_of_ne s _ fun e => hn (by rw [e])
  cases hstep with
  | create | defineRegion | defineStack | completeLoad => exact .of_eq rfl rfl (hsp hne)
  | exitCm =>
    have hne' : as' ≠ _ := fun e => hne (by rw [e]; rfl)
    exact .of_only (.asfree h.cm) (fun _ _ _ => Iff.rfl) (hsp hne) hne'
  | @exitSwap _ P sw hcur hP hstage hsw =>
    have hne' : as' ≠ _ := fun e => hne (by rw [e]; rfl)
    have hslot : ∀ i < swapSize, ∀ v, sw.entry i = ⟨some as', v⟩ ↔ s.sw.entry i = ⟨some as', v⟩ :=
      fun i hi v => by
        rw [hsw]
        exact (swapAsfree_slot hi).trans (and_iff_left hne')
    exact ⟨rfl, fun _ _ _ => Iff.rfl, fun _ => Iff.rfl, hslot, hsp hne⟩
  | exitDone =>
    exact .of_eq rfl rfl (Function.update_of_ne (fun e => hne (by rw [e]; rfl)) _ _)
  | fault _ _ _ _ _ _ hf =>
    cases hf with
    | reload => exact .of_eq rfl rfl rfl
    | push | abort => exact .of_eq rfl rfl (hsp hne)
  | go hcur hP hrun hst hgo =>
    refine agree_of_goStep h.cm ((h.proc _ _ hP).acts _ ?_) hgo fun e => hne (by rw [e]; rfl)
    rw [hst]
    exact List.mem_cons_self
  | kalloc hn hs =>
    refine ⟨CmSys.ram_kalloc hs, fun k v st => ?_, fun k => ?_, fun _ _ _ => Iff.rfl, rfl⟩
    · rw [CmSys.tag_kalloc h.cm hs]
    · rw [CmSys.pending_kalloc hs]
  | kfree ha ho =>
    refine ⟨rfl, fun k v st => ?_, fun k => Iff.rfl, fun _ _ _ => Iff.rfl, rfl⟩
    rw [CmSys.tag_kfree h.cm ha ho]
  | leave | enter | load | store | kwrite => exact .of_eq rfl rfl rfl

/-- A new region has no page in memory. -/
theorem ProcOwn.extend {c : CmSys} {sw : SwapSpace} {space : Addrspace} (h : ProcOwn c sw as P)
    (hrun : P.stage = .running) (he : Extends P.space space) :
    ProcOwn c sw as { P with space := space } := by
  refine { h with linked := h.linked.extend he, pt := fun _ e hmem hin => ?_ }
  obtain ⟨seg, new, -, -, -, hpt, -, hnew⟩ := he
  change e ∈ space.pt at hmem
  rw [hpt] at hmem
  rcases List.mem_append.mp hmem with hmem | hmem
  · rw [(hnew e hmem).1] at hin
    cases hin
  · exact h.pt hrun e hmem hin

/-- **The process of an action** keeps its frames together. -/
theorem procOwn_of_vmStep (h : Own s) (hstep : VmStep s a s') (hact : a.actor = some as) :
    (s'.procs as = none →
      (∀ k, ¬ s'.cms.Holds as k) ∧ ∀ i < swapSize, (s'.sw.entry i).as ≠ some as) ∧
    ∀ P, s'.procs as = some P → ProcOwn s'.cms s'.sw as P := by
  have hset : ∀ {t : VmState} {Q : Proc}, ProcOwn t.cms t.sw as Q →
      ((t.setProc as Q).procs as = none → (∀ k, ¬ (t.setProc as Q).cms.Holds as k) ∧
        ∀ i < swapSize, ((t.setProc as Q).sw.entry i).as ≠ some as) ∧
      ∀ P, (t.setProc as Q).procs as = some P →
        ProcOwn (t.setProc as Q).cms (t.setProc as Q).sw as P := by
    intro t Q hQ
    rw [setProc_self]
    refine ⟨fun hn => ?_, fun P hP => ?_⟩
    · cases hn
    · obtain rfl := Option.some.inj hP
      exact hQ
  cases hstep with
  | create hnone =>
    cases hact
    obtain ⟨hno, -⟩ := h.gone _ hnone
    refine hset ⟨.nil, fun _ e he => ?_, fun r hr => ?_, List.nodup_nil, fun r hr => ?_,
      fun k hk => absurd (.inr hk) (hno k), fun hs => absurd rfl hs, fun hs => ?_⟩
    · cases he
    · cases hr
    · cases hr
    · cases hs
  | defineRegion hP hrun hst ho hdef =>
    cases hact
    exact hset ((h.proc _ _ hP).extend hrun (extends_asDefineRegion ho hdef))
  | defineStack hP hrun hst =>
    cases hact
    exact hset ((h.proc _ _ hP).extend hrun extends_asDefineStack)
  | completeLoad hP hrun hst =>
    cases hact
    have hown := h.proc _ _ hP
    exact hset { hown with linked := hown.linked, pt := hown.pt }
  | @exitCm _ P hcur hP hrun hst =>
    cases hact
    have hown := h.proc _ _ hP
    have hpend : ∀ k, (as, k) ∉ s.cms.pending := fun k hk => by
      obtain ⟨r, hr, -⟩ := hown.pending k hk
      rw [hst] at hr
      cases hr
    refine hset (t := { s with cms := s.cms.asfree as }) { hown with
      pt := fun hs => by cases hs
      acts := fun r hr => ?_
      pending := fun k hk => absurd hk (hpend k)
      idle := fun _ => ⟨hst, ?_⟩
      slots := fun hs => by cases hs }
    · change r ∈ P.stack at hr
      rw [hst] at hr
      cases hr
    · rintro k (⟨v, st, ht⟩ | hk)
      · exact ((CmSys.tag_asfree h.cm).mp ht).2 rfl
      · exact hpend k hk
  | @exitSwap _ P sw hcur hP hstage hsw =>
    cases hact
    have hown := h.proc _ _ hP
    have hno : Stage.cmFreed ≠ .running := by decide
    have hidle := hown.idle (by rw [hstage]; exact hno)
    have hslots : ∀ i < swapSize, (sw.entry i).as ≠ some as := fun i hi he => by
      have htag : sw.entry i = ⟨some as, (sw.entry i).vaddr⟩ := by rw [← he]
      rw [hsw] at htag
      exact ((swapAsfree_slot hi).mp htag).2 rfl
    exact hset (t := { s with sw := sw }) { hown with
      pt := fun hs => by cases hs
      idle := fun _ => hidle
      slots := fun _ => hslots }
  | exitDone hcur hP hstage =>
    cases hact
    have hown := h.proc _ _ hP
    refine ⟨fun _ => ⟨(hown.idle (by rw [hstage]; decide)).2, hown.slots hstage⟩, fun P hP => ?_⟩
    cases (Function.update_self as none s.procs).symm.trans hP
  | @fault _ P _ _ hcur hP hrun ha hmiss hst hf =>
    cases hact
    have hown := h.proc _ _ hP
    cases hf with
    | reload => exact ⟨h.gone _, h.proc _⟩
    | push hseg hj hpte hin =>
      refine hset { hown with acts := ?_, frames := hown.frames, tail := ?_, pending := ?_, idle := ?_ }
      · intro r hr
        rcases List.mem_cons.mp hr with rfl | hr
        · trivial
        · exact hown.acts r hr
      · intro r hr
        change r ∈ _ at hr
        rcases hst with hnil | hacc
        · rw [List.tail_cons, hnil] at hr
          cases hr
        · rw [List.tail_cons] at hr
          cases hP' : P.stack with
          | nil => rw [hP'] at hr; cases hr
          | cons r' rest =>
            have htail := hown.tail
            rw [hP'] at hr hacc htail
            rcases List.mem_cons.mp hr with rfl | hr
            · rw [show r.access = some _ from hacc]
              rfl
            · exact htail r hr
      · intro k hk
        obtain ⟨r, hr, hl⟩ := hown.pending k hk
        exact ⟨r, List.mem_cons_of_mem _ hr, hl⟩
      · exact fun hs => absurd hrun hs
    | abort hst' hpc hno =>
      exact hset (hown.keep hst' hrun rfl hrun rfl rfl (fun _ he _ => .inl he) rfl (by rw [hpc]; rfl))
  | go hcur hP hrun hst hgo =>
    cases hact
    obtain ⟨P', hP', -, hown⟩ := procOwn_of_goStep h.cm (h.proc _ _ hP) hst hrun hgo
    rw [hP']
    refine ⟨fun hn => ?_, fun Q hQ => ?_⟩
    · cases hn
    · obtain rfl := Option.some.inj hQ
      exact hown
  | _ => cases hact

/-- What the TLB maps after the step of a fault: the old mappings, or a frame of the fault. -/
theorem maps_of_goStep (h : GoStep s as P act rest s') {v f : ℕ} {d : Bool}
    (hm : s'.tlb.Maps v f d) :
    s.tlb.Maps v f d ∨ (act.pc.phase = .loading f ∨ act.pc.phase = .loaded f) := by
  cases h with
  | replace hpc =>
    rcases of_maps_tlbR hm with ⟨-, rfl, -⟩ | hold
    · exact .inr (.inl (by rw [hpc]; rfl))
    · exact .inl hold
  | map hpc =>
    rcases of_maps_tlbW hm with ⟨-, rfl, -⟩ | hold
    · exact .inr (.inr (by rw [hpc]; rfl))
    · exact .inl hold
  | _ => exact .inl hm

theorem nextVictim_of_goStep (h : GoStep s as P act rest s') (hn : s.tlb.nextVictim < numTlb) :
    s'.tlb.nextVictim < numTlb := by
  cases h with
  | replace hpc => exact lt_of_eq_of_lt nextVictim_tlbR hn
  | map hpc => exact nextVictim_tlbW hn
  | _ => exact hn

/-- It does after a step that maps nothing and takes no frame away. -/
theorem MapsOwn.quiet (h : MapsOwn s) (htlb : s'.tlb = s.tlb) (hcur : s'.cur = s.cur)
    (hram : s'.cms.cm.ram = s.cms.cm.ram) (hholds : ∀ as k, s.cms.Holds as k → s'.cms.Holds as k)
    (hproc : ∀ as P, s.cur = some as → s'.procs as = some P → P.stage = .running →
      ∃ Q, s.procs as = some Q ∧ Q.stage = .running) : MapsOwn s' := by
  intro as P hc hP hrun v f d hm
  rw [hcur] at hc
  rw [htlb] at hm
  obtain ⟨Q, hQ, hQrun⟩ := hproc as P hc hP hrun
  obtain ⟨k, hf, hk⟩ := h as Q hc hQ hQrun v f d hm
  exact ⟨k, by rw [hram]; exact hf, hholds as k hk⟩

/-- A step that only replaces the process of one address space, which was running. -/
theorem MapsOwn.setProc {Q : Proc} (h : MapsOwn s) (hP : s.procs as = some P)
    (hrun : P.stage = .running) : MapsOwn (s.setProc as Q) := by
  refine h.quiet rfl rfl rfl (fun _ _ => id) fun as' P' hc hP' hrun' => ?_
  by_cases he : as' = as
  · subst he
    exact ⟨P, hP, hrun⟩
  · rw [setProc_of_ne s Q he] at hP'
    exact ⟨P', hP', hrun'⟩

theorem mapsOwn_of_vmStep (h : Own s) (hstep : VmStep s a s') : MapsOwn s' := by
  have hm : MapsOwn s := h.maps
  have hsame : ∀ as P, s.cur = some as → s.procs as = some P → P.stage = .running →
      ∃ Q, s.procs as = some Q ∧ Q.stage = .running := fun _ P _ hP hrun => ⟨P, hP, hrun⟩
  cases hstep with
  | @create as hnone =>
    refine hm.quiet rfl rfl rfl (fun _ _ => id) fun as' P' hc hP' hrun' => ?_
    have hne : as' ≠ as := by
      rintro rfl
      exact h.cur _ hc hnone
    rw [setProc_of_ne _ _ hne] at hP'
    exact ⟨P', hP', hrun'⟩
  | defineRegion hP hrun | defineStack hP hrun | completeLoad hP hrun => exact hm.setProc hP hrun
  | @exitCm as P hcur hP hrun hst =>
    intro as' P' hc hP' hrun'
    obtain rfl := Option.some.inj (hcur.symm.trans hc)
    rw [setProc_self] at hP'
    obtain rfl := Option.some.inj hP'
    cases hrun'
  | @exitSwap as P sw hcur hP hstage hsw =>
    intro as' P' hc hP' hrun'
    obtain rfl := Option.some.inj (hcur.symm.trans hc)
    rw [setProc_self] at hP'
    obtain rfl := Option.some.inj hP'
    cases hrun'
  | exitDone => exact fun as P hc => by cases hc
  | leave => exact fun as P hc => by cases hc
  | enter hP => exact fun as P hc hP hrun v f d hm => absurd hm not_maps_tlbFlush
  | load | store | kwrite => exact hm.quiet rfl rfl rfl (fun _ _ => id) hsame
  | fault hcur hP hrun ha hmiss hst hf =>
    cases hf with
    | reload hseg hj hpte hin =>
      intro as' P' hc hP' hrun' v f d hm'
      obtain rfl := Option.some.inj (hcur.symm.trans hc)
      rcases of_maps_tlbW hm' with ⟨-, rfl, -⟩ | hold
      · exact (h.proc _ _ hP).pt hrun _ (List.mem_of_getElem? hpte) hin
      · exact hm _ _ hc hP hrun v f d hold
    | push | abort => exact hm.setProc hP hrun
  | @go as P act rest n s' hcur hP hrun hst hgo =>
    intro as' P' hc hP' hrun' v f d hm'
    have hcur' : s'.cur = s.cur := by cases hgo <;> rfl
    have hown := h.proc _ _ hP
    have hf := hown.acts act (by rw [hst]; exact List.mem_cons_self)
    have hram : s'.cms.cm.ram = s.cms.cm.ram :=
      (agree_of_goStep h.cm hf hgo (Nat.succ_ne_self as)).ram
    obtain rfl := Option.some.inj (hcur.symm.trans (hcur'.symm.trans hc))
    have hheld : ∃ k, f = s.cms.cm.ram.frameAddr k ∧ s.cms.Holds as k := by
      rcases maps_of_goStep hgo hm' with hold | hl | hl
      · exact hm _ _ hcur hP hrun v f d hold
      · rw [hl] at hf
        obtain ⟨k, hk, ht⟩ := hf
        exact ⟨k, hk, .inl ⟨_, _, ht⟩⟩
      · rw [hl] at hf
        exact hf
    obtain ⟨k, hk, hkk⟩ := hheld
    exact ⟨k, by rw [hram]; exact hk, holds_of_goStep h.cm hf hgo hkk⟩
  | kalloc hn hs =>
    have hag : ∀ as, Agree as s _ := fun as => agree_of_vmStep h (.kalloc hn hs) (by simp [VmAction.actor])
    exact hm.quiet rfl rfl (hag 0).ram (fun as k => (hag as).holds.mpr) hsame
  | kfree ha ho =>
    have hag : ∀ as, Agree as s _ := fun as => agree_of_vmStep h (.kfree ha ho) (by simp [VmAction.actor])
    exact hm.quiet rfl rfl rfl (fun as k => (hag as).holds.mpr) hsame

/-- The current address space exists. -/
theorem cur_of_vmStep (h : Own s) (hstep : VmStep s a s') :
    ∀ as, s'.cur = some as → s'.procs as ≠ none := by
  have hset : ∀ {t : VmState} {as : AsId} {Q : Proc}, t.cur = s.cur → t.procs = s.procs →
      ∀ as', (t.setProc as Q).cur = some as' → (t.setProc as Q).procs as' ≠ none := by
    intro t as Q hc hp as' hc' hn
    by_cases he : as' = as
    · rw [he, setProc_self] at hn
      cases hn
    · rw [setProc_of_ne _ _ he, hp] at hn
      exact h.cur as' (hc.symm.trans hc') hn
  cases hstep with
  | create | defineRegion | defineStack | completeLoad | exitCm | exitSwap => exact hset rfl rfl
  | exitDone | leave => exact fun as hc => by cases hc
  | enter hP =>
    intro as hc
    obtain rfl := Option.some.inj hc
    exact hP
  | load | store | kalloc | kfree | kwrite => exact h.cur
  | fault _ _ _ _ _ _ hf =>
    cases hf with
    | reload => exact h.cur
    | push | abort => exact hset rfl rfl
  | go _ _ _ _ hgo => cases hgo <;> exact hset rfl rfl

/-- **Every step keeps the ownership invariant.** -/
theorem own_step (h : Own s) (hstep : VmStep s a s') : Own s' := by
  have heach : ∀ as, (s'.procs as = none →
      (∀ k, ¬ s'.cms.Holds as k) ∧ ∀ i < swapSize, (s'.sw.entry i).as ≠ some as) ∧
      ∀ P, s'.procs as = some P → ProcOwn s'.cms s'.sw as P := by
    intro as
    by_cases hact : a.actor = some as
    · exact procOwn_of_vmStep h hstep hact
    · have hag := agree_of_vmStep h hstep hact
      rw [hag.procs]
      refine ⟨fun hn => ?_, fun P hP => (h.proc as P hP).of_agree hag⟩
      obtain ⟨hno, hslots⟩ := h.gone as hn
      exact ⟨fun k hk => hno k (hag.holds.mp hk),
        fun i hi he => hslots i hi ((hag.slot_as hi).mp he)⟩
  refine ⟨cmInv_of_vmStep h hstep, fun as => (heach as).1, fun as => (heach as).2,
    mapsOwn_of_vmStep h hstep, cur_of_vmStep h hstep, ?_⟩
  cases hstep with
  | fault _ _ _ _ _ _ hf =>
    cases hf with
    | reload => exact nextVictim_tlbW h.next
    | push | abort => exact h.next
  | go _ _ _ _ hgo => exact nextVictim_of_goStep hgo h.next
  | _ => exact h.next

end Step

section Run

variable {ram : RamLayout} {garbage : ℕ → CmEntry} {file mem : ℕ → UInt8}
  {files : FileId → List UInt8} {acts : List VmAction} {s : VmState}

theorem own_boot : Own (VmState.boot ram garbage file mem files) where
  cm := cmInv_boot ram garbage
  gone := fun as _ => by
    refine ⟨fun k hk => ?_, fun i _ he => ?_⟩
    · rcases hk with ⟨v, st, ht⟩ | hp
      · rw [show VmState.cms _ = CmSys.boot ram garbage from rfl, CmSys.tag_boot] at ht
        cases ht
      · cases hp
    · cases he
  proc := fun as P hP => by cases hP
  maps := fun as P hc => by cases hc
  cur := fun as hc => by cases hc
  next := Nat.succ_pos 63

/-- **Every reachable state** meets the ownership invariant. -/
theorem own_run (h : run VmState.step (VmState.boot ram garbage file mem files) acts = .ok s) :
    Own s :=
  run_inv VmState.step (fun _ _ _ hs ht => own_step hs (vmStep_of_step ht)) own_boot h

end Run

end Os161
