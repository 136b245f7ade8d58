import Os161.Vm.Capacity

set_option autoImplicit false

/-!
# The coherence of the TLB

What the coremap and the TLB say about the pages in memory, at every point of a fault, in address
spaces whose regions share no page.

* `FramesBacked`: the frame of a page in memory is tagged with the page, and a `LOADING` frame belongs
  to a fault.
* `Mapped`: the TLB maps pages in memory, each with the permission of its segment.
* `CoherentAt`: the invariant of one address space; `Coherent`: the one of the machine.
* **`coherentAt_step`**: every step keeps the invariant of an address space whose own regions are
  defined apart.
* **`tlb_coherent`**: what the TLB maps when the processor is in user mode.
-/

namespace Os161

open Transition Addrspace

/-- The page that a fault writes out, until the TLB forgets it. -/
def Pc.victim : Pc → Option ℕ
  | .swapOutFind v _ _ | .swapOutCopy v _ _ _ _ _ | .swapOutWrite v _ _ _ _ | .update v _ _
  | .replace v _ => some v
  | _ => none

/-- The innermost fault writes out page `v` of frame `k`, whose entry still says that it is there. -/
def Leaves (P : Proc) (v k : ℕ) : Prop :=
  ∃ act paddr, P.stack.head? = some act ∧ act.pc.victim = some v ∧ act.pc.phase = .leaving k paddr

/-- **The frames of the pages in memory** are tagged with them, and a frame is `LOADING` while a fault
fills it. -/
structure FramesBacked (c : CmSys) (as : AsId) (P : Proc) : Prop where
  entry : ∀ e ∈ P.space.pt, e.inMem = true → ∃ k, e.frame = c.cm.ram.frameAddr k ∧
    ((∃ st, c.tag k = some (as, e.page, st)) ∨ Leaves P e.page k)
  loading : ∀ k v, c.tag k = some (as, v, .loading) →
    ∃ act ∈ P.stack, act.page = v ∧ act.pc.phase = .loading (c.cm.ram.frameAddr k)

/-- The segment of the page can be written. -/
def Addrspace.Writable (as : Addrspace) (v : ℕ) : Prop :=
  ∃ seg, findSegment as v = some seg ∧ 0 < seg.write

/-- A fault loads the page or writes it out. -/
def Busy (P : Proc) (v : ℕ) : Prop := ∃ act ∈ P.stack, act.page = v ∨ act.pc.victim = some v

/-- **What the TLB maps**: a page in memory or the one that `tlbR` is about to replace, and writable
only what can be written or is being moved. -/
structure Mapped (t : Tlb) (P : Proc) : Prop where
  mem : ∀ v f d, t.Maps v f d → P.space.InMem v f ∨
    ∃ act paddr, P.stack.head? = some act ∧ act.pc = .replace v paddr
  dirty : ∀ v f, t.Maps v f true → P.space.Writable v ∨ Busy P v

/-! ## The frames -/

section Frames

variable {s s' : VmState} {c d : CmSys} {as : AsId} {P P' : Proc} {act : Activation}
  {rest : List Activation} {v k paddr : ℕ}

theorem leaves_iff (hst : P.stack = act :: rest) :
    Leaves P v k ↔ act.pc.victim = some v ∧ ∃ paddr, act.pc.phase = .leaving k paddr := by
  unfold Leaves
  rw [hst]
  constructor
  · rintro ⟨r, paddr, hr, hv, hp⟩
    obtain rfl := Option.some.inj hr
    exact ⟨hv, paddr, hp⟩
  · rintro ⟨hv, paddr, hp⟩
    exact ⟨act, paddr, rfl, hv, hp⟩

/-- A fault that is not writing out has all pages in tagged frames. -/
theorem not_leaves (hst : P.stack = act :: rest) (hp : ∀ k paddr, act.pc.phase ≠ .leaving k paddr) :
    ¬ Leaves P v k := fun h => by
  obtain ⟨-, paddr, hph⟩ := (leaves_iff hst).mp h
  exact hp k paddr hph

theorem not_leaves_of_nil (hst : P.stack = []) : ¬ Leaves P v k := by
  rintro ⟨act, paddr, hr, -⟩
  rw [hst] at hr
  cases hr

/-- A `LOADING` frame that is not the innermost fault's belongs to one that is interrupted. -/
theorem FramesBacked.loading_rest (h : FramesBacked c as P) (hst : P.stack = act :: rest)
    (ht : c.tag k = some (as, v, .loading))
    (hno : act.pc.phase ≠ .loading (c.cm.ram.frameAddr k)) :
    ∃ r ∈ rest, r.page = v ∧ r.pc.phase = .loading (c.cm.ram.frameAddr k) := by
  obtain ⟨r, hr, hp, hph⟩ := h.loading k v ht
  rw [hst] at hr
  rcases List.mem_cons.mp hr with rfl | hr
  · exact absurd hph hno
  · exact ⟨r, hr, hp, hph⟩

/-- The innermost fault goes on and its frame stays as it is. -/
theorem FramesBacked.keep {pc : Pc} (h : FramesBacked c as P) (hst : P.stack = act :: rest)
    (hpt : P'.space.pt = P.space.pt) (hst' : P'.stack = { act with pc := pc } :: rest)
    (hph : pc.phase = act.pc.phase)
    (hv : (∃ k paddr, act.pc.phase = .leaving k paddr) → pc.victim = act.pc.victim) :
    FramesBacked c as P' := by
  refine ⟨fun e he hin => ?_, fun k v ht => ?_⟩
  · rw [hpt] at he
    obtain ⟨k, hf, hk⟩ := h.entry e he hin
    refine ⟨k, hf, hk.imp_right fun hl => ?_⟩
    obtain ⟨hvic, paddr, hp⟩ := (leaves_iff hst).mp hl
    exact (leaves_iff hst').mpr ⟨(hv ⟨k, paddr, hp⟩).trans hvic, paddr, hph.trans hp⟩
  · obtain ⟨r, hr, hp, hph'⟩ := h.loading k v ht
    rw [hst] at hr
    rw [hst']
    rcases List.mem_cons.mp hr with rfl | hr
    · exact ⟨_, List.mem_cons_self, hp, hph.trans hph'⟩
    · exact ⟨r, List.mem_cons_of_mem _ hr, hp, hph'⟩

/-- **The page of the fault is entered**, with a frame that is tagged with it. -/
theorem FramesBacked.enter (h : FramesBacked c as P) (hnd : P.space.pages.Nodup)
    (hst : P.stack = act :: rest) (hfound : act.Found P.space) (hram : d.cm.ram = c.cm.ram)
    (hno : ∀ k paddr, act.pc.phase ≠ .leaving k paddr)
    (htag : d.tag k = some (as, act.page, .loading))
    (hold : ∀ j v st, c.tag j = some (as, v, st) → d.tag j = some (as, v, st))
    (hnew : ∀ j v, j ≠ k → d.tag j = some (as, v, .loading) → c.tag j = some (as, v, .loading))
    (hother : ∀ j, j ≠ k → act.pc.phase ≠ .loading (c.cm.ram.frameAddr j)) :
    FramesBacked d as (P.enter act rest (c.cm.ram.frameAddr k)) := by
  obtain ⟨e₀, he₀, hmem₀, hp₀⟩ := hfound.entry
  refine ⟨fun e he hin => ?_, fun j v ht => ?_⟩
  · rcases (mem_ptSetFrame_iff hnd he₀).mp he with ⟨he, -⟩ | rfl
    · obtain ⟨j, hf, ⟨st, ht⟩ | hl⟩ := h.entry e he hin
      · exact ⟨j, by rw [hram]; exact hf, .inl ⟨st, hold j _ st ht⟩⟩
      · exact absurd hl (not_leaves hst hno)
    · exact ⟨k, by rw [hram], .inl ⟨_, by rw [htag, hp₀]⟩⟩
  · rw [hram]
    by_cases hj : j = k
    · subst hj
      rw [htag] at ht
      cases ht
      exact ⟨_, List.mem_cons_self, rfl, phase_filled _⟩
    · obtain ⟨r, hr, hp⟩ := h.loading_rest hst (hnew j v hj ht) (hother j hj)
      exact ⟨r, List.mem_cons_of_mem _ hr, hp⟩

/-- **The step of a fault** keeps the frames of the pages in memory. -/
theorem backed_of_goStep (hi : CmInv s.cms) (hown : ProcOwn s.cms s.sw as P)
    (hst : P.stack = act :: rest) (hok : FaultOk s as P) (hnd : P.space.pages.Nodup)
    (h : FramesBacked s.cms as P) (hgo : GoStep s as P act rest s') (hP' : s'.procs as = some P') :
    FramesBacked s'.cms as P' := by
  have hact : act ∈ P.stack := by rw [hst]; exact List.mem_cons_self
  have hfound := hok.found act hact
  have hfr := hown.acts act hact
  cases hgo with
  | full hpc hs =>
    obtain rfl := Option.some.inj ((setProc_self _ _ _).symm.trans hP')
    rcases CmSys.tag_alloc hi (Prod.eta (s.cms.alloc act.page as)).symm with
      ⟨-, he, -⟩ | ⟨k, -, hne, -⟩
    · change FramesBacked (s.cms.alloc act.page as).2 as _
      rw [he]
      exact h.keep hst rfl rfl (by rw [hpc]; rfl) fun _ => by rw [hpc]; rfl
    · exact absurd hs hne
  | @alloc paddr cms hpc hs hne =>
    obtain rfl := Option.some.inj ((setProc_self _ _ _).symm.trans hP')
    rcases CmSys.tag_alloc hi hs with ⟨h0, -⟩ | ⟨k, rfl, -, hno, hram, -, htag⟩
    · exact absurd h0 hne
    refine h.enter (d := cms) hnd hst hfound hram (fun _ _ e => by rw [hpc] at e; cases e)
      (by rw [htag, if_pos rfl]) (fun j v st ht => ?_) (fun j v hj ht => ?_)
      fun j _ e => by rw [hpc] at e; cases e
    · rw [htag, if_neg]
      · exact ht
      · rintro rfl
        exact hno as (.inl ⟨v, st, ht⟩)
    · rw [htag, if_neg hj] at ht
      exact ht
  | @evict victim paddr pos cms hpc hs =>
    obtain rfl := Option.some.inj ((setProc_self _ _ _).symm.trans hP')
    obtain ⟨rfl, hold, hram, -, htag⟩ := CmSys.tag_evict hi hs
    refine ⟨fun e he hin => ?_, fun j v ht => ?_⟩
    · change ∃ k, e.frame = cms.cm.ram.frameAddr k ∧ ((∃ st, cms.tag k = _) ∨ _)
      rw [hram]
      obtain ⟨j, hf, ⟨st, ht⟩ | hl⟩ := h.entry e he hin
      · refine ⟨j, hf, ?_⟩
        by_cases hj : j = pos
        · subst hj
          rw [hold] at ht
          cases ht
          exact .inr ((leaves_iff rfl).mpr ⟨rfl, _, rfl⟩)
        · exact .inl ⟨st, by rw [htag, if_neg hj]; exact ht⟩
      · exact absurd hl (not_leaves hst fun _ _ e => by rw [hpc] at e; cases e)
    · change cms.tag j = _ at ht
      rw [htag] at ht
      split_ifs at ht
      obtain ⟨r, hr, hp, hph⟩ := h.loading_rest hst ht (by rw [hpc]; exact Phase.noConfusion)
      refine ⟨r, List.mem_cons_of_mem _ hr, hp, hph.trans ?_⟩
      change _ = Phase.loading (cms.cm.ram.frameAddr j)
      rw [hram]
  | @update victim pos paddr hpc =>
    obtain rfl := Option.some.inj ((setProc_self _ _ _).symm.trans hP')
    rw [hpc] at hfr
    obtain ⟨rfl, hpend⟩ := hfr
    have htag := CmSys.tag_updateVaddr act.page hi hpend
    refine ⟨fun e he hin => ?_, fun j v ht => ?_⟩
    · change ∃ k, e.frame = s.cms.cm.ram.frameAddr k ∧
        ((∃ st, (s.cms.updateVaddr as pos act.page).tag k = _) ∨ _)
      rcases (mem_ptUpdate_iff hnd).mp he with ⟨he, hne⟩ | ⟨e₀, -, -, rfl⟩
      · obtain ⟨j, hf, ⟨st, ht⟩ | hl⟩ := h.entry e he hin
        · refine ⟨j, hf, .inl ⟨st, ?_⟩⟩
          rw [htag, if_neg]
          · exact ht
          · rintro rfl
            exact hi.not_pending_of_tag ht as hpend
        · obtain ⟨hvic, -⟩ := (leaves_iff hst).mp hl
          rw [hpc] at hvic
          exact absurd (Option.some.inj hvic).symm hne
      · cases hin
    · change (s.cms.updateVaddr as pos act.page).tag j = _ at ht
      rw [htag] at ht
      split_ifs at ht with hj
      · cases ht
        exact ⟨_, List.mem_cons_self, rfl, by rw [hj]; rfl⟩
      · obtain ⟨r, hr, hp⟩ := h.loading_rest hst ht (by rw [hpc]; exact Phase.noConfusion)
        exact ⟨r, List.mem_cons_of_mem _ hr, hp⟩
  | @replace victim paddr hpc =>
    obtain rfl := Option.some.inj ((setProc_self _ _ _).symm.trans hP')
    rw [hpc] at hfr
    obtain ⟨k, rfl, htag⟩ := hfr
    refine h.enter (d := s.cms) hnd hst hfound rfl (fun _ _ e => by rw [hpc] at e; cases e) htag
      (fun _ _ _ => id) (fun _ _ _ => id) fun j hj e => ?_
    rw [hpc] at e
    exact hj (s.cms.cm.ram.frameAddr_injective (Phase.loading.inj e)).symm
  | @setClean paddr hpc =>
    obtain rfl := Option.some.inj ((setProc_self _ _ _).symm.trans hP')
    rw [hpc] at hfr
    obtain ⟨k, rfl, hk⟩ := hfr
    have htag := CmSys.tag_setClean hk
    refine ⟨fun e he hin => ?_, fun j v ht => ?_⟩
    · change ∃ j, e.frame = s.cms.cm.ram.frameAddr j ∧
        ((∃ st, (s.cms.setClean (s.cms.cm.ram.frameAddr k)).tag j = _) ∨ _)
      obtain ⟨j, hf, ⟨st, ht⟩ | hl⟩ := h.entry e he hin
      · refine ⟨j, hf, .inl ?_⟩
        rw [htag]
        split_ifs with hj
        · rw [hj, hk, Option.some.injEq, Prod.mk.injEq, Prod.mk.injEq] at ht
          exact ⟨_, by rw [ht.2.1]⟩
        · exact ⟨st, ht⟩
      · exact absurd hl (not_leaves hst fun _ _ e => by rw [hpc] at e; cases e)
    · change (s.cms.setClean (s.cms.cm.ram.frameAddr k)).tag j = _ at ht
      rw [htag] at ht
      split_ifs at ht with hj
      · cases ht
      · obtain ⟨r, hr, hp⟩ := h.loading_rest hst ht fun hph => by
          rw [hpc] at hph
          exact hj (s.cms.cm.ram.frameAddr_injective (Phase.loading.inj hph)).symm
        exact ⟨r, List.mem_cons_of_mem _ hr, hp⟩
  | @map paddr hpc =>
    obtain rfl := Option.some.inj ((setProc_self _ _ _).symm.trans hP')
    refine ⟨fun e he hin => ?_, fun j v ht => ?_⟩
    · obtain ⟨j, hf, ht | hl⟩ := h.entry e he hin
      · exact ⟨j, hf, .inl ht⟩
      · exact absurd hl (not_leaves hst fun _ _ e => by rw [hpc] at e; cases e)
    · exact h.loading_rest hst ht (by rw [hpc]; exact Phase.noConfusion)
  | fill hpc _ _ _ | elfRead hpc _ _ =>
    obtain rfl := Option.some.inj ((setProc_self _ _ _).symm.trans hP')
    refine h.keep hst rfl rfl (by rw [hpc, phase_copying]; rfl) fun ⟨_, _, e⟩ => ?_
    rw [hpc] at e
    cases e
  | swapOutFind hpc _ | swapOutCopy hpc _ _ | swapOutCopied hpc _ _ | swapOutWrite hpc
  | swapInFind hpc _ | swapInRead hpc =>
    obtain rfl := Option.some.inj ((setProc_self _ _ _).symm.trans hP')
    exact h.keep hst rfl rfl (by rw [hpc]; rfl) fun _ => by rw [hpc]; rfl

end Frames

/-! ## The mappings -/

section Mapped

variable {s s' : VmState} {t t' : Tlb} {as : AsId} {P P' : Proc} {act : Activation}
  {rest : List Activation} {v a : ℕ}

theorem Addrspace.Writable.congr {space space' : Addrspace} (h : space.Writable v)
    (hseg : space'.segments = space.segments) : space'.Writable v := by
  unfold Addrspace.Writable findSegment at h ⊢
  rw [hseg]
  exact h

theorem busy_iff (hst : P.stack = act :: rest) : Busy P v ↔
    (act.page = v ∨ act.pc.victim = some v) ∨ ∃ r ∈ rest, r.page = v ∨ r.pc.victim = some v := by
  unfold Busy
  simp only [hst, List.mem_cons, exists_eq_or_imp]

/-- A fault goes on and the TLB stays as it is. -/
theorem Mapped.keep {pc : Pc} (h : Mapped t P) (hst : P.stack = act :: rest)
    (hspace : P'.space = P.space) (hst' : P'.stack = { act with pc := pc } :: rest)
    (hno : ∀ v paddr, act.pc ≠ .replace v paddr)
    (hv : ∀ v, act.pc.victim = some v → pc.victim = some v) : Mapped t P' := by
  refine ⟨fun v f d hm => ?_, fun v f hm => ?_⟩
  · rw [hspace]
    rcases h.mem v f d hm with hin | ⟨r, paddr, hr, hpc⟩
    · exact .inl hin
    · rw [hst] at hr
      obtain rfl := Option.some.inj hr
      exact absurd hpc (hno v paddr)
  · rw [hspace]
    refine (h.dirty v f hm).imp_right fun hb => (busy_iff hst').mpr ?_
    exact ((busy_iff hst).mp hb).imp_left (Or.imp_right (hv v))

/-- **The page of the fault is entered**: nothing of it is mapped, or the frame of the fault. -/
theorem Mapped.enter {paddr : ℕ}
    (hfound : act.Found P.space) (hout : P.space.NotInMem act.page)
    (hmem : ∀ v f d, t.Maps v f d → v = act.page ∧ f = paddr ∨ P.space.InMem v f)
    (hdirty : ∀ v f, t.Maps v f true → P.space.Writable v ∨ v = act.page ∨
      ∃ r ∈ rest, r.page = v ∨ r.pc.victim = some v) : Mapped t (P.enter act rest paddr) := by
  refine ⟨fun v f d hm => .inl ?_, fun v f hm => ?_⟩
  · rcases hmem v f d hm with ⟨rfl, rfl⟩ | hin
    · exact inMem_ptSetFrame f hfound.lookup
    · exact hin.ptSetFrame hfound.lookup (hin.ne hout)
  · refine (hdirty v f hm).imp (fun hw => hw.congr rfl) fun hb => (busy_iff rfl).mpr ?_
    exact hb.imp_left fun hv => .inl hv.symm

/-- **The step of a fault** keeps the mappings right. -/
theorem mapped_of_goStep (hst : P.stack = act :: rest) (hok : FaultOk s as P) (hcur : s.cur = some as)
    (h : Mapped s.tlb P) (hgo : GoStep s as P act rest s') (hP' : s'.procs as = some P') :
    Mapped s'.tlb P' := by
  have hact : act ∈ P.stack := by rw [hst]; exact List.mem_cons_self
  have hfound := hok.found act hact
  have hpc₀ := hok.pc act hact
  have hwf := hok.wf hcur
  -- nothing else than the victim of `tlbR` is mapped without being in memory
  have hin : (∀ v paddr, act.pc ≠ .replace v paddr) → ∀ v f d, s.tlb.Maps v f d →
      P.space.InMem v f := fun hno v f d hm => by
    rcases h.mem v f d hm with hin | ⟨r, paddr, hr, hpc⟩
    · exact hin
    · rw [hst] at hr
      obtain rfl := Option.some.inj hr
      exact absurd hpc (hno v paddr)
  cases hgo with
  | full hpc | evict hpc =>
    obtain rfl := Option.some.inj ((setProc_self _ _ _).symm.trans hP')
    exact h.keep hst rfl rfl (fun _ _ e => by rw [hpc] at e; cases e)
      fun v e => by rw [hpc] at e; cases e
  | alloc hpc hs hne =>
    obtain rfl := Option.some.inj ((setProc_self _ _ _).symm.trans hP')
    have hno : ∀ v paddr, act.pc ≠ .replace v paddr := fun _ _ e => by rw [hpc] at e; cases e
    rw [hpc] at hpc₀
    refine Mapped.enter hfound hpc₀ (fun v f d hm => .inr (hin hno v f d hm)) fun v f hm => ?_
    refine (h.dirty v f hm).imp_right fun hb => ((busy_iff hst).mp hb).imp_left fun hv => ?_
    rw [hpc] at hv
    exact hv.elim Eq.symm fun e => by cases e
  | @update victim pos paddr hpc =>
    obtain rfl := Option.some.inj ((setProc_self _ _ _).symm.trans hP')
    have hno : ∀ v paddr, act.pc ≠ .replace v paddr := fun _ _ e => by rw [hpc] at e; cases e
    refine ⟨fun v f d hm => ?_, fun v f hm => ?_⟩
    · by_cases hv : v = victim
      · rw [hv]
        exact .inr ⟨_, paddr, rfl, rfl⟩
      · exact .inl ((hin hno v f d hm).ptUpdate hv)
    · refine (h.dirty v f hm).imp (fun hw => hw.congr rfl) fun hb => (busy_iff rfl).mpr ?_
      refine ((busy_iff hst).mp hb).imp_left (Or.imp_right fun e => ?_)
      rw [hpc] at e
      exact e
  | @replace victim paddr hpc =>
    obtain rfl := Option.some.inj ((setProc_self _ _ _).symm.trans hP')
    rw [hpc] at hpc₀
    refine Mapped.enter hfound hpc₀ (fun v f d hm => ?_) fun v f hm => ?_
    · rcases maps_tlbR hwf hm with ⟨rfl, rfl, -⟩ | ⟨hv, hold⟩
      · exact .inl ⟨rfl, rfl⟩
      · refine .inr ((h.mem v f d hold).resolve_right ?_)
        rintro ⟨r, paddr', hr, hpc'⟩
        rw [hst] at hr
        obtain rfl := Option.some.inj hr
        rw [hpc] at hpc'
        exact hv (Pc.replace.inj hpc').1.symm
    · rcases maps_tlbR hwf hm with ⟨rfl, -, -⟩ | ⟨hv, hold⟩
      · exact .inr (.inl rfl)
      · refine (h.dirty v f hold).imp_right fun hb => ((busy_iff hst).mp hb).imp_left fun hp => ?_
        rw [hpc] at hp
        exact hp.elim Eq.symm fun e => absurd (Option.some.inj e).symm hv
  | @map paddr hpc =>
    obtain rfl := Option.some.inj ((setProc_self _ _ _).symm.trans hP')
    have hno : ∀ v paddr, act.pc ≠ .replace v paddr := fun _ _ e => by rw [hpc] at e; cases e
    rw [hpc] at hpc₀
    refine ⟨fun v f d hm => .inl ?_, fun v f hm => ?_⟩
    · rcases maps_tlbW hwf hm with ⟨rfl, rfl, -⟩ | ⟨-, hold⟩
      · exact hpc₀
      · exact hin hno v f d hold
    · rcases maps_tlbW hwf hm with ⟨rfl, -, hd⟩ | ⟨hv, hold⟩
      · exact .inl ⟨act.seg, hfound.seg, of_decide_eq_true hd.symm⟩
      · refine (h.dirty v f hold).imp_right fun hb => ((busy_iff hst).mp hb).resolve_left ?_
        rw [hpc]
        rintro (hp | e)
        · exact hv hp.symm
        · cases e
  | fill hpc | elfRead hpc | swapInFind hpc | swapInRead hpc | setClean hpc =>
    obtain rfl := Option.some.inj ((setProc_self _ _ _).symm.trans hP')
    exact h.keep hst rfl rfl (fun _ _ e => by rw [hpc] at e; cases e)
      fun v e => by rw [hpc] at e; cases e
  | swapOutFind hpc | swapOutCopy hpc | swapOutCopied hpc | swapOutWrite hpc =>
    obtain rfl := Option.some.inj ((setProc_self _ _ _).symm.trans hP')
    exact h.keep hst rfl rfl (fun _ _ e => by rw [hpc] at e; cases e)
      fun v e => by rw [hpc] at e; exact e

end Mapped

/-! ## The steps of the machine -/

/-- **The invariant of one address space.** -/
structure CoherentAt (s : VmState) (as : AsId) : Prop where
  placed : PlacedAt s as
  backed : ∀ P, s.procs as = some P → P.stage = .running → FramesBacked s.cms as P
  mapped : ∀ P, s.cur = some as → s.procs as = some P → P.stage = .running → Mapped s.tlb P

/-- **The invariant of the machine**: every address space has its pages in frames that are tagged with
them, and the TLB maps pages of the current one. -/
structure Coherent (s : VmState) : Prop where
  placed : Placed s
  backed : ∀ as P, s.procs as = some P → P.stage = .running → FramesBacked s.cms as P
  mapped : ∀ as P, s.cur = some as → s.procs as = some P → P.stage = .running → Mapped s.tlb P

section Step

variable {s s' : VmState} {c : CmSys} {t : Tlb} {as : AsId} {P P' : Proc} {act : Activation}
  {a : VmAction} {v fa : ℕ}

/-- The invariant of the machine is that of all address spaces. -/
theorem coherent_iff : Coherent s ↔ Own s ∧ ∀ as, CoherentAt s as :=
  ⟨fun h => ⟨h.placed.own, fun as => ⟨h.placed.placedAt as, h.backed as, h.mapped as⟩⟩,
    fun ⟨hown, h⟩ => ⟨placed_iff.mpr ⟨hown, fun as => (h as).placed⟩, fun as => (h as).backed,
      fun as => (h as).mapped⟩⟩

theorem Coherent.coherentAt (h : Coherent s) (as : AsId) : CoherentAt s as :=
  (coherent_iff.mp h).2 as

/-- An address space that does not exist has no page. -/
theorem coherentAt_of_gone (hown : Own s) (hgone : s.procs as = none) : CoherentAt s as where
  placed := placedAt_of_gone hown hgone
  backed P hP := by rw [hgone] at hP; cases hP
  mapped P _ hP := by rw [hgone] at hP; cases hP

theorem FramesBacked.of_agree (h : FramesBacked s.cms as P) (ha : Agree as s s') :
    FramesBacked s'.cms as P := by
  refine ⟨fun e he hin => ?_, fun k v ht => ?_⟩
  · obtain ⟨k, hf, hk⟩ := h.entry e he hin
    rw [ha.ram]
    exact ⟨k, hf, hk.imp_left fun ⟨st, ht⟩ => ⟨st, (ha.tag k _ st).mpr ht⟩⟩
  · rw [ha.ram]
    exact h.loading k v ((ha.tag k v _).mp ht)

/-- A new region has no page in memory. -/
theorem FramesBacked.extend {space : Addrspace} (h : FramesBacked c as P) (hst : P.stack = [])
    (he : Extends P.space space) : FramesBacked c as { P with space := space } := by
  obtain ⟨seg, new, -, -, -, hpt, -, hnew⟩ := he
  refine ⟨fun e hmem hin => ?_, h.loading⟩
  rcases List.mem_append.mp (hpt ▸ hmem) with hmem | hmem
  · rw [(hnew e hmem).1] at hin
    cases hin
  · obtain ⟨k, hf, hk⟩ := h.entry e hmem hin
    exact ⟨k, hf, .inl (hk.resolve_right (not_leaves_of_nil hst))⟩

/-- A fault begins inside the copy of a program page. -/
theorem FramesBacked.push (h : FramesBacked c as P)
    (hno : ∀ r, P.stack.head? = some r → r.pc.victim = none) : FramesBacked c as { P with stack := act :: P.stack } := by
  refine ⟨fun e hmem hin => ?_, fun k v ht => ?_⟩
  · obtain ⟨k, hf, ht | ⟨r, paddr, hr, hv, -⟩⟩ := h.entry e hmem hin
    · exact ⟨k, hf, .inl ht⟩
    · rw [hno r hr] at hv
      cases hv
  · obtain ⟨r, hr, hp⟩ := h.loading k v ht
    exact ⟨r, List.mem_cons_of_mem _ hr, hp⟩

/-- A copy that a fault interrupts is that of a program page. -/
theorem FaultOk.victim_of_push (hok : FaultOk s as P)
    (hst : P.stack = [] ∨ P.stack.head?.bind Activation.access = some fa)
    (hout : P.space.NotInMem (pageFrame fa)) : ∀ r, P.stack.head? = some r → r.pc.victim = none := by
  intro r hr
  have hmem := List.mem_of_mem_head? hr
  rcases hst with hnil | hacc
  · rw [hnil] at hr
    cases hr
  · rw [hr] at hacc
    obtain ⟨_, _, _, _, _, hpc⟩ :=
      (hok.pc r hmem).elf_of_notInMem hacc (hok.found r hmem).user hout
    rw [hpc]
    rfl

theorem backed_of_vmStep (hown : Own s) (h : CoherentAt s as) (hstep : VmStep s a s') :
    ∀ P, s'.procs as = some P → P.stage = .running → FramesBacked s'.cms as P := by
  intro P' hP' hrun'
  by_cases hact : a.actor = some as
  swap
  · have hag := agree_of_vmStep hown hstep hact
    exact (h.backed P' (hag.procs.symm.trans hP') hrun').of_agree hag
  cases hstep with
  | create hnone =>
    cases hact
    obtain rfl := Option.some.inj ((setProc_self _ _ _).symm.trans hP')
    refine ⟨fun e he => (List.not_mem_nil he).elim, fun k v ht => ?_⟩
    exact absurd (.inl ⟨v, _, ht⟩) ((hown.gone _ hnone).1 k)
  | defineRegion hP hrun hst ho hd =>
    cases hact
    obtain rfl := Option.some.inj ((setProc_self _ _ _).symm.trans hP')
    exact (h.backed _ hP hrun).extend hst (extends_asDefineRegion ho hd)
  | defineStack hP hrun hst =>
    cases hact
    obtain rfl := Option.some.inj ((setProc_self _ _ _).symm.trans hP')
    exact (h.backed _ hP hrun).extend hst extends_asDefineStack
  | completeLoad hP hrun hst =>
    cases hact
    obtain rfl := Option.some.inj ((setProc_self _ _ _).symm.trans hP')
    exact ⟨(h.backed _ hP hrun).entry, (h.backed _ hP hrun).loading⟩
  | exitCm | exitSwap =>
    cases hact
    obtain rfl := Option.some.inj ((setProc_self _ _ _).symm.trans hP')
    cases hrun'
  | exitDone =>
    cases hact
    cases (Function.update_self as none s.procs).symm.trans hP'
  | @fault _ P a' _ hcur hP hrun ha hmiss hst hf =>
    cases hact
    have hok := h.placed.fault _ hP hrun
    cases hf with
    | reload => exact h.backed _ hP' hrun'
    | @push seg j pte hseg hj hpte hin =>
      obtain rfl := Option.some.inj ((setProc_self _ _ _).symm.trans hP')
      exact (h.backed _ hP hrun).push (hok.victim_of_push hst
        ⟨j, pte, lookup_eq_some.mpr ⟨seg, hseg, hj⟩, hpte, hin⟩)
    | abort hst' hpc hno =>
      obtain rfl := Option.some.inj ((setProc_self _ _ _).symm.trans hP')
      exact (h.backed _ hP hrun).keep hst' rfl rfl (by rw [hpc]; rfl) fun _ => by rw [hpc]; rfl
  | go hcur hP hrun hst hgo =>
    cases hact
    exact backed_of_goStep hown.cm (hown.proc _ _ hP) hst (h.placed.fault _ hP hrun)
      (h.placed.nodup _ hP) (h.backed _ hP hrun) hgo hP'
  | _ => cases hact

/-- Nothing is mapped. -/
theorem Mapped.of_not_maps (h : ∀ v f d, ¬ t.Maps v f d) : Mapped t P :=
  ⟨fun v f d hm => absurd hm (h v f d), fun v f hm => absurd hm (h v f true)⟩

/-- A new region leaves the mappings as they are. -/
theorem Mapped.extend {space : Addrspace} (h : Mapped t P) (hst : P.stack = [])
    (hlinked : Linked P.space.segments P.space.pages)
    (huser : ∀ v f, P.space.InMem v f → UserPage v) (he : Extends P.space space)
    (hnd : space.pages.Nodup) : Mapped t { P with space := space } := by
  obtain ⟨seg, new, hform, -, hseg, hpt, hchain, -⟩ := he
  have hin : ∀ v f d, t.Maps v f d → P.space.InMem v f := fun v f d hm => by
    rcases h.mem v f d hm with hin | ⟨r, paddr, hr, -⟩
    · exact hin
    · rw [hst] at hr
      cases hr
  refine ⟨fun v f d hm => .inl ?_, fun v f hm => .inl ?_⟩
  · have hv := hin v f d hm
    exact hv.extend hlinked hseg hpt hform hchain hnd (huser v f hv).1
  · have hv := huser v f (hin v f true hm)
    rcases h.dirty v f hm with ⟨seg₀, hfind, hw⟩ | ⟨r, hr, -⟩
    · exact ⟨seg₀, findSegment_extend hlinked hseg hpt hform hchain hnd hv.1 hfind, hw⟩
    · rw [hst] at hr
      cases hr

/-- The pages in memory are pages of user memory. -/
theorem CoherentAt.user {f : ℕ} (h : CoherentAt s as) (hP : s.procs as = some P) (hrun : P.stage = .running)
    (hst : P.stack = []) (hin : P.space.InMem v f) : UserPage v := by
  obtain ⟨e, he, rfl, hmem, -⟩ := Addrspace.InMem.entry hin
  obtain ⟨k, -, hk⟩ := (h.backed _ hP hrun).entry e he hmem
  obtain ⟨st, ht⟩ := hk.resolve_right (not_leaves_of_nil hst)
  exact ((h.placed.fault _ hP hrun).tagged k _ st ht).1

/-- **A reload** enters the frame of the page, writable while the frame is `LOADING`. -/
theorem Mapped.reload {seg : SegmentEntry} {j : ℕ} {pte : PtEntry} (h : CoherentAt s as)
    (hP : s.procs as = some P) (hrun : P.stage = .running) (hcur : s.cur = some as)
    (hseg : findSegment P.space fa = some seg) (hj : findPte P.space seg fa = some j)
    (hpte : P.space.pt[j]? = some pte) (hin : pte.inMem = true) :
    Mapped (tlbW s.tlb fa pte.frame
      (if cmCheckState s.cms.cm pte.frame .loading then 2 else seg.write)) P := by
  have hm₀ := h.mapped _ hcur hP hrun
  have hb := h.backed _ hP hrun
  have hwf := (h.placed.fault _ hP hrun).wf hcur
  have hlook : P.space.lookup fa = some j := lookup_eq_some.mpr ⟨seg, hseg, hj⟩
  have hpage : pte.page = fa := page_of_lookup hlook hpte
  refine ⟨fun v f d hm => ?_, fun v f hm => ?_⟩
  · rcases maps_tlbW hwf hm with ⟨rfl, rfl, -⟩ | ⟨-, hold⟩
    · exact .inl ⟨j, pte, hlook, hpte, hin, rfl⟩
    · exact hm₀.mem v f d hold
  · rcases maps_tlbW hwf hm with ⟨rfl, -, hd⟩ | ⟨-, hold⟩
    swap
    · exact hm₀.dirty v f hold
    obtain ⟨k, hf, hk⟩ := hb.entry pte (List.mem_of_getElem? hpte) hin
    rw [hpage] at hk
    split_ifs at hd with hload
    · refine .inr ?_
      rcases hk with ⟨st, ht⟩ | ⟨r, paddr, hr, hv, -⟩
      · obtain ⟨hlt, -, -, hst⟩ := CmSys.tag_eq_some.mp ht
        rw [hf, cmCheckState_frameAddr hlt, decide_eq_true_eq, hst] at hload
        rw [hload] at ht
        obtain ⟨r, hr, hp, -⟩ := hb.loading k v ht
        exact ⟨r, hr, .inl hp⟩
      · exact ⟨r, List.mem_of_mem_head? hr, .inr hv⟩
    · exact .inl ⟨seg, hseg, of_decide_eq_true hd.symm⟩

theorem mapped_of_vmStep (hown : Own s) (h : CoherentAt s as)
    (hdef : a.actor = some as → DefineApart s a) (hstep : VmStep s a s') :
    ∀ P, s'.cur = some as → s'.procs as = some P → P.stage = .running → Mapped s'.tlb P := by
  intro P' hcur' hP' hrun'
  by_cases hact : a.actor = some as
  swap
  · have hag := agree_of_vmStep hown hstep hact
    rcases tlb_of_vmStep hstep hact hcur' with ⟨hcur, he⟩ | he
    · rw [he]
      exact h.mapped P' hcur (hag.procs.symm.trans hP') hrun'
    · rw [he]
      exact .of_not_maps fun v f d => not_maps_tlbFlush
  have hnd := nodup_of_vmStep hown h.placed hdef hstep
  cases hstep with
  | create hnone =>
    cases hact
    exact absurd hnone (hown.cur _ hcur')
  | defineRegion hP hrun hst ho hd =>
    cases hact
    obtain rfl := Option.some.inj ((setProc_self _ _ _).symm.trans hP')
    exact (h.mapped _ hcur' hP hrun).extend hst (hown.proc _ _ hP).linked
      (fun v f => h.user hP hrun hst) (extends_asDefineRegion ho hd) (hnd _ hP')
  | defineStack hP hrun hst =>
    cases hact
    obtain rfl := Option.some.inj ((setProc_self _ _ _).symm.trans hP')
    exact (h.mapped _ hcur' hP hrun).extend hst (hown.proc _ _ hP).linked
      (fun v f => h.user hP hrun hst) extends_asDefineStack (hnd _ hP')
  | completeLoad hP hrun hst =>
    cases hact
    obtain rfl := Option.some.inj ((setProc_self _ _ _).symm.trans hP')
    exact ⟨(h.mapped _ hcur' hP hrun).mem, (h.mapped _ hcur' hP hrun).dirty⟩
  | exitCm | exitSwap =>
    cases hact
    obtain rfl := Option.some.inj ((setProc_self _ _ _).symm.trans hP')
    cases hrun'
  | exitDone => cases hcur'
  | @fault _ P a' _ hcur hP hrun ha hmiss hst hf =>
    cases hact
    have hok := h.placed.fault _ hP hrun
    have hm := h.mapped _ hcur hP hrun
    cases hf with
    | reload hseg hj hpte hin =>
      obtain rfl := Option.some.inj (hP.symm.trans hP')
      exact .reload h hP hrun hcur hseg hj hpte hin
    | @push seg j pte hseg hj hpte hin =>
      obtain rfl := Option.some.inj ((setProc_self _ _ _).symm.trans hP')
      have hno := hok.victim_of_push hst ⟨j, pte, lookup_eq_some.mpr ⟨seg, hseg, hj⟩, hpte, hin⟩
      refine ⟨fun v f d hmaps => .inl ?_, fun v f hmaps => (hm.dirty v f hmaps).imp_right ?_⟩
      · refine (hm.mem v f d hmaps).resolve_right ?_
        rintro ⟨r, paddr, hr, hpc⟩
        have hv := hno r hr
        rw [hpc] at hv
        cases hv
      · rintro ⟨r, hr, hp⟩
        exact ⟨r, List.mem_cons_of_mem _ hr, hp⟩
    | abort hst' hpc hno =>
      obtain rfl := Option.some.inj ((setProc_self _ _ _).symm.trans hP')
      exact hm.keep hst' rfl rfl (fun _ _ e => by rw [hpc] at e; cases e)
        fun v e => by rw [hpc] at e; cases e
  | go hcur hP hrun hst hgo =>
    cases hact
    exact mapped_of_goStep hst (h.placed.fault _ hP hrun) hcur (h.mapped _ hcur hP hrun) hgo hP'
  | _ => cases hact

/-- **Every step keeps the invariant** of an address space, whatever the others do. -/
theorem coherentAt_step (hown : Own s) (h : CoherentAt s as)
    (hdef : a.actor = some as → DefineApart s a) (hs : s.step a = .ok s') : CoherentAt s' as :=
  ⟨placedAt_step hown h.placed hdef hs, backed_of_vmStep hown h (vmStep_of_step hs),
    mapped_of_vmStep hown h hdef (vmStep_of_step hs)⟩

/-- **Every step keeps the invariant.** -/
theorem coherent_step (h : Coherent s) (hdef : DefineApart s a) (hs : s.step a = .ok s') :
    Coherent s' :=
  coherent_iff.mpr ⟨own_step h.placed.own (vmStep_of_step hs),
    fun as => coherentAt_step h.placed.own (h.coherentAt as) (fun _ => hdef) hs⟩

end Step

section Run

variable {ram : RamLayout} {garbage : ℕ → CmEntry} {file mem : ℕ → UInt8}
  {files : FileId → List UInt8} {acts : List VmAction} {s : VmState} {as : AsId} {P : Proc}

theorem coherent_boot : Coherent (VmState.boot ram garbage file mem files) :=
  ⟨placed_boot, fun as P hP => (by cases hP), fun as P hc => (by cases hc)⟩

/-- **Every reachable state** is coherent. -/
theorem coherent_run
    (hdef : Along VmState.step DefineApart (VmState.boot ram garbage file mem files) acts)
    (h : run VmState.step (VmState.boot ram garbage file mem files) acts = .ok s) : Coherent s :=
  run_inv_along VmState.step (fun _ _ _ hs hd ht => coherent_step hs hd ht) coherent_boot hdef h

/-- **Every state after the creation of an address space** is coherent for it, if its own regions are
defined apart. -/
theorem coherentAt_run {s₀ : VmState} (hown : Own s₀) (hgone : s₀.procs as = none)
    (hdef : Along VmState.step (fun s a => a.actor = some as → DefineApart s a) s₀ acts)
    (h : run VmState.step s₀ acts = .ok s) : Own s ∧ CoherentAt s as :=
  run_inv_along VmState.step (P := fun s => Own s ∧ CoherentAt s as)
    (fun _ _ _ hs hd ht => ⟨own_step hs.1 (vmStep_of_step ht), coherentAt_step hs.1 hs.2 hd ht⟩)
    ⟨hown, coherentAt_of_gone hown hgone⟩ hdef h

/-- Outside a fault every page in memory has a `CLEAN` frame that is tagged with it. -/
theorem CoherentAt.clean (hown : Own s) (h : CoherentAt s as) (hP : s.procs as = some P) (hrun : P.stage = .running)
    (hst : P.stack = []) {e : PtEntry} (he : e ∈ P.space.pt) (hin : e.inMem = true) :
    ∃ k < s.cms.cm.ramFrames, e.frame = s.cms.cm.ram.frameAddr k ∧
      s.cms.cm.entry k = ⟨some as, e.page, .clean, 1, (s.cms.cm.entry k).timestamp⟩ := by
  have hb := h.backed _ hP hrun
  obtain ⟨k, hf, hk⟩ := hb.entry e he hin
  obtain ⟨st, ht⟩ := hk.resolve_right (not_leaves_of_nil hst)
  obtain ⟨hlt, has, hv, hs⟩ := CmSys.tag_eq_some.mp ht
  obtain ⟨-, -, hn, -⟩ := hown.cm.of_tagged hlt has
  have hclean : st = .clean := by
    refine (hown.cm.state_of_tag ht).resolve_left ?_
    rintro rfl
    obtain ⟨r, hr, -⟩ := hb.loading k _ ht
    rw [hst] at hr
    cases hr
  refine ⟨k, hlt, hf, ?_⟩
  rw [← has, ← hv, ← hclean, ← hs, ← hn]

/-- **TLB coherence.** When the processor is in user mode, no page is in two slots of the TLB, and a
valid slot is for a page in memory that is mapped to its own frame, writable only if the segment is. -/
theorem tlb_coherent
    (hdef : Along VmState.step DefineApart (VmState.boot ram garbage file mem files) acts)
    (h : run VmState.step (VmState.boot ram garbage file mem files) acts = .ok s)
    (hcur : s.cur = some as) (hP : s.procs as = some P) (hrun : P.stage = .running)
    (hst : P.stack = []) :
    (∀ i < numTlb, ∀ j < numTlb, (s.tlb.entry i).vpage = (s.tlb.entry j).vpage → i = j) ∧
    ∀ i < numTlb, (s.tlb.entry i).valid = true →
      (∃ e ∈ P.space.pt, e.page = (s.tlb.entry i).vpage ∧ e.inMem = true ∧
        e.frame = (s.tlb.entry i).ppage) ∧
      (∃ k < s.cms.cm.ramFrames, (s.tlb.entry i).ppage = s.cms.cm.ram.frameAddr k ∧
        s.cms.cm.entry k =
          ⟨some as, (s.tlb.entry i).vpage, .clean, 1, (s.cms.cm.entry k).timestamp⟩) ∧
      ((s.tlb.entry i).dirty = true → P.space.Writable (s.tlb.entry i).vpage) := by
  have hc := coherent_run hdef h
  have hm := hc.mapped _ _ hcur hP hrun
  refine ⟨((hc.placed.fault _ _ hP hrun).wf hcur).unique, fun i hi hvalid => ?_⟩
  have hmaps : s.tlb.Maps (s.tlb.entry i).vpage (s.tlb.entry i).ppage (s.tlb.entry i).dirty :=
    ⟨i, hi, by rw [← hvalid]⟩
  have hin : P.space.InMem (s.tlb.entry i).vpage (s.tlb.entry i).ppage := by
    refine (hm.mem _ _ _ hmaps).resolve_right ?_
    rintro ⟨r, paddr, hr, -⟩
    rw [hst] at hr
    cases hr
  obtain ⟨e, he, hp, hmem, hf⟩ := Addrspace.InMem.entry hin
  obtain ⟨k, hk, hfk, hent⟩ := (hc.coherentAt as).clean hc.placed.own hP hrun hst he hmem
  rw [hp] at hent
  refine ⟨⟨e, he, hp, hmem, hf⟩, ⟨k, hk, hf.symm.trans hfk, hent⟩, fun hd => ?_⟩
  rw [hd] at hmaps
  refine (hm.dirty _ _ hmaps).resolve_right ?_
  rintro ⟨r, hr, -⟩
  rw [hst] at hr
  cases hr

/-- The run in which a process touches the first page of its region. -/
def firstPageRun : List VmAction := wideStart 1 ++ [.go 0 pageSize, .go 0 0, .go 0 0, .go 0 0]

theorem run_firstPageRun : ∃ s, run VmState.step wideBoot firstPageRun = .ok s ∧
    Wide 1 0 .clean [] s := by
  obtain ⟨s₁, act, hs₁, hpage, hseg, hpc, h₁⟩ := run_wideStart (m := 1) (by decide) Nat.one_pos
  obtain ⟨s₂, hs₂, h₂⟩ := Wide.run_fill hpage hseg hpc h₁ (by decide) Nat.one_pos
  exact ⟨s₂, (run_append_of_ok _ _ hs₁).trans hs₂, h₂⟩

theorem along_firstPageRun : Along VmState.step DefineApart wideBoot firstPageRun :=
  Along.append _ (along_wideStart (by decide) Nat.one_pos) fun t _ =>
    .of_forall _ (by simp [DefineApart])

theorem tlb_coherent_firstPage : ∃ s, run VmState.step wideBoot firstPageRun = .ok s ∧
    (∀ i < numTlb, ∀ j < numTlb, (s.tlb.entry i).vpage = (s.tlb.entry j).vpage → i = j) ∧
    (s.tlb.entry 0).valid = true ∧ ∃ k < s.cms.cm.ramFrames,
      (s.tlb.entry 0).ppage = s.cms.cm.ram.frameAddr k ∧ (s.cms.cm.entry k).as = some 0 := by
  obtain ⟨s, hs, h⟩ := run_firstPageRun
  obtain ⟨hunique, hvalid⟩ :=
    tlb_coherent along_firstPageRun hs h.cur h.proc rfl rfl
  have h0 : (s.tlb.entry 0).valid = true := by rw [h.tlb.first]
  obtain ⟨-, ⟨k, hk, hf, he⟩, -⟩ := hvalid 0 (Nat.succ_pos 63) h0
  exact ⟨s, hs, hunique, h0, k, hk, hf, by rw [he]⟩

end Run

end Os161
