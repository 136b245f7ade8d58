import Os161.Vm.Lookup
import Os161.Vm.Owner

set_option autoImplicit false

/-!
# What a fault relies on

The invariant of the faults of one address space, whatever its regions are: which page is in memory
where while a fault is at a given point, and what the TLB maps meanwhile. A fault can meet another
one only while it copies a program page: the page that it writes out and the page that it fills from
the swap file or with zeros are in memory.

* `PcOk`, `TlbOk`: what holds where a fault is; `FaultOk`: the invariant.
* `DefineOk`: regions are defined before the first fault, or they share no page.
* **`faultOk_of_vmStep`**: every step keeps it.
-/

namespace Os161

open Transition Addrspace

/-- A page of user memory. -/
def UserPage (v : ℕ) : Prop := pageSize ∣ v ∧ v < userspaceTop

/-- What the searches of a fault found. -/
structure Activation.Found (space : Addrspace) (act : Activation) : Prop where
  user : UserPage act.page
  seg : findSegment space act.page = some act.seg
  pte : findPte space act.seg act.page = some act.j

/-- Which pages are in memory where a fault is. -/
def PcOk (space : Addrspace) (page : ℕ) : Pc → Prop
  | .alloc | .evict => space.NotInMem page
  | .swapOutFind v _ paddr | .swapOutWrite v _ paddr _ _ | .update v _ paddr =>
    space.NotInMem page ∧ space.InMem v paddr ∧ UserPage v
  | .swapOutCopy v _ paddr _ _ done =>
    space.NotInMem page ∧ space.InMem v paddr ∧ UserPage v ∧ done < pageSize
  | .replace _ _ => space.NotInMem page
  | .fill what paddr dst len _ done =>
    space.InMem page paddr ∧ done < len ∧ (what ≠ .elf → dst = page ∧ len = pageSize)
  | .swapInFind paddr | .swapInRead paddr _ | .elfRead paddr | .setClean paddr | .map paddr =>
    space.InMem page paddr

/-- What the TLB maps where a fault is: nothing for the page before it is entered, and then only the
frame that is filled. -/
def TlbOk (t : Tlb) (page : ℕ) : Pc → Prop
  | .alloc | .evict | .swapOutFind _ _ _ | .swapOutCopy _ _ _ _ _ _ | .swapOutWrite _ _ _ _ _
  | .update _ _ _ | .replace _ _ => ∀ f d, ¬ t.Maps page f d
  | .swapInFind paddr | .swapInRead paddr _ | .fill .zero paddr _ _ _ _ | .fill .swap paddr _ _ _ _ =>
    ∀ f d, t.Maps page f d → f = paddr
  | _ => True

/-- The page of a tagged frame is in memory there, or the innermost fault is about to enter it. -/
def Entered (s : CmSys) (P : Proc) (v k : ℕ) : Prop :=
  P.space.InMem v (s.cm.ram.frameAddr k) ∨
    ∃ act victim, P.stack.head? = some act ∧ act.pc = .replace victim (s.cm.ram.frameAddr k) ∧
      act.page = v

/-- **The invariant of the faults of an address space.** -/
structure FaultOk (s : VmState) (as : AsId) (P : Proc) : Prop where
  found : ∀ act ∈ P.stack, act.Found P.space
  tail : ∀ act ∈ P.stack.tail, ∃ paddr dst len buf done, act.pc = .fill .elf paddr dst len buf done
  tagged : ∀ k v st, s.cms.tag k = some (as, v, st) → UserPage v ∧ Entered s.cms P v k
  pc : ∀ act ∈ P.stack, PcOk P.space act.page act.pc
  wf : s.cur = some as → s.tlb.Wf
  maps : s.cur = some as → ∀ act, P.stack.head? = some act → TlbOk s.tlb act.page act.pc

section Lemmas

variable {s s' : VmState} {as : AsId} {P P' : Proc} {act act' r : Activation}
  {rest : List Activation} {a : ℕ}

theorem UserPage.lt {v : ℕ} (h : UserPage v) : v < wordSize := by
  have := h.2
  unfold userspaceTop kseg0 wordSize at *
  omega

/-- The bytes of a page are accessed through the page. -/
theorem UserPage.pageFrame_add {v o : ℕ} (h : UserPage v) (ho : o < pageSize) :
    pageFrame (v + o) = v := by
  obtain ⟨⟨m, rfl⟩, hlt⟩ := h
  unfold pageFrame userspaceTop kseg0 wordSize pageSize at *
  omega

theorem userPage_pageFrame (h : a < userspaceTop) : UserPage (pageFrame a) := by
  refine ⟨pageFrame_dvd a, lt_of_le_of_lt (pageFrame_le ?_) h⟩
  unfold userspaceTop kseg0 wordSize at *
  omega

theorem Activation.Found.lookup {space : Addrspace} (h : act.Found space) :
    space.lookup act.page = some act.j := lookup_eq_some.mpr ⟨act.seg, h.seg, h.pte⟩

theorem Activation.Found.congr {space space' : Addrspace} (h : act.Found space)
    (hseg : space'.segments = space.segments) (hpages : space'.pages = space.pages) :
    act.Found space' := by
  refine ⟨h.user, ?_, (findPte_congr hpages).trans h.pte⟩
  have := h.seg
  unfold findSegment at this ⊢
  rw [hseg]
  exact this

/-- The fault of an interrupted copy. -/
theorem FaultOk.below (h : FaultOk s as P) (hst : P.stack = act :: rest) (hr : r ∈ rest) :
    ∃ paddr dst len buf done, r.pc = .fill .elf paddr dst len buf done ∧
      P.space.InMem r.page paddr ∧ done < len := by
  obtain ⟨paddr, dst, len, buf, done, hpc⟩ := h.tail r (by rw [hst]; exact hr)
  have hok := h.pc r (by rw [hst]; exact List.mem_cons_of_mem _ hr)
  rw [hpc] at hok
  exact ⟨paddr, dst, len, buf, done, hpc, hok.1, hok.2.1⟩

/-- **The innermost fault goes on** and the others keep their pages. -/
theorem FaultOk.advance (h : FaultOk s as P) (hst : P.stack = act :: rest)
    (hst' : P'.stack = act' :: rest) (hseg : P'.space.segments = P.space.segments)
    (hpages : P'.space.pages = P.space.pages) (hfound : act'.Found P.space)
    (hkeep : ∀ r ∈ rest, ∀ f, P.space.InMem r.page f → P'.space.InMem r.page f)
    (htagged : ∀ k v st, s'.cms.tag k = some (as, v, st) → UserPage v ∧ Entered s'.cms P' v k)
    (hpc : PcOk P'.space act'.page act'.pc) (hwf : s'.cur = some as → s'.tlb.Wf)
    (hmaps : s'.cur = some as → TlbOk s'.tlb act'.page act'.pc) : FaultOk s' as P' := by
  refine ⟨fun r hr => ?_, fun r hr => ?_, htagged, fun r hr => ?_, hwf, fun hc r hr => ?_⟩
  · rw [hst'] at hr
    rcases List.mem_cons.mp hr with rfl | hr
    · exact hfound.congr hseg hpages
    · exact (h.found r (by rw [hst]; exact List.mem_cons_of_mem _ hr)).congr hseg hpages
  · rw [hst'] at hr
    exact h.tail r (by rw [hst]; exact hr)
  · rw [hst'] at hr
    rcases List.mem_cons.mp hr with rfl | hr
    · exact hpc
    · obtain ⟨paddr, dst, len, buf, done, hp, hin, hlt⟩ := h.below hst hr
      rw [hp]
      exact ⟨hkeep r hr _ hin, hlt, fun hne => absurd rfl hne⟩
  · rw [hst'] at hr
    obtain rfl := Option.some.inj hr
    exact hmaps hc

/-- No other fault loads a page while one is. -/
theorem Entered.inMem {v k : ℕ} (h : Entered s.cms P v k) (hst : P.stack = act :: rest)
    (hpc : ∀ victim paddr, act.pc ≠ .replace victim paddr) :
    P.space.InMem v (s.cms.cm.ram.frameAddr k) := by
  rcases h with hin | ⟨act', victim, hhead, hpc', -⟩
  · exact hin
  · rw [hst] at hhead
    obtain rfl := Option.some.inj hhead
    exact absurd hpc' (hpc _ _)

/-- The innermost fault goes on, and nothing happens to the frames, the page table and the TLB. -/
theorem FaultOk.keep {pc : Pc} (h : FaultOk s as P) (hst : P.stack = act :: rest)
    (hno : ∀ victim paddr, act.pc ≠ .replace victim paddr) (hcms : s'.cms = s.cms)
    (htlb : s'.tlb = s.tlb) (hcur : s'.cur = s.cur) (hspace : P'.space = P.space)
    (hst' : P'.stack = { act with pc := pc } :: rest) (hpc : PcOk P.space act.page pc)
    (hmaps : s.cur = some as → TlbOk s.tlb act.page pc) : FaultOk s' as P' := by
  have hfound := h.found act (by rw [hst]; exact List.mem_cons_self)
  refine h.advance hst hst' (by rw [hspace]) (by rw [hspace]) ⟨hfound.user, hfound.seg, hfound.pte⟩
    (fun r _ f hin => by rw [hspace]; exact hin) (fun k v st ht => ?_) (by rw [hspace]; exact hpc)
    (fun hc => by rw [htlb]; exact h.wf (hcur.symm.trans hc))
    (fun hc => by rw [htlb]; exact hmaps (hcur.symm.trans hc))
  rw [hcms] at ht ⊢
  obtain ⟨hv, hin⟩ := h.tagged k v st ht
  refine ⟨hv, .inl ?_⟩
  rw [hspace]
  exact hin.inMem hst hno

/-- A copy that goes on: the page is in memory until it is done. -/
theorem pcOk_copying {space : Addrspace} {what : Fill} {paddr dst len done : ℕ} {buf : ℕ → UInt8}
    (hin : space.InMem act.page paddr) (hle : done ≤ len)
    (hwhat : what ≠ .elf → dst = act.page ∧ len = pageSize) :
    PcOk space act.page (act.copying what paddr dst len buf done) := by
  unfold Activation.copying
  split_ifs with hd
  · cases what <;> exact hin
  · cases what <;> exact hin
  · exact ⟨hin, Nat.lt_of_le_of_ne hle hd, hwhat⟩

theorem tlbOk_copying {t : Tlb} {what : Fill} {paddr dst len done : ℕ} {buf : ℕ → UInt8}
    (h : what ≠ .elf → ∀ f d, t.Maps act.page f d → f = paddr) :
    TlbOk t act.page (act.copying what paddr dst len buf done) := by
  unfold Activation.copying
  split_ifs with hd hneg
  · cases what <;> trivial
  · cases what <;> trivial
  · cases what with
    | zero => exact h Fill.noConfusion
    | swap => exact h Fill.noConfusion
    | elf => trivial

end Lemmas

section Go

variable {s s' : VmState} {as : AsId} {P P' : Proc} {act : Activation} {rest : List Activation}

/-- **The step of a fault** keeps the invariant. -/
theorem faultOk_of_goStep (hown : Own s) (hP : s.procs as = some P) (hcur : s.cur = some as)
    (hst : P.stack = act :: rest) (h : FaultOk s as P) (hgo : GoStep s as P act rest s')
    (hP' : s'.procs as = some P') : FaultOk s' as P' := by
  have hact : act ∈ P.stack := by rw [hst]; exact List.mem_cons_self
  have hfound := h.found act hact
  have hpc₀ := h.pc act hact
  have hmaps₀ := h.maps hcur act (by rw [hst]; rfl)
  have hfr := (hown.proc as P hP).acts act hact
  cases hgo with
  | full hpc hs =>
    obtain rfl := Option.some.inj ((setProc_self _ _ _).symm.trans hP')
    rw [hpc] at hpc₀ hmaps₀
    refine h.keep hst (fun _ _ e => by rw [hpc] at e; cases e) ?_ rfl rfl rfl rfl hpc₀
      fun _ => hmaps₀
    rcases CmSys.tag_alloc hown.cm (Prod.eta (s.cms.alloc act.page as)).symm with
      ⟨-, he, -⟩ | ⟨k, -, hne, -⟩
    · exact he
    · exact absurd hs hne
  | @alloc paddr cms hpc hs hne =>
    obtain rfl := Option.some.inj ((setProc_self _ _ _).symm.trans hP')
    rw [hpc] at hpc₀ hmaps₀
    rcases CmSys.tag_alloc hown.cm hs with ⟨h0, -⟩ | ⟨k, rfl, -, hno, hram, hpend, htag⟩
    · exact absurd h0 hne
    refine h.advance hst rfl rfl map_page_ptSetFrame ⟨hfound.user, hfound.seg, hfound.pte⟩
      (fun r _ f hin => ?_) (fun k' v st ht => ?_) ?_ (fun _ => h.wf hcur) fun _ => ?_
    · exact hin.ptSetFrame hfound.lookup (hin.ne hpc₀)
    · change cms.tag k' = _ at ht
      change UserPage v ∧ Entered cms _ v k'
      unfold Entered
      rw [hram]
      rw [htag] at ht
      split_ifs at ht with hk
      · cases ht
        rw [hk]
        exact ⟨hfound.user, .inl (inMem_ptSetFrame _ hfound.lookup)⟩
      · obtain ⟨hv, hin⟩ := h.tagged k' v st ht
        have hin := hin.inMem hst fun _ _ e => by rw [hpc] at e; cases e
        exact ⟨hv, .inl (hin.ptSetFrame hfound.lookup (hin.ne hpc₀))⟩
    · have hin := inMem_ptSetFrame (s.cms.cm.ram.frameAddr k) hfound.lookup
      change PcOk _ act.page (act.filled _)
      unfold Activation.filled
      split_ifs
      · exact hin
      · exact ⟨hin, pageSize_pos, fun _ => ⟨rfl, rfl⟩⟩
    · change TlbOk s.tlb act.page (act.filled _)
      unfold Activation.filled
      split_ifs <;> exact fun f d hm => absurd hm (hmaps₀ f d)
  | @evict victim paddr pos cms hpc hs =>
    obtain rfl := Option.some.inj ((setProc_self _ _ _).symm.trans hP')
    rw [hpc] at hpc₀ hmaps₀
    obtain ⟨rfl, hold, hram, hpend, htag⟩ := CmSys.tag_evict hown.cm hs
    have hno : ∀ victim paddr, act.pc ≠ .replace victim paddr := fun _ _ e => by
      rw [hpc] at e
      cases e
    obtain ⟨hv, hin⟩ := h.tagged pos victim _ hold
    refine h.advance hst rfl rfl rfl ⟨hfound.user, hfound.seg, hfound.pte⟩ (fun _ _ _ => id)
      (fun k' v st ht => ?_) ⟨hpc₀, hin.inMem hst hno, hv⟩ (fun _ => h.wf hcur) fun _ => hmaps₀
    change cms.tag k' = _ at ht
    change UserPage v ∧ Entered cms _ v k'
    unfold Entered
    rw [hram]
    rw [htag] at ht
    split_ifs at ht
    obtain ⟨hv', hin'⟩ := h.tagged k' v st ht
    exact ⟨hv', .inl (hin'.inMem hst hno)⟩
  | swapOutFind hpc hs =>
    obtain rfl := Option.some.inj ((setProc_self _ _ _).symm.trans hP')
    rw [hpc] at hpc₀ hmaps₀
    exact h.keep hst (fun _ _ e => by rw [hpc] at e; cases e) rfl rfl rfl rfl rfl
      ⟨hpc₀.1, hpc₀.2.1, hpc₀.2.2, pageSize_pos⟩ fun _ => hmaps₀
  | swapOutCopy hpc hlt hpa =>
    obtain rfl := Option.some.inj ((setProc_self _ _ _).symm.trans hP')
    rw [hpc] at hpc₀ hmaps₀
    exact h.keep hst (fun _ _ e => by rw [hpc] at e; cases e) rfl rfl rfl rfl rfl
      ⟨hpc₀.1, hpc₀.2.1, hpc₀.2.2.1, hlt⟩ fun _ => hmaps₀
  | swapOutCopied hpc hall hpa =>
    obtain rfl := Option.some.inj ((setProc_self _ _ _).symm.trans hP')
    rw [hpc] at hpc₀ hmaps₀
    exact h.keep hst (fun _ _ e => by rw [hpc] at e; cases e) rfl rfl rfl rfl rfl
      ⟨hpc₀.1, hpc₀.2.1, hpc₀.2.2.1⟩ fun _ => hmaps₀
  | swapOutWrite hpc =>
    obtain rfl := Option.some.inj ((setProc_self _ _ _).symm.trans hP')
    rw [hpc] at hpc₀ hmaps₀
    exact h.keep hst (fun _ _ e => by rw [hpc] at e; cases e) rfl rfl rfl rfl rfl hpc₀
      fun _ => hmaps₀
  | @update victim pos paddr hpc =>
    obtain rfl := Option.some.inj ((setProc_self _ _ _).symm.trans hP')
    rw [hpc] at hpc₀ hmaps₀ hfr
    obtain ⟨hno, hvin, hvu⟩ := hpc₀
    obtain ⟨rfl, hp⟩ := hfr
    have htag := CmSys.tag_updateVaddr act.page hown.cm hp
    -- a page that is tagged is not the one that leaves, whose frame is pending
    have hne : ∀ {k' v st}, s.cms.tag k' = some (as, v, st) → v ≠ victim ∧
        P.space.InMem v (s.cms.cm.ram.frameAddr k') := fun {k' v st} ht => by
      have hin := (h.tagged k' v st ht).2.inMem hst fun _ _ e => by rw [hpc] at e; cases e
      refine ⟨?_, hin⟩
      rintro rfl
      obtain rfl := s.cms.cm.ram.frameAddr_injective (hin.unique hvin)
      exact hown.cm.not_pending_of_tag ht as hp
    refine h.advance hst rfl rfl map_page_ptUpdate ⟨hfound.user, hfound.seg, hfound.pte⟩
      (fun r hr f hin => ?_) (fun k' v st ht => ?_) hno.ptUpdate (fun _ => h.wf hcur)
      fun _ => hmaps₀
    · obtain ⟨paddr, dst, len, buf, done, hrpc, hrin, -⟩ := h.below hst hr
      have hrok := (hown.proc as P hP).acts r (by rw [hst]; exact List.mem_cons_of_mem _ hr)
      rw [hrpc] at hrok
      obtain ⟨k, rfl, ht⟩ := hrok
      exact hin.ptUpdate (hne ht).1
    · change (s.cms.updateVaddr as pos act.page).tag k' = _ at ht
      rw [htag] at ht
      split_ifs at ht with hk
      · cases ht
        exact ⟨hfound.user, .inr ⟨_, victim, rfl, by rw [hk]; rfl, rfl⟩⟩
      · obtain ⟨hv, hin⟩ := hne ht
        exact ⟨(h.tagged k' v st ht).1, .inl (hin.ptUpdate hv)⟩
  | @replace victim paddr hpc =>
    obtain rfl := Option.some.inj ((setProc_self _ _ _).symm.trans hP')
    rw [hpc] at hpc₀ hmaps₀
    refine h.advance hst rfl rfl map_page_ptSetFrame ⟨hfound.user, hfound.seg, hfound.pte⟩
      (fun r _ f hin => hin.ptSetFrame hfound.lookup (hin.ne hpc₀)) (fun k' v st ht => ?_) ?_
      (fun _ => (h.wf hcur).tlbR hfound.user.2 hmaps₀) fun _ => ?_
    · obtain ⟨hv, hin | ⟨act', victim', hhead, hpc', hpage⟩⟩ := h.tagged k' v st ht
      · exact ⟨hv, .inl (hin.ptSetFrame hfound.lookup (hin.ne hpc₀))⟩
      · rw [hst] at hhead
        obtain rfl := Option.some.inj hhead
        rw [hpc] at hpc'
        obtain ⟨rfl, rfl⟩ := Pc.replace.inj hpc'
        rw [← hpage]
        exact ⟨hfound.user, .inl (inMem_ptSetFrame _ hfound.lookup)⟩
    · have hin := inMem_ptSetFrame paddr hfound.lookup
      change PcOk _ act.page (act.filled _)
      unfold Activation.filled
      split_ifs
      · exact hin
      · exact ⟨hin, pageSize_pos, fun _ => ⟨rfl, rfl⟩⟩
    · change TlbOk (tlbR s.tlb victim act.page paddr) act.page (act.filled _)
      have hone : ∀ f d, (tlbR s.tlb victim act.page paddr).Maps act.page f d → f = paddr := by
        intro f d hm
        rcases of_maps_tlbR hm with ⟨-, rfl, -⟩ | hold
        · rfl
        · exact absurd hold (hmaps₀ f d)
      unfold Activation.filled
      split_ifs <;> exact hone
  | swapInFind hpc hs =>
    obtain rfl := Option.some.inj ((setProc_self _ _ _).symm.trans hP')
    rw [hpc] at hpc₀ hmaps₀
    exact h.keep hst (fun _ _ e => by rw [hpc] at e; cases e) rfl rfl rfl rfl rfl hpc₀
      fun _ => hmaps₀
  | swapInRead hpc =>
    obtain rfl := Option.some.inj ((setProc_self _ _ _).symm.trans hP')
    rw [hpc] at hpc₀ hmaps₀
    exact h.keep hst (fun _ _ e => by rw [hpc] at e; cases e) rfl rfl rfl rfl rfl
      ⟨hpc₀, pageSize_pos, fun _ => ⟨rfl, rfl⟩⟩ fun _ => hmaps₀
  | @fill what _ _ _ _ _ _ _ hpc hle hpage hpa =>
    obtain rfl := Option.some.inj ((setProc_self _ _ _).symm.trans hP')
    rw [hpc] at hpc₀ hmaps₀
    refine h.keep hst (fun _ _ e => by rw [hpc] at e; cases e) rfl rfl rfl rfl rfl
      (pcOk_copying hpc₀.1 hle hpc₀.2.2) fun _ => tlbOk_copying fun hne => ?_
    cases what with
    | zero | swap => exact hmaps₀
    | elf => exact absurd rfl hne
  | elfRead hpc hv hb =>
    obtain rfl := Option.some.inj ((setProc_self _ _ _).symm.trans hP')
    rw [hpc] at hpc₀ hmaps₀
    exact h.keep hst (fun _ _ e => by rw [hpc] at e; cases e) rfl rfl rfl rfl rfl
      (pcOk_copying hpc₀ (Nat.zero_le _) fun hne => absurd rfl hne)
      fun _ => tlbOk_copying fun hne => absurd rfl hne
  | @setClean paddr hpc =>
    obtain rfl := Option.some.inj ((setProc_self _ _ _).symm.trans hP')
    rw [hpc] at hpc₀ hmaps₀ hfr
    obtain ⟨k, rfl, hk⟩ := hfr
    refine h.advance hst rfl rfl rfl ⟨hfound.user, hfound.seg, hfound.pte⟩ (fun _ _ _ => id)
      (fun k' v st ht => ?_) hpc₀ (fun _ => h.wf hcur) fun _ => trivial
    change (s.cms.setClean (s.cms.cm.ram.frameAddr k)).tag k' = _ at ht
    have hin : ∃ st, s.cms.tag k' = some (as, v, st) := by
      rw [CmSys.tag_setClean hk] at ht
      split_ifs at ht with hkk
      · cases ht
        exact ⟨_, by rw [hkk]; exact hk⟩
      · exact ⟨st, ht⟩
    obtain ⟨st', ht'⟩ := hin
    obtain ⟨hv, hin⟩ := h.tagged k' v st' ht'
    exact ⟨hv, .inl (hin.inMem hst fun _ _ e => by rw [hpc] at e; cases e)⟩
  | @map paddr hpc =>
    obtain rfl := Option.some.inj ((setProc_self _ _ _).symm.trans hP')
    refine ⟨fun r hr => h.found r (by rw [hst]; exact List.mem_cons_of_mem _ hr), fun r hr => ?_,
      fun k v st ht => ?_, fun r hr => h.pc r (by rw [hst]; exact List.mem_cons_of_mem _ hr),
      fun _ => (h.wf hcur).tlbW hfound.user.2, fun _ r hr => ?_⟩
    · exact h.tail r (by rw [hst]; exact List.mem_of_mem_tail hr)
    · obtain ⟨hv, hin⟩ := h.tagged k v st ht
      exact ⟨hv, .inl (hin.inMem hst fun _ _ e => by rw [hpc] at e; cases e)⟩
    · obtain ⟨paddr', dst, len, buf, done, hrpc⟩ :=
        h.tail r (by rw [hst]; exact List.mem_of_mem_head? hr)
      rw [hrpc]
      trivial

end Go

/-! ## The steps of the machine -/

/-- No page of the address space was touched. -/
def Proc.Untouched (P : Proc) : Prop := ∀ e ∈ P.space.pt, e.inMem = false ∧ e.inSwap = false

/-- Regions are defined before the first fault, as `runprogram` does. -/
def DefineFirst (s : VmState) : VmAction → Prop
  | .defineRegion as _ _ _ _ _ _ _ | .defineStack as _ => ∀ P, s.procs as = some P → P.Untouched
  | _ => True

section Step

variable {s s' : VmState} {as : AsId} {P : Proc} {a : VmAction}

/-- What an action that is not about an address space does to its mappings. -/
theorem tlb_of_vmStep (hstep : VmStep s a s') (hne : a.actor ≠ some as) (hc : s'.cur = some as) :
    s.cur = some as ∧ s'.tlb = s.tlb ∨ s'.tlb = tlbFlush s.tlb := by
  cases hstep with
  | create | defineRegion | defineStack | completeLoad | load | store | kalloc | kfree | kwrite =>
    exact .inl ⟨hc, rfl⟩
  | exitCm hcur | exitSwap hcur => exact absurd (hcur.symm.trans hc) hne
  | exitDone | leave => cases hc
  | enter => exact .inr rfl
  | fault hcur _ _ _ _ _ hf =>
    cases hf with
    | reload | push | abort => exact absurd (hcur.symm.trans hc) hne
  | go hcur hP hrun hst hgo =>
    have hcur' : s'.cur = s.cur := by cases hgo <;> rfl
    exact absurd (hcur.symm.trans (hcur'.symm.trans hc)) hne

/-- A flushed TLB maps nothing. -/
theorem tlbOk_of_not_maps {t : Tlb} {page : ℕ} {pc : Pc} (h : ∀ v f d, ¬ t.Maps v f d) :
    TlbOk t page pc := by
  cases pc with
  | fill what => cases what <;> first | trivial | exact fun f d hm => absurd hm (h _ f d)
  | swapInFind | swapInRead => exact fun f d hm => absurd hm (h _ f d)
  | elfRead | setClean | map => trivial
  | _ => exact h _

/-- **The frame rule** of the faults. -/
theorem FaultOk.of_agree (h : FaultOk s as P) (ha : Agree as s s') (hn : s.tlb.nextVictim < numTlb)
    (htlb : s'.cur = some as → s.cur = some as ∧ s'.tlb = s.tlb ∨ s'.tlb = tlbFlush s.tlb) :
    FaultOk s' as P := by
  refine ⟨h.found, h.tail, fun k v st ht => ?_, h.pc, fun hc => ?_, fun hc act hact => ?_⟩
  · obtain ⟨hv, hin⟩ := h.tagged k v st ((ha.tag k v st).mp ht)
    unfold Entered at hin ⊢
    rw [ha.ram]
    exact ⟨hv, hin⟩
  · rcases htlb hc with ⟨hc', he⟩ | he
    · rw [he]
      exact h.wf hc'
    · rw [he]
      exact .flush hn
  · rcases htlb hc with ⟨hc', he⟩ | he
    · rw [he]
      exact h.maps hc' act hact
    · rw [he]
      exact tlbOk_of_not_maps fun v f d => not_maps_tlbFlush

/-- A new region leaves the faults as they are: there are none. -/
theorem FaultOk.extend {space : Addrspace} (h : FaultOk s as P) (hlinked : ProcOwn s.cms s.sw as P)
    (hst : P.stack = []) (he : Extends P.space space)
    (hdef : P.Untouched ∨ space.pages.Nodup) :
    FaultOk (s.setProc as { P with space := space }) as { P with space := space } := by
  have hno : ∀ {r}, r ∉ P.stack := by simp [hst]
  refine ⟨fun r hr => absurd hr hno, fun r hr => absurd (List.mem_of_mem_tail hr) hno,
    fun k v st ht => ?_, fun r hr => absurd hr hno, h.wf,
    fun _ r hr => absurd (List.mem_of_mem_head? hr) hno⟩
  obtain ⟨hv, hin | ⟨r, victim, hr, -⟩⟩ := h.tagged k v st ht
  · refine ⟨hv, .inl ?_⟩
    rcases hdef with hun | hnd
    · obtain ⟨j, e, -, hget, hmem, -⟩ := hin
      rw [(hun e (List.mem_of_getElem? hget)).1] at hmem
      cases hmem
    · obtain ⟨seg, new, hform, -, hseg, hpt, hchain, -⟩ := he
      exact hin.extend hlinked.linked hseg hpt hform hchain hnd hv.1
  · exact absurd (List.mem_of_mem_head? hr) hno

/-- A reload enters what the page table says. -/
theorem TlbOk.reload {t : Tlb} {space : Addrspace} {page fa f w : ℕ} {pc : Pc}
    (h : TlbOk t page pc) (hpc : PcOk space page pc) (hmem : space.InMem fa f) :
    TlbOk (tlbW t fa f w) page pc := by
  have hout : space.NotInMem page → (∀ f d, ¬ t.Maps page f d) →
      ∀ f' d, ¬ (tlbW t fa f w).Maps page f' d := fun hn hno f' d hm => by
    rcases of_maps_tlbW hm with ⟨rfl, -⟩ | hold
    · exact hmem.absurd hn
    · exact hno f' d hold
  have hin : ∀ {paddr}, space.InMem page paddr → (∀ f d, t.Maps page f d → f = paddr) →
      ∀ f' d, (tlbW t fa f w).Maps page f' d → f' = paddr := fun {paddr} hi hf f' d hm => by
    rcases of_maps_tlbW hm with ⟨rfl, rfl, -⟩ | hold
    · exact hmem.unique hi
    · exact hf f' d hold
  cases pc with
  | alloc | evict | replace => exact hout hpc h
  | swapOutFind | swapOutCopy | swapOutWrite | update => exact hout hpc.1 h
  | swapInFind | swapInRead => exact hin hpc h
  | fill what =>
    cases what with
    | zero | swap => exact hin hpc.1 h
    | elf => trivial
  | elfRead | setClean | map => trivial

/-- A fault that meets a page that is not in memory copies a program page. -/
theorem PcOk.elf_of_notInMem {space : Addrspace} {act : Activation} {a : ℕ}
    (h : PcOk space act.page act.pc) (hacc : act.access = some a) (hu : UserPage act.page)
    (hout : space.NotInMem (pageFrame a)) :
    ∃ paddr dst len buf done, act.pc = .fill .elf paddr dst len buf done := by
  unfold Activation.access at hacc
  split at hacc
  · next hpc =>
    obtain rfl := Option.some.inj hacc
    rw [hpc] at h
    rw [h.2.2.1.pageFrame_add h.2.2.2] at hout
    exact (h.2.1.absurd hout).elim
  · next what paddr dst len buf done hpc =>
    obtain rfl := Option.some.inj hacc
    rw [hpc] at h
    by_cases hw : what = .elf
    · exact ⟨paddr, dst, len, buf, done, by rw [hpc, hw]⟩
    · obtain ⟨rfl, rfl⟩ := h.2.2 hw
      rw [hu.pageFrame_add h.2.1] at hout
      exact (h.1.absurd hout).elim
  · cases hacc

/-- **Every step keeps the invariant of the faults**, if new regions come before the first fault or
share no page. -/
theorem faultOk_of_vmStep (hown : Own s) (hstep : VmStep s a s')
    (hdef : DefineFirst s a ∨ ∀ P', s'.procs as = some P' → P'.space.pages.Nodup)
    (h : ∀ P, s.procs as = some P → P.stage = .running → FaultOk s as P) :
    ∀ P', s'.procs as = some P' → P'.stage = .running → FaultOk s' as P' := by
  intro P' hP' hrun'
  by_cases hact : a.actor = some as
  swap
  · have hag := agree_of_vmStep hown hstep hact
    exact (h P' (hag.procs.symm.trans hP') hrun').of_agree hag hown.next (tlb_of_vmStep hstep hact)
  cases hstep with
  | create hnone =>
    cases hact
    obtain rfl := Option.some.inj ((setProc_self _ _ _).symm.trans hP')
    have hcur : s.cur ≠ some as := fun hc => hown.cur _ hc hnone
    have hno : ∀ {r : Activation}, r ∉ ([] : List Activation) := List.not_mem_nil
    exact ⟨fun r hr => absurd hr hno, fun r hr => absurd hr hno,
      fun k v st ht => absurd (.inl ⟨v, st, ht⟩) ((hown.gone _ hnone).1 k),
      fun r hr => absurd hr hno, fun hc => absurd hc hcur, fun hc => absurd hc hcur⟩
  | defineRegion hP hrun hst ho hd =>
    cases hact
    obtain rfl := Option.some.inj ((setProc_self _ _ _).symm.trans hP')
    exact (h _ hP hrun).extend (hown.proc _ _ hP) hst (extends_asDefineRegion ho hd)
      (hdef.imp (fun hf => hf _ hP) fun hn => hn _ hP')
  | defineStack hP hrun hst =>
    cases hact
    obtain rfl := Option.some.inj ((setProc_self _ _ _).symm.trans hP')
    exact (h _ hP hrun).extend (hown.proc _ _ hP) hst extends_asDefineStack
      (hdef.imp (fun hf => hf _ hP) fun hn => hn _ hP')
  | completeLoad hP hrun hst =>
    cases hact
    obtain rfl := Option.some.inj ((setProc_self _ _ _).symm.trans hP')
    have hf := h _ hP hrun
    have hno : ∀ {r}, r ∉ Proc.stack _ := fun {r} hr => List.not_mem_nil (hst ▸ hr)
    exact ⟨fun r hr => absurd hr hno, hf.tail, hf.tagged, fun r hr => absurd hr hno, hf.wf, hf.maps⟩
  | exitCm | exitSwap =>
    cases hact
    obtain rfl := Option.some.inj ((setProc_self _ _ _).symm.trans hP')
    cases hrun'
  | exitDone =>
    cases hact
    cases (Function.update_self as none s.procs).symm.trans hP'
  | @fault _ P a' _ hcur hP hrun ha hmiss hst hf =>
    cases hact
    have hok := h P hP hrun
    cases hf with
    | @reload seg j pte hseg hj hpte hin =>
      obtain rfl := Option.some.inj (hP.symm.trans hP')
      have hmem : P.space.InMem (pageFrame a') pte.frame :=
        ⟨j, pte, lookup_eq_some.mpr ⟨seg, hseg, hj⟩, hpte, hin, rfl⟩
      exact ⟨hok.found, hok.tail, hok.tagged, hok.pc,
        fun _ => (hok.wf hcur).tlbW (userPage_pageFrame ha).2, fun _ act hact =>
          (hok.maps hcur act hact).reload (hok.pc act (List.mem_of_mem_head? hact)) hmem⟩
    | @push seg j pte hseg hj hpte hin =>
      obtain rfl := Option.some.inj ((setProc_self _ _ _).symm.trans hP')
      have hout : P.space.NotInMem (pageFrame a') :=
        ⟨j, pte, lookup_eq_some.mpr ⟨seg, hseg, hj⟩, hpte, hin⟩
      refine ⟨fun r hr => ?_, fun r hr => ?_, fun k v st ht => ?_, fun r hr => ?_, hok.wf,
        fun _ r hr => ?_⟩
      · rcases List.mem_cons.mp hr with rfl | hr
        · exact ⟨userPage_pageFrame ha, hseg, hj⟩
        · exact hok.found r hr
      · change r ∈ P.stack at hr
        cases hst' : P.stack with
        | nil => rw [hst'] at hr; cases hr
        | cons act rest =>
          have hacc : act.access = some a' := by simpa [hst'] using hst
          rw [hst'] at hr
          rcases List.mem_cons.mp hr with rfl | hr
          · exact (hok.pc r (by rw [hst']; exact List.mem_cons_self)).elf_of_notInMem hacc
              (hok.found r (by rw [hst']; exact List.mem_cons_self)).user hout
          · exact hok.tail r (by rw [hst']; exact hr)
      · obtain ⟨hv, hin' | ⟨act, victim, hhead, hpc, -⟩⟩ := hok.tagged k v st ht
        · exact ⟨hv, .inl hin'⟩
        · rw [hhead] at hst
          rcases hst with hnil | hacc
          · rw [hnil] at hhead
            cases hhead
          · unfold Activation.access at hacc
            rw [Option.bind_some, hpc] at hacc
            cases hacc
      · rcases List.mem_cons.mp hr with rfl | hr
        · exact hout
        · exact hok.pc r hr
      · obtain rfl := Option.some.inj hr
        exact fun f d hm => (hok.wf hcur).not_maps_of_lookup hmiss hm
    | @abort act rest paddr dst len done buf hst' hpc hno =>
      obtain rfl := Option.some.inj ((setProc_self _ _ _).symm.trans hP')
      have hin := hok.pc act (by rw [hst']; exact List.mem_cons_self)
      rw [hpc] at hin
      exact hok.keep hst' (fun _ _ e => by rw [hpc] at e; cases e) rfl rfl rfl rfl rfl hin.1
        fun _ => trivial
  | @go _ P act rest _ _ hcur hP hrun hst hgo =>
    cases hact
    exact faultOk_of_goStep hown hP hcur hst (h P hP hrun) hgo hP'
  | _ => cases hact

end Step

end Os161
