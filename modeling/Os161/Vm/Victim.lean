import Os161.Vm.Coherence

set_option autoImplicit false

/-!
# When no victim is found

`cm_evict` looks only at the frames of the address space that has the fault. A process without a
`CLEAN` frame of its own ends the kernel when memory is full, however many frames other processes have.

* `NoVictim`: no frame is a candidate.
* **`cannotFindVictim_iff`**: the panic, in every reachable state.
* **`not_victimFound`**: it happens beside a `CLEAN` frame of another process.
-/

namespace Os161

open Transition

/-- No `CLEAN` frame of the address space is stamped before the counter. -/
def NoVictim (cm : Coremap) (as : AsId) : Prop :=
  ∀ k < cm.ramFrames, (cm.entry k).as = some as → (cm.entry k).state = .clean →
    cm.timestamp ≤ (cm.entry k).timestamp

section Panic

variable {s s' : VmState} {as : AsId} {P P' : Proc} {act act' : Activation} {rest : List Activation}
  {n : ℕ}

/-- The candidates of `cm_evict` are the `CLEAN` frames. -/
theorem evict_eq_none (h : CmInv s.cms) : s.cms.evict as = none ↔ NoVictim s.cms.cm as := by
  unfold CmSys.evict
  rw [Option.map_eq_none_iff, cmEvict_eq_none]
  refine forall_congr' fun k => forall_congr' fun hk => ?_
  have hiff : evictable s.cms.cm as k = true ↔
      (s.cms.cm.entry k).as = some as ∧ (s.cms.cm.entry k).state = .clean := by
    unfold evictable
    rw [decide_eq_true_eq]
    refine and_congr_right fun has => ⟨fun hst => ?_, fun hst => ?_⟩
    · exact (h.of_tagged hk has).2.2.2.resolve_left hst.2
    · rw [hst]
      exact ⟨FrameState.noConfusion, FrameState.noConfusion⟩
  rw [hiff, and_imp]

/-- A copy through the TLB does not end with this panic. -/
theorem copy_ne_noVictim {p : Prop} [Decidable p] {a : ℕ} {w : Bool} {f : ℕ → VmState} :
    (require p >>= fun _ => s.translate a w >>= fun pa => Except.ok (f pa)) ≠
      .error (.panic .cannotFindVictim) := by
  unfold require VmState.translate
  split_ifs
  · intro h
    rcases bind_eq_error.mp h with h | ⟨_, -, h⟩
    · cases h
    · rcases bind_eq_error.mp h with h | ⟨pa, -, h⟩
      · split at h
        · cases h
        · split_ifs at h
          cases h
      · cases h
  · intro h
    cases h

/-- **The panic comes from `cm_evict`.** -/
theorem go_noVictim_iff : s.go as P act rest n = .error (.panic .cannotFindVictim) ↔
    act.pc = .evict ∧ s.cms.evict as = none := by
  constructor
  swap
  · rintro ⟨hpc, hnone⟩
    unfold VmState.go
    rw [hpc]
    simp only [hnone]
  · intro h
    unfold VmState.go at h
    split at h
    · simp only at h
      split_ifs at h
    · next hpc =>
      split at h
      · next hnone => exact ⟨hpc, hnone⟩
      · cases h
    · split at h <;> cases h
    · exact (copy_ne_noVictim h).elim
    · cases h
    · cases h
    · cases h
    · split at h <;> cases h
    · cases h
    · exact (copy_ne_noVictim h).elim
    · split at h <;> cases h
    · cases h
    · cases h

/-- A fault comes to `cm_evict` when `frame_alloc` found no frame. -/
theorem alloc_of_goStep (hi : CmInv s.cms) (hgo : GoStep s as P act rest s')
    (hP' : s'.procs as = some P') (hst' : P'.stack = act' :: rest) (hpc' : act'.pc = .evict) :
    act.pc = .alloc ∧ ∀ k < s.cms.cm.ramFrames, (s.cms.cm.entry k).state ≠ .free := by
  have hhead : ∀ {Q : Proc} {t : VmState} {pc : Pc}, (t.setProc as Q).procs as = some P' →
      Q.stack = { act with pc := pc } :: rest → pc = .evict := fun {Q t pc} hQ hst => by
    obtain rfl := Option.some.inj ((setProc_self _ _ _).symm.trans hQ)
    rw [hst'] at hst
    rw [← hpc', (List.cons.inj hst).1]
  have hfilled : ∀ paddr, act.filled paddr ≠ .evict := fun paddr => by
    unfold Activation.filled
    split_ifs <;> exact Pc.noConfusion
  have hcopying : ∀ {what paddr dst len buf done}, act.copying what paddr dst len buf done ≠ .evict :=
    fun {what _ _ _ _ _} => by
    unfold Activation.copying
    split_ifs <;> cases what <;> exact Pc.noConfusion
  cases hgo with
  | full hpc hs =>
    refine ⟨hpc, ?_⟩
    rcases CmSys.tag_alloc hi (Prod.eta (s.cms.alloc act.page as)).symm with
      ⟨-, -, hno⟩ | ⟨k, -, hne, -⟩
    · exact hno
    · exact absurd hs hne
  | alloc | replace => exact absurd (hhead hP' rfl) (hfilled _)
  | fill | elfRead => exact absurd (hhead hP' rfl) hcopying
  | map =>
    obtain rfl := Option.some.inj ((setProc_self _ _ _).symm.trans hP')
    exact absurd (congrArg List.length hst') (Nat.ne_of_lt (Nat.lt_succ_self _))
  | _ => cases hhead hP' rfl

end Panic

section Run

variable {ram : RamLayout} {garbage : ℕ → CmEntry} {file mem : ℕ → UInt8}
  {files : FileId → List UInt8} {acts : List VmAction} {s s' : VmState} {as : AsId} {P P' : Proc}
  {act act' : Activation} {rest : List Activation} {n : ℕ}

/-- **When `cm_evict` panics.** A fault of the running process panics in this step exactly if it is at
`cm_evict` and no `CLEAN` frame of its own address space is stamped before the counter, and it comes
there only from a `frame_alloc` that found no `FREE` frame; with a `FREE` frame it goes on. -/
theorem cannotFindVictim_iff
    (h : run VmState.step (VmState.boot ram garbage file mem files) acts = .ok s)
    (hcur : s.cur = some as) (hP : s.procs as = some P) (hrun : P.stage = .running)
    (hst : P.stack = act :: rest) :
    (s.step (.go as n) = .error (.panic .cannotFindVictim) ↔
      act.pc = .evict ∧ NoVictim s.cms.cm as) ∧
    (act.pc = .alloc → (∃ k < s.cms.cm.ramFrames, (s.cms.cm.entry k).state = .free) →
      ∃ t paddr, s.step (.go as n) = .ok t ∧ t.procs as = some (P.enter act rest paddr)) ∧
    ∀ t Q r, s.step (.go as n) = .ok t → t.procs as = some Q → Q.stack = r :: rest →
      r.pc = .evict → act.pc = .alloc ∧ ∀ k < s.cms.cm.ramFrames, (s.cms.cm.entry k).state ≠ .free := by
  have hown := own_run h
  rw [step_go hcur hP hrun hst]
  refine ⟨go_noVictim_iff.trans (and_congr_right fun _ => evict_eq_none hown.cm), fun hpc hfree => ?_,
    fun t Q r ht hQ hstQ hpcr => alloc_of_goStep hown.cm (goStep_of_go ht) hQ hstQ hpcr⟩
  obtain ⟨k, hk, hs⟩ := hfree
  rcases hr : s.cms.alloc act.page as with ⟨paddr, cms⟩
  have hne : paddr ≠ 0 := by
    rcases CmSys.tag_alloc hown.cm hr with ⟨-, -, hno⟩ | ⟨k', -, hne, -⟩
    · exact absurd hs (hno k hk)
    · exact hne
  refine ⟨_, paddr, ?_, setProc_self { s with cms := cms } as _⟩
  unfold VmState.go
  rw [hpc]
  simp only [hr, if_neg hne]

/-- A second process faults when the first one has the only user frame. -/
def secondProcessRun : List VmAction :=
  firstPageRun ++ [.create 1, .defineRegion 1 0 0 pageSize 4 2 0 ⟨0, 0, fun _ => 0⟩,
    .switch (some 1), .fault 1 0, .go 1 0]

theorem run_secondProcess : ∃ s P act, run VmState.step wideBoot secondProcessRun = .ok s ∧
    s.cur = some 1 ∧ s.procs 1 = some P ∧ P.stage = .running ∧ P.stack = [act] ∧ act.pc = .evict ∧
    (findSegment P.space act.page).isSome = true ∧ NoVictim s.cms.cm 1 ∧
    ∃ k < s.cms.cm.ramFrames, (s.cms.cm.entry k).as = some 0 ∧ (s.cms.cm.entry k).state = .clean :=
  ⟨_, _, _, rfl, rfl, rfl, rfl, rfl, rfl, rfl, by unfold NoVictim; decide, 15, by decide, rfl, rfl⟩

theorem cannotFindVictim_iff_secondProcess : ∃ s, run VmState.step wideBoot secondProcessRun = .ok s ∧
    s.step (.go 1 0) = .error (.panic .cannotFindVictim) := by
  obtain ⟨s, P, act, hs, hcur, hP, hrun, hst, hpc, -, hno, -⟩ := run_secondProcess
  exact ⟨s, hs, (cannotFindVictim_iff hs hcur hP hrun hst).1.mpr ⟨hpc, hno⟩⟩

/-- **The panic beside a `CLEAN` frame of another process**, for a page of a region. -/
theorem not_victimFound : ∃ s P act, run VmState.step wideBoot secondProcessRun = .ok s ∧
    s.procs 1 = some P ∧ P.stack = [act] ∧ (findSegment P.space act.page).isSome = true ∧
    (∃ k < s.cms.cm.ramFrames, (s.cms.cm.entry k).as = some 0 ∧ (s.cms.cm.entry k).state = .clean) ∧
    s.step (.go 1 0) = .error (.panic .cannotFindVictim) := by
  obtain ⟨s, P, act, hs, hcur, hP, hrun, hst, hpc, hseg, hno, hclean⟩ := run_secondProcess
  refine ⟨s, P, act, hs, hP, hst, hseg, hclean, ?_⟩
  rw [step_go hcur hP hrun hst]
  exact go_noVictim_iff.mpr ⟨hpc, (evict_eq_none (own_run hs).cm).mpr hno⟩

end Run

end Os161
