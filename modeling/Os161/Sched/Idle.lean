import Os161.Sched.Run

set_option autoImplicit false

/-!
# The way out of idling

A CPU that waits in `cpu_idle` while its run queue has threads has an inter-processor interrupt on its
way, whatever happened to the interrupts before: the line is cleared after the bits, so that an interrupt
that is sent between them is lost, but the CPU looks at its run queue again then.

* `IdleWith`: what holds of the CPU from the interrupt until it chooses a thread.
* **`no_idle_with_threads`**: the interrupt is there, and it leads to the head of the run queue.
-/

namespace Os161

open SchedSys Transition

namespace SchedSys

/-- The CPU is idle with threads in its run queue, and its lock is free. -/
structure IdleWith (s : SchedSys) (c : ℕ) (ts : List ThreadPtr) (pc : SchedPc) (b : Bool) : Prop where
  pc : s.pc c = pc
  idle : s.cIsidle c = true
  handler : s.inHandler c = b
  queue : s.lists (.runqueue c) = ts
  free : s.splkHolder (.runqueue c) = none

/-- The steps from the interrupt until the thread runs. -/
def wakeSteps (c : ℕ) : List (ℕ × SchedAction) :=
  [(c, .irq), (c, .ipi), (c, .resume), (c, .iret), (c, .resume), (c, .resume), (c, .resume)]

section Idle

variable {n : ℕ} {s : SchedSys} {c : ℕ} {t : ThreadPtr} {ts : List ThreadPtr} {pc : SchedPc}

theorem IdleWith.base_eq {b : Bool} (h : s.IdleWith c ts pc b) : s.base c = .woken := by
  unfold base
  rw [if_pos h.idle]

/-- The interrupt is taken. -/
theorem IdleWith.irq (h : s.IdleWith c ts .idle false) (hc : c < n) :
    ∃ s₁, s.step n (c, .irq) = .ok s₁ ∧ s₁.IdleWith c ts .woken true ∧
      s₁.ipiLine = s.ipiLine ∧ s₁.cIpiPending = s.cIpiPending := by
  have hstep : s.step n (c, .irq) = .ok { s.goto c .woken with
      tInInterrupt := Function.update s.tInInterrupt (s.cCurthread c) true } := by
    change (require (c < n) >>= fun _ => s.irq c) = _
    rw [require_bind hc, SchedSys.irq, require_bind ⟨h.handler, .inr (.inl h.pc)⟩, h.base_eq]
    rfl
  exact ⟨_, hstep, ⟨goto_pc _, h.idle, Function.update_self .., h.queue, h.free⟩, rfl, rfl⟩

/-- The inter-processor interrupt is handled. -/
theorem IdleWith.ipi (h : s.IdleWith c ts .woken true) (hc : c < n) (hline : s.ipiLine c = true)
    (hoff : (s.cIpiPending c).testBit ipiOffline = false) :
    ∃ s₁, s.step n (c, .ipi) = .ok s₁ ∧ s₁.IdleWith c ts .clearIpi true := by
  have hhandling : s.Handling c := ⟨h.pc.trans h.base_eq.symm, h.handler⟩
  have hstep : s.step n (c, .ipi) = .ok { s.goto c .clearIpi with
      cIpiPending := Function.update s.cIpiPending c 0 } := by
    change (require (c < n) >>= fun _ => require (s.Handling c ∧ s.ipiLine c = true) >>= fun _ =>
      s.interprocessorInterrupt c) = _
    rw [require_bind hc, require_bind ⟨hhandling, hline⟩, SchedSys.interprocessorInterrupt,
      if_neg (by simp [hoff])]
  exact ⟨_, hstep, ⟨goto_pc _, h.idle, h.handler, h.queue, h.free⟩⟩

/-- The line is cleared. -/
theorem IdleWith.clearIpi (h : s.IdleWith c ts .clearIpi true) (hc : c < n) :
    ∃ s₁, s.step n (c, .resume) = .ok s₁ ∧ s₁.IdleWith c ts .woken true := by
  have hstep : s.step n (c, .resume) = .ok { s.goto c .woken with
      ipiLine := Function.update s.ipiLine c false } := by
    change (require (c < n) >>= fun _ => s.resume n c) = _
    rw [require_bind hc, SchedSys.resume]
    simp only [h.pc, h.base_eq]
  exact ⟨_, hstep, ⟨goto_pc _, h.idle, h.handler, h.queue, h.free⟩⟩

/-- The interrupt ends. -/
theorem IdleWith.iret (h : s.IdleWith c ts .woken true) (hc : c < n) :
    ∃ s₁, s.step n (c, .iret) = .ok s₁ ∧ s₁.IdleWith c ts .woken false := by
  have hhandling : s.Handling c := ⟨h.pc.trans h.base_eq.symm, h.handler⟩
  have hstep : s.step n (c, .iret) = .ok { s with
      tInInterrupt := Function.update s.tInInterrupt (s.cCurthread c) false } := by
    change (require (c < n) >>= fun _ => require (s.Handling c) >>= fun _ => s.iret c) = _
    rw [require_bind hc, require_bind hhandling, SchedSys.iret, kassert_bind (.inl h.idle)]
    rfl
  exact ⟨_, hstep, ⟨h.pc, h.idle, Function.update_self .., h.queue, h.free⟩⟩

/-- The thread is chosen and run. -/
theorem IdleWith.chosen (h : s.IdleWith c (t :: ts) .woken false) (hc : c < n) :
    ∃ s₁, Transition.run (SchedSys.step n) s [(c, .resume), (c, .resume), (c, .resume)] = .ok s₁ ∧
      s₁.pc c = .exorcise ∧ s₁.cCurthread c = t ∧ s₁.tState t = .run ∧ s₁.cIsidle c = false ∧
      s₁.lists (.runqueue c) = ts ∧ s₁.splkHolder (.runqueue c) = none := by
  have h₁ : s.step n (c, .resume) = .ok ((s.locked c (.runqueue c)).goto c .choose) := by
    change (require (c < n) >>= fun _ => s.resume n c) = _
    rw [require_bind hc, SchedSys.resume]
    simp only [h.pc]
    rw [require_bind h.handler, spinlockAcquire]
    simp only [h.free]
    rfl
  obtain ⟨s₁, hs₁⟩ : ∃ s₁, s₁ = (s.locked c (.runqueue c)).goto c .choose := ⟨_, rfl⟩
  rw [← hs₁] at h₁
  have hpc₁ : s₁.pc c = .choose := by rw [hs₁, goto_pc]
  have hq₁ : s₁.lists (.runqueue c) = t :: ts := by rw [hs₁, ← h.queue]; rfl
  have h₂ : s₁.step n (c, .resume) = .ok { (s₁.relist (.runqueue c) ts t none).goto c .landed with
      cIsidle := Function.update s₁.cIsidle c false
      cCurthread := Function.update s₁.cCurthread c t } := by
    change (require (c < n) >>= fun _ => s₁.resume n c) = _
    rw [require_bind hc, SchedSys.resume]
    simp only [hpc₁]
    rw [SchedSys.pick, threadlistRemhead]
    simp only [hq₁]
  obtain ⟨s₂, hs₂⟩ : ∃ s₂, s₂ = { (s₁.relist (.runqueue c) ts t none).goto c .landed with
      cIsidle := Function.update s₁.cIsidle c false
      cCurthread := Function.update s₁.cCurthread c t } := ⟨_, rfl⟩
  rw [← hs₂] at h₂
  have hpc₂ : s₂.pc c = .landed := by
    rw [hs₂]
    exact goto_pc _
  have hcur₂ : s₂.cCurthread c = t := by
    rw [hs₂]
    exact Function.update_self ..
  have hidle₂ : s₂.cIsidle c = false := by
    rw [hs₂]
    exact Function.update_self ..
  have hq₂ : s₂.lists (.runqueue c) = ts := by
    rw [hs₂]
    exact relist_self (.runqueue c) ts t none
  have hhold : s₂.splkHolder (.runqueue c) = some c := by
    rw [hs₂, hs₁]
    exact Function.update_self ..
  have hcount : 0 < s₂.cSpinlocks c := by
    have hsucc : s₂.cSpinlocks c = s.cSpinlocks c + 1 := by
      rw [hs₂, hs₁]
      exact Function.update_self ..
    omega
  have h₃ : s₂.step n (c, .resume) =
      .ok (((s₂.setState t .run).unlocked c (.runqueue c)).goto c .exorcise) := by
    change (require (c < n) >>= fun _ => s₂.resume n c) = _
    rw [require_bind hc, SchedSys.resume]
    simp only [hpc₂, hcur₂]
    rw [spinlockRelease, kassert_bind (p := (s₂.setState t .run).splkHolder (.runqueue c) = some c) hhold,
      kassert_bind (p := 0 < (s₂.setState t .run).cSpinlocks c) hcount]
    rfl
  have hrun₃ : Function.update s₂.tState t .run t = ThreadState.run := Function.update_self ..
  have hfree₃ : Function.update s₂.splkHolder (.runqueue c) none (.runqueue c) = none :=
    Function.update_self ..
  refine ⟨((s₂.setState t .run).unlocked c (.runqueue c)).goto c .exorcise, ?_, goto_pc _, hcur₂, hrun₃,
    hidle₂, hq₂, hfree₃⟩
  rw [run_cons_of_ok _ _ h₁, run_cons_of_ok _ _ h₂, run_cons_of_ok _ _ h₃, run_nil]

end Idle

end SchedSys

/-- **No CPU idles with threads.** Where a CPU waits and its run queue has threads, in whatever state
obedient callers and all the CPUs have come to, its interrupt is asserted and can be taken; and when it was
not told to go offline and the lock of its run queue is free, its own next steps, with the handler, bring
it to the thread at the head of the queue. -/
theorem no_idle_with_threads {P : SchedBoot} {as : List (ℕ × SchedAction)} {s : SchedSys} {c : ℕ}
    {t : ThreadPtr} {ts : List ThreadPtr} (hcl : Along (SchedSys.step P.numcpus) Client P.boot as)
    (h : Transition.run (SchedSys.step P.numcpus) P.boot as = .ok s) (hc : c < P.numcpus)
    (hpc : s.pc c = .idle) (hq : s.lists (.runqueue c) = t :: ts) :
    s.ipiLine c = true ∧ (∃ s', s.step P.numcpus (c, .irq) = .ok s') ∧
      ((s.cIpiPending c).testBit ipiOffline = false → s.splkHolder (.runqueue c) = none →
        ∃ s', Transition.run (SchedSys.step P.numcpus) s (wakeSteps c) = .ok s' ∧
          s'.pc c = .exorcise ∧ s'.cCurthread c = t ∧ s'.tState t = .run ∧ s'.cIsidle c = false ∧
          s'.lists (.runqueue c) = ts ∧ s'.splkHolder (.runqueue c) = none) := by
  have hinv := SchedInv.of_run hcl h
  have hplace := hinv.place c hc
  have hidle : s.cIsidle c = true := hplace.idle true (by rw [hpc]; rfl)
  have hin : s.inHandler c = false := by
    by_contra hne
    exact (hplace.handler (Bool.eq_true_of_not_eq_false hne) (by rw [hpc]; rfl)).1 hpc
  have hline : s.ipiLine c = true := hplace.unidled hpc (by rw [hq]; exact List.cons_ne_nil _ _)
  refine ⟨hline, ?_, fun hoff hfree => ?_⟩
  · refine ⟨{ s.goto c (s.base c) with
      tInInterrupt := Function.update s.tInInterrupt (s.cCurthread c) true }, ?_⟩
    change (require (c < P.numcpus) >>= fun _ => s.irq c) = _
    rw [require_bind hc, SchedSys.irq, require_bind ⟨hin, .inr (.inl hpc)⟩]
    rfl
  · have hwith : s.IdleWith c (t :: ts) .idle false := ⟨hpc, hidle, hin, hq, hfree⟩
    obtain ⟨s₁, h₁, hwith₁, hline₁, hpend₁⟩ := hwith.irq hc
    obtain ⟨s₂, h₂, hwith₂⟩ := hwith₁.ipi hc (by rw [hline₁, hline]) (by rw [hpend₁, hoff])
    obtain ⟨s₃, h₃, hwith₃⟩ := hwith₂.clearIpi hc
    obtain ⟨s₄, h₄, hwith₄⟩ := hwith₃.iret hc
    obtain ⟨s₅, h₅, hfacts⟩ := hwith₄.chosen hc
    refine ⟨s₅, ?_, hfacts⟩
    unfold wakeSteps
    rw [run_cons_of_ok _ _ h₁, run_cons_of_ok _ _ h₂, run_cons_of_ok _ _ h₃, run_cons_of_ok _ _ h₄, h₅]

/-- The interrupt of a wake-up brings the second CPU back to its thread. -/
theorem no_idle_with_threads_wakeupRun :
    ∃ s s', Transition.run (SchedSys.step twoCpus.numcpus) twoCpus.boot wakeupRun = .ok s ∧
      s.ipiLine 1 = true ∧ Transition.run (SchedSys.step twoCpus.numcpus) s (wakeSteps 1) = .ok s' ∧
      s'.tState (twoCpus.bootthread 1) = .run := by
  obtain ⟨s, hs, hpc, hq, hoff, hfree⟩ : ∃ s, Transition.run (SchedSys.step twoCpus.numcpus) twoCpus.boot
      wakeupRun = .ok s ∧ s.pc 1 = .idle ∧ s.lists (.runqueue 1) = [twoCpus.bootthread 1] ∧
      (s.cIpiPending 1).testBit ipiOffline = false ∧ s.splkHolder (.runqueue 1) = none :=
    ⟨_, rfl, by decide, by decide, by decide, by decide⟩
  obtain ⟨hline, -, h⟩ := no_idle_with_threads along_wakeupRun hs (by decide) hpc hq
  obtain ⟨s', hs', -, -, hst, -⟩ := h hoff hfree
  exact ⟨s, s', hs, hline, hs', hst⟩

end Os161
