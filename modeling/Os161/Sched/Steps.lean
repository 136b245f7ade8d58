import Os161.Sched.Frame

set_option autoImplicit false

/-!
# Steps that leave the threads where they are

The spinlocks of the callers, interrupts and their handlers, the inter-processor interrupts, and the way
out of `cpu_idle`: each of them keeps the invariant, and none of the assertions on its way fails.

* `SchedInv.plain_to`, `SchedInv.goto_plain`: from one place of the code to another one.
* **`SchedInv.interprocessorInterrupt`**, **`SchedInv.hardclock`**: the handlers.
* **`SchedInv.woken`**: the run queue is locked again after `cpu_idle`.
-/

namespace Os161

open SchedSys Transition

variable {n : ℕ} {s : SchedSys} {c w : ℕ}

/-- Where a CPU goes on after an interrupt or a call. -/
theorem SchedSys.base_plain (s : SchedSys) (c : ℕ) : (s.base c).plain = true := by
  unfold base
  split_ifs <;> rfl

/-- What the place says of the flag. -/
theorem SchedSys.base_idleness (s : SchedSys) (c : ℕ) :
    (s.base c).idleness = some (s.cIsidle c) := by
  unfold base
  cases s.cIsidle c <;> rfl

/-- The code of a thread or of a handler is at a plain place. -/
theorem plain_of_code (h : s.InCode c ∨ s.Handling c) : (s.pc c).plain = true := by
  rcases h with h | h
  · rw [h.1]
    rfl
  · rw [h.1]
    exact s.base_plain c

theorem locked_runqueue (x : ℕ) :
    (s.locked c (.client w)).splkHolder (.runqueue x) = s.splkHolder (.runqueue x) := by
  simp [locked]

theorem unlocked_runqueue (x : ℕ) :
    (s.unlocked c (.client w)).splkHolder (.runqueue x) = s.splkHolder (.runqueue x) := by
  simp [unlocked]

/-- The lock of a run queue is the only one that the CPU holds. -/
theorem holder_locked (hno : ∀ d, s.splkHolder (.runqueue d) ≠ some c) (e d : ℕ) :
    (s.locked c (.runqueue e)).splkHolder (.runqueue d) = some c ↔ some e = some d := by
  by_cases hd : d = e
  · simp [locked, hd]
  · simp [locked, hd, hno d, Ne.symm hd]

/-- The only lock of a run queue is given back. -/
theorem holder_unlocked {e : ℕ}
    (hold : ∀ d, s.splkHolder (.runqueue d) = some c ↔ some e = some d) (d : ℕ) :
    (s.unlocked c (.runqueue e)).splkHolder (.runqueue d) ≠ some c := by
  by_cases hd : d = e
  · simp [unlocked, hd]
  · simp [unlocked, hd, hold, Ne.symm hd]

theorem goto_pc (pc : SchedPc) : (s.goto c pc).pc c = pc := Function.update_self ..

namespace SchedInv

/-- From one plain place to another one. -/
theorem plain_to (h : SchedInv n s) (hc : c < n) {s' : SchedSys} (hq : s.Quiet s' c)
    (hlocks : s'.cSpinlocks = s.cSpinlocks ∧ s'.splkHolder = s.splkHolder)
    (hp : (s.pc c).plain = true) (hp' : (s'.pc c).plain = true)
    (hidle : ∀ b, (s'.pc c).idleness = some b → s.cIsidle c = b) : s.Stepped n c s' := by
  have hplace := h.place c hc
  refine h.of_quiet hc hq ?_ (.of_plain hp' ?_ ?_ ?_ ?_)
  · rw [hlocks.1, hlocks.2]
    exact h.locks
  · rw [hq.isidle]
    exact hidle
  · rw [hlocks.2]
    exact hplace.no_lock (SchedPc.lock_of_plain hp)
  · rw [hq.lists]
    exact hplace.wakeup_of_plain hp
  · rw [hq.lists]
    exact hplace.victims_of_plain hp

theorem goto_plain (h : SchedInv n s) (hc : c < n) (hp : (s.pc c).plain = true) {pc : SchedPc}
    (hpc : pc.plain = true) (hidle : ∀ b, pc.idleness = some b → s.cIsidle c = b) :
    s.Stepped n c (s.goto c pc) := by
  refine h.plain_to hc (.goto ?_) ⟨rfl, rfl⟩ hp ?_ ?_
  · rw [SchedPc.newstate_of_plain hp, SchedPc.newstate_of_plain hpc]
  · rwa [goto_pc]
  · rwa [goto_pc]

/-- **`spinlock_acquire`** by a caller. -/
theorem acquire (h : SchedInv n s) (hc : c < n) (hne : s.splkHolder (.client w) ≠ some c) :
    Safe (s.Stepped n c) (s.spinlockAcquire c (.client w)) := by
  rw [← bind_pure (s.spinlockAcquire c (.client w))]
  refine safe_acquire hne fun hl => ?_
  exact h.of_quiet hc (.locked hl) (counted_locked h.locks hl)
    ((h.place c hc).congr rfl rfl rfl rfl locked_runqueue id id)

/-- **`spinlock_release`** by a caller. -/
theorem release (h : SchedInv n s) (hc : c < n) (hl : s.splkHolder (.client w) = some c) :
    Safe (s.Stepped n c) (s.spinlockRelease c (.client w)) := by
  rw [release_eq h.locks hl]
  exact h.of_quiet hc (.unlocked hl) (counted_unlocked h.locks hl)
    ((h.place c hc).congr rfl rfl rfl rfl unlocked_runqueue id id)

/-- **An interrupt.** -/
theorem irq (h : SchedInv n s) (hc : c < n) : Safe (s.Stepped n c) (s.irq c) := by
  refine Safe.require_bind fun hirq => ?_
  have hpc := hirq.2
  have hplace := h.place c hc
  have hold : (s.pc c).newstate = none ∧ (s.pc c).lock c = none ∧ (∀ v, s.pc c ≠ .gather v) ∧
      s.pc c ≠ .waking ∧ ∀ m, s.pc c ≠ .migrate m := by
    rcases hpc with ⟨e, -⟩ | e | e <;> rw [e] <;> exact ⟨rfl, rfl, by simp, by simp, by simp⟩
  obtain ⟨hns, hlk, hg, hwk, hmig⟩ := hold
  have hbase := s.base_plain c
  have hq : s.Quiet { s.goto c (s.base c) with
      tInInterrupt := Function.update s.tInInterrupt (s.cCurthread c) true } c :=
    { (Quiet.goto (by rw [hns, SchedPc.newstate_of_plain hbase]) :
        s.Quiet (s.goto c (s.base c)) c) with
      inInterrupt := fun t ht => Function.update_of_ne ht .. }
  refine h.of_quiet hc hq h.locks (.of_plain ?_ ?_ (hplace.no_lock hlk) (hplace.wakeup hg hwk)
    (hplace.victims hmig))
  · rw [show _ = s.base c from goto_pc ..]
    exact hbase
  · rw [show _ = s.base c from goto_pc .., base_idleness]
    exact fun b hb => Option.some.inj hb

/-- **The end of an interrupt.** -/
theorem iret (h : SchedInv n s) (hc : c < n) (hs : s.cSpinlocks c = 0) :
    Safe (s.Stepped n c) (s.iret c) := by
  unfold SchedSys.iret
  rw [kassert_bind (Or.inr hs)]
  have hq : s.Quiet { s with
      tInInterrupt := Function.update s.tInInterrupt (s.cCurthread c) false } c :=
    { Quiet.refl s c with inInterrupt := fun t ht => Function.update_of_ne ht .. }
  have hout : Function.update s.tInInterrupt (s.cCurthread c) false (s.cCurthread c) = false :=
    Function.update_self ..
  exact h.of_quiet hc hq h.locks ((h.place c hc).congr rfl rfl rfl rfl (fun _ => rfl) id
    fun hin => by cases hout.symm.trans hin)

/-- **`interprocessor_interrupt`.** -/
theorem interprocessorInterrupt (h : SchedInv n s) (hc : c < n) (hp : (s.pc c).plain = true) :
    Safe (s.Stepped n c) (s.interprocessorInterrupt c) := by
  have hplace := h.place c hc
  unfold SchedSys.interprocessorInterrupt
  split_ifs
  · refine safe_acquire (hplace.no_lock (SchedPc.lock_of_plain hp) c) fun hl => ?_
    refine safe_release (counted_locked h.locks hl) (Function.update_self ..) ?_
    rw [unlocked_locked hl]
    exact h.goto_plain hc hp rfl fun b hb => by cases hb
  · refine h.plain_to hc ?_ ⟨rfl, rfl⟩ hp ?_ ?_
    · exact { (Quiet.goto (SchedPc.newstate_of_plain hp).symm :
        s.Quiet (s.goto c .clearIpi) c) with }
    · rw [show _ = SchedPc.clearIpi from goto_pc ..]
      rfl
    · rw [show _ = SchedPc.clearIpi from goto_pc ..]
      exact fun b hb => by cases hb

/-- **`hardclock`.** -/
theorem hardclock (h : SchedInv n s) (hc : c < n) (hp : (s.pc c).plain = true) :
    s.Stepped n c (s.hardclock c) := by
  have hplace := h.place c hc
  unfold SchedSys.hardclock
  split_ifs
  · have hq : s.Quiet { s.goto c (.migrate (.sample 0 0 0)) with
        cHardclocks := Function.update s.cHardclocks c (wadd (s.cHardclocks c) 1) } c :=
      { (Quiet.goto (SchedPc.newstate_of_plain hp).symm :
          s.Quiet (s.goto c (.migrate (.sample 0 0 0))) c) with }
    have hpc : _ = SchedPc.migrate (.sample 0 0 0) := goto_pc (s := s) (c := c) _
    refine h.of_quiet hc hq h.locks (.of_pc hpc (fun b hb => by cases hb)
      (fun d => iff_of_false (hplace.no_lock (SchedPc.lock_of_plain hp) d) fun e => by cases e)
      (fun _ _ => hplace.wakeup_of_plain hp) (fun hm => absurd rfl (hm _)) (fun m hm => ?_)
      (fun e => by cases e) fun _ e => by cases e)
    cases hm
    exact ⟨hplace.victims_of_plain hp, fun hi => absurd hi (Nat.not_lt_zero _)⟩
  · refine h.plain_to hc ?_ ⟨rfl, rfl⟩ hp ?_ ?_
    · exact { (Quiet.goto (SchedPc.newstate_of_plain hp).symm :
        s.Quiet (s.goto c .ticked) c) with }
    · rw [show _ = SchedPc.ticked from goto_pc ..]
      rfl
    · rw [show _ = SchedPc.ticked from goto_pc ..]
      exact fun b hb => by cases hb

/-- **`ipi_send`** of `thread_shutdown`. -/
theorem ipiSend (h : SchedInv n s) (hc : c < n) (target code : ℕ) :
    s.Stepped n c (s.ipiSend target code) := by
  have hmono : ∀ d, s.ipiLine d = true → (s.ipiSend target code).ipiLine d = true := by
    intro d hl
    by_cases hd : d = target
    · subst hd
      exact Function.update_self ..
    · exact (Function.update_of_ne hd ..).trans hl
  have hq : s.Quiet (s.ipiSend target code) c :=
    { Quiet.refl s c with line := fun d _ => hmono d }
  exact h.of_quiet hc hq h.locks ((h.place c hc).congr rfl rfl rfl rfl (fun _ => rfl) (hmono c) id)

/-- **`wchan_wakeall`**, up to its loops. -/
theorem wchanWakeall (h : SchedInv n s) (hc : c < n) (hp : (s.pc c).plain = true)
    (hl : s.splkHolder (.client w) = some c) : Safe (s.Stepped n c) (s.wchanWakeall c w) := by
  have hplace := h.place c hc
  unfold SchedSys.wchanWakeall
  rw [kassert_bind hl]
  have hpc : (s.goto c (.gather w)).pc c = .gather w := goto_pc _
  exact h.of_quiet hc (.goto (SchedPc.newstate_of_plain hp).symm) h.locks
    (.of_pc hpc (fun b hb => by cases hb)
      (fun d => iff_of_false (hplace.no_lock (SchedPc.lock_of_plain hp) d) fun e => by cases e)
      (fun hg => absurd rfl (hg w)) (fun _ => hplace.victims_of_plain hp) (fun m hm => by cases hm)
      (fun e => by cases e) fun _ e => by cases e)

/-- The line of the inter-processor interrupt is cleared. -/
theorem clearIpi (h : SchedInv n s) (hc : c < n) (hpc : s.pc c = .clearIpi) :
    s.Stepped n c { s.goto c (s.base c) with ipiLine := Function.update s.ipiLine c false } := by
  have hbase := s.base_plain c
  have hp : (s.pc c).plain = true := by rw [hpc]; rfl
  refine h.plain_to hc ?_ ⟨rfl, rfl⟩ hp ?_ ?_
  · exact
      { (Quiet.goto (by rw [SchedPc.newstate_of_plain hp, SchedPc.newstate_of_plain hbase]) :
          s.Quiet (s.goto c (s.base c)) c) with
        line := fun d hd hl => (Function.update_of_ne hd ..).trans hl }
  · rw [show _ = s.base c from goto_pc ..]
    exact hbase
  · rw [show _ = s.base c from goto_pc .., base_idleness]
    exact fun b hb => Option.some.inj hb

/-- `cpu_idle` does not wait any more. -/
theorem wake (h : SchedInv n s) (hc : c < n) (hpc : s.pc c = .idle) :
    s.Stepped n c (s.goto c .woken) := by
  have hplace := h.place c hc
  refine h.of_quiet hc (.goto (by rw [hpc]; rfl)) h.locks (.of_plain (by rw [goto_pc]; rfl) ?_ ?_ ?_ ?_)
  · rw [goto_pc]
    exact fun b hb => (hplace.idle true (by rw [hpc]; rfl)).trans (Option.some.inj hb)
  · exact hplace.no_lock (by rw [hpc]; rfl)
  · exact hplace.wakeup (by rw [hpc]; simp) (by rw [hpc]; simp)
  · exact hplace.victims (by rw [hpc]; simp)

/-- `spinlock_acquire` after `cpu_idle`. -/
theorem woken (h : SchedInv n s) (hc : c < n) (hpc : s.pc c = .woken) :
    Safe (s.Stepped n c) (do
      require (s.inHandler c = false)
      let s₁ ← s.spinlockAcquire c (.runqueue c)
      return s₁.goto c .choose) := by
  have hplace := h.place c hc
  have hp : (s.pc c).plain = true := by rw [hpc]; rfl
  refine Safe.require_bind fun hin => safe_acquire (hplace.no_lock (SchedPc.lock_of_plain hp) c)
    fun hl => ?_
  have hpc' : ((s.locked c (.runqueue c)).goto c .choose).pc c = .choose := goto_pc _
  exact h.of_quiet hc ((Quiet.locked hl).trans (.goto (SchedPc.newstate_of_plain hp).symm))
    (counted_locked h.locks hl)
    (.of_pc hpc' (fun b hb => (hplace.idle true (by rw [hpc]; rfl)).trans (Option.some.inj hb))
      (holder_locked (hplace.no_lock (SchedPc.lock_of_plain hp)) c)
      (fun _ _ => hplace.wakeup_of_plain hp) (fun _ => hplace.victims_of_plain hp)
      (fun m hm => by cases hm) (fun e => by cases e) fun hin' _ => by cases hin.symm.trans hin')

end SchedInv

end Os161
