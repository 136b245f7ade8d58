import Os161.Sched.Migrate

set_option autoImplicit false

/-!
# Runs of the scheduler

The invariant holds after the creation of the CPUs, each step of obedient callers keeps it without a
failed assertion, and so it holds in all runs, however the steps of the CPUs are interleaved.

* `SchedInv.boot`, **`SchedInv.step`**: the start, and one step.
* **`every_thread_in_one_place`**: a thread is run by one CPU or is on one list, in the right state.
* **`one_stack_for_each_cpu`**: no thread is current on two CPUs, and none is chosen while it is current
  somewhere else.
* **`no_idle_with_threads`**: a CPU that waits with threads in its run queue has an interrupt on its way.
-/

namespace Os161

open SchedSys Transition

/-! ## The start -/

section Boot

variable (P : SchedBoot) {t : ThreadPtr} {c : ℕ}

theorem SchedBoot.cpuOf_eq_some : P.cpuOf t = some c ↔ c < P.numcpus ∧ P.bootthread c = t := by
  have hfind : ∀ {d}, P.cpuOf t = some d → d < P.numcpus ∧ P.bootthread d = t := by
    intro d hd
    exact ⟨List.mem_range.mp (List.mem_of_find?_eq_some hd), by simpa using List.find?_some hd⟩
  refine ⟨hfind, ?_⟩
  rintro ⟨hc, ht⟩
  cases hd : P.cpuOf t with
  | none =>
    have hnone := List.find?_eq_none.mp hd c (List.mem_range.mpr hc)
    exact absurd ht (by simpa using hnone)
  | some d =>
    obtain ⟨hlt, heq⟩ := hfind hd
    rw [P.apart d hlt c hc (heq.trans ht.symm)]

theorem SchedBoot.counted_boot : Counted P.boot.pNumthreads P.boot.tProc := by
  refine ⟨fun p => if p = kproc then (List.range P.numcpus).map P.bootthread else [], ⟨?_, ?_⟩, ?_⟩
  · intro t p
    have hmem : t ∈ (List.range P.numcpus).map P.bootthread ↔ (P.cpuOf t).isSome := by
      rw [Option.isSome_iff_exists, List.mem_map]
      exact exists_congr fun d => by rw [P.cpuOf_eq_some, List.mem_range]
    change _ ↔ (P.cpuOf t).map (fun _ => kproc) = some p
    split_ifs with hp
    · rw [hmem, hp]
      cases P.cpuOf t <;> simp
    · cases P.cpuOf t <;> simp [Ne.symm hp]
  · intro p
    split_ifs
    · refine List.nodup_range.map_on fun d hd e he heq => ?_
      exact P.apart d (List.mem_range.mp hd) e (List.mem_range.mp he) heq
    · exact List.nodup_nil
  · intro p
    change (if p = kproc then P.numcpus else 0) =
      (if p = kproc then (List.range P.numcpus).map P.bootthread else []).length
    split_ifs <;> simp

/-- **The start.** -/
theorem SchedInv.boot : SchedInv P.numcpus P.boot where
  located := Located.empty
  locks := Counted.empty
  procs := P.counted_boot
  threads t := by
    refine ⟨fun _ hl => ?_, fun l hl => (by cases hl), fun hl => ?_, fun hl => absurd rfl hl⟩
    · obtain ⟨c, hc⟩ := Option.isSome_iff_exists.mp hl
      obtain ⟨hlt, ht⟩ := P.cpuOf_eq_some.mp hc
      refine ⟨c, hlt, ht, rfl, ?_⟩
      change (if c = 0 then SchedPc.thread else .unborn).newstate = none
      split_ifs <;> rfl
    · have hnone : P.cpuOf t = none := Option.isNone_iff_eq_none.mp (by
        rw [← Option.not_isSome, Bool.not_eq_true', ← hl]
        rfl)
      change (P.cpuOf t).map _ = none
      rw [hnone]
      rfl
  current c hc := by
    have hcpu : P.cpuOf (P.bootthread c) = some c := P.cpuOf_eq_some.mpr ⟨hc, rfl⟩
    refine ⟨?_, ?_, iff_of_true rfl ⟨rfl, ?_⟩, fun _ => .inr rfl⟩
    · change (P.cpuOf (P.bootthread c)).getD 0 = c
      rw [hcpu]
      rfl
    · change (P.cpuOf (P.bootthread c)).isSome = true
      rw [hcpu]
      rfl
    · change (if c = 0 then SchedPc.thread else .unborn).newstate = none
      split_ifs <;> rfl
  place c hc := by
    refine .of_plain ?_ ?_ (fun _ e => by cases e) rfl rfl
    · change (if c = 0 then SchedPc.thread else .unborn).plain = true
      split_ifs <;> rfl
    · change ∀ b, (if c = 0 then SchedPc.thread else .unborn).idleness = some b → _
      split_ifs <;> exact fun b hb => Option.some.inj hb

end Boot

/-! ## One step -/

namespace SchedInv

variable {n : ℕ} {s : SchedSys} {c : ℕ}

/-- The next step of the scheduler. -/
theorem resume (h : SchedInv n s) (hc : c < n) : Safe (s.Stepped n c) (s.resume n c) := by
  cases hpc : s.pc c with
  | gather w => exact h.gather hc hpc
  | waking => exact h.waking hc hpc
  | _ =>
    unfold SchedSys.resume
    simp only [hpc]
    first
      | trivial
      | exact h.clearIpi hc hpc
      | exact h.migrate hc hpc
      | exact h.threadSwitch hc (by rw [hpc]; rfl) (.inl rfl)
      | exact h.stateSet hc hpc
      | exact h.pick hc hpc
      | exact h.wake hc hpc
      | exact h.woken hc hpc
      | exact h.landed hc hpc
      | exact h.exorcise hc hpc

/-- **Each step of obedient callers keeps the invariant**, and no assertion fails. -/
theorem step (h : SchedInv n s) {a : ℕ × SchedAction} (hcl : s.Client a) :
    Safe (s.Stepped n a.1) (s.step n a) := by
  obtain ⟨c, a⟩ := a
  refine Safe.require_bind fun hc => ?_
  cases a with
  | acquire w => exact Safe.require_bind fun _ => h.acquire hc hcl
  | release w => exact Safe.require_bind fun _ => h.release hc hcl
  | sleep w =>
    exact Safe.require_bind fun hcode =>
      h.wchanSleep hc (plain_of_code hcode) hcl.1 hcl.2.1 hcl.2.2
  | wakeone w => exact Safe.require_bind fun hcode => h.wchanWakeone hc (plain_of_code hcode) hcl
  | wakeall w => exact Safe.require_bind fun hcode => h.wchanWakeall hc (plain_of_code hcode) hcl
  | fork t proc => exact Safe.require_bind fun hnew => h.fork hc hnew.1 hnew.2
  | start => exact Safe.require_bind fun hcode => h.forkStart hc hcode.1
  | exit => exact Safe.require_bind fun hcode => h.exit hc hcode
  | zombify => exact Safe.require_bind fun hend => h.zombify hc hend.1 hend.2.1 hend.2.2
  | yield =>
    exact Safe.require_bind fun hcode => h.threadSwitch hc (plain_of_code (.inl hcode)) (.inl rfl)
  | shutdown target => exact Safe.require_bind fun _ => h.ipiSend hc target ipiOffline
  | irq => exact h.irq hc
  | ipi =>
    exact Safe.require_bind fun hin =>
      h.interprocessorInterrupt hc (plain_of_code (.inr hin.1))
  | tick => exact Safe.require_bind fun hin => h.hardclock hc (plain_of_code (.inr hin))
  | iret => exact Safe.require_bind fun _ => h.iret hc hcl
  | hatch =>
    refine Safe.require_bind fun hpc => ?_
    have hidle := (h.place c hc).idle false (by rw [hpc]; rfl)
    exact h.goto_plain hc (by rw [hpc]; rfl) rfl fun b hb => hidle.trans (Option.some.inj hb)
  | resume => exact h.resume hc

/-- **Runs.** -/
theorem run {P : SchedBoot} {as : List (ℕ × SchedAction)}
    (hcl : Along (SchedSys.step P.numcpus) Client P.boot as) :
    Safe (SchedInv P.numcpus) (Transition.run (SchedSys.step P.numcpus) P.boot as) :=
  Safe.run (fun _ _ h hc => (h.step hc).mono fun _ hs => hs.inv) (.boot P) hcl

theorem of_run {P : SchedBoot} {as : List (ℕ × SchedAction)} {s : SchedSys}
    (hcl : Along (SchedSys.step P.numcpus) Client P.boot as)
    (h : Transition.run (SchedSys.step P.numcpus) P.boot as = .ok s) : SchedInv P.numcpus s := by
  have hrun := SchedInv.run hcl
  rw [h] at hrun
  exact hrun

end SchedInv

/-! ## What holds in all runs -/

/-- Where a thread is. -/
inductive ThreadPlace
  | cpu (c : ℕ)
  | list (l : SchedList)

namespace SchedSys

variable (n : ℕ) (s : SchedSys)

/-- The thread is run by the CPU, or is on the list. -/
def At (t : ThreadPtr) : ThreadPlace → Prop
  | .cpu c => c < n ∧ s.cCurthread c = t ∧ s.Runs c
  | .list l => t ∈ s.lists l

/-- The state, the CPU and the process of a thread fit the place where it is. -/
def Suits (t : ThreadPtr) : ThreadPlace → Prop
  | .cpu c => s.tCpu t = c ∧ (s.tState t = .run ∨ s.tState t = .ready)
  | .list l => s.Fits t l

/-- Every thread is accounted for, and the counters are right. -/
structure Accounted : Prop where
  one : ∀ t, s.live t = true → ∃! p, s.At n t p
  suits : ∀ t p, s.At n t p → s.live t = true ∧ s.Suits t p
  nodup : ∀ l, (s.lists l).Nodup
  numthreads : ∀ p, ∃ ts : List ThreadPtr, ts.Nodup ∧ (∀ t, t ∈ ts ↔ s.tProc t = some p) ∧
    s.pNumthreads p = ts.length
  spinlocks : ∀ c, ∃ ls : List SchedLock, ls.Nodup ∧ (∀ l, l ∈ ls ↔ s.splkHolder l = some c) ∧
    s.cSpinlocks c = ls.length

end SchedSys

section Results

variable {n : ℕ} {s : SchedSys} {P : SchedBoot} {as : List (ℕ × SchedAction)} {c : ℕ} {t : ThreadPtr}
  {ts : List ThreadPtr}

theorem SchedInv.accounted (h : SchedInv n s) : s.Accounted n where
  one t hl := by
    cases hlist : s.listed t with
    | none =>
      obtain ⟨c, hc, ht, hr⟩ := (h.threads t).runs hlist hl
      refine ⟨.cpu c, ⟨hc, ht, hr⟩, fun p hp => ?_⟩
      cases p with
      | cpu d => rw [h.curthread_inj hp.1 hc (hp.2.1.trans ht.symm)]
      | list l =>
        have hl' := (h.located.mem_iff t l).mp hp
        rw [hlist] at hl'
        cases hl'
    | some l =>
      refine ⟨.list l, (h.located.mem_iff t l).mpr hlist, fun p hp => ?_⟩
      cases p with
      | cpu d =>
        obtain ⟨hd, ht, hr⟩ := hp
        have hnone := (h.current d hd).runs.mpr hr
        rw [ht, hlist] at hnone
        cases hnone
      | list l' =>
        have hl' := (h.located.mem_iff t l').mp hp
        rw [hlist] at hl'
        rw [Option.some.inj hl']
  suits t p hp := by
    cases p with
    | cpu c =>
      obtain ⟨hc, rfl, hr⟩ := hp
      have hok := h.current c hc
      exact ⟨hok.live, hok.home, hok.state hr⟩
    | list l =>
      obtain ⟨hl, -, hfit⟩ := (h.threads t).listed l ((h.located.mem_iff t l).mp hp)
      exact ⟨hl, hfit⟩
  nodup := h.located.nodup
  numthreads p := by
    obtain ⟨L, hL, hn⟩ := h.procs
    exact ⟨L p, hL.nodup p, fun t => hL.mem_iff t p, hn p⟩
  spinlocks c := by
    obtain ⟨L, hL, hn⟩ := h.locks
    exact ⟨L c, hL.nodup c, fun l => hL.mem_iff l c, hn c⟩

/-- **Every thread is in one place.** However the steps of the CPUs, the interrupts and the calls of
obedient callers are interleaved, no assertion fails; and in every state that is reached each thread that
is allocated is run by one CPU or is once on one list, and its state, its CPU and its process fit. -/
theorem every_thread_in_one_place
    (hcl : Along (SchedSys.step P.numcpus) Client P.boot as) :
    Safe (Accounted P.numcpus) (Transition.run (SchedSys.step P.numcpus) P.boot as) :=
  (SchedInv.run hcl).mono fun _ h => h.accounted

/-- Two CPUs. -/
def twoCpus : SchedBoot where
  numcpus := 2
  bootthread c := ⟨c % 2 + 1, by omega, by unfold wordSize; omega⟩
  apart c hc d hd h := by
    have heq : c % 2 + 1 = d % 2 + 1 := congrArg ThreadPtr.addr h
    omega

/-- The second CPU sleeps and idles, and the first one wakes its thread up. -/
def wakeupRun : List (ℕ × SchedAction) :=
  [(1, .hatch), (1, .acquire 0), (1, .sleep 0), (1, .resume), (1, .resume), (0, .acquire 0),
    (0, .wakeone 0), (0, .resume)]

theorem along_wakeupRun : Along (SchedSys.step twoCpus.numcpus) Client twoCpus.boot wakeupRun := by
  decide

/-- A thread on a run queue is nowhere else. -/
theorem every_thread_in_one_place_wakeupRun :
    ∃ s, Transition.run (SchedSys.step twoCpus.numcpus) twoCpus.boot wakeupRun = .ok s ∧
      s.At 2 (twoCpus.bootthread 1) (.list (.runqueue 1)) ∧
      ∃! p, s.At 2 (twoCpus.bootthread 1) p := by
  obtain ⟨s, hs, hat⟩ : ∃ s, Transition.run (SchedSys.step twoCpus.numcpus) twoCpus.boot wakeupRun =
      .ok s ∧ twoCpus.bootthread 1 ∈ s.lists (.runqueue 1) := ⟨_, rfl, by decide⟩
  have h := every_thread_in_one_place along_wakeupRun
  rw [hs] at h
  exact ⟨s, hs, hat, h.one _ (h.suits _ (.list _) hat).1⟩

/-- **One stack for each CPU.** No thread is current on two CPUs, also when it was put on a list and
its CPU has not switched yet or idles; such a thread is on the run queue of no other CPU, nor among the
victims that another one sends away; and no thread is destroyed while it is current. -/
theorem one_stack_for_each_cpu (hcl : Along (SchedSys.step P.numcpus) Client P.boot as)
    (h : Transition.run (SchedSys.step P.numcpus) P.boot as = .ok s) :
    (∀ c < P.numcpus, s.live (s.cCurthread c) = true) ∧
    (∀ c < P.numcpus, ∀ d < P.numcpus, s.cCurthread c = s.cCurthread d → c = d) ∧
    ∀ c < P.numcpus, ∀ d, s.cCurthread c ∈ s.lists (.runqueue d) ∨
      s.cCurthread c ∈ s.lists (.victims d) → d = c := by
  have hinv := SchedInv.of_run hcl h
  refine ⟨fun c hc => (hinv.current c hc).live, fun c hc d hd => hinv.curthread_inj hc hd,
    fun c hc d hmem => ?_⟩
  have hhome := (hinv.current c hc).home
  have hfit : ∀ l, s.cCurthread c ∈ s.lists l → s.Fits (s.cCurthread c) l := fun l hl =>
    ((hinv.threads _).listed l ((hinv.located.mem_iff _ l).mp hl)).2.2
  rcases hmem with hmem | hmem
  · exact (hfit _ hmem).1.symm.trans hhome
  · exact (hfit _ hmem).1.symm.trans hhome

/-- The current thread of an idle CPU is on its run queue. -/
theorem one_stack_for_each_cpu_wakeupRun :
    ∃ s, Transition.run (SchedSys.step twoCpus.numcpus) twoCpus.boot wakeupRun = .ok s ∧
      s.pc 1 = .idle ∧ s.cCurthread 1 ∈ s.lists (.runqueue 1) ∧ s.cCurthread 1 ∉ s.lists (.runqueue 0) := by
  obtain ⟨s, hs, hpc, hmem⟩ : ∃ s, Transition.run (SchedSys.step twoCpus.numcpus) twoCpus.boot wakeupRun =
      .ok s ∧ s.pc 1 = .idle ∧ s.cCurthread 1 ∈ s.lists (.runqueue 1) := ⟨_, rfl, by decide, by decide⟩
  obtain ⟨-, -, h⟩ := one_stack_for_each_cpu along_wakeupRun hs
  exact ⟨s, hs, hpc, hmem, fun e => by cases h 1 (by decide) 0 (.inl e)⟩

end Results

end Os161
