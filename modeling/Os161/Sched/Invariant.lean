import Os161.Sched.Model

set_option autoImplicit false

/-!
# Where the threads are

The invariant of the scheduler: every thread is on one list, or is run by one CPU, and its state, its
CPU and its process fit; every CPU holds the locks that its place in the code says, and one that waits
in `cpu_idle` has an empty run queue or an inter-processor interrupt on its way.

* `SchedPc.lock`, `SchedPc.idleness`, `SchedPc.newstate`: what is known at a place of the code.
* `Fits`, `ThreadOk`, `CurrentOk`, `PlaceOk`: what holds of a thread and of a CPU.
* **`SchedInv`**: the invariant.
* `Frame`, **`SchedInv.of_frame`**: a step of one CPU with one thread leaves the others as they are.
-/

namespace Os161

/-- The run queue whose lock is held. -/
def SchedPc.lock (c : ℕ) : SchedPc → Option ℕ
  | .queued _ | .choose | .landed | .migrate (.pull ..) | .migrate .giveBack => some c
  | .migrate (.send i _ _) => some i
  | _ => none

/-- Whether `c_isidle` is set, where the place in the code says it. -/
def SchedPc.idleness : SchedPc → Option Bool
  | .unborn | .thread | .queued _ | .landed | .exorcise => some false
  | .choose | .idle | .woken => some true
  | _ => none

/-- The state that the current thread, which is in the right place already, gets next. -/
def SchedPc.newstate : SchedPc → Option ThreadState
  | .queued newstate => some newstate
  | _ => none

/-- In `thread_switch` before a thread is chosen, with the wait for one. -/
def SchedPc.switching : SchedPc → Bool
  | .queued _ | .choose | .idle => true
  | _ => false

namespace SchedSys

variable (n : ℕ) (s : SchedSys)

/-- The CPU runs its current thread. -/
def Runs (c : ℕ) : Prop := s.cIsidle c = false ∧ (s.pc c).newstate = none

/-- The state of a thread, when the CPU that switches away from it has set it. -/
def stateOf (t : ThreadPtr) : ThreadState :=
  if s.cCurthread (s.tCpu t) = t then (s.pc (s.tCpu t)).newstate.getD (s.tState t) else s.tState t

/-- The state, the CPU and the process of a thread fit the list that it is on. -/
def Fits (t : ThreadPtr) : SchedList → Prop
  | .runqueue c | .victims c => s.tCpu t = c ∧ s.stateOf t = .ready
  | .zombies c => s.tCpu t = c ∧ s.stateOf t = .zombie ∧ s.tProc t = none
  | .wchan _ | .wakeup _ => s.stateOf t = .sleep
  | .newthread _ => s.stateOf t = .ready

/-- What holds of a thread. -/
structure ThreadOk (t : ThreadPtr) : Prop where
  runs : s.listed t = none → s.live t = true → ∃ c < n, s.cCurthread c = t ∧ s.Runs c
  listed : ∀ l, s.listed t = some l → s.live t = true ∧ s.tCpu t < n ∧ s.Fits t l
  proc : s.live t = false → s.tProc t = none
  forks : s.lists (.newthread t) ≠ [] → s.live t = true ∧ s.tProc t ≠ none

/-- The lists of the migration that CPU `c` makes. -/
def migLists (c : ℕ) : MigList → List ThreadPtr
  | .runqueue d => s.lists (.runqueue d)
  | .victims => s.lists (.victims c)

/-- The CPUs for the migration that CPU `c` makes. -/
def migCpus (c : ℕ) (hc : c < n) : MigCpus := ⟨n, c, s.cCurthread c, hc⟩

/-- What holds of the current thread of a CPU. -/
structure CurrentOk (c : ℕ) : Prop where
  home : s.tCpu (s.cCurthread c) = c
  live : s.live (s.cCurthread c) = true
  runs : s.listed (s.cCurthread c) = none ↔ s.Runs c
  state : s.Runs c → s.tState (s.cCurthread c) = .run ∨ s.tState (s.cCurthread c) = .ready

/-- What holds where a CPU is in the code. -/
structure PlaceOk (c : ℕ) (hc : c < n) : Prop where
  idle : ∀ b, (s.pc c).idleness = some b → s.cIsidle c = b
  lock : ∀ d, s.splkHolder (.runqueue d) = some c ↔ (s.pc c).lock c = some d
  wakeup : (∀ w, s.pc c ≠ .gather w) → s.pc c ≠ .waking → s.lists (.wakeup c) = []
  victims : (∀ m, s.pc c ≠ .migrate m) → s.lists (.victims c) = []
  migrate : ∀ m, s.pc c = .migrate m → m.Ok (s.migCpus n c hc) (s.migLists c)
  unidled : s.pc c = .idle → s.lists (.runqueue c) ≠ [] → s.ipiLine c = true
  handler : s.inHandler c = true → (s.pc c).switching = true →
    s.pc c ≠ .idle ∧ s.lists (.runqueue c) ≠ []

end SchedSys

/-- **The invariant of the scheduler.** -/
structure SchedInv (n : ℕ) (s : SchedSys) : Prop where
  located : Located s.lists s.listed
  locks : Counted s.cSpinlocks s.splkHolder
  procs : Counted s.pNumthreads s.tProc
  threads : ∀ t, s.ThreadOk n t
  current : ∀ c < n, s.CurrentOk c
  place : ∀ c (hc : c < n), s.PlaceOk n c hc

namespace SchedSys

/-- A step of CPU `c` with thread `m` leaves the other threads and CPUs as they are, except that run
queues get longer at their end. -/
structure Frame (s s' : SchedSys) (c : ℕ) (m : ThreadPtr) : Prop where
  pc : ∀ d ≠ c, s'.pc d = s.pc d
  isidle : ∀ d ≠ c, s'.cIsidle d = s.cIsidle d
  curthread : ∀ d ≠ c, s'.cCurthread d = s.cCurthread d
  current : s'.cCurthread c = s.cCurthread c ∨ s'.cCurthread c = m
  lock : ∀ d ≠ c, ∀ x, s'.splkHolder (.runqueue x) = some d ↔ s.splkHolder (.runqueue x) = some d
  live : ∀ t ≠ m, t ≠ s.cCurthread c → s'.live t = s.live t
  listed : ∀ t ≠ m, t ≠ s.cCurthread c → s'.listed t = s.listed t
  tCpu : ∀ t ≠ m, t ≠ s.cCurthread c → s'.tCpu t = s.tCpu t
  tState : ∀ t ≠ m, t ≠ s.cCurthread c → s'.tState t = s.tState t
  tProc : ∀ t ≠ m, t ≠ s.cCurthread c → s'.tProc t = s.tProc t
  inInterrupt : ∀ t ≠ m, t ≠ s.cCurthread c → s'.tInInterrupt t = s.tInInterrupt t
  newthread : ∀ t ≠ m, t ≠ s.cCurthread c → s'.lists (.newthread t) = s.lists (.newthread t)
  wakeup : ∀ d ≠ c, s'.lists (.wakeup d) = s.lists (.wakeup d)
  victims : ∀ d ≠ c, s'.lists (.victims d) = s.lists (.victims d)
  runqueue : ∀ d ≠ c, s.lists (.runqueue d) <+: s'.lists (.runqueue d)
  unidled : ∀ d ≠ c, s.cIsidle d = true → s'.lists (.runqueue d) ≠ s.lists (.runqueue d) →
    s'.ipiLine d = true
  line : ∀ d ≠ c, s.ipiLine d = true → s'.ipiLine d = true

namespace Frame

variable {s s₁ s₂ : SchedSys} {c : ℕ} {m : ThreadPtr}

/-- One change after another one. -/
theorem trans (h₁ : s.Frame s₁ c m) (h₂ : s₁.Frame s₂ c m) : s.Frame s₂ c m := by
  have hcur : ∀ t ≠ m, t ≠ s.cCurthread c → t ≠ s₁.cCurthread c := by
    intro t hm ht
    rcases h₁.current with e | e
    · rwa [e]
    · rwa [e]
  have hsame : ∀ {β : Type} {f g k : ThreadPtr → β},
      (∀ t ≠ m, t ≠ s.cCurthread c → g t = f t) →
      (∀ t ≠ m, t ≠ s₁.cCurthread c → k t = g t) → ∀ t ≠ m, t ≠ s.cCurthread c → k t = f t :=
    fun hfg hgk t hm ht => (hgk t hm (hcur t hm ht)).trans (hfg t hm ht)
  refine ⟨fun d hd => (h₂.pc d hd).trans (h₁.pc d hd),
    fun d hd => (h₂.isidle d hd).trans (h₁.isidle d hd),
    fun d hd => (h₂.curthread d hd).trans (h₁.curthread d hd), ?_,
    fun d hd x => (h₂.lock d hd x).trans (h₁.lock d hd x), hsame h₁.live h₂.live,
    hsame h₁.listed h₂.listed, hsame h₁.tCpu h₂.tCpu, hsame h₁.tState h₂.tState,
    hsame h₁.tProc h₂.tProc, hsame h₁.inInterrupt h₂.inInterrupt, hsame h₁.newthread h₂.newthread,
    fun d hd => (h₂.wakeup d hd).trans (h₁.wakeup d hd),
    fun d hd => (h₂.victims d hd).trans (h₁.victims d hd),
    fun d hd => (h₁.runqueue d hd).trans (h₂.runqueue d hd), ?_,
    fun d hd hl => h₂.line d hd (h₁.line d hd hl)⟩
  · rcases h₂.current with e | e
    · rw [e]
      exact h₁.current
    · exact .inr e
  · intro d hd hi hne
    by_cases e : s₁.lists (.runqueue d) = s.lists (.runqueue d)
    · exact h₂.unidled d hd ((h₁.isidle d hd).trans hi) (by rwa [e])
    · exact h₂.line d hd (h₁.unidled d hd hi e)

end Frame

/-- **A step of CPU `c`** keeps the invariant, and leaves the other CPUs as they are. -/
structure Stepped (n : ℕ) (s : SchedSys) (c : ℕ) (s' : SchedSys) : Prop where
  inv : SchedInv n s'
  frame : ∃ m, s.Frame s' c m

/-- What becomes of the thread `m`, when it is not the current one: it is new, or it goes from a list to
another one and stays at home, or its home was the CPU that makes the step. -/
def Moves (s s' : SchedSys) (c : ℕ) (m : ThreadPtr) : Prop :=
  m = s.cCurthread c ∨ s.live m = false ∨ s.tCpu m = c ∨
    s.listed m ≠ none ∧ s'.listed m ≠ none ∧ s'.live m = true ∧ s'.tCpu m = s.tCpu m ∧
      s'.tInInterrupt m = s.tInInterrupt m

end SchedSys

section Frames

variable {n : ℕ} {s s' : SchedSys} {c : ℕ} {m : ThreadPtr}

/-- Two CPUs have different current threads. -/
theorem SchedInv.curthread_inj (h : SchedInv n s) {d e : ℕ} (hd : d < n) (he : e < n)
    (heq : s.cCurthread d = s.cCurthread e) : d = e := by
  rw [← (h.current d hd).home, ← (h.current e he).home, heq]

/-- A migration goes on while its lists stay, except that run queues get longer. -/
theorem MigPc.Ok.mono {P : MigCpus} {L L' : MigList → List ThreadPtr} {pc : MigPc} (h : pc.Ok P L)
    (hv : L' .victims = L .victims)
    (hq : (L (.runqueue P.self)).length ≤ (L' (.runqueue P.self)).length) : pc.Ok P L' := by
  cases pc with
  | sample i myCount totalCount => exact ⟨hv.trans h.1, fun hi => (h.2 hi).trans hq⟩
  | pull i toSend oneShare =>
    obtain ⟨hlen, hle, hcount⟩ := h
    exact ⟨hv ▸ hlen, hle, by omega⟩
  | distribute i toSend oneShare => exact show Countdown P toSend (L' .victims) from hv ▸ h
  | send i toSend oneShare =>
    exact ⟨h.1, h.2.1, show Countdown P toSend (L' .victims) from hv ▸ h.2.2⟩
  | leftovers => trivial
  | giveBack => trivial
  | done => exact hv.trans h

/-- The state of a thread that has nothing to do with the step. -/
theorem SchedSys.Frame.stateOf (hf : s.Frame s' c m) {t : ThreadPtr} (hm : t ≠ m)
    (hcur : t ≠ s.cCurthread c) : s'.stateOf t = s.stateOf t := by
  unfold SchedSys.stateOf
  rw [hf.tCpu t hm hcur, hf.tState t hm hcur]
  by_cases hd : s.tCpu t = c
  · have h₁ : s.cCurthread (s.tCpu t) ≠ t := by rw [hd]; exact hcur.symm
    have h₂ : s'.cCurthread (s.tCpu t) ≠ t := by
      rw [hd]
      rcases hf.current with h | h
      · rw [h]
        exact hcur.symm
      · rw [h]
        exact hm.symm
    rw [if_neg h₁, if_neg h₂]
  · rw [hf.pc _ hd, hf.curthread _ hd]

/-- A thread of which nothing has changed. -/
theorem SchedSys.ThreadOk.congr {t : ThreadPtr} (h : s.ThreadOk n t)
    (hlisted : s'.listed t = s.listed t) (hlive : s'.live t = s.live t)
    (hcpu : s'.tCpu t = s.tCpu t) (hproc : s'.tProc t = s.tProc t)
    (hforks : s'.lists (.newthread t) ≠ [] → s.lists (.newthread t) ≠ [])
    (hstate : s'.stateOf t = s.stateOf t)
    (hruns : ∀ d, s.cCurthread d = t → s.Runs d → s'.cCurthread d = t ∧ s'.Runs d) :
    s'.ThreadOk n t where
  runs hl ha := by
    rw [hlisted] at hl
    rw [hlive] at ha
    obtain ⟨d, hd, ht, hr⟩ := h.runs hl ha
    exact ⟨d, hd, hruns d ht hr⟩
  listed l hl := by
    rw [hlisted] at hl
    obtain ⟨ha, hlt, hfit⟩ := h.listed l hl
    rw [hlive, hcpu]
    refine ⟨ha, hlt, ?_⟩
    cases l <;> simpa only [SchedSys.Fits, hcpu, hstate, hproc] using hfit
  proc hl := by
    rw [hlive] at hl
    rw [hproc]
    exact h.proc hl
  forks hl := by
    rw [hlive, hproc]
    exact h.forks (hforks hl)

/-- The other threads. -/
theorem SchedInv.threadOk_of_frame (h : SchedInv n s) (hf : s.Frame s' c m) {t : ThreadPtr}
    (hm : t ≠ m) (hcur : t ≠ s.cCurthread c) : s'.ThreadOk n t := by
  refine (h.threads t).congr (hf.listed t hm hcur) (hf.live t hm hcur) (hf.tCpu t hm hcur)
    (hf.tProc t hm hcur) (by rw [hf.newthread t hm hcur]; exact id) (hf.stateOf hm hcur) fun d ht hr => ?_
  have hdc : d ≠ c := fun e => hcur (by rw [← ht, e])
  refine ⟨(hf.curthread d hdc).trans ht, ?_⟩
  unfold SchedSys.Runs
  rw [hf.isidle d hdc, hf.pc d hdc]
  exact hr

/-- The current threads of the other CPUs. -/
theorem SchedInv.currentOk_of_frame (h : SchedInv n s) (hf : s.Frame s' c m) (hc : c < n)
    (hmv : s.Moves s' c m) {d : ℕ} (hd : d < n) (hdc : d ≠ c) : s'.CurrentOk d := by
  have hok := h.current d hd
  have hcur : s.cCurthread d ≠ s.cCurthread c := fun e => hdc (h.curthread_inj hd hc e)
  have hruns : s'.Runs d ↔ s.Runs d := by
    unfold SchedSys.Runs
    rw [hf.isidle d hdc, hf.pc d hdc]
  by_cases hm : s.cCurthread d = m
  · rcases hmv with he | he | he | ⟨hl, hl', ha, ht, -⟩
    · exact absurd (hm.trans he) hcur
    · rw [← hm, hok.live] at he
      cases he
    · rw [← hm, hok.home] at he
      exact absurd he hdc
    · rw [← hm] at hl hl' ha ht
      have hnr : ¬ s.Runs d := fun hr => hl (hok.runs.mpr hr)
      refine ⟨?_, ?_, ?_, fun hr => absurd (hruns.mp hr) hnr⟩ <;> rw [hf.curthread d hdc]
      · exact ht.trans hok.home
      · exact ha
      · exact ⟨fun e => absurd e hl', fun hr => absurd (hruns.mp hr) hnr⟩
  · refine ⟨?_, ?_, ?_, ?_⟩ <;> rw [hf.curthread d hdc]
    · rw [hf.tCpu _ hm hcur]
      exact hok.home
    · rw [hf.live _ hm hcur]
      exact hok.live
    · rw [hf.listed _ hm hcur, hruns]
      exact hok.runs
    · rw [hf.tState _ hm hcur, hruns]
      exact hok.state

/-- The handlers on the other CPUs. -/
theorem SchedInv.inHandler_of_frame (h : SchedInv n s) (hf : s.Frame s' c m) (hc : c < n)
    (hmv : s.Moves s' c m) {d : ℕ} (hd : d < n) (hdc : d ≠ c) :
    s'.inHandler d = s.inHandler d := by
  have hok := h.current d hd
  have hcur : s.cCurthread d ≠ s.cCurthread c := fun e => hdc (h.curthread_inj hd hc e)
  unfold SchedSys.inHandler
  rw [hf.curthread d hdc]
  by_cases hm : s.cCurthread d = m
  · rcases hmv with he | he | he | ⟨-, -, -, -, he⟩
    · exact absurd (hm.trans he) hcur
    · rw [← hm, hok.live] at he
      cases he
    · rw [← hm, hok.home] at he
      exact absurd he hdc
    · rw [hm, he]
  · exact hf.inInterrupt _ hm hcur

/-- The places of the other CPUs. -/
theorem SchedInv.placeOk_of_frame (h : SchedInv n s) (hf : s.Frame s' c m) (hc : c < n)
    (hmv : s.Moves s' c m) {d : ℕ} (hd : d < n) (hdc : d ≠ c) : s'.PlaceOk n d hd := by
  have hok := h.place d hd
  refine ⟨?_, ?_, ?_, ?_, ?_, ?_, ?_⟩
  · rw [hf.pc d hdc, hf.isidle d hdc]
    exact hok.idle
  · intro x
    rw [hf.lock d hdc, hf.pc d hdc]
    exact hok.lock x
  · rw [hf.pc d hdc, hf.wakeup d hdc]
    exact hok.wakeup
  · rw [hf.pc d hdc, hf.victims d hdc]
    exact hok.victims
  · intro pc hpc
    rw [hf.pc d hdc] at hpc
    have hcpus : s'.migCpus n d hd = s.migCpus n d hd := by
      unfold SchedSys.migCpus
      rw [hf.curthread d hdc]
    rw [hcpus]
    exact (hok.migrate pc hpc).mono (hf.victims d hdc) (hf.runqueue d hdc).length_le
  · intro hpc hq
    rw [hf.pc d hdc] at hpc
    by_cases e : s'.lists (.runqueue d) = s.lists (.runqueue d)
    · rw [e] at hq
      exact hf.line d hdc (hok.unidled hpc hq)
    · exact hf.unidled d hdc (hok.idle true (by rw [hpc]; rfl)) e
  · rw [h.inHandler_of_frame hf hc hmv hd hdc, hf.pc d hdc]
    intro hin hsw
    obtain ⟨hpc, hq⟩ := hok.handler hin hsw
    exact ⟨hpc, fun e => hq (List.prefix_nil.mp (e ▸ hf.runqueue d hdc))⟩

/-- **A step of one CPU with one thread**: what is left to show. -/
theorem SchedInv.of_frame (h : SchedInv n s) (hc : c < n) (hf : s.Frame s' c m)
    (hmv : s.Moves s' c m) (hlocated : Located s'.lists s'.listed)
    (hlocks : Counted s'.cSpinlocks s'.splkHolder) (hprocs : Counted s'.pNumthreads s'.tProc)
    (hthread : s'.ThreadOk n (s.cCurthread c)) (hm : m ≠ s.cCurthread c → s'.ThreadOk n m)
    (hcurrent : s'.CurrentOk c) (hplace : s'.PlaceOk n c hc) : s.Stepped n c s' := by
  refine ⟨⟨hlocated, hlocks, hprocs, ?_, ?_, ?_⟩, m, hf⟩
  · intro t
    by_cases ht : t = s.cCurthread c
    · rw [ht]
      exact hthread
    · by_cases htm : t = m
      · rw [htm]
        exact hm fun e => ht (htm.trans e)
      · exact h.threadOk_of_frame hf htm ht
  · intro d hd
    by_cases hdc : d = c
    · rw [hdc]
      exact hcurrent
    · exact h.currentOk_of_frame hf hc hmv hd hdc
  · intro d hd
    by_cases hdc : d = c
    · subst hdc
      exact hplace
    · exact h.placeOk_of_frame hf hc hmv hd hdc

end Frames

end Os161
