import Os161.Lib.Places
import Os161.Thread.Migration

set_option autoImplicit false

/-!
# Threads on several CPUs

`thread.c` and `clock.c`: every CPU runs its current thread, handles interrupts, switches to other
threads and idles, and all of them share the run queues, the wait channels and the inter-processor
interrupts. What lies between two acquisitions of spinlocks is one step, except that `thread_switch`
and the migration of threads, which hold the lock of a run queue for long, go in several steps.

* `SchedSys`: what the structures of the threads, the CPUs, the processes and the spinlocks hold.
* `SchedPc`: where a CPU is in the code of the scheduler.
* `SchedSys.threadSwitch`, `SchedSys.resume`: the context switch, and what goes on by itself.
* `SchedSys.step`: a step of one of the CPUs; `SchedSys.Client`: what the scheduler asks of its callers.
-/

namespace Os161

/-- `threadstate_t`. -/
inductive ThreadState
  | run
  | ready
  | sleep
  | zombie
  deriving DecidableEq

/-- A process. -/
abbrev ProcId : Type := ℕ

/-- The process of the kernel. -/
def kproc : ProcId := 0

/-- The spinlocks: those of the run queues, and those of the callers. A wait channel has the number of
the spinlock that its callers pass with it. -/
inductive SchedLock
  | runqueue (c : ℕ)
  | client (w : ℕ)
  deriving DecidableEq

/-- The lists of threads: in the structures of the CPUs, in the wait channels, and in the local
variables of `wchan_wakeone` and `wchan_wakeall`, of `thread_consider_migration` and of
`thread_fork`. -/
inductive SchedList
  | runqueue (c : ℕ)
  | zombies (c : ℕ)
  | wchan (w : ℕ)
  | wakeup (c : ℕ)
  | victims (c : ℕ)
  | newthread (t : ThreadPtr)
  deriving DecidableEq

/-- Where a CPU is. -/
inductive SchedPc
  /-- It was not started yet. -/
  | unborn
  /-- It runs its current thread, or an interrupt handler on the thread's stack. -/
  | thread
  | gather (w : ℕ)
  | waking
  | clearIpi
  | migrate (m : MigPc)
  /-- At the end of `hardclock`. -/
  | ticked
  /-- In `thread_switch`: the thread is in the right place, and gets its new state next. -/
  | queued (newstate : ThreadState)
  | choose
  /-- It waits in `cpu_idle`. -/
  | idle
  /-- In `cpu_idle`, not waiting any more; interrupts are handled here. -/
  | woken
  /-- On the stack of the thread that was chosen. -/
  | landed
  | exorcise
  | halted
  deriving DecidableEq

/-- `struct thread`, `struct cpu` and `p_numthreads`, with the holders of the spinlocks and the lines of
the inter-processor interrupts. `listed` is the list that `t_listnode` is linked into, and `live` says
which threads are allocated. -/
structure SchedSys where
  lists : SchedList → List ThreadPtr
  listed : ThreadPtr → Option SchedList
  live : ThreadPtr → Bool
  tState : ThreadPtr → ThreadState
  tCpu : ThreadPtr → ℕ
  tProc : ThreadPtr → Option ProcId
  tInInterrupt : ThreadPtr → Bool
  pNumthreads : ProcId → ℕ
  splkHolder : SchedLock → Option ℕ
  cCurthread : ℕ → ThreadPtr
  cIsidle : ℕ → Bool
  cHardclocks : ℕ → ℕ
  cSpinlocks : ℕ → ℕ
  cIpiPending : ℕ → ℕ
  ipiLine : ℕ → Bool
  pc : ℕ → SchedPc

/-- What a CPU does next: a call of its thread, an interrupt and its handler, or the next step of the
scheduler. -/
inductive SchedAction
  | acquire (w : ℕ)
  | release (w : ℕ)
  | sleep (w : ℕ)
  | wakeone (w : ℕ)
  | wakeall (w : ℕ)
  | fork (t : ThreadPtr) (proc : Option ProcId)
  | start
  | exit
  | zombify
  | yield
  | shutdown (target : ℕ)
  | irq
  | ipi
  | tick
  | iret
  | hatch
  | resume

def ipiOffline : ℕ := 1

def ipiUnidle : ℕ := 2

def migrateHardclocks : ℕ := 16

namespace SchedSys

/-! ## The parts of the steps -/

/-- The CPU goes to another place. -/
def goto (s : SchedSys) (c : ℕ) (pc : SchedPc) : SchedSys :=
  { s with pc := Function.update s.pc c pc }

/-- The CPU is in an interrupt handler. -/
def inHandler (s : SchedSys) (c : ℕ) : Bool := s.tInInterrupt (s.cCurthread c)

/-- Where the code goes on that an interrupt has met, or that has called the scheduler. -/
def base (s : SchedSys) (c : ℕ) : SchedPc := if s.cIsidle c then .woken else .thread

/-- `t_state` of a thread is set. -/
def setState (s : SchedSys) (t : ThreadPtr) (st : ThreadState) : SchedSys :=
  { s with tState := Function.update s.tState t st }

/-- A spinlock is taken. -/
def locked (s : SchedSys) (c : ℕ) (l : SchedLock) : SchedSys :=
  { s with
    splkHolder := Function.update s.splkHolder l (some c)
    cSpinlocks := Function.update s.cSpinlocks c (s.cSpinlocks c + 1) }

/-- A spinlock is given back. -/
def unlocked (s : SchedSys) (c : ℕ) (l : SchedLock) : SchedSys :=
  { s with
    splkHolder := Function.update s.splkHolder l none
    cSpinlocks := Function.update s.cSpinlocks c (s.cSpinlocks c - 1) }

/-- `spinlock_acquire`, which panics when the CPU holds the lock, and waits while another one does. -/
def spinlockAcquire (s : SchedSys) (c : ℕ) (l : SchedLock) : Except Stop SchedSys :=
  match s.splkHolder l with
  | none => .ok (s.locked c l)
  | some d => if d = c then .error (.panic .kassert) else .error .blocked

def spinlockRelease (s : SchedSys) (c : ℕ) (l : SchedLock) : Except Stop SchedSys := do
  kassert (s.splkHolder l = some c)
  kassert (0 < s.cSpinlocks c)
  return s.unlocked c l

/-- A list and the node of one thread. -/
def relist (s : SchedSys) (l : SchedList) (ts : List ThreadPtr) (t : ThreadPtr)
    (place : Option SchedList) : SchedSys :=
  { s with
    lists := Function.update s.lists l ts
    listed := Function.update s.listed t place }

def threadlistAddhead (s : SchedSys) (l : SchedList) (t : ThreadPtr) : Except Stop SchedSys := do
  kassert (s.listed t = none)
  return s.relist l (t :: s.lists l) t (some l)

def threadlistAddtail (s : SchedSys) (l : SchedList) (t : ThreadPtr) : Except Stop SchedSys := do
  kassert (s.listed t = none)
  return s.relist l (s.lists l ++ [t]) t (some l)

def threadlistRemhead (s : SchedSys) (l : SchedList) : Option ThreadPtr × SchedSys :=
  match s.lists l with
  | [] => (none, s)
  | t :: ts => (some t, s.relist l ts t none)

def threadlistRemtail (s : SchedSys) (l : SchedList) : Option ThreadPtr × SchedSys :=
  match (s.lists l).getLast? with
  | none => (none, s)
  | some t => (some t, s.relist l (s.lists l).dropLast t none)

/-- `ipi_send`. -/
def ipiSend (s : SchedSys) (target code : ℕ) : SchedSys :=
  { s with
    cIpiPending := Function.update s.cIpiPending target (s.cIpiPending target ||| 2 ^ code)
    ipiLine := Function.update s.ipiLine target true }

/-- The interrupt for a CPU that gets a thread and is idle, unless it is the current one. -/
def unidle (s : SchedSys) (c target : ℕ) : SchedSys :=
  if s.cIsidle target = true ∧ target ≠ c then s.ipiSend target ipiUnidle else s

/-- A thread gets ready, with the lock of its run queue held. -/
def enqueue (s : SchedSys) (c : ℕ) (t : ThreadPtr) : Except Stop SchedSys := do
  let s' ← (s.setState t .ready).threadlistAddtail (.runqueue (s.tCpu t)) t
  return s'.unidle c (s.tCpu t)

/-- `thread_make_runnable`. -/
def threadMakeRunnable (s : SchedSys) (c : ℕ) (target : ThreadPtr) (alreadyHaveLock : Bool) :
    Except Stop SchedSys :=
  if alreadyHaveLock then do
    kassert (s.splkHolder (.runqueue (s.tCpu target)) = some c)
    s.enqueue c target
  else do
    let s₁ ← s.spinlockAcquire c (.runqueue (s.tCpu target))
    let s₂ ← s₁.enqueue c target
    s₂.spinlockRelease c (.runqueue (s.tCpu target))

/-- The current thread goes to the right place for its new state. -/
def place (s : SchedSys) (c : ℕ) : ThreadState → Option ℕ → Except Stop SchedSys
  | .run, _ => .error (.panic .kassert)
  | .ready, _ => s.threadMakeRunnable c (s.cCurthread c) true
  | .sleep, wc => do
    let w ← deref wc
    let s₁ ← s.threadlistAddtail (.wchan w) (s.cCurthread c)
    s₁.spinlockRelease c (.client w)
  | .zombie, _ => s.threadlistAddtail (.zombies c) (s.cCurthread c)

/-- `thread_switch`, until the current thread is in the right place. -/
def threadSwitch (s : SchedSys) (c : ℕ) (newstate : ThreadState) (wc : Option ℕ) :
    Except Stop SchedSys :=
  if s.cIsidle c then .ok (s.goto c (s.base c))
  else do
    let s₁ ← s.spinlockAcquire c (.runqueue c)
    if newstate = .ready ∧ s.lists (.runqueue c) = [] then do
      let s₂ ← s₁.spinlockRelease c (.runqueue c)
      return s₂.goto c (s.base c)
    else do
      let s₂ ← s₁.place c newstate wc
      return s₂.goto c (.queued newstate)

/-- The thread at the head of the run queue is chosen, or the CPU idles. -/
def pick (s : SchedSys) (c : ℕ) : Except Stop SchedSys :=
  match s.threadlistRemhead (.runqueue c) with
  | (none, s₁) => do
    let s₂ ← s₁.spinlockRelease c (.runqueue c)
    return s₂.goto c .idle
  | (some next, s₁) =>
    .ok { s₁.goto c .landed with
      cIsidle := Function.update s.cIsidle c false
      cCurthread := Function.update s.cCurthread c next }

/-- `thread_destroy`. -/
def threadDestroy (s : SchedSys) (c : ℕ) (t : ThreadPtr) : Except Stop SchedSys := do
  kassert (t ≠ s.cCurthread c)
  kassert (s.tState t ≠ .run)
  kassert (s.tProc t = none)
  kassert (s.listed t = none)
  return { s with live := Function.update s.live t false }

/-- One turn of `exorcise`. -/
def exorcise (s : SchedSys) (c : ℕ) : Except Stop SchedSys :=
  match s.threadlistRemhead (.zombies c) with
  | (none, s₁) => .ok (s₁.goto c .thread)
  | (some z, s₁) => do
    kassert (z ≠ s.cCurthread c)
    kassert (s.tState z = .zombie)
    s₁.threadDestroy c z

/-! ## Migration -/

/-- The end of `thread_consider_migration`. -/
def finishMigration (s : SchedSys) (c : ℕ) : Except Stop SchedSys := do
  kassert (s.lists (.victims c) = [])
  return s.goto c .ticked

/-- The next victim goes to CPU `i`, unless it is the current thread. -/
def sendVictim (s : SchedSys) (c i toSend oneShare : ℕ) : Except Stop SchedSys :=
  match s.threadlistRemhead (.victims c) with
  | (none, _) => .error (.panic .kassert)
  | (some t, s₁) =>
    if t = s.cCurthread c then do
      let s₂ ← s₁.threadlistAddtail (.victims c) t
      return s₂.goto c (.migrate (.send i (toSend - 1) oneShare))
    else do
      let s₂ ← { s₁ with tCpu := Function.update s.tCpu t i }.threadlistAddtail (.runqueue i) t
      return (s₂.unidle c i).goto c (.migrate (.send i (toSend - 1) oneShare))

/-- The next step of `thread_consider_migration`. -/
def migrate (n : ℕ) (s : SchedSys) (c : ℕ) : MigPc → Except Stop SchedSys
  | .sample i myCount totalCount =>
    if i < n then do
      let s₁ ← s.spinlockAcquire c (.runqueue i)
      let s₂ ← s₁.spinlockRelease c (.runqueue i)
      let count := (s.lists (.runqueue i)).length
      return s₂.goto c (.migrate
        (.sample (i + 1) (if i = c then count else myCount) (wadd totalCount count)))
    else if myCount < divroundup totalCount n then .ok (s.goto c .ticked)
    else do
      let s₁ ← s.spinlockAcquire c (.runqueue c)
      return s₁.goto c (.migrate
        (.pull 0 (myCount - divroundup totalCount n) (divroundup totalCount n)))
  | .pull i toSend oneShare =>
    if i < toSend then
      match s.threadlistRemtail (.runqueue c) with
      | (none, _) => .error (.panic .kassert)
      | (some t, s₁) => do
        let s₂ ← s₁.threadlistAddhead (.victims c) t
        return s₂.goto c (.migrate (.pull (i + 1) toSend oneShare))
    else do
      let s₁ ← s.spinlockRelease c (.runqueue c)
      return s₁.goto c (.migrate (.distribute 0 toSend oneShare))
  | .distribute i toSend oneShare =>
    if i < n ∧ 0 < toSend then
      if i = c then .ok (s.goto c (.migrate (.distribute (i + 1) toSend oneShare)))
      else do
        let s₁ ← s.spinlockAcquire c (.runqueue i)
        return s₁.goto c (.migrate (.send i toSend oneShare))
    else .ok (s.goto c (.migrate .leftovers))
  | .send i toSend oneShare =>
    if (s.lists (.runqueue i)).length < oneShare ∧ 0 < toSend then s.sendVictim c i toSend oneShare
    else do
      let s₁ ← s.spinlockRelease c (.runqueue i)
      return s₁.goto c (.migrate (.distribute (i + 1) toSend oneShare))
  | .leftovers =>
    if s.lists (.victims c) = [] then s.finishMigration c
    else do
      let s₁ ← s.spinlockAcquire c (.runqueue c)
      return s₁.goto c (.migrate .giveBack)
  | .giveBack =>
    match s.threadlistRemhead (.victims c) with
    | (some t, s₁) => s₁.threadlistAddtail (.runqueue c) t
    | (none, s₁) => do
      let s₂ ← s₁.spinlockRelease c (.runqueue c)
      s₂.finishMigration c
  | .done => .error .blocked

/-! ## The steps -/

/-- The next step of the scheduler itself. -/
def resume (n : ℕ) (s : SchedSys) (c : ℕ) : Except Stop SchedSys :=
  match s.pc c with
  | .gather w =>
    match s.threadlistRemhead (.wchan w) with
    | (none, s₁) => .ok (s₁.goto c .waking)
    | (some t, s₁) => s₁.threadlistAddtail (.wakeup c) t
  | .waking =>
    match s.threadlistRemhead (.wakeup c) with
    | (none, s₁) => .ok (s₁.goto c (s.base c))
    | (some t, s₁) => s₁.threadMakeRunnable c t false
  | .clearIpi =>
    .ok { s.goto c (s.base c) with ipiLine := Function.update s.ipiLine c false }
  | .migrate m => s.migrate n c m
  | .ticked => s.threadSwitch c .ready none
  | .queued newstate =>
    .ok { (s.setState (s.cCurthread c) newstate).goto c .choose with
      cIsidle := Function.update s.cIsidle c true }
  | .choose => s.pick c
  | .idle => .ok (s.goto c .woken)
  | .woken => do
    require (s.inHandler c = false)
    let s₁ ← s.spinlockAcquire c (.runqueue c)
    return s₁.goto c .choose
  | .landed => do
    let s₁ ← (s.setState (s.cCurthread c) .run).spinlockRelease c (.runqueue c)
    return s₁.goto c .exorcise
  | .exorcise => s.exorcise c
  | .unborn | .thread | .halted => .error .blocked

/-- The code of the thread runs: not a handler, and neither `thread_fork` nor `thread_exit`. -/
def InCode (s : SchedSys) (c : ℕ) : Prop :=
  s.pc c = .thread ∧ s.inHandler c = false ∧ s.tProc (s.cCurthread c) ≠ none ∧
    s.lists (.newthread (s.cCurthread c)) = []

instance (s : SchedSys) (c : ℕ) : Decidable (s.InCode c) :=
  inferInstanceAs (Decidable (_ ∧ _ ∧ _ ∧ _))

/-- The code of a handler runs. -/
def Handling (s : SchedSys) (c : ℕ) : Prop := s.pc c = s.base c ∧ s.inHandler c = true

instance (s : SchedSys) (c : ℕ) : Decidable (s.Handling c) := inferInstanceAs (Decidable (_ ∧ _))

/-- `wchan_sleep`, until the thread is on the channel. -/
def wchanSleep (s : SchedSys) (c w : ℕ) : Except Stop SchedSys := do
  kassert (s.inHandler c = false)
  kassert (s.splkHolder (.client w) = some c)
  kassert (s.cSpinlocks c = 1)
  s.threadSwitch c .sleep (some w)

/-- `wchan_wakeone`, until the thread is off the channel. -/
def wchanWakeone (s : SchedSys) (c w : ℕ) : Except Stop SchedSys := do
  kassert (s.splkHolder (.client w) = some c)
  match s.threadlistRemhead (.wchan w) with
  | (none, s₁) => return s₁
  | (some t, s₁) => do
    let s₂ ← s₁.threadlistAddtail (.wakeup c) t
    return s₂.goto c .waking

/-- `wchan_wakeall`, up to its loops. -/
def wchanWakeall (s : SchedSys) (c w : ℕ) : Except Stop SchedSys := do
  kassert (s.splkHolder (.client w) = some c)
  return s.goto c (.gather w)

/-- `proc_addthread`. -/
def procAddthread (s : SchedSys) (p : ProcId) (t : ThreadPtr) : Except Stop SchedSys := do
  kassert (s.tProc t = none)
  return { s with
    tProc := Function.update s.tProc t (some p)
    pNumthreads := Function.update s.pNumthreads p (s.pNumthreads p + 1) }

/-- `proc_remthread`. -/
def procRemthread (s : SchedSys) (t : ThreadPtr) : Except Stop SchedSys :=
  match s.tProc t with
  | none => .error (.panic .kassert)
  | some p => do
    kassert (0 < s.pNumthreads p)
    return { s with
      tProc := Function.update s.tProc t none
      pNumthreads := Function.update s.pNumthreads p (s.pNumthreads p - 1) }

/-- `thread_create`, with `t_cpu` of the thread that forks. -/
def threadCreate (s : SchedSys) (c : ℕ) (t : ThreadPtr) : SchedSys :=
  { s with
    live := Function.update s.live t true
    listed := Function.update s.listed t none
    tState := Function.update s.tState t .ready
    tCpu := Function.update s.tCpu t (s.tCpu (s.cCurthread c))
    tProc := Function.update s.tProc t none
    tInInterrupt := Function.update s.tInInterrupt t false }

/-- `thread_fork`, until the thread is in its process; `thread_make_runnable` comes next. -/
def threadFork (s : SchedSys) (c : ℕ) (t : ThreadPtr) (proc : Option ProcId) :
    Except Stop SchedSys := do
  let p ← deref (proc.or (s.tProc (s.cCurthread c)))
  let s₁ ← (s.threadCreate c t).procAddthread p t
  s₁.threadlistAddtail (.newthread (s.cCurthread c)) t

/-- The end of `thread_fork`. -/
def forkStart (s : SchedSys) (c : ℕ) : Except Stop SchedSys :=
  match s.threadlistRemhead (.newthread (s.cCurthread c)) with
  | (none, _) => .error .blocked
  | (some t, s₁) => s₁.threadMakeRunnable c t false

/-- The end of `thread_exit`: where `thread_switch` returns at once it panics. -/
def zombify (s : SchedSys) (c : ℕ) : Except Stop SchedSys :=
  if s.cIsidle c then .error (.panic .kassert) else s.threadSwitch c .zombie none

/-- An interrupt: interrupts are on in the thread, unless it holds a spinlock, and in `cpu_idle`. -/
def irq (s : SchedSys) (c : ℕ) : Except Stop SchedSys := do
  require (s.inHandler c = false ∧
    (s.pc c = .thread ∧ s.cSpinlocks c = 0 ∨ s.pc c = .idle ∨ s.pc c = .woken))
  return { s.goto c (s.base c) with
    tInInterrupt := Function.update s.tInInterrupt (s.cCurthread c) true }

/-- The end of an interrupt, where the spinlocks are the ones that were held before: none, which is
checked unless the CPU idles. -/
def iret (s : SchedSys) (c : ℕ) : Except Stop SchedSys := do
  kassert (s.cIsidle c = true ∨ s.cSpinlocks c = 0)
  return { s with tInInterrupt := Function.update s.tInInterrupt (s.cCurthread c) false }

/-- `interprocessor_interrupt`. -/
def interprocessorInterrupt (s : SchedSys) (c : ℕ) : Except Stop SchedSys :=
  if (s.cIpiPending c).testBit ipiOffline then do
    let s₁ ← s.spinlockAcquire c (.runqueue c)
    let s₂ ← s₁.spinlockRelease c (.runqueue c)
    return s₂.goto c .halted
  else .ok { s.goto c .clearIpi with cIpiPending := Function.update s.cIpiPending c 0 }

/-- `hardclock`, up to what it calls. -/
def hardclock (s : SchedSys) (c : ℕ) : SchedSys :=
  { s.goto c (if wadd (s.cHardclocks c) 1 % migrateHardclocks = 0 then .migrate (.sample 0 0 0)
      else .ticked) with
    cHardclocks := Function.update s.cHardclocks c (wadd (s.cHardclocks c) 1) }

/-- A step of CPU `c`. -/
def stepOn (n : ℕ) (s : SchedSys) (c : ℕ) : SchedAction → Except Stop SchedSys
  | .acquire w => do
    require (s.InCode c ∨ s.Handling c)
    s.spinlockAcquire c (.client w)
  | .release w => do
    require (s.InCode c ∨ s.Handling c)
    s.spinlockRelease c (.client w)
  | .sleep w => do
    require (s.InCode c ∨ s.Handling c)
    s.wchanSleep c w
  | .wakeone w => do
    require (s.InCode c ∨ s.Handling c)
    s.wchanWakeone c w
  | .wakeall w => do
    require (s.InCode c ∨ s.Handling c)
    s.wchanWakeall c w
  | .fork t proc => do
    require (s.InCode c ∧ s.live t = false)
    s.threadFork c t proc
  | .start => do
    require (s.pc c = .thread ∧ s.inHandler c = false)
    s.forkStart c
  | .exit => do
    require (s.InCode c)
    s.procRemthread (s.cCurthread c)
  | .zombify => do
    require (s.pc c = .thread ∧ s.inHandler c = false ∧ s.tProc (s.cCurthread c) = none)
    s.zombify c
  | .yield => do
    require (s.InCode c)
    s.threadSwitch c .ready none
  | .shutdown target => do
    require (s.InCode c ∧ target < n ∧ target ≠ c)
    return s.ipiSend target ipiOffline
  | .irq => s.irq c
  | .ipi => do
    require (s.Handling c ∧ s.ipiLine c = true)
    s.interprocessorInterrupt c
  | .tick => do
    require (s.Handling c)
    return s.hardclock c
  | .iret => do
    require (s.Handling c)
    s.iret c
  | .hatch => do
    require (s.pc c = .unborn)
    return s.goto c .thread
  | .resume => s.resume n c

/-- A step of one of the `n` CPUs. -/
def step (n : ℕ) (s : SchedSys) (a : ℕ × SchedAction) : Except Stop SchedSys := do
  require (a.1 < n)
  s.stepOn n a.1 a.2

/-- What the scheduler asks of its callers: they do not acquire a spinlock twice, release those that
they hold, sleep and wake with the spinlock of the channel, sleep outside of handlers and with no other
spinlock, and hold none at the end of a handler. -/
def Client (s : SchedSys) (a : ℕ × SchedAction) : Prop :=
  match a.2 with
  | .acquire w => s.splkHolder (.client w) ≠ some a.1
  | .release w | .wakeone w | .wakeall w => s.splkHolder (.client w) = some a.1
  | .sleep w =>
    s.inHandler a.1 = false ∧ s.splkHolder (.client w) = some a.1 ∧ s.cSpinlocks a.1 = 1
  | .iret => s.cSpinlocks a.1 = 0
  | _ => True

instance (s : SchedSys) : ∀ a, Decidable (s.Client a)
  | (_, .acquire _) => inferInstanceAs (Decidable (_ ≠ _))
  | (_, .release _) | (_, .wakeone _) | (_, .wakeall _) => inferInstanceAs (Decidable (_ = _))
  | (_, .sleep _) => inferInstanceAs (Decidable (_ ∧ _))
  | (_, .iret) => inferInstanceAs (Decidable (_ = _))
  | (_, .fork ..) | (_, .start) | (_, .exit) | (_, .zombify) | (_, .yield) | (_, .shutdown _)
  | (_, .irq) | (_, .ipi) | (_, .tick) | (_, .hatch) | (_, .resume) =>
    inferInstanceAs (Decidable True)

end SchedSys

/-! ## The start -/

/-- The CPUs with the threads that are current on them at the start. -/
structure SchedBoot where
  numcpus : ℕ
  bootthread : ℕ → ThreadPtr
  apart : ∀ c < numcpus, ∀ d < numcpus, bootthread c = bootthread d → c = d

namespace SchedBoot

/-- The CPU that a thread was made for. -/
def cpuOf (P : SchedBoot) (t : ThreadPtr) : Option ℕ :=
  (List.range P.numcpus).find? fun c => P.bootthread c = t

/-- After `cpu_create` for every CPU: the first one runs, the others are started later. -/
def boot (P : SchedBoot) : SchedSys where
  lists _ := []
  listed _ := none
  live t := (P.cpuOf t).isSome
  tState _ := .ready
  tCpu t := (P.cpuOf t).getD 0
  tProc t := (P.cpuOf t).map fun _ => kproc
  tInInterrupt _ := false
  pNumthreads p := if p = kproc then P.numcpus else 0
  splkHolder _ := none
  cCurthread := P.bootthread
  cIsidle _ := false
  cHardclocks _ := 0
  cSpinlocks _ := 0
  cIpiPending _ := 0
  ipiLine _ := false
  pc c := if c = 0 then .thread else .unborn

end SchedBoot

end Os161
