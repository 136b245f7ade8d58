import Os161.Machine.Stop
import Os161.Machine.Word

set_option autoImplicit false

/-!
# Semaphores as files

`semfs_vnops.c`: a read of `n` bytes is `P` by `n`, a write of `n` bytes is `V` by `n`, and a
truncation sets the count. The calls run in any number of threads. The lock gives mutual exclusion,
and a signal wakes one thread, which goes on when it has the lock again.

* `semfsRead`, `semfsWrite`, `semfsTruncate`: the calls; `SemSys.step`: all threads.
* `Attended`: while the count is positive and a reader sleeps, another one was woken.
* **`attended_run`**: it holds as long as no call raises a positive count while a reader sleeps.
-/

namespace Os161

open Transition

/-- The errors of the calls. -/
inductive SemErr
  | efbig
  | einval
  deriving DecidableEq, Repr

/-- Where a thread is: outside with the result of its last call, at `lock_acquire`, in the body of a
call with the lock, asleep in `cv_wait`, or woken there. A reader in the body knows whether it has
been woken. -/
inductive SemPc
  | returned (e : Option SemErr)
  | readLock (resid : ℕ)
  | readLoop (resid : ℕ) (woken : Bool)
  | asleep (resid : ℕ)
  | woken (resid : ℕ)
  | writeLock (resid : ℕ)
  | writeLoop (resid : ℕ)
  | truncateLock (newcount : ℕ)
  | truncateBody (newcount : ℕ)
  deriving DecidableEq, Repr

/-- `semfs_sem` and its threads: `sems_count`, the holder of `sems_lock`, the threads that sleep on
`sems_cv`, and where each thread is. -/
structure SemSys where
  count : ℕ
  lock : Option ThreadId
  sleepers : List ThreadId
  pc : ThreadId → SemPc

/-- What happens: a thread calls `semfs_read`, `semfs_write` or `semfs_truncate`, gets the lock, or
runs with the lock. `who` is the thread that a signal wakes if there is one to wake. -/
inductive SemAction
  | read (t : ThreadId) (resid : ℕ)
  | write (t : ThreadId) (resid : ℕ)
  | truncate (t : ThreadId) (len : ℤ)
  | acquire (t : ThreadId)
  | body (t who : ThreadId)

namespace SemPc

/-- The thread is outside of the calls. -/
def outside : SemPc → Bool
  | .returned _ => true
  | _ => false

/-- A thread that was woken. -/
def wake : SemPc → SemPc
  | .asleep resid => .woken resid
  | pc => pc

/-- The thread has the lock after `lock_acquire`, or after `cv_wait`. -/
def acquired : SemPc → Option SemPc
  | .readLock resid => some (.readLoop resid false)
  | .woken resid => some (.readLoop resid true)
  | .writeLock resid => some (.writeLoop resid)
  | .truncateLock newcount => some (.truncateBody newcount)
  | _ => none

/-- The thread sleeps in `cv_wait`. -/
def Asleep (pc : SemPc) : Prop := ∃ resid, pc = .asleep resid

/-- The thread is a reader that was woken and has not looked at the count since. -/
def Woken (pc : SemPc) : Prop := (∃ resid, pc = .woken resid) ∨ ∃ resid, pc = .readLoop resid true

end SemPc

namespace SemSys

/-- After `semfs_sem_create`. -/
def create : SemSys := ⟨0, none, [], fun _ => .returned none⟩

/-- The thread goes on at `pc`. -/
def goto (s : SemSys) (t : ThreadId) (pc : SemPc) : SemSys :=
  { s with pc := Function.update s.pc t pc }

/-- The call returns after `lock_release`. -/
def leave (s : SemSys) (t : ThreadId) (e : Option SemErr) : SemSys :=
  { s.goto t (.returned e) with lock := none }

/-- `cv_signal`. -/
def cvSignal (s : SemSys) (who : ThreadId) : SemSys :=
  { s.goto who (s.pc who).wake with sleepers := s.sleepers.filter (· ≠ who) }

/-- `cv_broadcast`. -/
def cvBroadcast (s : SemSys) : SemSys := { s with sleepers := [], pc := fun t => (s.pc t).wake }

/-- `semfs_wakeup`. -/
def semfsWakeup (s : SemSys) (newcount : ℕ) (who : ThreadId) : SemSys :=
  if 0 < s.count ∨ newcount = 0 then s
  else if newcount = 1 then s.cvSignal who
  else s.cvBroadcast

/-- `sem->sems_count = newcount` after `semfs_wakeup`, and `lock_release`. -/
def setCount (s : SemSys) (t : ThreadId) (newcount : ℕ) (who : ThreadId) : SemSys :=
  { (s.semfsWakeup newcount who).leave t none with count := newcount }

/-- The loop of `semfs_read` until it ends or sleeps. It sleeps only when it has used up the count. -/
def semfsRead (s : SemSys) (t : ThreadId) (resid : ℕ) : SemSys :=
  let consume := min resid s.count
  let s' := { s with count := s.count - consume }
  if resid - consume = 0 then s'.leave t none
  else { s'.goto t (.asleep (resid - consume)) with lock := none, sleepers := t :: s.sleepers }

/-- The body of `semfs_write`. The sum is one of 32-bit numbers. -/
def semfsWrite (s : SemSys) (t : ThreadId) (resid : ℕ) (who : ThreadId) : SemSys :=
  if resid = 0 then s.leave t none
  else
    let newcount := wadd s.count resid
    if newcount < s.count then s.leave t (some .efbig) else s.setCount t newcount who

/-- `semfs_truncate` before it takes the lock. -/
def semfsTruncate (len : ℤ) : SemPc :=
  if len < 0 then .returned (some .einval)
  else if (wordSize : ℤ) ≤ len then .returned (some .efbig)
  else .truncateLock len.toNat

/-- One step of a thread. -/
def step (s : SemSys) : SemAction → Except Stop SemSys
  | .read t resid => do
    require ((s.pc t).outside = true ∧ resid < wordSize)
    return s.goto t (.readLock resid)
  | .write t resid => do
    require ((s.pc t).outside = true ∧ resid < wordSize)
    return s.goto t (.writeLock resid)
  | .truncate t len => do
    require ((s.pc t).outside = true)
    return s.goto t (semfsTruncate len)
  | .acquire t =>
    match (s.pc t).acquired with
    | none => .error .blocked
    | some pc => do
      require (s.lock = none)
      return { s.goto t pc with lock := some t }
  | .body t who => do
    require (s.sleepers = [] ∨ who ∈ s.sleepers)
    match s.pc t with
    | .readLoop resid _ => return s.semfsRead t resid
    | .writeLoop resid => return s.semfsWrite t resid who
    | .truncateBody newcount => return s.setCount t newcount who
    | _ => .error .blocked

/-- **No wakeup is lost**: while the count is positive and a reader sleeps, another one was woken
and has still to run. -/
def Attended (s : SemSys) : Prop :=
  0 < s.count → (∃ t, (s.pc t).Asleep) → ∃ t, (s.pc t).Woken

/-- The step does not raise a count that is positive while a reader sleeps. -/
def Timely (s : SemSys) : SemAction → Prop
  | .body t _ =>
    match s.pc t with
    | .writeLoop resid => 0 < s.count → s.count < wadd s.count resid → s.sleepers = []
    | .truncateBody newcount => 0 < s.count → s.count < newcount → s.sleepers = []
    | _ => True
  | _ => True

instance (s : SemSys) (a : SemAction) : Decidable (s.Timely a) := by
  unfold Timely
  split
  · split <;> infer_instance
  · infer_instance

/-- **The invariant**: the list of the sleepers is right, a reader that slept still wants something,
and while one sleeps the count is at most 1 and not positive unless another one was woken. -/
structure Inv (s : SemSys) : Prop where
  mem_sleepers : ∀ t, t ∈ s.sleepers ↔ (s.pc t).Asleep
  asleep : ∀ t resid, s.pc t = .asleep resid → 0 < resid
  woken : ∀ t resid, s.pc t = .woken resid → 0 < resid
  looping : ∀ t resid, s.pc t = .readLoop resid true → 0 < resid
  count : s.sleepers ≠ [] → s.count ≤ 1
  attended : s.sleepers ≠ [] → 0 < s.count → ∃ t, (s.pc t).Woken

end SemSys

section Lemmas

variable {s s' : SemSys} {t who : ThreadId} {pc : SemPc}

namespace SemPc

theorem not_asleep_wake : ¬ pc.wake.Asleep := by
  rintro ⟨resid, h⟩
  cases pc <;> cases h

theorem Woken.not_asleep (h : pc.Woken) : ¬ pc.Asleep := by
  rintro ⟨resid, rfl⟩
  rcases h with ⟨_, h⟩ | ⟨_, h⟩ <;> cases h

/-- Only a sleeper is changed by being woken. -/
theorem wake_of_not_asleep (h : ¬ pc.Asleep) : pc.wake = pc := by
  cases pc with
  | asleep resid => exact absurd ⟨resid, rfl⟩ h
  | _ => rfl

theorem Asleep.woken (h : pc.Asleep) : pc.wake.Woken := by
  obtain ⟨resid, rfl⟩ := h
  exact .inl ⟨resid, rfl⟩

end SemPc

namespace SemSys

theorem Inv.of_attended (h : s.Inv) : s.Attended := by
  rintro hpos ⟨t, ht⟩
  exact h.attended (List.ne_nil_of_mem ((h.mem_sleepers t).mpr ht)) hpos

theorem inv_create : create.Inv where
  mem_sleepers t := by
    constructor
    · intro h
      cases h
    · rintro ⟨resid, h⟩
      cases h
  asleep t resid h := by cases h
  woken t resid h := by cases h
  looping t resid h := by cases h
  count h := absurd rfl h
  attended h := absurd rfl h

/-- The thread that was woken, if it is not `t`, is still there when `t` goes on. -/
theorem Inv.attended_of_ne (h : s.Inv) (ht : ¬ (s.pc t).Woken) (hne : s.sleepers ≠ [])
    (hpos : 0 < s.count) : ∃ u ≠ t, (s.pc u).Woken := by
  obtain ⟨u, hu⟩ := h.attended hne hpos
  refine ⟨u, ?_, hu⟩
  rintro rfl
  exact ht hu

/-- **A thread goes on** that does not sleep before or after. -/
theorem Inv.goto (h : s.Inv) (hs : s'.pc = Function.update s.pc t pc)
    (hsl : s'.sleepers = s.sleepers) (hold : ¬ (s.pc t).Asleep) (hnew : ¬ pc.Asleep)
    (hwoken : ∀ resid, pc ≠ .woken resid) (hloop : ∀ resid, pc = .readLoop resid true → 0 < resid)
    (hcount : s.sleepers ≠ [] → s'.count ≤ 1)
    (hatt : s.sleepers ≠ [] → 0 < s'.count → pc.Woken ∨ ∃ u ≠ t, (s.pc u).Woken) : s'.Inv := by
  have hself : s'.pc t = pc := by rw [hs, Function.update_self]
  have hother : ∀ u ≠ t, s'.pc u = s.pc u := fun u hu => by rw [hs, Function.update_of_ne hu]
  refine ⟨fun u => ?_, fun u resid hu => ?_, fun u resid hu => ?_, fun u resid hu => ?_,
    by rw [hsl]; exact hcount, fun hne hpos => ?_⟩
  · rw [hsl]
    by_cases he : u = t
    · rw [he, hself]
      exact iff_of_false (fun hm => hold ((h.mem_sleepers t).mp hm)) hnew
    · rw [hother u he]
      exact h.mem_sleepers u
  · by_cases he : u = t
    · rw [he, hself] at hu
      exact absurd ⟨resid, hu⟩ hnew
    · rw [hother u he] at hu
      exact h.asleep u resid hu
  · by_cases he : u = t
    · rw [he, hself] at hu
      exact absurd hu (hwoken resid)
    · rw [hother u he] at hu
      exact h.woken u resid hu
  · by_cases he : u = t
    · rw [he, hself] at hu
      exact hloop resid hu
    · rw [hother u he] at hu
      exact h.looping u resid hu
  · rw [hsl] at hne
    rcases hatt hne hpos with hw | ⟨u, hu, hw⟩
    · exact ⟨t, by rw [hself]; exact hw⟩
    · exact ⟨u, by rw [hother u hu]; exact hw⟩

/-- A call returns, and the count is not raised. -/
theorem Inv.leave (h : s.Inv) (e : Option SemErr) {n : ℕ} (hold : ¬ (s.pc t).Asleep)
    (hcount : s.sleepers ≠ [] → n ≤ s.count)
    (hwoken : s.sleepers ≠ [] → (s.pc t).Woken → n = 0) :
    ({ s.leave t e with count := n } : SemSys).Inv := by
  refine h.goto rfl rfl hold ?_ (fun _ => SemPc.noConfusion) (fun _ => SemPc.noConfusion)
    (fun hne => le_trans (hcount hne) (h.count hne)) fun hne hpos => .inr ?_
  · rintro ⟨resid, hr⟩
    cases hr
  · have hn : 0 < n := hpos
    have := hcount hne
    exact h.attended_of_ne (fun hw => absurd (hwoken hne hw) (by omega)) hne (by omega)

/-- **A signal** wakes a sleeper if there is one. -/
theorem Inv.cvSignal (h : s.Inv) (hwho : s.sleepers = [] ∨ who ∈ s.sleepers) :
    (s.cvSignal who).Inv ∧ (s.sleepers ≠ [] → ((s.cvSignal who).pc who).Woken) := by
  have hself : (s.cvSignal who).pc who = (s.pc who).wake := Function.update_self ..
  have hother : ∀ u ≠ who, (s.cvSignal who).pc u = s.pc u := fun u hu => Function.update_of_ne hu ..
  have hmem : ∀ u, u ∈ (s.cvSignal who).sleepers ↔ u ∈ s.sleepers ∧ u ≠ who := fun u => by
    change u ∈ s.sleepers.filter _ ↔ _
    rw [List.mem_filter, decide_eq_true_eq]
  have hne_of : (s.cvSignal who).sleepers ≠ [] → s.sleepers ≠ [] := fun hne hnil => by
    obtain ⟨u, hu⟩ := List.exists_mem_of_ne_nil _ hne
    have := ((hmem u).mp hu).1
    rw [hnil] at this
    cases this
  have hwake : s.sleepers ≠ [] → ((s.cvSignal who).pc who).Woken := fun hne => by
    rw [hself]
    exact ((h.mem_sleepers who).mp (hwho.resolve_left hne)).woken
  refine ⟨⟨fun u => ?_, fun u resid hu => ?_, fun u resid hu => ?_, fun u resid hu => ?_,
    fun hne => h.count (hne_of hne), fun hne _ => ⟨who, hwake (hne_of hne)⟩⟩, hwake⟩
  · rw [hmem]
    by_cases he : u = who
    · rw [he, hself]
      exact iff_of_false (fun hm => hm.2 rfl) SemPc.not_asleep_wake
    · rw [hother u he, h.mem_sleepers]
      exact and_iff_left he
  · by_cases he : u = who
    · rw [he, hself] at hu
      exact absurd ⟨resid, hu⟩ SemPc.not_asleep_wake
    · rw [hother u he] at hu
      exact h.asleep u resid hu
  · by_cases he : u = who
    · rw [he, hself] at hu
      cases hw : s.pc who with
      | asleep r =>
        rw [hw] at hu
        cases hu
        exact h.asleep who _ hw
      | _ => rw [hw] at hu; cases hu <;> exact h.woken who _ hw
    · rw [hother u he] at hu
      exact h.woken u resid hu
  · by_cases he : u = who
    · rw [he, hself] at hu
      cases hw : s.pc who with
      | readLoop r w =>
        rw [hw] at hu
        cases hu
        exact h.looping who _ hw
      | _ => rw [hw] at hu; cases hu
    · rw [hother u he] at hu
      exact h.looping u resid hu

/-- **A broadcast** leaves no sleeper. -/
theorem Inv.cvBroadcast (h : s.Inv) : s.cvBroadcast.Inv where
  mem_sleepers u := iff_of_false List.not_mem_nil SemPc.not_asleep_wake
  asleep u resid hu := absurd ⟨resid, hu⟩ SemPc.not_asleep_wake
  woken u resid hu := by
    have hu : (s.pc u).wake = .woken resid := hu
    cases hw : s.pc u with
    | asleep r =>
      rw [hw] at hu
      cases hu
      exact h.asleep u _ hw
    | _ => rw [hw] at hu; cases hu <;> exact h.woken u _ hw
  looping u resid hu := by
    have hu : (s.pc u).wake = .readLoop resid true := hu
    cases hw : s.pc u with
    | readLoop r w =>
      rw [hw] at hu
      cases hu
      exact h.looping u _ hw
    | _ => rw [hw] at hu; cases hu
  count hne := absurd rfl hne
  attended hne := absurd rfl hne

/-- A signal wakes only sleepers. -/
theorem cvSignal_pc_of_not_asleep (hold : ¬ (s.pc t).Asleep) :
    (s.cvSignal who).pc t = s.pc t := by
  by_cases he : t = who
  · rw [← he]
    exact (Function.update_self ..).trans (SemPc.wake_of_not_asleep hold)
  · exact Function.update_of_ne he ..

/-- **The count is set** by a write or a truncation, with the wakeup before. -/
theorem Inv.setCount (h : s.Inv) (hold : ¬ (s.pc t).Asleep) (hnot : ¬ (s.pc t).Woken)
    (hwho : s.sleepers = [] ∨ who ∈ s.sleepers) {n : ℕ}
    (htimely : 0 < s.count → s.count < n → s.sleepers = []) : (s.setCount t n who).Inv := by
  unfold SemSys.setCount semfsWakeup
  by_cases hskip : 0 < s.count ∨ n = 0
  · rw [if_pos hskip]
    refine h.leave none hold (fun hne => ?_) fun _ hw => absurd hw hnot
    by_contra hlt
    rcases hskip with hpos | hzero
    · exact hne (htimely hpos (by omega))
    · omega
  · rw [if_neg hskip]
    by_cases hone : n = 1
    · rw [if_pos hone, hone]
      obtain ⟨hinv, hwoken⟩ := h.cvSignal hwho
      have hpc : (s.cvSignal who).pc t = s.pc t := cvSignal_pc_of_not_asleep hold
      refine hinv.goto rfl rfl (by rw [hpc]; exact hold) ?_ (fun _ => SemPc.noConfusion)
        (fun _ => SemPc.noConfusion) (fun _ => le_rfl) fun hne _ => .inr ?_
      · rintro ⟨resid, hr⟩
        cases hr
      -- The thread that the signal woke is another one: `t` was awake.
      · have hsl : s.sleepers ≠ [] := fun hnil => hne (by
          change s.sleepers.filter _ = []
          rw [hnil]
          rfl)
        refine ⟨who, ?_, hwoken hsl⟩
        rintro rfl
        exact hold ((h.mem_sleepers who).mp (hwho.resolve_left hsl))
    · rw [if_neg hone]
      exact h.cvBroadcast.leave none SemPc.not_asleep_wake (fun hne => absurd rfl hne)
        fun hne => absurd rfl hne

/-- **A read** goes on with the lock: it takes what there is, and sleeps only at a count of 0. -/
theorem Inv.semfsRead (h : s.Inv) {resid : ℕ} {w : Bool} (hpc : s.pc t = .readLoop resid w) :
    (s.semfsRead t resid).Inv := by
  have hold : ¬ (s.pc t).Asleep := by
    rintro ⟨r, hr⟩
    rw [hpc] at hr
    cases hr
  unfold SemSys.semfsRead
  by_cases hdone : resid - min resid s.count = 0
  · rw [if_pos hdone]
    refine h.leave (n := s.count - min resid s.count) none hold (fun _ => Nat.sub_le _ _)
      fun hne hw => ?_
    -- A reader that was woken wants at least 1, and the count is at most 1.
    have hle := h.count hne
    rcases hw with ⟨r, hr⟩ | ⟨r, hr⟩
    · rw [hpc] at hr
      cases hr
    · have hpos := h.looping t r hr
      rw [hpc] at hr
      cases hr
      omega
  · rw [if_neg hdone]
    have hzero : s.count - min resid s.count = 0 := by omega
    refine ⟨fun u => ?_, fun u r hu => ?_, fun u r hu => ?_, fun u r hu => ?_,
      fun _ => le_of_eq_of_le hzero (Nat.zero_le _), fun _ hpos => absurd hpos (by
        change ¬ 0 < s.count - min resid s.count
        omega)⟩
    · change u ∈ t :: s.sleepers ↔ (Function.update s.pc t _ u).Asleep
      by_cases he : u = t
      · rw [he, Function.update_self]
        exact iff_of_true List.mem_cons_self ⟨_, rfl⟩
      · rw [Function.update_of_ne he, List.mem_cons, h.mem_sleepers]
        exact or_iff_right he
    · have hu : Function.update s.pc t _ u = .asleep r := hu
      by_cases he : u = t
      · rw [he, Function.update_self] at hu
        cases hu
        omega
      · rw [Function.update_of_ne he] at hu
        exact h.asleep u r hu
    · have hu : Function.update s.pc t _ u = .woken r := hu
      by_cases he : u = t
      · rw [he, Function.update_self] at hu
        cases hu
      · rw [Function.update_of_ne he] at hu
        exact h.woken u r hu
    · have hu : Function.update s.pc t _ u = .readLoop r true := hu
      by_cases he : u = t
      · rw [he, Function.update_self] at hu
        cases hu
      · rw [Function.update_of_ne he] at hu
        exact h.looping u r hu

namespace SemPc

theorem not_asleep_of_outside (h : pc.outside = true) : ¬ pc.Asleep := by
  rintro ⟨resid, rfl⟩
  cases h

theorem not_woken_of_outside (h : pc.outside = true) : ¬ pc.Woken := by
  rintro (⟨resid, rfl⟩ | ⟨resid, rfl⟩) <;> cases h

end SemPc

/-- **A call starts.** -/
theorem Inv.enter (h : s.Inv) (hout : (s.pc t).outside = true) (hnew : ¬ pc.Asleep)
    (hnot : ¬ pc.Woken) : (s.goto t pc).Inv :=
  h.goto rfl rfl (SemPc.not_asleep_of_outside hout) hnew (fun resid he => hnot (.inl ⟨resid, he⟩))
    (fun resid he => absurd (.inr ⟨resid, he⟩) hnot) h.count
    fun hne hpos => .inr (h.attended_of_ne (SemPc.not_woken_of_outside hout) hne hpos)

/-- **A thread gets the lock.** A reader that was woken keeps that in mind. -/
theorem Inv.acquire (h : s.Inv) (hacq : (s.pc t).acquired = some pc) :
    ({ s.goto t pc with lock := some t } : SemSys).Inv := by
  have hnew : ¬ pc.Asleep := by
    rintro ⟨resid, rfl⟩
    cases hpc : s.pc t <;> rw [hpc] at hacq <;> cases hacq
  have hold : ¬ (s.pc t).Asleep := by
    rintro ⟨resid, hr⟩
    rw [hr] at hacq
    cases hacq
  refine h.goto rfl rfl hold hnew (fun resid he => ?_) (fun resid he => ?_) h.count
    fun hne hpos => ?_
  · subst he
    cases hpc : s.pc t <;> rw [hpc] at hacq <;> cases hacq
  · subst he
    cases hpc : s.pc t with
    | woken r =>
      rw [hpc] at hacq
      cases hacq
      exact h.woken t _ hpc
    | _ => rw [hpc] at hacq; cases hacq
  · by_cases hw : (s.pc t).Woken
    · refine .inl ?_
      rcases hw with ⟨r, hr⟩ | ⟨r, hr⟩
      · rw [hr] at hacq
        cases hacq
        exact .inr ⟨r, rfl⟩
      · rw [hr] at hacq
        cases hacq
    · exact .inr (h.attended_of_ne hw hne hpos)

/-- **Every step keeps the invariant** when it is timely. -/
theorem Inv.step (h : s.Inv) {a : SemAction} (htimely : s.Timely a) (hs : s.step a = .ok s') :
    s'.Inv := by
  cases a with
  | read t resid =>
    obtain ⟨⟨hout, _⟩, hs⟩ := require_bind_ok.mp hs
    cases hs
    refine h.enter hout ?_ ?_
    · rintro ⟨_, hr⟩
      cases hr
    · rintro (⟨_, hr⟩ | ⟨_, hr⟩) <;> cases hr
  | write t resid =>
    obtain ⟨⟨hout, _⟩, hs⟩ := require_bind_ok.mp hs
    cases hs
    refine h.enter hout ?_ ?_
    · rintro ⟨_, hr⟩
      cases hr
    · rintro (⟨_, hr⟩ | ⟨_, hr⟩) <;> cases hr
  | truncate t len =>
    obtain ⟨hout, hs⟩ := require_bind_ok.mp hs
    cases hs
    refine h.enter hout ?_ ?_ <;> unfold semfsTruncate
    · rintro ⟨_, hr⟩
      split_ifs at hr
    · rintro (⟨_, hr⟩ | ⟨_, hr⟩) <;> split_ifs at hr
  | acquire t =>
    change (match (s.pc t).acquired with | none => _ | some pc => _) = _ at hs
    cases hacq : (s.pc t).acquired with
    | none => rw [hacq] at hs; cases hs
    | some pc =>
      rw [hacq] at hs
      obtain ⟨_, hs⟩ := require_bind_ok.mp hs
      cases hs
      exact h.acquire hacq
  | body t who =>
    obtain ⟨hwho, hs⟩ := require_bind_ok.mp hs
    change (match s.pc t with
      | .writeLoop resid => 0 < s.count → s.count < wadd s.count resid → s.sleepers = []
      | .truncateBody newcount => 0 < s.count → s.count < newcount → s.sleepers = []
      | _ => True) at htimely
    cases hpc : s.pc t with
    | readLoop resid w =>
      rw [hpc] at hs
      cases hs
      exact h.semfsRead hpc
    | writeLoop resid =>
      rw [hpc] at hs htimely
      cases hs
      have hold : ¬ (s.pc t).Asleep := by
        rintro ⟨_, hr⟩
        rw [hpc] at hr
        cases hr
      have hnot : ¬ (s.pc t).Woken := by
        rintro (⟨_, hr⟩ | ⟨_, hr⟩) <;> rw [hpc] at hr <;> cases hr
      have hsame : ∀ e, (s.leave t e).Inv := fun e =>
        h.leave (n := s.count) e hold (fun _ => le_rfl) fun _ hw => absurd hw hnot
      unfold semfsWrite
      dsimp only
      split_ifs
      · exact hsame none
      · exact hsame _
      · exact h.setCount hold hnot hwho htimely
    | truncateBody newcount =>
      rw [hpc] at hs htimely
      cases hs
      refine h.setCount ?_ ?_ hwho htimely
      · rintro ⟨_, hr⟩
        rw [hpc] at hr
        cases hr
      · rintro (⟨_, hr⟩ | ⟨_, hr⟩) <;> rw [hpc] at hr <;> cases hr
    | _ => rw [hpc] at hs; cases hs

/-- **No wakeup is lost** in any run in which no call raises a positive count while a reader
sleeps. -/
theorem attended_run {as : List SemAction} (h : run step create as = .ok s)
    (htimely : Along step Timely create as) : s.Attended :=
  (run_inv_along step (fun _ _ _ hi hc => hi.step hc) inv_create htimely h).of_attended

end SemSys

end Lemmas

namespace SemSys

/-- Threads 1 and 2 read 1 each and sleep. -/
def twoReaders : List SemAction :=
  [.read 1 1, .acquire 1, .body 1 0, .read 2 1, .acquire 2, .body 2 1]

/-- Thread 0 writes 1, which wakes thread 1. -/
def oneWrite : List SemAction := [.write 0 1, .acquire 0, .body 0 1]

/-- One write for two readers: the other one is woken. -/
theorem attended_twoReaders : ∃ s, run step create (twoReaders ++ oneWrite) = .ok s ∧
    s.count = 1 ∧ s.sleepers = [2] ∧ s.Attended := by
  obtain ⟨s, hs, hobs⟩ := exists_ok_of_toOption
    (show (run step create (twoReaders ++ oneWrite)).toOption.map
      (fun s => (s.count, s.sleepers)) = some (1, [2]) by decide +kernel)
  obtain ⟨hcount, hsl⟩ := Prod.mk.inj hobs
  exact ⟨s, hs, hcount, hsl, attended_run hs (by decide +kernel)⟩

/-- A second write wakes nobody, since the count is positive, and the reader that was woken takes
only its own unit: the other one sleeps at a count of 1. -/
theorem not_attended_after_two_writes : ∃ s, run step create (twoReaders ++ oneWrite ++
      [.write 0 1, .acquire 0, .body 0 2, .acquire 1, .body 1 2]) = .ok s ∧ ¬ s.Attended := by
  refine ⟨_, rfl, fun h => ?_⟩
  obtain ⟨t, ht⟩ := h (by decide) ⟨2, 1, rfl⟩
  match t with
  | 0 | 1 | 2 | t + 3 => rcases ht with ⟨_, hr⟩ | ⟨_, hr⟩ <;> cases hr

end SemSys

end Os161
