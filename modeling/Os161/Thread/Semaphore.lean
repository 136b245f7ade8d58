import Mathlib.Data.Set.Card
import Os161.Machine.Stop
import Os161.Machine.Word

set_option autoImplicit false

/-!
# Semaphores

`P` and `V` of `synch.c` with `wchan_sleep` and `wchan_wakeone`, in any number of threads: one step
between two accesses to what the spinlock protects. A thread that goes to sleep is on the channel
before it releases the spinlock, and a thread that is woken runs for the spinlock like any other. An
interrupt handler counts as a thread.

* `Semaphore.step`: all threads.
* `Semaphore.Balance`: the count against the calls that returned and the threads that were woken,
  depending on where the holder of the spinlock is.
* **`inv_run`**: it holds in every run; **`semaphore_correct`**: what it says between the critical
  sections.
-/

namespace Os161

open Transition

/-- Where a thread is: outside, or in `P` or `V`. -/
inductive PvPc
  | returned
  | pAcquire
  | pLoop
  | pQueued
  | asleep
  | woken
  | pTake
  | pRelease
  | vAcquire
  | vGive
  | vWake
  | vRelease
  deriving DecidableEq, Repr

/-- The thread holds the spinlock. -/
def PvPc.inside : PvPc → Bool
  | .pLoop | .pQueued | .pTake | .pRelease | .vGive | .vWake | .vRelease => true
  | _ => false

/-- The thread is on the wait channel. -/
def PvPc.queued : PvPc → Bool
  | .pQueued | .asleep => true
  | _ => false

/-- The thread has taken a unit in a `P` that has not returned. -/
def PvPc.taken : PvPc → ℕ
  | .pRelease => 1
  | _ => 0

/-- The thread has given a unit in a `V` that has not returned. -/
def PvPc.given : PvPc → ℕ
  | .vWake | .vRelease => 1
  | _ => 0

/-- A semaphore and its threads: `sem_count`, the holder of `sem_lock`, the threads of `sem_wchan`,
where each thread is, and how many calls of `P` and `V` have returned. -/
structure Semaphore where
  semCount : ℕ
  semLock : Option ThreadId
  semWchan : List ThreadId
  pc : ThreadId → PvPc
  pDone : ℕ
  vDone : ℕ

/-- A thread calls `P`, perhaps in an interrupt handler, or `V`, or goes on. -/
inductive PvAction
  | P (t : ThreadId) (inInterrupt : Bool)
  | V (t : ThreadId)
  | run (t : ThreadId)
  deriving DecidableEq, Repr

namespace Semaphore

/-- `sem_create`. -/
def semCreate (initialCount : ℕ) : Semaphore := ⟨initialCount, none, [], fun _ => .returned, 0, 0⟩

/-- The thread goes on at `pc`. -/
def goto (s : Semaphore) (t : ThreadId) (pc : PvPc) : Semaphore :=
  { s with pc := Function.update s.pc t pc }

/-- `spinlock_acquire`. -/
def spinlockAcquire (s : Semaphore) (t : ThreadId) (pc : PvPc) : Except Stop Semaphore := do
  require (s.semLock = none)
  return { s.goto t pc with semLock := some t }

/-- `spinlock_release`. -/
def spinlockRelease (s : Semaphore) (t : ThreadId) (pc : PvPc) : Semaphore :=
  { s.goto t pc with semLock := none }

/-- `wchan_wakeone`. -/
def wchanWakeone (s : Semaphore) : Semaphore :=
  match s.semWchan with
  | [] => s
  | target :: rest => { s.goto target .woken with semWchan := rest }

/-- One step of a thread. -/
def step (s : Semaphore) : PvAction → Except Stop Semaphore
  | .P t inInterrupt => do
    require (s.pc t = .returned)
    kassert (inInterrupt = false)
    return s.goto t .pAcquire
  | .V t => do
    require (s.pc t = .returned)
    return s.goto t .vAcquire
  | .run t =>
    match s.pc t with
    | .returned => .error .blocked
    | .pAcquire => s.spinlockAcquire t .pLoop
    | .pLoop =>
      -- the thread is on the channel before `thread_switch` releases the spinlock
      if s.semCount = 0 then .ok { s.goto t .pQueued with semWchan := s.semWchan ++ [t] }
      else .ok (s.goto t .pTake)
    | .pQueued => .ok (s.spinlockRelease t .asleep)
    | .asleep => .error .blocked
    | .woken => s.spinlockAcquire t .pLoop
    | .pTake => do
      kassert (0 < s.semCount)
      return { s.goto t .pRelease with semCount := s.semCount - 1 }
    | .pRelease => .ok { s.spinlockRelease t .returned with pDone := s.pDone + 1 }
    | .vAcquire => s.spinlockAcquire t .vGive
    | .vGive => do
      let count := wadd s.semCount 1
      kassert (0 < count)
      return { s.goto t .vWake with semCount := count }
    | .vWake => .ok (s.wchanWakeone.goto t .vRelease)
    | .vRelease => .ok { s.spinlockRelease t .returned with vDone := s.vDone + 1 }

/-- The number of threads that were woken and do not have the spinlock yet. -/
noncomputable def wokenCount (s : Semaphore) : ℕ := {t | s.pc t = .woken}.ncard

/-- Where the holder of the spinlock is. -/
def stage (s : Semaphore) : PvPc :=
  match s.semLock with
  | some t => s.pc t
  | none => .returned

/-- **The balance of the count**, by where the holder of the spinlock is. A thread that has the
spinlock may be one that was woken, and `V` wakes one only after it has raised the count: there the
woken threads may be one less than the count. -/
def Balance (n₀ : ℕ) (s : Semaphore) : PvPc → Prop
  | .pLoop =>
    s.semCount + s.pDone = n₀ + s.vDone ∧ (s.semWchan ≠ [] → s.semCount ≤ s.wokenCount + 1)
  | .pTake =>
    s.semCount + s.pDone = n₀ + s.vDone ∧ 0 < s.semCount ∧
      (s.semWchan ≠ [] → s.semCount ≤ s.wokenCount + 1)
  | .pRelease =>
    s.semCount + s.pDone + 1 = n₀ + s.vDone ∧ (s.semWchan ≠ [] → s.semCount ≤ s.wokenCount)
  | .vWake =>
    s.semCount + s.pDone = n₀ + s.vDone + 1 ∧ 0 < s.semCount ∧
      (s.semWchan ≠ [] → s.semCount ≤ s.wokenCount + 1)
  | .vRelease =>
    s.semCount + s.pDone = n₀ + s.vDone + 1 ∧ 0 < s.semCount ∧
      (s.semWchan ≠ [] → s.semCount ≤ s.wokenCount)
  | _ => s.semCount + s.pDone = n₀ + s.vDone ∧ (s.semWchan ≠ [] → s.semCount ≤ s.wokenCount)

/-- **The invariant of a semaphore.** -/
structure Inv (n₀ : ℕ) (s : Semaphore) : Prop where
  lock : ∀ t, (s.pc t).inside = true ↔ s.semLock = some t
  nodup : s.semWchan.Nodup
  queued : ∀ t, t ∈ s.semWchan ↔ (s.pc t).queued = true
  finite : {t | s.pc t = .woken}.Finite
  bound : s.semCount < wordSize
  balance : s.Balance n₀ s.stage

section Lemmas

variable {n₀ : ℕ} {s s' : Semaphore} {t u : ThreadId} {p : PvPc}

theorem inv_semCreate (h : n₀ < wordSize) : (semCreate n₀).Inv n₀ where
  lock t := iff_of_false Bool.false_ne_true (Option.some_ne_none t).symm
  nodup := List.nodup_nil
  queued t := iff_of_false List.not_mem_nil Bool.false_ne_true
  finite := by simp [semCreate]
  bound := h
  balance := ⟨rfl, fun hne => absurd rfl hne⟩

/-- Outside of the critical sections it makes no difference where a thread is. -/
theorem balance_of_not_inside (h : p.inside = false) : s.Balance n₀ p ↔ s.Balance n₀ .returned := by
  cases p with
  | returned | pAcquire | asleep | woken | vAcquire => exact Iff.rfl
  | _ => cases h

/-- Only `t` may hold the spinlock: the balance is that of where `t` is. -/
theorem Inv.balance_of_free (h : s.Inv n₀) (hfree : ∀ u ≠ t, s.semLock ≠ some u) :
    s.Balance n₀ (s.pc t) := by
  have hbal := h.balance
  unfold stage at hbal
  split at hbal
  · next u hu =>
    by_cases he : u = t
    · rwa [he] at hbal
    · exact absurd hu (hfree u he)
  · next hnone =>
    refine (balance_of_not_inside ?_).mpr hbal
    rw [Bool.eq_false_iff]
    intro hin
    rw [(h.lock t).mp hin] at hnone
    cases hnone

/-- The count is raised below the largest word only. -/
theorem wadd_one_of_pos {n : ℕ} (hn : n < wordSize) (h : 0 < wadd n 1) : wadd n 1 = n + 1 := by
  unfold wadd wordSize at *
  omega

variable (s') in
/-- The woken threads when `t` is not one of them any more. -/
theorem wokenCount_update (h : s.Inv n₀) (hpc : s'.pc = Function.update s.pc t p)
    (hp : p ≠ .woken) :
    {u | s'.pc u = .woken}.Finite ∧
      s'.wokenCount + (if s.pc t = .woken then 1 else 0) = s.wokenCount := by
  have hset : {u | s'.pc u = .woken} = {u | s.pc u = .woken} \ {t} := by
    ext u
    simp only [Set.mem_ofPred_eq, Set.mem_sdiff, Set.mem_singleton_iff, hpc]
    by_cases he : u = t
    · subst he
      simp [hp]
    · simp [he]
  refine ⟨by rw [hset]; exact h.finite.sdiff, ?_⟩
  unfold wokenCount
  rw [hset]
  split_ifs with hw
  · exact Set.ncard_sdiff_singleton_add_one hw h.finite
  · rw [Set.sdiff_singleton_eq_self (show t ∉ {u | s.pc u = .woken} from hw), Nat.add_zero]

variable (s') in
/-- The woken threads when `u` becomes one of them. -/
theorem wokenCount_wake (h : s.Inv n₀) (hu : s.pc u ≠ .woken)
    (hpc : s'.pc = Function.update s.pc u .woken) :
    {v | s'.pc v = .woken}.Finite ∧ s'.wokenCount = s.wokenCount + 1 := by
  have hset : {v | s'.pc v = .woken} = insert u {v | s.pc v = .woken} := by
    ext v
    simp only [Set.mem_ofPred_eq, Set.mem_insert_iff, hpc]
    by_cases he : v = u
    · simp [he]
    · simp [he]
  refine ⟨by rw [hset]; exact h.finite.insert u, ?_⟩
  unfold wokenCount
  rw [hset]
  exact Set.ncard_insert_of_notMem hu h.finite

/-- **The thread that may hold the spinlock goes on.** -/
theorem Inv.move (h : s.Inv n₀) (hfree : ∀ u ≠ t, s.semLock ≠ some u)
    (hpc : s'.pc = Function.update s.pc t p) (hp : p ≠ .woken)
    (hlock : s'.semLock = if p.inside = true then some t else none) (hnodup : s'.semWchan.Nodup)
    (hqueued : ∀ u, u ∈ s'.semWchan ↔ if u = t then p.queued = true else u ∈ s.semWchan)
    (hbound : s'.semCount < wordSize)
    (hbal : s'.wokenCount + (if s.pc t = .woken then 1 else 0) = s.wokenCount →
      s.Balance n₀ (s.pc t) → s'.Balance n₀ p) : s'.Inv n₀ := by
  have hself : s'.pc t = p := by rw [hpc, Function.update_self]
  have hother : ∀ u ≠ t, s'.pc u = s.pc u := fun u hu => by rw [hpc, Function.update_of_ne hu]
  obtain ⟨hfin, hcount⟩ := wokenCount_update s' h hpc hp
  have hnew := hbal hcount (h.balance_of_free hfree)
  refine ⟨fun u => ?_, hnodup, fun u => ?_, hfin, hbound, ?_⟩
  · rw [hlock]
    by_cases he : u = t
    · subst he
      rw [hself]
      cases hin : p.inside <;> simp
    · rw [hother u he, h.lock u]
      refine iff_of_false (hfree u he) ?_
      split_ifs
      · exact fun e => he (Option.some.inj e).symm
      · exact id
  · rw [hqueued u]
    split_ifs with he
    · rw [he, hself]
    · rw [hother u he, h.queued u]
  · unfold stage
    rw [hlock]
    split_ifs with hin
    · change s'.Balance n₀ (s'.pc t)
      rwa [hself]
    · exact (balance_of_not_inside (Bool.eq_false_iff.mpr hin)).mp hnew

/-- The balance is about the count, the calls that returned, the channel and the woken threads. -/
theorem Balance.congr (h : s.Balance n₀ p) (hcount : s'.semCount = s.semCount)
    (hpd : s'.pDone = s.pDone) (hvd : s'.vDone = s.vDone) (hwchan : s'.semWchan = s.semWchan)
    (hwoken : s'.wokenCount = s.wokenCount) : s'.Balance n₀ p := by
  cases p <;> simpa only [Balance, hcount, hpd, hvd, hwchan, hwoken] using h

/-- **A call starts.** -/
theorem Inv.call (h : s.Inv n₀) (ht : s.pc t = .returned) (hin : p.inside = false)
    (hq : p.queued = false) (hp : p ≠ .woken) : (s.goto t p).Inv n₀ := by
  have hself : (s.goto t p).pc t = p := Function.update_self ..
  have hother : ∀ u ≠ t, (s.goto t p).pc u = s.pc u := fun u hu => Function.update_of_ne hu ..
  have hnot : s.semLock ≠ some t := fun hl => by
    have := (h.lock t).mpr hl
    rw [ht] at this
    cases this
  obtain ⟨hfin, hcount⟩ := wokenCount_update (s.goto t p) h rfl hp
  rw [ht, if_neg PvPc.noConfusion, Nat.add_zero] at hcount
  refine ⟨fun u => ?_, h.nodup, fun u => ?_, hfin, h.bound, ?_⟩
  · by_cases he : u = t
    · rw [he, hself, hin]
      exact iff_of_false Bool.false_ne_true hnot
    · rw [hother u he]
      exact h.lock u
  · by_cases he : u = t
    · rw [he, hself, hq]
      refine iff_of_false (fun hm => ?_) Bool.false_ne_true
      have := (h.queued t).mp hm
      rw [ht] at this
      cases this
    · rw [hother u he]
      exact h.queued u
  · have hstage : (s.goto t p).stage = s.stage := by
      unfold stage
      change (match s.semLock with | some u => _ | none => _) = _
      cases hl : s.semLock with
      | none => rfl
      | some u => exact hother u fun he => hnot (by rw [hl, he])
    rw [hstage]
    exact h.balance.congr rfl rfl rfl rfl hcount

/-- **`spinlock_acquire`.** -/
theorem Inv.acquire (h : s.Inv n₀) (hs : s.spinlockAcquire t p = .ok s')
    (hout : (s.pc t).queued = false) (hin : p.inside = true) (hq : p.queued = false)
    (hbal : ∀ s'' : Semaphore, s''.semCount = s.semCount → s''.pDone = s.pDone →
      s''.vDone = s.vDone → s''.semWchan = s.semWchan →
      s''.wokenCount + (if s.pc t = .woken then 1 else 0) = s.wokenCount →
      s.Balance n₀ (s.pc t) → s''.Balance n₀ p) : s'.Inv n₀ := by
  obtain ⟨hnone, hs⟩ := require_bind_ok.mp hs
  obtain rfl := Except.ok.inj hs
  refine h.move (t := t) (p := p) (fun u _ => by rw [hnone]; exact (Option.some_ne_none u).symm) rfl
    (by rintro rfl; cases hin) (by rw [if_pos hin]) h.nodup (fun u => ?_) h.bound
    (hbal _ rfl rfl rfl rfl)
  split_ifs with he
  · rw [he, hq]
    refine iff_of_false (fun hm => ?_) Bool.false_ne_true
    rw [(h.queued t).mp hm] at hout
    cases hout
  · exact Iff.rfl

/-- **A step of the thread that has the spinlock**, with the channel as it is. -/
theorem Inv.holder (h : s.Inv n₀) (hin : (s.pc t).inside = true)
    (hpc : s'.pc = Function.update s.pc t p) (hp : p ≠ .woken)
    (hlock : s'.semLock = if p.inside = true then some t else none)
    (hwchan : s'.semWchan = s.semWchan) (hq : p.queued = (s.pc t).queued)
    (hbound : s'.semCount < wordSize)
    (hbal : s'.wokenCount = s.wokenCount → s.Balance n₀ (s.pc t) → s'.Balance n₀ p) :
    s'.Inv n₀ := by
  have hl := (h.lock t).mp hin
  refine h.move (t := t) (fun u hu => ?_) hpc hp hlock (by rw [hwchan]; exact h.nodup)
    (fun u => ?_) hbound fun hw => hbal ?_
  · rw [hl]
    exact fun e => hu (Option.some.inj e).symm
  · rw [hwchan]
    split_ifs with he
    · rw [he, hq]
      exact h.queued t
    · exact Iff.rfl
  · rwa [if_neg, Nat.add_zero] at hw
    intro hwoken
    rw [hwoken] at hin
    cases hin

/-- **`wchan_wakeone`** by the thread that raised the count. -/
theorem Inv.wchanWakeone (h : s.Inv n₀) (ht : s.pc t = .vWake) :
    s.wchanWakeone.Inv n₀ ∧ s.wchanWakeone.pc t = .vWake ∧
      (s.wchanWakeone.semWchan ≠ [] →
        s.wchanWakeone.semCount ≤ s.wchanWakeone.wokenCount) := by
  unfold Semaphore.wchanWakeone
  cases hw : s.semWchan with
  | nil => exact ⟨h, ht, fun hne => absurd hw hne⟩
  | cons u rest =>
    have hl := (h.lock t).mp (by rw [ht]; rfl)
    have hu : (s.pc u).queued = true := (h.queued u).mp (by rw [hw]; exact List.mem_cons_self)
    have hne : u ≠ t := by
      rintro rfl
      rw [ht] at hu
      cases hu
    -- a thread on the channel that does not hold the spinlock is asleep
    have hasleep : (s.pc u).inside = false := by
      rw [Bool.eq_false_iff]
      intro hin
      rw [(h.lock u).mp hin] at hl
      exact hne (Option.some.inj hl)
    have hpcu : s.pc u = .asleep := by
      revert hu hasleep
      cases s.pc u <;> simp [PvPc.queued, PvPc.inside]
    obtain ⟨hfin, hcount⟩ := wokenCount_wake { s.goto u .woken with semWchan := rest } h
      (by rw [hpcu]; exact PvPc.noConfusion) rfl
    have hself : (s.goto u .woken).pc u = .woken := Function.update_self ..
    have hother : ∀ v ≠ u, (s.goto u .woken).pc v = s.pc v := fun v hv => Function.update_of_ne hv ..
    have hnodup := h.nodup
    rw [hw, List.nodup_cons] at hnodup
    have hbal := h.balance_of_free (t := t) fun v hv => by
      rw [hl]
      exact fun e => hv (Option.some.inj e).symm
    rw [ht] at hbal
    obtain ⟨heq, hpos, hle⟩ := hbal
    have hle := hle (by rw [hw]; exact List.cons_ne_nil _ _)
    refine ⟨⟨fun v => ?_, hnodup.2, fun v => ?_, hfin, h.bound, ?_⟩, (hother t hne.symm).trans ht,
      fun _ => by rw [hcount]; exact hle⟩
    · by_cases he : v = u
      · rw [he]
        refine iff_of_false (by rw [hself]; exact Bool.false_ne_true) fun hv => ?_
        exact hne (Option.some.inj (hv.symm.trans hl))
      · rw [hother v he]
        exact h.lock v
    · by_cases he : v = u
      · rw [he, hself]
        exact iff_of_false hnodup.1 Bool.false_ne_true
      · rw [hother v he, ← h.queued v, hw, List.mem_cons]
        exact ⟨.inr, fun hv => hv.resolve_left he⟩
    · unfold stage
      change Balance n₀ _ (match s.semLock with | some v => _ | none => _)
      rw [hl]
      change Balance n₀ _ ((s.goto u .woken).pc t)
      rw [hother t hne.symm, ht]
      exact ⟨heq, hpos, fun _ => by rw [hcount]; exact Nat.le_succ_of_le hle⟩

/-- **Every step** keeps the invariant. -/
theorem inv_step {a : PvAction} (h : s.Inv n₀) (hs : s.step a = .ok s') : s'.Inv n₀ := by
  cases a with
  | P t inInterrupt =>
    obtain ⟨ht, hs⟩ := require_bind_ok.mp hs
    obtain ⟨-, hs⟩ := kassert_bind_ok.mp hs
    obtain rfl := Except.ok.inj hs
    exact h.call ht rfl rfl PvPc.noConfusion
  | V t =>
    obtain ⟨ht, hs⟩ := require_bind_ok.mp hs
    obtain rfl := Except.ok.inj hs
    exact h.call ht rfl rfl PvPc.noConfusion
  | run t =>
    simp only [step] at hs
    split at hs
    · cases hs
    · next hpc =>
      refine h.acquire hs (by rw [hpc]; rfl) rfl rfl fun u hc hp hv hl hw hb => ?_
      rw [hpc, if_neg PvPc.noConfusion] at hw
      rw [hpc] at hb
      simp only [Balance, hc, hp, hv, hl] at hb ⊢
      exact ⟨hb.1, fun hne => by have := hb.2 hne; omega⟩
    · next hpc =>
      split_ifs at hs with h0
      · obtain rfl := Except.ok.inj hs
        have hl := (h.lock t).mp (by rw [hpc]; rfl)
        have hout : t ∉ s.semWchan := fun hm => by
          have := (h.queued t).mp hm
          rw [hpc] at this
          cases this
        refine h.move (t := t) (p := .pQueued) (fun u hu => ?_) rfl PvPc.noConfusion hl
          (by simpa using h.nodup.concat hout) (fun u => ?_) h.bound fun hw hb => ?_
        · rw [hl]
          exact fun e => hu (Option.some.inj e).symm
        · rw [List.mem_append, List.mem_singleton]
          split_ifs with he
          · exact iff_of_true (.inr he) rfl
          · exact ⟨fun hm => hm.resolve_right he, .inl⟩
        · rw [hpc] at hb
          exact ⟨hb.1, fun _ => by change s.semCount ≤ _; omega⟩
      · obtain rfl := Except.ok.inj hs
        refine h.holder (t := t) (by rw [hpc]; rfl) rfl PvPc.noConfusion
          ((h.lock t).mp (by rw [hpc]; rfl)) rfl (by rw [hpc]; rfl) h.bound fun hw hb => ?_
        rw [hpc] at hb
        exact ⟨hb.1, Nat.pos_of_ne_zero h0, fun hne => by rw [hw]; exact hb.2 hne⟩
    · next hpc =>
      obtain rfl := Except.ok.inj hs
      refine h.holder (t := t) (by rw [hpc]; rfl) rfl PvPc.noConfusion rfl rfl (by rw [hpc]; rfl)
        h.bound fun hw hb => ?_
      rw [hpc] at hb
      exact ⟨hb.1, fun hne => by rw [hw]; exact hb.2 hne⟩
    · cases hs
    · next hpc =>
      refine h.acquire hs (by rw [hpc]; rfl) rfl rfl fun u hc hp hv hl hw hb => ?_
      rw [hpc, if_pos rfl] at hw
      rw [hpc] at hb
      simp only [Balance, hc, hp, hv, hl] at hb ⊢
      exact ⟨hb.1, fun hne => by have := hb.2 hne; omega⟩
    · next hpc =>
      obtain ⟨hpos, hs⟩ := kassert_bind_ok.mp hs
      obtain rfl := Except.ok.inj hs
      refine h.holder (t := t) (by rw [hpc]; rfl) rfl PvPc.noConfusion
        ((h.lock t).mp (by rw [hpc]; rfl)) rfl (by rw [hpc]; rfl)
        (Nat.lt_of_le_of_lt (Nat.sub_le _ _) h.bound) fun hw hb => ?_
      rw [hpc] at hb
      obtain ⟨heq, -, hle⟩ := hb
      refine ⟨?_, fun hne => ?_⟩
      · change s.semCount - 1 + s.pDone + 1 = n₀ + s.vDone
        omega
      · rw [hw]
        have := hle hne
        change s.semCount - 1 ≤ s.wokenCount
        omega
    · next hpc =>
      obtain rfl := Except.ok.inj hs
      refine h.holder (t := t) (by rw [hpc]; rfl) rfl PvPc.noConfusion rfl rfl (by rw [hpc]; rfl)
        h.bound fun hw hb => ?_
      rw [hpc] at hb
      refine ⟨?_, fun hne => by rw [hw]; exact hb.2 hne⟩
      have := hb.1
      change s.semCount + (s.pDone + 1) = n₀ + s.vDone
      omega
    · next hpc =>
      refine h.acquire hs (by rw [hpc]; rfl) rfl rfl fun u hc hp hv hl hw hb => ?_
      rw [hpc, if_neg PvPc.noConfusion] at hw
      rw [hpc] at hb
      simp only [Balance, hc, hp, hv, hl] at hb ⊢
      exact ⟨hb.1, fun hne => by have := hb.2 hne; omega⟩
    · next hpc =>
      obtain ⟨hpos, hs⟩ := kassert_bind_ok.mp hs
      obtain rfl := Except.ok.inj hs
      have hcount : wadd s.semCount 1 = s.semCount + 1 := wadd_one_of_pos h.bound hpos
      refine h.holder (t := t) (by rw [hpc]; rfl) rfl PvPc.noConfusion
        ((h.lock t).mp (by rw [hpc]; rfl)) rfl (by rw [hpc]; rfl)
        (Nat.mod_lt _ (by decide)) fun hw hb => ?_
      rw [hpc] at hb
      refine ⟨?_, hpos, fun hne => ?_⟩
      · have := hb.1
        change wadd s.semCount 1 + s.pDone = n₀ + s.vDone + 1
        omega
      · rw [hw]
        have := hb.2 hne
        change wadd s.semCount 1 ≤ s.wokenCount + 1
        omega
    · next hpc =>
      obtain rfl := Except.ok.inj hs
      obtain ⟨hinv, hpc', hle⟩ := h.wchanWakeone hpc
      refine hinv.holder (t := t) (by rw [hpc']; rfl) rfl PvPc.noConfusion
        ((hinv.lock t).mp (by rw [hpc']; rfl)) rfl (by rw [hpc']; rfl) hinv.bound fun hw hb => ?_
      rw [hpc'] at hb
      exact ⟨hb.1, hb.2.1, fun hne => by rw [hw]; exact hle hne⟩
    · next hpc =>
      obtain rfl := Except.ok.inj hs
      refine h.holder (t := t) (by rw [hpc]; rfl) rfl PvPc.noConfusion rfl rfl (by rw [hpc]; rfl)
        h.bound fun hw hb => ?_
      rw [hpc] at hb
      refine ⟨?_, fun hne => by rw [hw]; exact hb.2.2 hne⟩
      have := hb.1
      change s.semCount + s.pDone = n₀ + (s.vDone + 1)
      omega

end Lemmas

section Run

variable {n₀ : ℕ} {acts : List PvAction} {s : Semaphore}

/-- **The invariant holds in every run.** -/
theorem inv_run (hn : n₀ < wordSize) (h : run step (semCreate n₀) acts = .ok s) : s.Inv n₀ :=
  run_inv step (fun _ _ _ hs ht => inv_step hs ht) (inv_semCreate hn) h

/-- The count is what was given and not taken. -/
theorem Inv.count_eq (h : s.Inv n₀) :
    s.semCount + s.pDone + s.stage.taken = n₀ + s.vDone + s.stage.given := by
  have hbal := h.balance
  revert hbal
  cases s.stage <;> simp only [Balance, PvPc.taken, PvPc.given] <;> intro hbal <;> omega

/-- A call of `P` returns after the calls of `V` that it needs. -/
theorem Inv.pDone_le (h : s.Inv n₀) : s.pDone ≤ n₀ + s.vDone := by
  have hbal := h.balance
  revert hbal
  cases s.stage <;> simp only [Balance] <;> intro hbal <;> omega

/-- Between the critical sections. -/
theorem Inv.of_unlocked (h : s.Inv n₀) (hl : s.semLock = none) :
    s.semCount + s.pDone = n₀ + s.vDone ∧ (s.semWchan ≠ [] → s.semCount ≤ s.wokenCount) := by
  have hbal := h.balance
  unfold stage at hbal
  rw [hl] at hbal
  exact hbal

/-- **No assertion fails** but that of a `P` in an interrupt handler and that of a `V` beyond the
largest word. -/
theorem Inv.safe {a : PvAction} (h : s.Inv n₀) (hP : ∀ t, a ≠ .P t true)
    (hV : s.semCount + 1 < wordSize) : Safe (Inv n₀) (s.step a) := by
  have hacq : ∀ {t pc q}, s.spinlockAcquire t pc ≠ .error (.panic q) := by
    intro t pc q hs
    unfold spinlockAcquire require at hs
    split_ifs at hs <;> cases hs
  have hset : ∀ {p : Prop} [Decidable p] {s' : Semaphore} {q}, p →
      (kassert p >>= fun _ => pure s') ≠ Except.error (.panic q) := by
    intro p _ s' q hp hs
    rw [kassert_bind hp] at hs
    cases hs
  refine Safe.iff_ok.mpr ⟨fun q hs => ?_, fun s' hs => inv_step h hs⟩
  cases a with
  | P t inInterrupt =>
    cases inInterrupt with
    | true => exact hP t rfl
    | false =>
      simp only [step, require, kassert] at hs
      split_ifs at hs <;> cases hs
  | V t =>
    simp only [step, require] at hs
    split_ifs at hs <;> cases hs
  | run t =>
    simp only [step] at hs
    split at hs
    case h_7 hpc =>
      have hbal := h.balance_of_free (t := t) fun u hu => by
        rw [(h.lock t).mp (by rw [hpc]; rfl)]
        exact fun e => hu (Option.some.inj e).symm
      rw [hpc] at hbal
      exact hset hbal.2.1 hs
    case h_10 =>
      refine hset ?_ hs
      rw [wadd_of_lt hV]
      exact Nat.succ_pos _
    all_goals first
      | exact hacq hs
      | cases hs
      | (split_ifs at hs)

/-- **No wakeup is lost**: while a thread sleeps and there is a unit to take, a thread that was woken
can take the spinlock. -/
theorem Inv.exists_woken (h : s.Inv n₀) (hl : s.semLock = none) {t : ThreadId}
    (ht : s.pc t = .asleep) (hpos : 0 < s.semCount) :
    ∃ u s', s.pc u = .woken ∧ s.step (.run u) = .ok s' := by
  have hle := (h.of_unlocked hl).2 (List.ne_nil_of_mem ((h.queued t).mpr (by rw [ht]; rfl)))
  obtain ⟨u, hu⟩ : {u | s.pc u = .woken}.Nonempty := by
    refine Set.nonempty_of_ncard_ne_zero ?_
    unfold wokenCount at hle
    omega
  refine ⟨u, { s.goto u .pLoop with semLock := some u }, hu, ?_⟩
  simp only [step, show s.pc u = .woken from hu]
  exact require_bind hl

/-- **Semaphores are correct**: no `P` is ahead of the `V`s, and the count is exactly their
difference, up to the call that is in its critical section; whenever nobody holds the spinlock and a
thread sleeps, at least as many threads as the count says are awake and about to take it. -/
theorem semaphore_correct (hn : n₀ < wordSize) (h : run step (semCreate n₀) acts = .ok s) :
    s.pDone ≤ n₀ + s.vDone ∧
      s.semCount + s.pDone + s.stage.taken = n₀ + s.vDone + s.stage.given ∧
      (s.semLock = none → s.semCount + s.pDone = n₀ + s.vDone ∧
        ∀ t, s.pc t = .asleep → s.semCount ≤ {u | s.pc u = .woken}.ncard) := by
  have hinv := inv_run hn h
  refine ⟨hinv.pDone_le, hinv.count_eq, fun hl => ?_⟩
  obtain ⟨hcount, hle⟩ := hinv.of_unlocked hl
  refine ⟨hcount, fun t ht => hle ?_⟩
  exact List.ne_nil_of_mem ((hinv.queued t).mpr (by rw [ht]; rfl))

/-- Two threads go to sleep in `P`, and a `V` wakes the first. -/
theorem semaphore_correct_twoSleepers :
    ∃ s, run step (semCreate 0) [.P 0 false, .run 0, .run 0, .run 0, .P 2 false, .run 2, .run 2,
        .run 2, .V 1, .run 1, .run 1, .run 1, .run 1] = .ok s ∧
      s.semCount + s.pDone = 0 + s.vDone ∧ s.semCount ≤ {u | s.pc u = .woken}.ncard := by
  obtain ⟨s, hs, he⟩ := exists_ok_of_toOption (show (run step (semCreate 0) [.P 0 false, .run 0,
      .run 0, .run 0, .P 2 false, .run 2, .run 2, .run 2, .V 1, .run 1, .run 1, .run 1,
      .run 1]).toOption.map (fun s => (s.semLock, s.pc 2)) = some (none, .asleep) by decide +kernel)
  simp only [Prod.mk.injEq] at he
  obtain ⟨hcount, hle⟩ := (semaphore_correct (by decide) hs).2.2 he.1
  exact ⟨s, hs, hcount, hle 2 he.2⟩

end Run

end Semaphore

end Os161
