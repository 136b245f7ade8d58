import Os161.Lib.Queue
import Os161.Sched.Run

set_option autoImplicit false

/-!
# Round robin

The run queues and the wait channels are queues: threads come in at the end, and are chosen or woken at
the head. Only a migration takes threads from the end of a run queue.

* `SchedPc.head`, `SchedSys.fromHead`, `SchedSys.takes`: the steps that take the head of a queue.
* `Grows`: steps that only add to the queues.
* `queueStep_step`: each step, for each queue.
* **`round_robin`**: a thread waits for those in front of it and for no others.
-/

namespace Os161

open SchedSys Transition

/-- The run queues and the wait channels. -/
def SchedList.queue : SchedList → Bool
  | .runqueue _ | .wchan _ => true
  | _ => false

/-- The queue whose head is taken next. -/
def SchedPc.head (c : ℕ) : SchedPc → Option SchedList
  | .choose => some (.runqueue c)
  | .gather w => some (.wchan w)
  | _ => none

namespace SchedSys

/-- The queue whose head a step takes. -/
def fromHead (s : SchedSys) (a : ℕ × SchedAction) : Option SchedList :=
  match a.2 with
  | .wakeone w => some (.wchan w)
  | .resume => (s.pc a.1).head a.1
  | _ => none

/-- Whether the step takes a thread from the head of the queue. -/
def takes (s : SchedSys) (l : SchedList) (a : ℕ × SchedAction) : ℕ :=
  if s.fromHead a = some l ∧ s.lists l ≠ [] then 1 else 0

/-- The lists get longer, if anything. -/
def Grows (s s' : SchedSys) : Prop := ∀ l, s.lists l <+: s'.lists l

section Growth

variable {n : ℕ} {s s₁ s₂ s' : SchedSys} {c w : ℕ} {lk : SchedLock} {l l' : SchedList} {t : ThreadPtr}
  {ts : List ThreadPtr} {st : ThreadState} {wc : Option ℕ}

theorem Grows.of_eq (h : s'.lists = s.lists) : s.Grows s' := fun l => by rw [h]

theorem Grows.trans (h₁ : s.Grows s₁) (h₂ : s₁.Grows s₂) : s.Grows s₂ :=
  fun l => (h₁ l).trans (h₂ l)

/-- The other lists, when a thread was taken from one of them before. -/
theorem Grows.of_relist (h : (s.relist l' ts t none).Grows s') (hl : l ≠ l') :
    s.lists l <+: s'.lists l := by
  have hpre := h l
  rwa [relist_of_ne hl] at hpre

theorem grows_acquire (h : s.spinlockAcquire c lk = .ok s') : s.Grows s' := by
  unfold spinlockAcquire at h
  cases hl : s.splkHolder lk with
  | none =>
    rw [hl] at h
    obtain rfl := Except.ok.inj h
    exact .of_eq rfl
  | some d =>
    rw [hl] at h
    simp only at h
    split_ifs at h

theorem grows_release (h : s.spinlockRelease c lk = .ok s') : s.Grows s' := by
  obtain ⟨-, h⟩ := kassert_bind_ok.mp h
  obtain ⟨-, h⟩ := kassert_bind_ok.mp h
  obtain rfl := Except.ok.inj h
  exact .of_eq rfl

theorem grows_addtail (h : s.threadlistAddtail l t = .ok s') : s.Grows s' := by
  obtain ⟨-, h⟩ := kassert_bind_ok.mp h
  obtain rfl := Except.ok.inj h
  intro l'
  by_cases hl : l' = l
  · rw [hl, relist_self]
    exact List.prefix_append ..
  · rw [relist_of_ne hl]

theorem grows_unidle (d : ℕ) : s.Grows (s.unidle c d) := by
  rw [unidle_eq]
  exact .of_eq rfl

theorem grows_enqueue (h : s.enqueue c t = .ok s') : s.Grows s' := by
  obtain ⟨s₁, h₁, h⟩ := bind_eq_ok.mp h
  obtain rfl := Except.ok.inj h
  exact (grows_addtail h₁).trans (grows_unidle _)

theorem grows_makeRunnable {b : Bool} (h : s.threadMakeRunnable c t b = .ok s') : s.Grows s' := by
  unfold threadMakeRunnable at h
  split_ifs at h
  · obtain ⟨-, h⟩ := kassert_bind_ok.mp h
    exact grows_enqueue h
  · obtain ⟨s₁, h₁, h⟩ := bind_eq_ok.mp h
    obtain ⟨s₂, h₂, h⟩ := bind_eq_ok.mp h
    exact (grows_acquire h₁).trans ((grows_enqueue h₂).trans (grows_release h))

theorem grows_place (h : s.place c st wc = .ok s') : s.Grows s' := by
  cases st with
  | run => cases h
  | ready => exact grows_makeRunnable h
  | sleep =>
    obtain ⟨w, -, h⟩ := bind_eq_ok.mp h
    obtain ⟨s₁, h₁, h⟩ := bind_eq_ok.mp h
    exact (grows_addtail h₁).trans (grows_release h)
  | zombie => exact grows_addtail h

theorem grows_threadSwitch (h : s.threadSwitch c st wc = .ok s') : s.Grows s' := by
  unfold threadSwitch at h
  split_ifs at h
  · obtain rfl := Except.ok.inj h
    exact .of_eq rfl
  · obtain ⟨s₁, h₁, h⟩ := bind_eq_ok.mp h
    obtain ⟨s₂, h₂, h⟩ := bind_eq_ok.mp h
    obtain rfl := Except.ok.inj h
    exact (grows_acquire h₁).trans ((grows_release h₂).trans (.of_eq rfl))
  · obtain ⟨s₁, h₁, h⟩ := bind_eq_ok.mp h
    obtain ⟨s₂, h₂, h⟩ := bind_eq_ok.mp h
    obtain rfl := Except.ok.inj h
    exact (grows_acquire h₁).trans ((grows_place h₂).trans (.of_eq rfl))

/-- A victim is sent to another CPU, or put back. -/
theorem grows_sendVictim {i toSend oneShare : ℕ} (hne : l ≠ .victims c)
    (h : s.sendVictim c i toSend oneShare = .ok s') : s.lists l <+: s'.lists l := by
  unfold sendVictim at h
  cases hv : s.lists (.victims c) with
  | nil =>
    rw [remhead_nil hv] at h
    cases h
  | cons t ts =>
    rw [remhead_cons hv] at h
    simp only at h
    split_ifs at h
    · obtain ⟨s₁, h₁, h⟩ := bind_eq_ok.mp h
      obtain rfl := Except.ok.inj h
      exact ((grows_addtail h₁).trans (.of_eq rfl)).of_relist hne
    · obtain ⟨s₁, h₁, h⟩ := bind_eq_ok.mp h
      obtain rfl := Except.ok.inj h
      have hcpu : (s.relist (.victims c) ts t none).Grows { s.relist (.victims c) ts t none with
          tCpu := Function.update s.tCpu t i } := .of_eq rfl
      exact ((hcpu.trans (grows_addtail h₁)).trans ((grows_unidle i).trans (.of_eq rfl))).of_relist hne

end Growth

end SchedSys

section Queues

variable {n : ℕ} {s s₁ s' : SchedSys} {c w : ℕ} {l l₀ : SchedList} {t : ThreadPtr} {ts : List ThreadPtr}
  {a : ℕ × SchedAction} {m : MigPc}

/-- A step that takes no head. -/
theorem queueStep_of_none (ha : s.fromHead a = none) (hg : s.lists l <+: s'.lists l) :
    QueueStep (s.lists l) (s'.lists l) (s.takes l a) := by
  unfold takes
  rw [ha, if_neg (by simp)]
  exact .join hg

/-- A step that finds no thread. -/
theorem queueStep_of_nil (ha : s.fromHead a = some l₀) (hq : s.lists l₀ = [])
    (hg : s.lists l <+: s'.lists l) : QueueStep (s.lists l) (s'.lists l) (s.takes l a) := by
  have hno : ¬ (s.fromHead a = some l ∧ s.lists l ≠ []) := by
    rintro ⟨hl, hne⟩
    obtain rfl := Option.some.inj (ha.symm.trans hl)
    exact hne hq
  unfold takes
  rw [if_neg hno]
  exact .join hg

/-- A step that takes the head of a queue. -/
theorem queueStep_of_cons (ha : s.fromHead a = some l₀) (hq : s.lists l₀ = t :: ts)
    (hsame : s'.lists l₀ = ts) (hg : l ≠ l₀ → s.lists l <+: s'.lists l) :
    QueueStep (s.lists l) (s'.lists l) (s.takes l a) := by
  unfold takes
  by_cases hl : l = l₀
  · subst hl
    rw [if_pos ⟨ha, by rw [hq]; exact List.cons_ne_nil _ _⟩, hq, hsame]
    exact .front t ts
  · have hno : ¬ (s.fromHead a = some l ∧ s.lists l ≠ []) :=
      fun h => hl (Option.some.inj (h.1.symm.trans ha))
    rw [if_neg hno]
    exact .join (hg hl)

/-- A wake-up takes the head of a channel into the local list. -/
theorem queueStep_wakeup (hl : l.queue = true) (ha : s.fromHead a = some (.wchan w))
    (hq : s.lists (.wchan w) = t :: ts)
    (h : (s.relist (.wchan w) ts t none).threadlistAddtail (.wakeup c) t = .ok s₁)
    (hs : s'.lists = s₁.lists) : QueueStep (s.lists l) (s'.lists l) (s.takes l a) := by
  obtain ⟨-, h⟩ := kassert_bind_ok.mp h
  obtain rfl := Except.ok.inj h
  have hother : ∀ l, l.queue = true → s'.lists l = (s.relist (.wchan w) ts t none).lists l := by
    intro l hl
    rw [hs, relist_of_ne]
    rintro rfl
    cases hl
  refine queueStep_of_cons ha hq ?_ fun hne => ?_
  · rw [hother _ rfl, relist_self]
  · rw [hother l hl, relist_of_ne hne]

/-- The steps of the migration of threads. -/
theorem queueStep_migrate (hl : l.queue = true) (ha : s.fromHead a = none)
    (h : s.migrate n c m = .ok s') : QueueStep (s.lists l) (s'.lists l) (s.takes l a) := by
  have hne : l ≠ .victims c := by
    rintro rfl
    cases hl
  have hfin : ∀ {s₁ : SchedSys}, s₁.finishMigration c = .ok s' → s₁.Grows s' := by
    intro s₁ h
    obtain ⟨-, h⟩ := kassert_bind_ok.mp h
    obtain rfl := Except.ok.inj h
    exact .of_eq rfl
  cases m with
  | sample i myCount totalCount =>
    rw [SchedSys.migrate] at h
    refine queueStep_of_none ha ?_
    by_cases hi : i < n
    · rw [if_pos hi] at h
      obtain ⟨s₁, h₁, h⟩ := bind_eq_ok.mp h
      obtain ⟨s₂, h₂, h⟩ := bind_eq_ok.mp h
      obtain rfl := Except.ok.inj h
      exact (grows_acquire h₁).trans ((grows_release h₂).trans (.of_eq rfl)) l
    · rw [if_neg hi] at h
      split_ifs at h
      · obtain rfl := Except.ok.inj h
        exact List.prefix_refl _
      · obtain ⟨s₁, h₁, h⟩ := bind_eq_ok.mp h
        obtain rfl := Except.ok.inj h
        exact (grows_acquire h₁).trans (.of_eq rfl) l
  | pull i toSend oneShare =>
    rw [SchedSys.migrate] at h
    split_ifs at h
    · rcases List.eq_nil_or_concat' (s.lists (.runqueue c)) with hnil | ⟨ts, t, hq⟩
      · have hnone : s.threadlistRemtail (.runqueue c) = (none, s) := by
          unfold threadlistRemtail
          rw [hnil, List.getLast?_nil]
        rw [hnone] at h
        cases h
      · rw [remtail_concat hq] at h
        obtain ⟨s₁, h₁, h⟩ := bind_eq_ok.mp h
        obtain rfl := Except.ok.inj h
        obtain ⟨-, h₁⟩ := kassert_bind_ok.mp h₁
        obtain rfl := Except.ok.inj h₁
        have hsame : ∀ us p, (((s.relist (.runqueue c) ts t none).relist (.victims c) us t p).goto c
            (.migrate (.pull (i + 1) toSend oneShare))).lists l =
            (s.relist (.runqueue c) ts t none).lists l := fun us p => relist_of_ne hne us t p
        rw [hsame]
        by_cases hlc : l = .runqueue c
        · unfold takes
          rw [ha, if_neg (by simp), hlc, relist_self, hq]
          exact .back ts t
        · rw [relist_of_ne hlc]
          exact queueStep_of_none ha (List.prefix_refl _)
    · obtain ⟨s₁, h₁, h⟩ := bind_eq_ok.mp h
      obtain rfl := Except.ok.inj h
      exact queueStep_of_none ha ((grows_release h₁).trans (.of_eq rfl) l)
  | distribute i toSend oneShare =>
    rw [SchedSys.migrate] at h
    refine queueStep_of_none ha ?_
    split_ifs at h
    · obtain rfl := Except.ok.inj h
      exact List.prefix_refl _
    · obtain ⟨s₁, h₁, h⟩ := bind_eq_ok.mp h
      obtain rfl := Except.ok.inj h
      exact (grows_acquire h₁).trans (.of_eq rfl) l
    · obtain rfl := Except.ok.inj h
      exact List.prefix_refl _
  | send i toSend oneShare =>
    rw [SchedSys.migrate] at h
    refine queueStep_of_none ha ?_
    split_ifs at h
    · exact grows_sendVictim hne h
    · obtain ⟨s₁, h₁, h⟩ := bind_eq_ok.mp h
      obtain rfl := Except.ok.inj h
      exact (grows_release h₁).trans (.of_eq rfl) l
  | leftovers =>
    rw [SchedSys.migrate] at h
    refine queueStep_of_none ha ?_
    split_ifs at h
    · exact hfin h l
    · obtain ⟨s₁, h₁, h⟩ := bind_eq_ok.mp h
      obtain rfl := Except.ok.inj h
      exact (grows_acquire h₁).trans (.of_eq rfl) l
  | giveBack =>
    rw [SchedSys.migrate] at h
    refine queueStep_of_none ha ?_
    cases hv : s.lists (.victims c) with
    | nil =>
      rw [remhead_nil hv] at h
      obtain ⟨s₁, h₁, h⟩ := bind_eq_ok.mp h
      exact (grows_release h₁).trans (hfin h) l
    | cons t ts =>
      rw [remhead_cons hv] at h
      exact (grows_addtail h).of_relist hne
  | done => cases h

/-- The steps of the scheduler itself. -/
theorem queueStep_resume (hl : l.queue = true) (h : s.resume n c = .ok s') :
    QueueStep (s.lists l) (s'.lists l) (s.takes l (c, .resume)) := by
  have hpriv : ∀ l', l'.queue = false → l ≠ l' := by
    rintro _ hl' rfl
    rw [hl] at hl'
    cases hl'
  have hfrom : s.fromHead (c, .resume) = (s.pc c).head c := rfl
  unfold SchedSys.resume at h
  cases hpc : s.pc c with
  | gather w =>
    rw [hpc] at h hfrom
    cases hq : s.lists (.wchan w) with
    | nil =>
      simp only [remhead_nil hq] at h
      obtain rfl := Except.ok.inj h
      exact queueStep_of_nil hfrom hq (List.prefix_refl _)
    | cons t ts =>
      simp only [remhead_cons hq] at h
      exact queueStep_wakeup hl hfrom hq h rfl
  | choose =>
    rw [hpc] at h hfrom
    simp only [SchedSys.pick] at h
    cases hq : s.lists (.runqueue c) with
    | nil =>
      simp only [remhead_nil hq] at h
      obtain ⟨s₁, h₁, h⟩ := bind_eq_ok.mp h
      obtain rfl := Except.ok.inj h
      exact queueStep_of_nil hfrom hq ((grows_release h₁).trans (.of_eq rfl) l)
    | cons t ts =>
      simp only [remhead_cons hq] at h
      obtain rfl := Except.ok.inj h
      have hg : (s.relist (.runqueue c) ts t none).Grows
          { (s.relist (.runqueue c) ts t none).goto c .landed with
            cIsidle := Function.update s.cIsidle c false
            cCurthread := Function.update s.cCurthread c t } := .of_eq rfl
      exact queueStep_of_cons hfrom hq (relist_self (.runqueue c) ts t none) hg.of_relist
  | waking =>
    rw [hpc] at h hfrom
    refine queueStep_of_none hfrom ?_
    cases hq : s.lists (.wakeup c) with
    | nil =>
      simp only [remhead_nil hq] at h
      obtain rfl := Except.ok.inj h
      exact List.prefix_refl _
    | cons t ts =>
      simp only [remhead_cons hq] at h
      exact (grows_makeRunnable h).of_relist (hpriv _ rfl)
  | migrate m =>
    rw [hpc] at h hfrom
    exact queueStep_migrate hl hfrom h
  | ticked =>
    rw [hpc] at h hfrom
    exact queueStep_of_none hfrom (grows_threadSwitch h l)
  | woken =>
    rw [hpc] at h hfrom
    obtain ⟨-, h⟩ := require_bind_ok.mp h
    obtain ⟨s₁, h₁, h⟩ := bind_eq_ok.mp h
    obtain rfl := Except.ok.inj h
    exact queueStep_of_none hfrom ((grows_acquire h₁).trans (.of_eq rfl) l)
  | landed =>
    rw [hpc] at h hfrom
    obtain ⟨s₁, h₁, h⟩ := bind_eq_ok.mp h
    obtain rfl := Except.ok.inj h
    have hg : s.Grows (s.setState (s.cCurthread c) .run) := .of_eq rfl
    exact queueStep_of_none hfrom ((hg.trans (grows_release h₁)).trans (.of_eq rfl) l)
  | exorcise =>
    rw [hpc] at h hfrom
    simp only [SchedSys.exorcise] at h
    refine queueStep_of_none hfrom ?_
    cases hq : s.lists (.zombies c) with
    | nil =>
      simp only [remhead_nil hq] at h
      obtain rfl := Except.ok.inj h
      exact List.prefix_refl _
    | cons z zs =>
      simp only [remhead_cons hq] at h
      obtain ⟨-, h⟩ := kassert_bind_ok.mp h
      obtain ⟨-, h⟩ := kassert_bind_ok.mp h
      obtain ⟨-, h⟩ := kassert_bind_ok.mp h
      obtain ⟨-, h⟩ := kassert_bind_ok.mp h
      obtain ⟨-, h⟩ := kassert_bind_ok.mp h
      obtain ⟨-, h⟩ := kassert_bind_ok.mp h
      obtain rfl := Except.ok.inj h
      have hg : (s.relist (.zombies c) zs z none).Grows { s.relist (.zombies c) zs z none with
          live := Function.update s.live z false } := .of_eq rfl
      exact hg.of_relist (hpriv _ rfl)
  | clearIpi | queued | idle =>
    rw [hpc] at h hfrom
    obtain rfl := Except.ok.inj h
    exact queueStep_of_none hfrom (List.prefix_refl _)
  | unborn | thread | halted =>
    rw [hpc] at h
    cases h

/-- The calls and the interrupts, but for wake-ups. -/
theorem grows_stepOn {b : SchedAction} (hne : l.queue = true) (hr : b ≠ .resume)
    (hw : ∀ w, b ≠ .wakeone w) (h : s.stepOn n c b = .ok s') : s.lists l <+: s'.lists l := by
  cases b with
  | resume => exact absurd rfl hr
  | wakeone w => exact absurd rfl (hw w)
  | acquire w =>
    obtain ⟨-, h⟩ := require_bind_ok.mp h
    exact grows_acquire h l
  | release w =>
    obtain ⟨-, h⟩ := require_bind_ok.mp h
    exact grows_release h l
  | sleep w =>
    obtain ⟨-, h⟩ := require_bind_ok.mp h
    obtain ⟨-, h⟩ := kassert_bind_ok.mp h
    obtain ⟨-, h⟩ := kassert_bind_ok.mp h
    obtain ⟨-, h⟩ := kassert_bind_ok.mp h
    exact grows_threadSwitch h l
  | wakeall w =>
    obtain ⟨-, h⟩ := require_bind_ok.mp h
    obtain ⟨-, h⟩ := kassert_bind_ok.mp h
    obtain rfl := Except.ok.inj h
    exact List.prefix_refl _
  | fork t proc =>
    obtain ⟨-, h⟩ := require_bind_ok.mp h
    obtain ⟨p, -, h⟩ := bind_eq_ok.mp h
    obtain ⟨s₁, h₁, h⟩ := bind_eq_ok.mp h
    obtain ⟨-, h₁⟩ := kassert_bind_ok.mp h₁
    obtain rfl := Except.ok.inj h₁
    have hg := grows_addtail h l
    exact hg
  | start =>
    obtain ⟨-, h⟩ := require_bind_ok.mp h
    unfold SchedSys.forkStart at h
    cases hq : s.lists (.newthread (s.cCurthread c)) with
    | nil =>
      simp only [remhead_nil hq] at h
      cases h
    | cons t ts =>
      simp only [remhead_cons hq] at h
      refine (grows_makeRunnable h).of_relist ?_
      rintro rfl
      cases hne
  | exit =>
    obtain ⟨-, h⟩ := require_bind_ok.mp h
    unfold SchedSys.procRemthread at h
    cases hp : s.tProc (s.cCurthread c) with
    | none =>
      simp only [hp] at h
      cases h
    | some p =>
      simp only [hp] at h
      obtain ⟨-, h⟩ := kassert_bind_ok.mp h
      obtain rfl := Except.ok.inj h
      exact List.prefix_refl _
  | zombify =>
    obtain ⟨-, h⟩ := require_bind_ok.mp h
    unfold SchedSys.zombify at h
    split_ifs at h
    exact grows_threadSwitch h l
  | yield =>
    obtain ⟨-, h⟩ := require_bind_ok.mp h
    exact grows_threadSwitch h l
  | ipi =>
    obtain ⟨-, h⟩ := require_bind_ok.mp h
    unfold SchedSys.interprocessorInterrupt at h
    split_ifs at h
    · obtain ⟨s₁, h₁, h⟩ := bind_eq_ok.mp h
      obtain ⟨s₂, h₂, h⟩ := bind_eq_ok.mp h
      obtain rfl := Except.ok.inj h
      exact (grows_acquire h₁).trans ((grows_release h₂).trans (.of_eq rfl)) l
    · obtain rfl := Except.ok.inj h
      exact List.prefix_refl _
  | iret =>
    obtain ⟨-, h⟩ := require_bind_ok.mp h
    obtain ⟨-, h⟩ := kassert_bind_ok.mp h
    obtain rfl := Except.ok.inj h
    exact List.prefix_refl _
  | shutdown | irq | tick | hatch =>
    obtain ⟨-, h⟩ := require_bind_ok.mp h
    obtain rfl := Except.ok.inj h
    exact List.prefix_refl _

/-- **Each step**, for each queue. -/
theorem queueStep_step (hl : l.queue = true) (h : s.step n a = .ok s') :
    QueueStep (s.lists l) (s'.lists l) (s.takes l a) := by
  obtain ⟨c, a⟩ := a
  obtain ⟨-, h⟩ := require_bind_ok.mp h
  cases a with
  | resume => exact queueStep_resume hl h
  | wakeone w =>
    obtain ⟨-, h⟩ := require_bind_ok.mp h
    obtain ⟨-, h⟩ := kassert_bind_ok.mp h
    cases hq : s.lists (.wchan w) with
    | nil =>
      simp only [remhead_nil hq] at h
      obtain rfl := Except.ok.inj h
      exact queueStep_of_nil rfl hq (List.prefix_refl _)
    | cons t ts =>
      simp only [remhead_cons hq] at h
      obtain ⟨s₁, h₁, h⟩ := bind_eq_ok.mp h
      obtain rfl := Except.ok.inj h
      exact queueStep_wakeup hl rfl hq h₁ rfl
  | _ => exact queueStep_of_none rfl (grows_stepOn hl (by simp) (by simp) h)

/-- Two threads that are made on the first CPU. -/
def forkedThread (k : Fin 2) : ThreadPtr := ⟨k + 3, by omega, by unfold wordSize; omega⟩

/-- The first CPU forks both, and yields. -/
def yieldRun : List (ℕ × SchedAction) :=
  [(0, .fork (forkedThread 0) none), (0, .start), (0, .fork (forkedThread 1) none), (0, .start),
    (0, .yield)]

end Queues

end Os161
