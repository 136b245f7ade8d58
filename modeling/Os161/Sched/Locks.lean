import Os161.Sched.Run

set_option autoImplicit false

/-!
# The locks of the run queues

A CPU that holds the lock of a run queue never waits for another lock, so that the CPUs cannot block each
other in the scheduler; and it gives the lock back after some steps of its own, whatever the other CPUs do.

* `SchedPc.hold`, `SchedSys.holdSteps`: how many steps are left.
* `SchedInv.nearer`: one step of the CPU that holds the lock.
* **`runqueue_lock_given_back`**: in all runs.
-/

namespace Os161

open SchedSys Transition

/-- The number of steps after which the lock of a run queue was given back, with so many victims. -/
def SchedPc.hold (victims : ℕ) : SchedPc → ℕ
  | .queued _ => 3
  | .choose => 2
  | .landed => 1
  | .migrate (.pull i toSend _) => toSend - i + 1
  | .migrate (.send _ toSend _) => toSend + 1
  | .migrate .giveBack => victims + 1
  | _ => 0

namespace SchedSys

/-- The number of steps after which the CPU has given the lock of a run queue back. -/
def holdSteps (s : SchedSys) (c : ℕ) : ℕ := (s.pc c).hold (s.lists (.victims c)).length

/-- The lock is given back, or this is nearer. -/
def Nearer (s s' : SchedSys) (c e : ℕ) : Prop :=
  s'.splkHolder (.runqueue e) = none ∨
    s'.splkHolder (.runqueue e) = some c ∧ s'.holdSteps c < s.holdSteps c

end SchedSys

section Hold

variable {n : ℕ} {s s' : SchedSys} {c d e : ℕ} {a : SchedAction}

/-- A lock that is given back. -/
theorem nearer_unlocked (s₁ : SchedSys) (pc : SchedPc) :
    s.Nearer ((s₁.unlocked c (.runqueue e)).goto c pc) c e :=
  .inl (show Function.update s₁.splkHolder _ none _ = none from Function.update_self ..)

/-- A step to another place, with the lock. -/
theorem nearer_of_pc {pc pc' : SchedPc} (hpc : s.pc c = pc) (hpc' : s'.pc c = pc')
    (hl : s'.splkHolder (.runqueue e) = some c)
    (hlt : pc'.hold (s'.lists (.victims c)).length < pc.hold (s.lists (.victims c)).length) :
    s.Nearer s' c e := by
  refine .inr ⟨hl, ?_⟩
  unfold holdSteps
  rwa [hpc, hpc']

/-- A step of the migration of threads. -/
theorem SchedInv.nearer_migrate {m : MigPc} (h : SchedInv n s) (hc : c < n)
    (hl : s.splkHolder (.runqueue e) = some c) (hpc : s.pc c = .migrate m) :
    ∃ s', s.migrate n c m = .ok s' ∧ s.Nearer s' c e := by
  have hplace := h.place c hc
  have hpcl : (SchedPc.migrate m).lock c = some e := by rw [← hpc, ← hplace.lock, hl]
  have hok := hplace.migrate m hpc
  cases m with
  | pull i toSend oneShare =>
    obtain rfl : c = e := Option.some.inj hpcl
    obtain ⟨-, -, hcount⟩ := hok
    change toSend ≤ i + (s.lists (.runqueue c)).length at hcount
    rw [SchedSys.migrate]
    split_ifs with hi
    · rcases List.eq_nil_or_concat' (s.lists (.runqueue c)) with hnil | ⟨ts, t, hq⟩
      · rw [hnil, List.length_nil] at hcount
        omega
      · have hoff : (s.relist (.runqueue c) ts t none).listed t = none := Function.update_self ..
        rw [remtail_concat hq]
        simp only
        rw [addhead_eq hoff]
        refine ⟨_, rfl, nearer_of_pc hpc (goto_pc (.migrate (.pull (i + 1) toSend oneShare))) hl ?_⟩
        change toSend - (i + 1) + 1 < toSend - i + 1
        omega
    · rw [release_eq h.locks hl]
      exact ⟨_, rfl, nearer_unlocked s _⟩
  | send i toSend oneShare =>
    obtain rfl : i = e := Option.some.inj hpcl
    obtain ⟨-, -, hdown⟩ := hok
    rw [SchedSys.migrate]
    split_ifs with hmore
    · obtain ⟨t, ts, hv⟩ := hdown.exists_cons hmore.2
      change s.lists (.victims c) = t :: ts at hv
      have hoff : (s.relist (.victims c) ts t none).listed t = none := Function.update_self ..
      have hless : toSend - 1 + 1 < toSend + 1 := by omega
      unfold sendVictim
      rw [remhead_cons hv]
      simp only
      split_ifs
      · rw [addtail_eq hoff]
        exact ⟨_, rfl, nearer_of_pc hpc (goto_pc (.migrate (.send i (toSend - 1) oneShare))) hl hless⟩
      · rw [addtail_eq (s := { s.relist (.victims c) ts t none with
          tCpu := Function.update s.tCpu t i }) hoff]
        refine ⟨_, rfl, nearer_of_pc hpc (goto_pc (.migrate (.send i (toSend - 1) oneShare))) ?_ hless⟩
        rw [unidle_eq]
        exact hl
    · rw [release_eq h.locks hl]
      exact ⟨_, rfl, nearer_unlocked s _⟩
  | giveBack =>
    obtain rfl : c = e := Option.some.inj hpcl
    rw [SchedSys.migrate]
    cases hv : s.lists (.victims c) with
    | nil =>
      rw [remhead_nil hv]
      simp only
      rw [release_eq h.locks hl]
      have hnil : (s.unlocked c (.runqueue c)).lists (.victims c) = [] := hv
      refine ⟨(s.unlocked c (.runqueue c)).goto c .ticked, ?_, nearer_unlocked s _⟩
      change SchedSys.finishMigration _ _ = _
      unfold SchedSys.finishMigration
      rw [kassert_bind hnil]
      rfl
    | cons t ts =>
      have hoff : (s.relist (.victims c) ts t none).listed t = none := Function.update_self ..
      rw [remhead_cons hv]
      simp only
      rw [addtail_eq hoff]
      refine ⟨_, rfl, nearer_of_pc hpc hpc hl ?_⟩
      rw [relist_of_ne (by simp), relist_self, hv]
      change ts.length + 1 < (t :: ts).length + 1
      rw [List.length_cons]
      omega
  | _ => cases hpcl

/-- **One step of the CPU that holds the lock**: it is not blocked. -/
theorem SchedInv.nearer (h : SchedInv n s) (hc : c < n) (hl : s.splkHolder (.runqueue e) = some c) :
    ∃ s', s.step n (c, .resume) = .ok s' ∧ s.Nearer s' c e := by
  have hplace := h.place c hc
  have hpcl : (s.pc c).lock c = some e := (hplace.lock e).mp hl
  have hstep : s.step n (c, .resume) = s.resume n c := require_bind hc
  rw [hstep]
  unfold SchedSys.resume
  cases hpc : s.pc c with
  | queued st =>
    refine ⟨_, rfl, nearer_of_pc hpc (goto_pc .choose) hl ?_⟩
    change 2 < 3
    omega
  | choose =>
    obtain rfl : c = e := Option.some.inj (by rw [hpc] at hpcl; exact hpcl)
    unfold SchedSys.pick threadlistRemhead
    cases hq : s.lists (.runqueue c) with
    | nil =>
      refine ⟨_, ?_, nearer_unlocked s .idle⟩
      simp only
      rw [release_eq h.locks hl]
      rfl
    | cons t ts =>
      refine ⟨_, rfl, nearer_of_pc hpc (goto_pc .landed) hl ?_⟩
      change 1 < 2
      omega
  | landed =>
    obtain rfl : c = e := Option.some.inj (by rw [hpc] at hpcl; exact hpcl)
    refine ⟨_, ?_, nearer_unlocked (s.setState (s.cCurthread c) .run) .exorcise⟩
    simp only
    rw [release_eq (s := s.setState (s.cCurthread c) .run) h.locks hl]
    rfl
  | migrate m => exact h.nearer_migrate hc hl hpc
  | _ =>
    rw [hpc] at hpcl
    cases hpcl

/-- A CPU that holds the lock of a run queue goes on in the scheduler. -/
theorem SchedInv.eq_resume (h : SchedInv n s) (hc : c < n) (hl : s.splkHolder (.runqueue e) = some c)
    (hs : s.step n (c, a) = .ok s') : a = .resume := by
  have hpcl : (s.pc c).lock c = some e := ((h.place c hc).lock e).mp hl
  have hplain : ¬ (s.pc c).plain = true := by
    intro hp
    rw [SchedPc.lock_of_plain hp] at hpcl
    cases hpcl
  have hthread : s.pc c ≠ .thread := fun e => hplain (by rw [e]; rfl)
  obtain ⟨-, hs⟩ := require_bind_ok.mp hs
  cases a with
  | resume => rfl
  | acquire w | release w | sleep w | wakeone w | wakeall w =>
    exact absurd (plain_of_code (require_bind_ok.mp hs).1) hplain
  | exit | yield => exact absurd (require_bind_ok.mp hs).1.1 hthread
  | fork t proc => exact absurd (require_bind_ok.mp hs).1.1.1 hthread
  | start | zombify => exact absurd (require_bind_ok.mp hs).1.1 hthread
  | shutdown target => exact absurd (require_bind_ok.mp hs).1.1.1 hthread
  | ipi => exact absurd (plain_of_code (.inr (require_bind_ok.mp hs).1.1)) hplain
  | tick | iret => exact absurd (plain_of_code (.inr (require_bind_ok.mp hs).1)) hplain
  | hatch => exact absurd (by rw [(require_bind_ok.mp hs).1]; rfl) hplain
  | irq =>
    rcases (require_bind_ok.mp hs).1.2 with ⟨e, -⟩ | e | e <;> rw [e] at hpcl <;> cases hpcl

/-- **One step of any CPU**, after which the lock is still held. -/
theorem SchedInv.holdSteps_step {b : ℕ × SchedAction} (h : SchedInv n s) (hc : c < n)
    (hl : s.splkHolder (.runqueue e) = some c) (hcl : s.Client b) (hs : s.step n b = .ok s')
    (hl' : s'.splkHolder (.runqueue e) = some c) :
    s'.holdSteps c + (if b.1 = c then 1 else 0) ≤ s.holdSteps c := by
  obtain ⟨d, a⟩ := b
  by_cases hd : d = c
  · subst hd
    obtain rfl := h.eq_resume hc hl hs
    obtain ⟨s₁, hs₁, hnear⟩ := h.nearer hc hl
    obtain rfl := Except.ok.inj (hs.symm.trans hs₁)
    rw [if_pos rfl]
    rcases hnear with hnone | ⟨-, hlt⟩
    · cases hnone.symm.trans hl'
    · omega
  · rw [if_neg hd]
    have hstep := h.step hcl
    rw [hs] at hstep
    obtain ⟨m, hf⟩ := hstep.frame
    unfold holdSteps
    rw [hf.pc c (Ne.symm hd), hf.victims c (Ne.symm hd)]
    exact le_rfl

/-- A run in which the lock is not given back. -/
theorem SchedInv.holdSteps_run (hc : c < n) : ∀ {bs : List (ℕ × SchedAction)} {s : SchedSys},
    SchedInv n s → Along (SchedSys.step n) (fun s b => s.Client b ∧ s.splkHolder (.runqueue e) = some c)
      s bs → Transition.run (SchedSys.step n) s bs = .ok s' → s'.splkHolder (.runqueue e) = some c →
    s'.holdSteps c + bs.countP (fun b => b.1 = c) ≤ s.holdSteps c
  | [], s, _, _, hr, _ => by
    cases hr
    exact le_rfl
  | b :: bs, s, h, hb, hr, hl' => by
    rw [run_cons, bind_eq_ok] at hr
    obtain ⟨s₁, hs₁, hr⟩ := hr
    obtain ⟨⟨hcl, hl⟩, hrest⟩ := hb
    have hstep := h.step hcl
    rw [hs₁] at hstep
    have hbs := hrest s₁ hs₁
    have hl₁ : s₁.splkHolder (.runqueue e) = some c := by
      cases bs with
      | nil =>
        cases hr
        exact hl'
      | cons b' bs => exact hbs.1.2
    have hone := h.holdSteps_step hc hl hcl hs₁ hl₁
    have hmore := holdSteps_run hc hstep.inv hbs hr hl'
    rw [List.countP_cons]
    simp only [decide_eq_true_eq]
    omega

end Hold

end Os161
