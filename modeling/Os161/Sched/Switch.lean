import Os161.Sched.Moves

set_option autoImplicit false

/-!
# The context switch

`thread_switch` from its call to the end in another thread: the thread goes to the right place, gets its
new state, the next thread is chosen or the CPU idles, and on the stack of the next thread the state is
set, the lock given back and the dead threads are cleaned up.

* `SchedInv.queued`: a thread comes to the right place for its new state.
* **`SchedInv.threadSwitch`**, **`SchedInv.pick`**, **`SchedInv.exorcise`**: the parts of the switch.
-/

namespace Os161

open SchedSys Transition

namespace SchedInv

variable {n : ℕ} {s s' : SchedSys} {c w : ℕ} {l : SchedList} {st : ThreadState} {wc : Option ℕ}

/-- **The thread is in the right place** for its new state. -/
theorem queued (h : SchedInv n s) (hc : c < n) (hp : (s.pc c).plain = true) (hi : s.cIsidle c = false)
    (hf : s.Frame s' c (s.cCurthread c)) (hpc : s'.pc c = .queued st)
    (hlists : s'.lists = Function.update s.lists l (s.lists l ++ [s.cCurthread c]))
    (hlisted : s'.listed = Function.update s.listed (s.cCurthread c) (some l))
    (hlive : s'.live = s.live) (hcpu : s'.tCpu = s.tCpu) (hproc : s'.tProc = s.tProc)
    (hnum : s'.pNumthreads = s.pNumthreads) (hcur : s'.cCurthread = s.cCurthread)
    (hidle : s'.cIsidle = s.cIsidle) (hin : s'.tInInterrupt = s.tInInterrupt)
    (hl : l = .runqueue c ∧ st = .ready ∨ l = .wchan w ∧ st = .sleep ∧ s.inHandler c = false ∨
      l = .zombies c ∧ st = .zombie ∧ s.inHandler c = false ∧ s.tProc (s.cCurthread c) = none)
    (hlocks : Counted s'.cSpinlocks s'.splkHolder)
    (hlock : ∀ d, s'.splkHolder (.runqueue d) = some c ↔ some c = some d) : s.Stepped n c s' := by
  have hok := h.current c hc
  have hplace := h.place c hc
  have hnone : s.listed (s.cCurthread c) = none :=
    hok.runs.mpr ⟨hi, SchedPc.newstate_of_plain hp⟩
  have hsome : s'.listed (s.cCurthread c) = some l := by
    rw [hlisted]
    exact Function.update_self ..
  have hruns : ¬ s'.Runs c := by
    unfold Runs
    rw [hpc]
    exact fun hr => by cases hr.2
  have hstate : s'.stateOf (s.cCurthread c) = st := by
    unfold stateOf
    rw [hcpu, hcur, hok.home, if_pos rfl, hpc]
    rfl
  have hsame : ∀ l' ≠ l, s'.lists l' = s.lists l' := by
    intro l' e
    rw [hlists]
    exact Function.update_of_ne e ..
  have hfit : s'.Fits (s.cCurthread c) l := by
    rcases hl with ⟨rfl, rfl⟩ | ⟨rfl, rfl, -⟩ | ⟨rfl, rfl, -, hnp⟩
    · exact ⟨by rw [hcpu, hok.home], hstate⟩
    · exact hstate
    · exact ⟨by rw [hcpu, hok.home], hstate, by rw [hproc, hnp]⟩
  have hne : l ≠ .wakeup c ∧ l ≠ .victims c ∧ ∀ t, l ≠ .newthread t := by
    rcases hl with ⟨rfl, -⟩ | ⟨rfl, -⟩ | ⟨rfl, -⟩ <;> simp
  have hhandler : s'.inHandler c = true → s'.lists (.runqueue c) ≠ [] := by
    unfold inHandler
    rw [hcur, hin]
    intro hi'
    rcases hl with ⟨rfl, -⟩ | ⟨-, -, hni⟩ | ⟨-, -, hni, -⟩
    · rw [hlists, Function.update_self]
      exact List.append_ne_nil_of_right_ne_nil _ (List.cons_ne_nil _ _)
    · cases hni.symm.trans hi'
    · cases hni.symm.trans hi'
  refine h.of_frame hc hf (.inl rfl) ?_ hlocks ?_ ⟨?_, ?_, ?_, ?_⟩ (fun e => absurd rfl e)
    ⟨?_, ?_, ?_, fun hr => absurd hr hruns⟩
    (.of_pc hpc (fun b hb => ?_) hlock (fun _ _ => ?_) (fun _ => ?_) (fun m hm => by cases hm)
      (fun hm => by cases hm) fun hi' _ => ⟨by simp, hhandler hi'⟩)
  · rw [hlists, hlisted]
    exact h.located.insert hnone (List.perm_append_singleton _ _)
  · rw [hnum, hproc]
    exact h.procs
  · exact fun e => by rw [hsome] at e; cases e
  · intro l' e
    obtain rfl := Option.some.inj (hsome.symm.trans e)
    exact ⟨by rw [hlive, hok.live], by rw [hcpu, hok.home]; exact hc, hfit⟩
  · exact fun e => by rw [hlive, hok.live] at e; cases e
  · intro e
    rw [hsame _ (hne.2.2 _).symm] at e
    rw [hlive, hproc]
    exact (h.threads _).forks e
  · rw [hcur, hcpu, hok.home]
  · rw [hcur, hlive, hok.live]
  · rw [hcur, hsome]
    exact iff_of_false (Option.some_ne_none l) hruns
  · rw [hidle, hi]
    exact Option.some.inj hb
  · rw [hsame _ hne.1.symm]
    exact hplace.wakeup_of_plain hp
  · rw [hsame _ hne.2.1.symm]
    exact hplace.victims_of_plain hp

/-- The current thread goes to the right place, with the lock of the run queue held. -/
theorem placed (h : SchedInv n s) (hc : c < n) (hp : (s.pc c).plain = true) (hi : s.cIsidle c = false)
    (hl : s.splkHolder (.runqueue c) = none)
    (hst : st = .ready ∨ s.inHandler c = false ∧
      ((st = .sleep ∧ ∃ w, wc = some w ∧ s.splkHolder (.client w) = some c) ∨
        st = .zombie ∧ s.tProc (s.cCurthread c) = none)) :
    Safe (s.Stepped n c) ((s.locked c (.runqueue c)).place c st wc >>= fun s₂ =>
      pure (s₂.goto c (.queued st))) := by
  have hok := h.current c hc
  have hno := (h.place c hc).no_lock (SchedPc.lock_of_plain hp)
  have hlocks := counted_locked (c := c) h.locks hl
  have hlocked := holder_locked hno c
  have hnone : (s.locked c (.runqueue c)).listed (s.cCurthread c) = none :=
    hok.runs.mpr ⟨hi, SchedPc.newstate_of_plain hp⟩
  have hlift : s.Frame (s.locked c (.runqueue c)) c (s.cCurthread c) := .locked hl
  rcases hst with rfl | ⟨hin, ⟨rfl, w, rfl, hw⟩ | ⟨rfl, hnp⟩⟩
  · have hhold : (s.locked c (.runqueue c)).splkHolder (.runqueue
        ((s.locked c (.runqueue c)).tCpu (s.cCurthread c))) = some c := by
      change (s.locked c (.runqueue c)).splkHolder (.runqueue (s.tCpu (s.cCurthread c))) = some c
      rw [hok.home, hlocked]
    have heq := makeRunnable_of_lock hhold hnone
    change Safe (s.Stepped n c) ((s.locked c (.runqueue c)).threadMakeRunnable c (s.cCurthread c) true
      >>= _)
    rw [heq]
    refine h.queued (w := 0) (l := .runqueue c) hc hp hi ?_ (goto_pc _) ?_ ?_ (readied_live ..)
      (readied_tCpu ..) (readied_tProc ..) (readied_pNumthreads ..) (readied_cCurthread ..)
      (readied_cIsidle ..) (readied_tInInterrupt ..) (.inl ⟨rfl, rfl⟩) ?_ ?_
    · exact hlift.trans ((Frame.readied (.inl rfl)).trans (.goto _))
    · refine (readied_lists ..).trans ?_
      change Function.update s.lists (.runqueue (s.tCpu (s.cCurthread c)))
        (s.lists (.runqueue (s.tCpu (s.cCurthread c))) ++ [s.cCurthread c]) = _
      rw [hok.home]
    · refine (readied_listed ..).trans ?_
      change Function.update s.listed _ (some (.runqueue (s.tCpu (s.cCurthread c)))) = _
      rw [hok.home]
    · change Counted (readied ..).cSpinlocks (readied ..).splkHolder
      rw [readied_cSpinlocks, readied_splkHolder]
      exact hlocks
    · intro d
      change (readied ..).splkHolder _ = _ ↔ _
      rw [readied_splkHolder]
      exact hlocked d
  · have hw' : (s.locked c (.runqueue c)).splkHolder (.client w) = some c := by
      simp [locked, hw]
    change Safe (s.Stepped n c) ((threadlistAddtail _ _ _ >>= _) >>= _)
    rw [bind_assoc]
    refine safe_addtail hnone (safe_release hlocks hw' ?_)
    refine h.queued (w := w) (l := .wchan w) hc hp hi ?_ (goto_pc _) rfl rfl rfl rfl rfl rfl rfl rfl
      rfl (.inr (.inl ⟨rfl, rfl, hin⟩)) (counted_unlocked hlocks hw') ?_
    · refine (hlift.trans (.relist (.inl rfl) (by simp) (by simp))).trans
        ((Frame.unlocked ?_).trans (.goto _))
      exact hw'
    · intro d
      have hsame := unlocked_runqueue (s := s.locked c (.runqueue c)) (c := c) (w := w) d
      exact (iff_of_eq (congrArg (· = some c) hsame)).trans (hlocked d)
  · change Safe (s.Stepped n c) (threadlistAddtail _ _ _ >>= _)
    refine safe_addtail hnone ?_
    refine h.queued (w := 0) (l := .zombies c) hc hp hi ?_ (goto_pc _) rfl rfl rfl rfl rfl rfl rfl rfl
      rfl (.inr (.inr ⟨rfl, rfl, hin, hnp⟩)) hlocks hlocked
    exact hlift.trans ((Frame.relist (.inl rfl) (by simp) (by simp)).trans (.goto _))

/-- **`thread_switch`**, until the thread is in the right place. -/
theorem threadSwitch (h : SchedInv n s) (hc : c < n) (hp : (s.pc c).plain = true)
    (hst : st = .ready ∨ s.inHandler c = false ∧
      ((st = .sleep ∧ ∃ w, wc = some w ∧ s.splkHolder (.client w) = some c) ∨
        st = .zombie ∧ s.tProc (s.cCurthread c) = none)) :
    Safe (s.Stepped n c) (s.threadSwitch c st wc) := by
  have hplace := h.place c hc
  have hno := hplace.no_lock (SchedPc.lock_of_plain hp)
  have hback : s.Stepped n c (s.goto c (s.base c)) := by
    refine h.goto_plain hc hp (s.base_plain c) ?_
    rw [base_idleness]
    exact fun b hb => Option.some.inj hb
  unfold SchedSys.threadSwitch
  split_ifs with hi hmt
  · exact hback
  · refine safe_acquire (hno c) fun hl => ?_
    refine safe_release (counted_locked h.locks hl) (Function.update_self ..) ?_
    rw [unlocked_locked hl]
    exact hback
  · refine safe_acquire (hno c) fun hl => ?_
    exact h.placed hc hp (Bool.eq_false_iff.mpr hi) hl hst

/-- The thread gets its new state, and the CPU counts as idle. -/
theorem stateSet (h : SchedInv n s) (hc : c < n) (hpc : s.pc c = .queued st) :
    s.Stepped n c { (s.setState (s.cCurthread c) st).goto c .choose with
      cIsidle := Function.update s.cIsidle c true } := by
  have hok := h.current c hc
  have hplace := h.place c hc
  have hruns : ¬ s.Runs c := by
    unfold Runs
    rw [hpc]
    exact fun hr => by cases hr.2
  have hrun' : Function.update s.cIsidle c true c = true := Function.update_self ..
  have hpc' : Function.update s.pc c .choose c = SchedPc.choose := Function.update_self ..
  have hst : Function.update s.tState (s.cCurthread c) st (s.cCurthread c) = st :=
    Function.update_self ..
  refine h.of_frame (m := s.cCurthread c) hc ?_ (.inl rfl) h.located h.locks h.procs ?_
    (fun e => absurd rfl e) ⟨hok.home, hok.live, ?_, ?_⟩
    (.of_pc hpc' (fun b hb => hrun'.trans (Option.some.inj hb)) ?_
      (fun _ _ => hplace.wakeup (by simp [hpc]) (by simp [hpc]))
      (fun _ => hplace.victims (by simp [hpc])) (fun m hm => by cases hm) (fun hm => by cases hm)
      fun hin _ => ⟨by simp, (hplace.handler hin (by rw [hpc]; rfl)).2⟩)
  · exact (Frame.setState (.inl rfl) st).trans ((Frame.goto .choose).trans (.setIsidle true))
  · refine (h.threads _).congr rfl rfl rfl rfl id ?_ fun d ht hr => ?_
    · unfold stateOf
      change (if s.cCurthread (s.tCpu _) = _ then
        (Function.update s.pc c .choose (s.tCpu _)).newstate.getD (Function.update s.tState _ st _)
        else _) = _
      rw [hok.home, if_pos rfl, if_pos rfl, hpc', hst, hpc]
      rfl
    · by_cases hd : d = c
      · subst hd
        exact absurd hr hruns
      · refine ⟨ht, ?_, ?_⟩
        · exact (Function.update_of_ne hd ..).trans hr.1
        · exact (congrArg SchedPc.newstate (Function.update_of_ne hd ..)).trans hr.2
  · exact iff_of_false (fun e => hruns (hok.runs.mp e)) fun hr => by cases hrun'.symm.trans hr.1
  · exact fun hr => by cases hrun'.symm.trans hr.1
  · have hlock := hplace.lock
    rw [hpc] at hlock
    exact hlock

/-- **The next thread is chosen**, or the CPU idles. -/
theorem pick (h : SchedInv n s) (hc : c < n) (hpc : s.pc c = .choose) :
    Safe (s.Stepped n c) (s.pick c) := by
  have hok := h.current c hc
  have hplace := h.place c hc
  have hidle : s.cIsidle c = true := hplace.idle true (by rw [hpc]; rfl)
  have hlock : ∀ d, s.splkHolder (.runqueue d) = some c ↔ some c = some d := by
    have hlock := hplace.lock
    rw [hpc] at hlock
    exact hlock
  have hnorun : ¬ s.Runs c := fun hr => by cases hidle.symm.trans hr.1
  have hw : s.lists (.wakeup c) = [] := hplace.wakeup (by simp [hpc]) (by simp [hpc])
  have hv : s.lists (.victims c) = [] := hplace.victims (by simp [hpc])
  unfold SchedSys.pick threadlistRemhead
  cases hq : s.lists (.runqueue c) with
  | nil =>
    have hl : s.splkHolder (.runqueue c) = some c := (hlock c).mpr rfl
    refine safe_release h.locks hl ?_
    have hpc' : ((s.unlocked c (.runqueue c)).goto c .idle).pc c = .idle := goto_pc _
    refine h.of_quiet hc ((Quiet.unlocked hl).trans (.goto ?_)) (counted_unlocked h.locks hl)
      (.of_pc hpc' (fun b hb => hidle.trans (Option.some.inj hb)) (fun d => ?_) (fun _ _ => hw)
        (fun _ => hv) (fun m hm => by cases hm) (fun _ hne => absurd hq hne)
        fun hin _ => absurd hq (hplace.handler hin (by rw [hpc]; rfl)).2)
    · change _ = (s.pc c).newstate
      rw [hpc]
      rfl
    · exact iff_of_false (holder_unlocked hlock d) fun e => by cases e
  | cons t ts =>
    obtain ⟨hold, hloc⟩ := h.remhead_located hq
    obtain ⟨hlive, -, hcpu, hready⟩ := (h.threads t).listed _ hold
    have hpc' : Function.update s.pc c .landed c = SchedPc.landed := Function.update_self ..
    have hcur' : Function.update s.cCurthread c t c = t := Function.update_self ..
    have hidle' : Function.update s.cIsidle c false c = false := Function.update_self ..
    have hoff : Function.update s.listed t none t = none := Function.update_self ..
    have hothers : ∀ l ≠ .runqueue c, Function.update s.lists (.runqueue c) ts l = s.lists l :=
      fun l e => Function.update_of_ne e ..
    have hst : s.tState t = .ready := by
      unfold stateOf at hready
      rw [hcpu, hpc] at hready
      simpa [SchedPc.newstate] using hready
    have hnext : ThreadOk n { (s.relist (.runqueue c) ts t none).goto c .landed with
        cIsidle := Function.update s.cIsidle c false
        cCurthread := Function.update s.cCurthread c t } t :=
      { runs := fun _ _ => ⟨c, hc, hcur', hidle', congrArg SchedPc.newstate hpc'⟩
        listed := fun l e => by cases hoff.symm.trans e
        proc := fun e => by cases hlive.symm.trans e
        forks := fun e => (h.threads t).forks fun hnil => e ((hothers _ (by simp)).trans hnil) }
    refine h.of_frame (m := t) hc ?_ (.inr (.inr (.inl hcpu))) hloc h.locks h.procs ?_
      (fun _ => hnext) ⟨?_, ?_, ?_, ?_⟩
      (.of_pc hpc' (fun b hb => hidle'.trans (Option.some.inj hb)) hlock
        (fun _ _ => (hothers _ (by simp)).trans hw) (fun _ => (hothers _ (by simp)).trans hv)
        (fun m hm => by cases hm) (fun hm => by cases hm) fun _ e => by cases e)
    · exact (Frame.relist (.inl rfl) (fun d hd => by simp [Ne.symm hd]) (by simp)).trans
        ((Frame.goto .landed).trans ((Frame.setIsidle false).trans .setCurthread))
    · by_cases e : s.cCurthread c = t
      · rw [e]
        exact hnext
      · refine (h.threads _).congr (Function.update_of_ne e ..) rfl rfl rfl ?_ ?_ fun d ht hr => ?_
        · exact fun hne hnil => hne ((hothers _ (by simp)).trans hnil)
        · unfold stateOf
          change (if Function.update s.cCurthread c t (s.tCpu _) = _ then _ else _) = _
          rw [hok.home, hcur', if_neg (Ne.symm e), if_pos rfl, hpc]
          rfl
        · by_cases hd : d = c
          · subst hd
            exact absurd hr hnorun
          · refine ⟨(Function.update_of_ne hd ..).trans ht, ?_, ?_⟩
            · exact (Function.update_of_ne hd ..).trans hr.1
            · exact (congrArg SchedPc.newstate (Function.update_of_ne hd ..)).trans hr.2
    · exact (congrArg s.tCpu hcur').trans hcpu
    · exact (congrArg s.live hcur').trans hlive
    · exact iff_of_true ((congrArg _ hcur').trans hoff) ⟨hidle', congrArg SchedPc.newstate hpc'⟩
    · exact fun _ => .inr ((congrArg s.tState hcur').trans hst)

/-- The state is set on the stack of the chosen thread, and the lock given back. -/
theorem landed (h : SchedInv n s) (hc : c < n) (hpc : s.pc c = .landed) :
    Safe (s.Stepped n c) ((s.setState (s.cCurthread c) .run).spinlockRelease c (.runqueue c) >>= fun s₁ =>
      pure (s₁.goto c .exorcise)) := by
  have hok := h.current c hc
  have hplace := h.place c hc
  have hidle : s.cIsidle c = false := hplace.idle false (by rw [hpc]; rfl)
  have hruns : s.Runs c := ⟨hidle, by rw [hpc]; rfl⟩
  have hlock : ∀ d, s.splkHolder (.runqueue d) = some c ↔ some c = some d := by
    have hlock := hplace.lock
    rw [hpc] at hlock
    exact hlock
  have hl : s.splkHolder (.runqueue c) = some c := (hlock c).mpr rfl
  have hst : Function.update s.tState (s.cCurthread c) .run (s.cCurthread c) = ThreadState.run :=
    Function.update_self ..
  have hpc' : Function.update s.pc c .exorcise c = SchedPc.exorcise := Function.update_self ..
  have hruns' : Runs (((s.setState (s.cCurthread c) .run).unlocked c (.runqueue c)).goto c .exorcise)
      c := ⟨hidle, congrArg SchedPc.newstate hpc'⟩
  refine safe_release h.locks hl ?_
  refine h.of_frame (m := s.cCurthread c) hc ?_ (.inl rfl) h.located (counted_unlocked h.locks hl)
    h.procs ?_ (fun e => absurd rfl e) ⟨hok.home, hok.live, ?_, fun _ => .inl hst⟩
    (.of_pc hpc' (fun b hb => hidle.trans (Option.some.inj hb))
      (fun d => iff_of_false (holder_unlocked hlock d) fun e => by cases e)
      (fun _ _ => hplace.wakeup (by simp [hpc]) (by simp [hpc]))
      (fun _ => hplace.victims (by simp [hpc])) (fun m hm => by cases hm) (fun hm => by cases hm)
      fun _ e => by cases e)
  · refine (Frame.setState (.inl rfl) .run).trans ((Frame.unlocked ?_).trans (.goto .exorcise))
    exact hl
  · exact threadOk_of_runs hc hruns' (hok.runs.mpr hruns) hok.live fun e => ((h.threads _).forks e).2
  · exact iff_of_true (hok.runs.mpr hruns) hruns'

/-- `thread_destroy` of a thread that is nowhere. -/
theorem threadDestroy_eq {t : ThreadPtr} (hne : t ≠ s.cCurthread c) (hst : s.tState t ≠ .run)
    (hp : s.tProc t = none) (hl : s.listed t = none) :
    s.threadDestroy c t = .ok { s with live := Function.update s.live t false } := by
  unfold threadDestroy
  rw [kassert_bind hne, kassert_bind hst, kassert_bind hp, kassert_bind hl]
  rfl

/-- **One turn of `exorcise`**: the thread that is destroyed is on no list any more, and no CPU runs
it. -/
theorem exorcise (h : SchedInv n s) (hc : c < n) (hpc : s.pc c = .exorcise) :
    Safe (s.Stepped n c) (s.exorcise c) := by
  have hok := h.current c hc
  have hplace := h.place c hc
  have hp : (s.pc c).plain = true := by rw [hpc]; rfl
  have hidle : s.cIsidle c = false := hplace.idle false (by rw [hpc]; rfl)
  have hnone : s.listed (s.cCurthread c) = none :=
    hok.runs.mpr ⟨hidle, SchedPc.newstate_of_plain hp⟩
  unfold SchedSys.exorcise threadlistRemhead
  cases hq : s.lists (.zombies c) with
  | nil => exact h.goto_plain hc hp rfl fun b hb => hidle.trans (Option.some.inj hb)
  | cons z zs =>
    obtain ⟨hold, hloc⟩ := h.remhead_located hq
    obtain ⟨hlive, -, hcpu, hzombie, hnp⟩ := (h.threads z).listed _ hold
    have hne : z ≠ s.cCurthread c := by
      intro e
      rw [← e, hold] at hnone
      cases hnone
    have hst : s.tState z = .zombie := by
      unfold stateOf at hzombie
      rwa [hcpu, if_neg hne.symm] at hzombie
    have hoff : Function.update s.listed z none z = none := Function.update_self ..
    have hdead : Function.update s.live z false z = false := Function.update_self ..
    have hothers : ∀ l ≠ .zombies c, Function.update s.lists (.zombies c) zs l = s.lists l :=
      fun l e => Function.update_of_ne e ..
    have hnotrun : s.tState z ≠ .run := by
      rw [hst]
      simp
    simp only
    rw [kassert_bind hne, kassert_bind hst]
    rw [threadDestroy_eq (s := s.relist (.zombies c) zs z none) hne hnotrun hnp hoff]
    refine h.of_frame (m := z) hc ?_ (.inr (.inr (.inl hcpu))) hloc h.locks h.procs ?_
      (fun _ => ⟨?_, ?_, ?_, ?_⟩) ⟨hok.home, ?_, ?_, hok.state⟩
      (.of_plain hp hplace.idle (hplace.no_lock (SchedPc.lock_of_plain hp)) ?_ ?_)
    · have hoffList : s.Frame (s.relist (.zombies c) zs z none) c z :=
        .relist (.inl rfl) (by simp) (by simp)
      exact hoffList.trans
        { Frame.refl _ c z with live := fun u hu _ => Function.update_of_ne hu .. }
    · exact (h.threads _).congr (Function.update_of_ne hne.symm ..) (Function.update_of_ne hne.symm ..)
        rfl rfl (fun e hnil => e ((hothers _ (by simp)).trans hnil)) rfl fun d ht hr => ⟨ht, hr⟩
    · exact fun _ e => by cases hdead.symm.trans e
    · exact fun l e => by cases hoff.symm.trans e
    · exact fun _ => hnp
    · exact fun e => absurd hnp ((h.threads z).forks fun hnil =>
        e ((hothers _ (by simp)).trans hnil)).2
    · exact (Function.update_of_ne hne.symm ..).trans hok.live
    · exact (iff_of_eq (congrArg (· = none) (Function.update_of_ne hne.symm ..))).trans hok.runs
    · exact (hothers _ (by simp)).trans (hplace.wakeup_of_plain hp)
    · exact (hothers _ (by simp)).trans (hplace.victims_of_plain hp)

/-- **The end of `thread_exit`**: `thread_switch` does not return at once. -/
theorem zombify (h : SchedInv n s) (hc : c < n) (hpc : s.pc c = .thread) (hin : s.inHandler c = false)
    (hnp : s.tProc (s.cCurthread c) = none) : Safe (s.Stepped n c) (s.zombify c) := by
  have hidle : s.cIsidle c = false := (h.place c hc).idle false (by rw [hpc]; rfl)
  unfold SchedSys.zombify
  rw [if_neg (by simp [hidle])]
  exact h.threadSwitch hc (by rw [hpc]; rfl) (.inr ⟨hin, .inr ⟨rfl, hnp⟩⟩)

/-- **`wchan_sleep`.** -/
theorem wchanSleep (h : SchedInv n s) (hc : c < n) (hp : (s.pc c).plain = true)
    (hin : s.inHandler c = false) (hl : s.splkHolder (.client w) = some c)
    (hone : s.cSpinlocks c = 1) : Safe (s.Stepped n c) (s.wchanSleep c w) := by
  unfold SchedSys.wchanSleep
  rw [kassert_bind hin, kassert_bind hl, kassert_bind hone]
  exact h.threadSwitch hc hp (.inr ⟨hin, .inl ⟨rfl, w, rfl, hl⟩⟩)

end SchedInv

end Os161
