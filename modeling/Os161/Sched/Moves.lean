import Os161.Sched.Steps

set_option autoImplicit false

/-!
# Threads that go from one list to another one

Wake-ups take a thread from a wait channel and then put it on the run queue of its CPU, with the lock
of that queue held; a new thread comes onto a run queue in the same way, and an exited one leaves its
process.

* **`SchedInv.of_move`**: what is to be shown of one thread that goes to another list.
* `SchedInv.wchanWakeone`, `SchedInv.gather`: the way off a channel.
* **`SchedInv.make_runnable`**: the way onto a run queue.
* `SchedInv.fork`, `SchedInv.exit`: a thread comes into a process and leaves it.
-/

namespace Os161

open SchedSys Transition

section Moves

variable {n : ℕ} {s s' : SchedSys} {c w : ℕ} {m t : ThreadPtr} {l₁ l₂ : SchedList}
  {ts : List ThreadPtr}

variable (l₂) in
/-- **One thread goes to another list.** -/
theorem SchedInv.of_move (h : SchedInv n s) (hc : c < n) (hf : s.Frame s' c m)
    (hlive : s'.live = s.live) (hproc : s'.tProc = s.tProc)
    (hnum : s'.pNumthreads = s.pNumthreads) (hcur : s'.cCurthread = s.cCurthread)
    (hidle : s'.cIsidle = s.cIsidle) (hin : s'.tInInterrupt = s.tInInterrupt) (hns : (s'.pc c).newstate = (s.pc c).newstate)
    (hcpu : ∀ t ≠ m, s'.tCpu t = s.tCpu t) (hstate : ∀ t ≠ m, s'.tState t = s.tState t)
    (hlisted : ∀ t ≠ m, s'.listed t = s.listed t) (hold : s.listed m = some l₁)
    (hnew : s'.listed m = some l₂) (hlt : s'.tCpu m < n)
    (hhome : s'.tCpu m = s.tCpu m ∨ s.tCpu m = c ∧ m ≠ s.cCurthread c)
    (hforks : ∀ t, s'.lists (.newthread t) ≠ [] → s.lists (.newthread t) ≠ [])
    (hfit : s'.Fits m l₂) (hlocated : Located s'.lists s'.listed)
    (hlocks : Counted s'.cSpinlocks s'.splkHolder) (hplace : s'.PlaceOk n c hc) :
    s.Stepped n c s' := by
  have hok := h.current c hc
  have ha : s.live m = true := ((h.threads m).listed l₁ hold).1
  have hm : m ≠ s.cCurthread c ∨ ¬ s.Runs c := by
    by_cases hm : m = s.cCurthread c
    · refine .inr fun hr => ?_
      rw [← hok.runs, ← hm, hold] at hr
      cases hr
    · exact .inl hm
  have hnsAll : ∀ d, (s'.pc d).newstate = (s.pc d).newstate := by
    intro d
    by_cases hd : d = c
    · rw [hd, hns]
    · rw [hf.pc d hd]
  have hruns : ∀ d, s'.Runs d ↔ s.Runs d := by
    intro d
    unfold Runs
    rw [hidle, hnsAll]
  have hthread : s'.ThreadOk n m :=
    { runs := fun hl _ => by rw [hnew] at hl; cases hl
      listed := fun l hl => by
        rw [hnew] at hl
        cases hl
        exact ⟨by rw [hlive, ha], hlt, hfit⟩
      proc := fun hl => by
        rw [hlive, ha] at hl
        cases hl
      forks := fun hl => by
        rw [hlive, hproc]
        exact (h.threads m).forks (hforks m hl) }
  refine h.of_frame hc hf ?_ hlocated hlocks ?_ ?_ (fun _ => hthread) ?_ hplace
  · rcases hhome with e | ⟨e, -⟩
    · exact .inr (.inr (.inr ⟨by rw [hold]; simp, by rw [hnew]; simp, by rw [hlive, ha], e, by rw [hin]⟩))
    · exact .inr (.inr (.inl e))
  · rw [hnum, hproc]
    exact h.procs
  · by_cases e : s.cCurthread c = m
    · rw [e]
      exact hthread
    · refine (h.threads _).congr (hlisted _ e) (by rw [hlive]) (hcpu _ e) (by rw [hproc])
        (hforks _) ?_ fun d ht hr => ⟨by rw [hcur, ht], (hruns d).mpr hr⟩
      unfold stateOf
      rw [hcpu _ e, hcur, hnsAll, hstate _ e]
  · refine ⟨?_, ?_, ?_, ?_⟩ <;> rw [hcur]
    · by_cases e : s.cCurthread c = m
      · rcases hhome with he | ⟨-, he⟩
        · rw [e, he, ← e]
          exact hok.home
        · exact absurd e.symm he
      · rw [hcpu _ e]
        exact hok.home
    · rw [hlive]
      exact hok.live
    · rw [hruns, ← hok.runs]
      by_cases e : s.cCurthread c = m
      · rw [e, hnew, hold]
        simp
      · rw [hlisted _ e]
    · intro hr
      rw [hruns] at hr
      have e : s.cCurthread c ≠ m := fun e => hm.elim (fun hm => hm e.symm) fun hm => hm hr
      rw [hstate _ e]
      exact hok.state hr

/-- A thread that is set to be ready, where no CPU that holds the lock of its run queue sets its state
after that. -/
theorem SchedInv.stateOf_readied (h : SchedInv n s) (ht : s.tCpu t < n)
    (hl : s.splkHolder (.runqueue (s.tCpu t)) = none) : (s.readied c t).stateOf t = .ready := by
  have hst : (s.readied c t).tState t = .ready := by
    rw [readied_tState]
    exact Function.update_self ..
  have hns : (s.pc (s.tCpu t)).newstate = none := by
    cases hpc : s.pc (s.tCpu t) <;> try rfl
    have hlock := ((h.place _ ht).lock (s.tCpu t)).mpr (by rw [hpc]; rfl)
    rw [hl] at hlock
    cases hlock
  unfold stateOf
  rw [readied_tCpu, readied_pc, readied_cCurthread, hst, hns]
  exact ite_self _

/-- A thread that is run. -/
theorem threadOk_of_runs (hc : c < n) (hruns : s.Runs c)
    (hlisted : s.listed (s.cCurthread c) = none) (hlive : s.live (s.cCurthread c) = true)
    (hforks : s.lists (.newthread (s.cCurthread c)) ≠ [] → s.tProc (s.cCurthread c) ≠ none) :
    s.ThreadOk n (s.cCurthread c) where
  runs _ _ := ⟨c, hc, rfl, hruns⟩
  listed l hl := by
    rw [hlisted] at hl
    cases hl
  proc hl := by
    rw [hlive] at hl
    cases hl
  forks hl := ⟨hlive, hforks hl⟩

end Moves

namespace SchedInv

variable {n : ℕ} {s : SchedSys} {c w : ℕ} {t : ThreadPtr} {l : SchedList} {ts : List ThreadPtr}

/-- The thread at the head of a list is taken off, and its list is known. -/
theorem remhead_located (h : SchedInv n s) (hq : s.lists l = t :: ts) :
    s.listed t = some l ∧
      Located (s.relist l ts t none).lists (s.relist l ts t none).listed :=
  ⟨h.located.place_of_perm (by rw [hq]), h.located.remove (by rw [hq])⟩

/-- **A thread goes off a wait channel**, into the local list of the CPU. -/
theorem gathered (h : SchedInv n s) (hc : c < n) (hq : s.lists (.wchan w) = t :: ts)
    (hns : (s.pc c).newstate = none) (hlock : ∀ d, s.splkHolder (.runqueue d) ≠ some c)
    (hv : s.lists (.victims c) = []) {pc : SchedPc} (hpc : pc = .waking ∨ pc = .gather w) :
    s.Stepped n c (((s.relist (.wchan w) ts t none).relist (.wakeup c) (s.lists (.wakeup c) ++ [t]) t
      (some (.wakeup c))).goto c pc) := by
  obtain ⟨hold, hloc⟩ := h.remhead_located hq
  obtain ⟨-, hlt, hfit⟩ := (h.threads t).listed _ hold
  have hsleep : s.stateOf t = .sleep := hfit
  have hpcn : pc.newstate = none ∧ pc.lock c = none ∧ pc.idleness = none := by
    rcases hpc with rfl | rfl <;> exact ⟨rfl, rfl, rfl⟩
  have hgoto := goto_pc (s := (s.relist (.wchan w) ts t none).relist (.wakeup c)
    (s.lists (.wakeup c) ++ [t]) t (some (.wakeup c))) (c := c) pc
  refine h.of_move (m := t) (.wakeup c) hc ?_ rfl rfl rfl rfl rfl rfl ?_
    (fun _ _ => rfl) (fun _ _ => rfl) ?_ hold (Function.update_self ..) hlt (.inl rfl) ?_ ?_ ?_
    h.locks (.of_pc hgoto ?_ (fun d => ?_) (fun hg hw => ?_) (fun _ => hv) ?_ ?_ ?_)
  · exact (Frame.relist (.inl rfl) (by simp) (by simp)).trans
      ((Frame.relist (.inl rfl) (fun d hd => by simp [Ne.symm hd]) (by simp)).trans (.goto pc))
  · rw [hgoto, hpcn.1, hns]
  · intro u hu
    exact (Function.update_of_ne hu ..).trans (Function.update_of_ne hu ..)
  · exact fun u hu => hu
  · have hquiet : s.Quiet (s.goto c pc) c := .goto (by rw [hpcn.1, hns])
    exact show (s.goto c pc).stateOf t = .sleep from (hquiet.stateOf_eq t).trans hsleep
  · exact hloc.insert (Function.update_self ..) (List.perm_append_singleton _ _)
  · rw [hpcn.2.2]
    exact fun b hb => by cases hb
  · exact iff_of_false (hlock d) fun e => by cases hpcn.2.1.symm.trans e
  · exact (hpc.elim hw (hg w)).elim
  · rcases hpc with rfl | rfl <;> exact fun m hm => by cases hm
  · rcases hpc with rfl | rfl <;> exact fun e => by cases e
  · rcases hpc with rfl | rfl <;> exact fun _ e => by cases e

/-- **`wchan_wakeone`**, until the thread is off the channel. -/
theorem wchanWakeone (h : SchedInv n s) (hc : c < n) (hp : (s.pc c).plain = true)
    (hl : s.splkHolder (.client w) = some c) : Safe (s.Stepped n c) (s.wchanWakeone c w) := by
  have hplace := h.place c hc
  unfold SchedSys.wchanWakeone threadlistRemhead
  rw [kassert_bind hl]
  cases hq : s.lists (.wchan w) with
  | nil => exact ⟨h, s.cCurthread c, .refl s c _⟩
  | cons t ts =>
    refine safe_addtail (Function.update_self ..) ?_
    exact h.gathered hc hq (SchedPc.newstate_of_plain hp)
      (hplace.no_lock (SchedPc.lock_of_plain hp)) (hplace.victims_of_plain hp) (.inl rfl)

/-- **A thread goes onto the run queue of its CPU**, from the local list of a wake-up or of a fork. -/
theorem make_runnable (h : SchedInv n s) (hc : c < n) (hq : s.lists l = t :: ts)
    (hpc : s.pc c = .waking ∧ l = .wakeup c ∨
      s.pc c = .thread ∧ l = .newthread (s.cCurthread c)) :
    Safe (s.Stepped n c) ((s.relist l ts t none).threadMakeRunnable c t false) := by
  obtain ⟨hold, hloc⟩ := h.remhead_located hq
  obtain ⟨-, hlt, -⟩ := (h.threads t).listed _ hold
  have hplace := h.place c hc
  have hlock : (s.pc c).lock c = none := by rcases hpc with ⟨e, -⟩ | ⟨e, -⟩ <;> rw [e] <;> rfl
  have hl : l ≠ .victims c ∧ (∀ d ≠ c, l ≠ .wakeup d ∧ l ≠ .victims d ∧ l ≠ .runqueue d) ∧
      (∀ u ≠ t, u ≠ s.cCurthread c → l ≠ .newthread u) ∧ l ≠ .runqueue (s.tCpu t) := by
    rcases hpc with ⟨-, rfl⟩ | ⟨-, rfl⟩
    · exact ⟨by simp, fun d hd => by simp [Ne.symm hd], by simp, by simp⟩
    · exact ⟨by simp, by simp, fun u _ hu => by simp [Ne.symm hu], by simp⟩
  rw [← bind_pure (threadMakeRunnable ..)]
  refine safe_makeRunnable h.locks (Function.update_self ..) (hplace.no_lock hlock _) fun hfree => ?_
  have hothers : ∀ l' ≠ l, l' ≠ .runqueue (s.tCpu t) →
      ((s.relist l ts t none).readied c t).lists l' = s.lists l' := by
    intro l' h₁ h₂
    rw [readied_lists]
    exact (Function.update_of_ne h₂ ..).trans (Function.update_of_ne h₁ ..)
  have hst : ((s.relist l ts t none).readied c t).stateOf t = .ready := by
    have hready := h.stateOf_readied (c := c) hlt hfree
    unfold stateOf at hready ⊢
    rw [readied_tCpu, readied_pc, readied_cCurthread, readied_tState] at hready ⊢
    exact hready
  refine h.of_move (m := t) (.runqueue (s.tCpu t)) hc ?_ (readied_live ..)
    (readied_tProc ..) (readied_pNumthreads ..) (readied_cCurthread ..) (readied_cIsidle ..)
    (readied_tInInterrupt ..) ?_ ?_ ?_ ?_ hold ?_ ?_ ?_ ?_ ?_ ?_ ?_ ⟨?_, ?_, ?_, ?_, ?_, ?_, ?_⟩
  · exact (Frame.relist (.inl rfl) hl.2.1 hl.2.2.1).trans (.readied (.inl rfl))
  · rw [readied_pc]
    rfl
  · intro u _
    rw [readied_tCpu]
    rfl
  · intro u hu
    rw [readied_tState]
    exact Function.update_of_ne hu ..
  · intro u hu
    rw [readied_listed]
    exact (Function.update_of_ne hu ..).trans (Function.update_of_ne hu ..)
  · rw [readied_listed]
    exact Function.update_self ..
  · rw [readied_tCpu]
    exact hlt
  · rw [readied_tCpu]
    exact .inl rfl
  · intro u hu
    by_cases e : SchedList.newthread u = l
    · rw [e, hq]
      exact List.cons_ne_nil _ _
    · rwa [hothers _ e (by simp)] at hu
  · exact ⟨by rw [readied_tCpu]; rfl, hst⟩
  · rw [readied_lists, readied_listed]
    exact hloc.insert (Function.update_self ..) (List.perm_append_singleton _ _)
  · rw [readied_cSpinlocks, readied_splkHolder]
    exact h.locks
  · rw [readied_pc, readied_cIsidle]
    exact hplace.idle
  · rw [readied_pc, readied_splkHolder]
    exact hplace.lock
  · rw [readied_pc]
    rcases hpc with ⟨e, -⟩ | ⟨-, rfl⟩
    · exact fun _ hw => absurd e hw
    · rw [hothers _ (by simp) (by simp)]
      exact hplace.wakeup
  · rw [readied_pc, hothers _ (Ne.symm hl.1) (by simp)]
    exact hplace.victims
  · intro m hm
    rw [readied_pc] at hm
    have hm' : s.pc c = .migrate m := hm
    rcases hpc with ⟨e, -⟩ | ⟨e, -⟩ <;> rw [e] at hm' <;> cases hm'
  · intro hm
    rw [readied_pc] at hm
    have hm' : s.pc c = .idle := hm
    rcases hpc with ⟨e, -⟩ | ⟨e, -⟩ <;> rw [e] at hm' <;> cases hm'
  · intro _ hsw
    rw [readied_pc] at hsw
    have hsw' : (s.pc c).switching = true := hsw
    rcases hpc with ⟨e, -⟩ | ⟨e, -⟩ <;> rw [e] at hsw' <;> cases hsw'

/-- The first loop of `wchan_wakeall`. -/
theorem gather (h : SchedInv n s) (hc : c < n) (hpc : s.pc c = .gather w) :
    Safe (s.Stepped n c) (s.resume n c) := by
  have hplace := h.place c hc
  have hns : (s.pc c).newstate = none := by rw [hpc]; rfl
  have hlock : ∀ d, s.splkHolder (.runqueue d) ≠ some c := hplace.no_lock (by rw [hpc]; rfl)
  have hv : s.lists (.victims c) = [] := hplace.victims (by simp [hpc])
  unfold SchedSys.resume threadlistRemhead
  simp only [hpc]
  cases hq : s.lists (.wchan w) with
  | nil =>
    have hpc' : (s.goto c .waking).pc c = .waking := goto_pc _
    exact h.of_quiet hc (.goto (by rw [hns]; rfl)) h.locks (.of_pc hpc' (fun b hb => by cases hb)
      (fun d => iff_of_false (hlock d) fun e => by cases e) (fun _ hw => absurd rfl hw)
      (fun _ => hv) (fun m hm => by cases hm) (fun e => by cases e) fun _ e => by cases e)
  | cons t ts =>
    have hmoved := h.gathered hc hq hns hlock hv (.inr rfl)
    have hsame : ∀ s' : SchedSys, s'.pc = s.pc → s'.goto c (.gather w) = s' := by
      intro s' hs
      unfold goto
      rw [← hpc, ← hs, Function.update_eq_self]
    rw [hsame] at hmoved
    · change Safe (s.Stepped n c) (threadlistAddtail _ _ _)
      rw [addtail_eq (Function.update_self ..)]
      exact hmoved
    · rfl

/-- The threads that were taken from a channel are made runnable. -/
theorem waking (h : SchedInv n s) (hc : c < n) (hpc : s.pc c = .waking) :
    Safe (s.Stepped n c) (s.resume n c) := by
  have hplace := h.place c hc
  unfold SchedSys.resume threadlistRemhead
  simp only [hpc]
  cases hq : s.lists (.wakeup c) with
  | nil =>
    have hbase := s.base_plain c
    refine h.of_quiet hc (.goto (by rw [hpc, SchedPc.newstate_of_plain hbase]; rfl)) h.locks
      (.of_plain (by rw [goto_pc]; exact hbase) ?_ (hplace.no_lock (by rw [hpc]; rfl)) hq
        (hplace.victims (by simp [hpc])))
    rw [goto_pc, base_idleness]
    exact fun b hb => Option.some.inj hb
  | cons t ts => exact h.make_runnable hc hq (.inl ⟨hpc, rfl⟩)

/-- **`thread_make_runnable` in `thread_fork`.** -/
theorem forkStart (h : SchedInv n s) (hc : c < n) (hpc : s.pc c = .thread) :
    Safe (s.Stepped n c) (s.forkStart c) := by
  unfold SchedSys.forkStart threadlistRemhead
  cases hq : s.lists (.newthread (s.cCurthread c)) with
  | nil => trivial
  | cons t ts => exact h.make_runnable hc hq (.inr ⟨hpc, rfl⟩)

/-- `thread_create`, where the node of the thread is clear. -/
theorem threadCreate_eq (h : s.listed t = none) : s.threadCreate c t = { s with
    live := Function.update s.live t true
    tState := Function.update s.tState t .ready
    tCpu := Function.update s.tCpu t (s.tCpu (s.cCurthread c))
    tProc := Function.update s.tProc t none
    tInInterrupt := Function.update s.tInInterrupt t false } := by
  have hsame : Function.update s.listed t none = s.listed := by rw [← h, Function.update_eq_self]
  unfold threadCreate
  rw [hsame]

/-- **`thread_fork`**, until the thread is in its process. -/
theorem fork (h : SchedInv n s) (hc : c < n) {proc : Option ProcId} (hcode : s.InCode c)
    (hfresh : s.live t = false) : Safe (s.Stepped n c) (s.threadFork c t proc) := by
  obtain ⟨hpc, -, hproc, hnew⟩ := hcode
  have hok := h.current c hc
  have hplace := h.place c hc
  have hp : (s.pc c).plain = true := by rw [hpc]; rfl
  have hne : s.cCurthread c ≠ t := by
    intro e
    rw [← e, hok.live] at hfresh
    cases hfresh
  have hlisted : s.listed t = none := by
    cases hl : s.listed t with
    | none => rfl
    | some l =>
      rw [((h.threads t).listed l hl).1] at hfresh
      cases hfresh
  have hrun : s.listed (s.cCurthread c) = none := by
    rw [hok.runs]
    exact ⟨hplace.idle false (by rw [hpc]; rfl), by rw [hpc]; rfl⟩
  obtain ⟨p, hpp⟩ : ∃ p, proc.or (s.tProc (s.cCurthread c)) = some p := by
    refine Option.ne_none_iff_exists'.mp fun e => hproc ?_
    rw [Option.or_eq_none_iff] at e
    exact e.2
  have hclear : Function.update s.tProc t none t = none := Function.update_self ..
  unfold threadFork procAddthread
  rw [hpp, deref_bind, threadCreate_eq hlisted, kassert_bind hclear]
  change Safe (s.Stepped n c) (threadlistAddtail _ _ _)
  rw [← bind_pure (threadlistAddtail ..)]
  refine safe_addtail hlisted ?_
  have hothers : ∀ u ≠ s.cCurthread c, SchedList.newthread u ≠ .newthread (s.cCurthread c) :=
    fun u hu e => hu (SchedList.newthread.inj e)
  refine h.of_frame (m := t) hc ?_ (.inr (.inl hfresh)) ?_ h.locks ?_ ?_ (fun _ => ?_) ?_
    (.of_plain hp (hplace.idle) (hplace.no_lock (SchedPc.lock_of_plain hp)) ?_ ?_)
  · refine { Frame.refl s c t with
      live := fun u hu _ => Function.update_of_ne hu ..
      listed := fun u hu _ => Function.update_of_ne hu ..
      tCpu := fun u hu _ => Function.update_of_ne hu ..
      tState := fun u hu _ => Function.update_of_ne hu ..
      tProc := fun u hu _ => (Function.update_of_ne hu ..).trans (Function.update_of_ne hu ..)
      inInterrupt := fun u hu _ => Function.update_of_ne hu ..
      newthread := fun u _ hu => Function.update_of_ne (hothers u hu) ..
      wakeup := fun _ _ => rfl
      victims := fun _ _ => rfl
      runqueue := fun _ _ => List.prefix_refl _
      unidled := fun _ _ _ e => absurd rfl e }
  · exact h.located.insert hlisted (List.perm_append_singleton _ _)
  · have hcount := h.procs.insert (i := p) ((h.threads t).proc hfresh)
    have hidem : Function.update (Function.update s.tProc t none) t (some p) =
        Function.update s.tProc t (some p) := Function.update_idem ..
    rw [← hidem] at hcount
    exact hcount
  · refine threadOk_of_runs hc (hok.runs.mp hrun) ((Function.update_of_ne hne ..).trans hrun)
      ((Function.update_of_ne hne ..).trans hok.live) fun _ e => hproc ?_
    have hsame : Function.update (Function.update s.tProc t none) t (some p) (s.cCurthread c) =
        s.tProc (s.cCurthread c) :=
      (Function.update_of_ne hne ..).trans (Function.update_of_ne hne ..)
    exact hsame.symm.trans e
  · have hhome : Function.update s.tCpu t (s.tCpu (s.cCurthread c)) t = c :=
      (Function.update_self ..).trans hok.home
    have hlive : Function.update s.live t true t = true := Function.update_self ..
    have hplaced : Function.update s.listed t (some (.newthread (s.cCurthread c))) t =
        some (.newthread (s.cCurthread c)) := Function.update_self ..
    have hlists : Function.update s.lists (.newthread (s.cCurthread c))
        (s.lists (.newthread (s.cCurthread c)) ++ [t]) (.newthread t) = s.lists (.newthread t) :=
      Function.update_of_ne (hothers t hne.symm) ..
    refine ⟨fun e => ?_, fun l e => ?_, fun e => ?_, fun e => ?_⟩
    · exact absurd (hplaced.symm.trans e) (by simp)
    · obtain rfl := Option.some.inj (hplaced.symm.trans e)
      refine ⟨hlive, hhome.trans_lt hc, ?_⟩
      have hstate : Function.update s.tState t .ready t = ThreadState.ready :=
        Function.update_self ..
      have hcur : s.cCurthread (Function.update s.tCpu t (s.tCpu (s.cCurthread c)) t) ≠ t := by
        rw [hhome]
        exact hne
      exact (if_neg hcur).trans hstate
    · exact absurd (hlive.symm.trans e) (by simp)
    · have hforks := ((h.threads t).forks fun hnil => e (hlists.trans hnil)).1
      rw [hfresh] at hforks
      cases hforks
  · refine ⟨?_, ?_, ?_, fun hr => ?_⟩
    · exact (Function.update_of_ne hne ..).trans hok.home
    · exact (Function.update_of_ne hne ..).trans hok.live
    · exact (iff_of_eq (congrArg (· = none) (Function.update_of_ne hne ..))).trans hok.runs
    · exact (hok.state hr).imp (Function.update_of_ne hne ..).trans
        (Function.update_of_ne hne ..).trans
  · exact hplace.wakeup_of_plain hp
  · exact hplace.victims_of_plain hp

/-- **`proc_remthread` in `thread_exit`.** -/
theorem exit (h : SchedInv n s) (hc : c < n) (hcode : s.InCode c) :
    Safe (s.Stepped n c) (s.procRemthread (s.cCurthread c)) := by
  obtain ⟨hpc, -, hproc, hnew⟩ := hcode
  have hok := h.current c hc
  have hplace := h.place c hc
  have hruns : s.Runs c := ⟨hplace.idle false (by rw [hpc]; rfl), by rw [hpc]; rfl⟩
  obtain ⟨p, hp⟩ := Option.ne_none_iff_exists'.mp hproc
  unfold SchedSys.procRemthread
  simp only [hp]
  rw [kassert_bind (h.procs.pos hp)]
  refine h.of_frame (m := s.cCurthread c) hc ?_ (.inl rfl) h.located h.locks (h.procs.remove hp) ?_
    (fun e => absurd rfl e) ⟨hok.home, hok.live, hok.runs, hok.state⟩
    (hplace.congr rfl rfl rfl rfl (fun _ => rfl) id id)
  · exact { Frame.refl s c (s.cCurthread c) with
      tProc := fun u hu _ => Function.update_of_ne hu .. }
  · exact threadOk_of_runs hc hruns (hok.runs.mpr hruns) hok.live fun e => absurd hnew e

end SchedInv

end Os161
