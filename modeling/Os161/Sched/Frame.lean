import Os161.Sched.Invariant

set_option autoImplicit false

/-!
# The parts of a step

What the parts of the steps leave as it is, and when their assertions hold.

* `Frame.goto`, `Frame.locked`, `Frame.relist`, `Frame.unidle`: each part for itself.
* `Quiet`, **`SchedInv.of_quiet`**: steps that leave the threads where they are.
* `safe_acquire`, `safe_release`, `safe_addtail`: the rules for the assertions.
-/

namespace Os161

namespace SchedSys

section Parts

variable {s s' : SchedSys} {c : ℕ} {m : ThreadPtr}

theorem relist_self (l : SchedList) (ts : List ThreadPtr) (t : ThreadPtr) (place : Option SchedList) :
    (s.relist l ts t place).lists l = ts := Function.update_self ..

theorem relist_of_ne {l l' : SchedList} (h : l' ≠ l) (ts : List ThreadPtr) (t : ThreadPtr)
    (place : Option SchedList) : (s.relist l ts t place).lists l' = s.lists l' :=
  Function.update_of_ne h ..

/-- The thread at the end of a list is taken off. -/
theorem remtail_concat {l : SchedList} {ts : List ThreadPtr} {t : ThreadPtr}
    (h : s.lists l = ts ++ [t]) : s.threadlistRemtail l = (some t, s.relist l ts t none) := by
  unfold threadlistRemtail
  rw [h, List.getLast?_concat, List.dropLast_concat]

/-- The thread at the head of a list is taken off. -/
theorem remhead_cons {l : SchedList} {ts : List ThreadPtr} {t : ThreadPtr} (h : s.lists l = t :: ts) :
    s.threadlistRemhead l = (some t, s.relist l ts t none) := by
  unfold threadlistRemhead
  rw [h]

theorem remhead_nil {l : SchedList} (h : s.lists l = []) : s.threadlistRemhead l = (none, s) := by
  unfold threadlistRemhead
  rw [h]

/-- The thread is ready and on the run queue of its CPU. -/
def readied (s : SchedSys) (c : ℕ) (t : ThreadPtr) : SchedSys :=
  ((s.setState t .ready).relist (.runqueue (s.tCpu t)) (s.lists (.runqueue (s.tCpu t)) ++ [t]) t
    (some (.runqueue (s.tCpu t)))).unidle c (s.tCpu t)

section Readied

variable (s : SchedSys) (c : ℕ) (t : ThreadPtr)

theorem unidle_eq (d : ℕ) : s.unidle c d = { s with
    cIpiPending := (s.unidle c d).cIpiPending
    ipiLine := (s.unidle c d).ipiLine } := by
  unfold unidle
  split_ifs <;> rfl

theorem readied_eq : s.readied c t =
    { (s.setState t .ready).relist (.runqueue (s.tCpu t)) (s.lists (.runqueue (s.tCpu t)) ++ [t]) t
        (some (.runqueue (s.tCpu t))) with
      cIpiPending := (s.readied c t).cIpiPending
      ipiLine := (s.readied c t).ipiLine } := unidle_eq ..

theorem readied_lists : (s.readied c t).lists =
    Function.update s.lists (.runqueue (s.tCpu t)) (s.lists (.runqueue (s.tCpu t)) ++ [t]) := by
  rw [readied_eq]
  rfl

theorem readied_listed : (s.readied c t).listed =
    Function.update s.listed t (some (.runqueue (s.tCpu t))) := by
  rw [readied_eq]
  rfl

theorem readied_tState : (s.readied c t).tState = Function.update s.tState t .ready := by
  rw [readied_eq]
  rfl

theorem readied_live : (s.readied c t).live = s.live := by
  rw [readied_eq]
  rfl

theorem readied_tCpu : (s.readied c t).tCpu = s.tCpu := by
  rw [readied_eq]
  rfl

theorem readied_tInInterrupt : (s.readied c t).tInInterrupt = s.tInInterrupt := by
  rw [readied_eq]
  rfl

theorem readied_tProc : (s.readied c t).tProc = s.tProc := by
  rw [readied_eq]
  rfl

theorem readied_pNumthreads : (s.readied c t).pNumthreads = s.pNumthreads := by
  rw [readied_eq]
  rfl

theorem readied_splkHolder : (s.readied c t).splkHolder = s.splkHolder := by
  rw [readied_eq]
  rfl

theorem readied_cSpinlocks : (s.readied c t).cSpinlocks = s.cSpinlocks := by
  rw [readied_eq]
  rfl

theorem readied_cCurthread : (s.readied c t).cCurthread = s.cCurthread := by
  rw [readied_eq]
  rfl

theorem readied_cIsidle : (s.readied c t).cIsidle = s.cIsidle := by
  rw [readied_eq]
  rfl

theorem readied_pc : (s.readied c t).pc = s.pc := by
  rw [readied_eq]
  rfl

variable {s c t}

/-- The line of an idle CPU that gets a thread from another one. -/
theorem unidle_ipiLine_self {d : ℕ} (hi : s.cIsidle d = true) (hd : d ≠ c) :
    (s.unidle c d).ipiLine d = true := by
  unfold unidle
  rw [if_pos ⟨hi, hd⟩]
  exact Function.update_self ..

/-- No line is cleared. -/
theorem unidle_ipiLine_mono {d e : ℕ} (hl : s.ipiLine d = true) :
    (s.unidle c e).ipiLine d = true := by
  unfold unidle
  split_ifs
  · by_cases hd : d = e
    · subst hd
      exact Function.update_self ..
    · exact (Function.update_of_ne hd ..).trans hl
  · exact hl

end Readied

namespace Frame

theorem refl (s : SchedSys) (c : ℕ) (m : ThreadPtr) : s.Frame s c m :=
  ⟨fun _ _ => rfl, fun _ _ => rfl, fun _ _ => rfl, .inl rfl, fun _ _ _ => .rfl, fun _ _ _ => rfl,
    fun _ _ _ => rfl, fun _ _ _ => rfl, fun _ _ _ => rfl, fun _ _ _ => rfl, fun _ _ _ => rfl,
    fun _ _ _ => rfl, fun _ _ => rfl, fun _ _ => rfl, fun _ _ => List.prefix_refl _,
    fun _ _ _ h => absurd rfl h, fun _ _ h => h⟩

theorem goto (pc : SchedPc) : s.Frame (s.goto c pc) c m :=
  { refl s c m with pc := fun _ hd => Function.update_of_ne hd .. }

/-- The flag of the CPU. -/
theorem setIsidle (b : Bool) :
    s.Frame { s with cIsidle := Function.update s.cIsidle c b } c m :=
  { refl s c m with isidle := fun _ hd => Function.update_of_ne hd .. }

/-- The thread becomes the current one. -/
theorem setCurthread : s.Frame { s with cCurthread := Function.update s.cCurthread c m } c m :=
  { refl s c m with
    curthread := fun _ hd => Function.update_of_ne hd ..
    current := .inr (Function.update_self ..) }

theorem setState {t : ThreadPtr} (ht : t = m ∨ t = s.cCurthread c) (st : ThreadState) :
    s.Frame (s.setState t st) c m :=
  { refl s c m with
    tState := fun u hm hcur => Function.update_of_ne (by rcases ht with rfl | rfl <;> assumption) .. }

theorem locked {l : SchedLock} (hl : s.splkHolder l = none) : s.Frame (s.locked c l) c m :=
  { refl s c m with
    lock := fun d hd x => by
      by_cases hx : SchedLock.runqueue x = l
      · subst hx
        simp [SchedSys.locked, hl, Ne.symm hd]
      · simp [SchedSys.locked, Function.update_of_ne hx] }

theorem unlocked {l : SchedLock} (hl : s.splkHolder l = some c) : s.Frame (s.unlocked c l) c m :=
  { refl s c m with
    lock := fun d hd x => by
      by_cases hx : SchedLock.runqueue x = l
      · subst hx
        simp [SchedSys.unlocked, hl, Ne.symm hd]
      · simp [SchedSys.unlocked, Function.update_of_ne hx] }

/-- A list that is no concern of the other CPUs. -/
theorem relist {l : SchedList} {ts : List ThreadPtr} {t : ThreadPtr} {place : Option SchedList}
    (ht : t = m ∨ t = s.cCurthread c) (hl : ∀ d ≠ c, l ≠ .wakeup d ∧ l ≠ .victims d ∧ l ≠ .runqueue d)
    (hn : ∀ u ≠ m, u ≠ s.cCurthread c → l ≠ .newthread u) : s.Frame (s.relist l ts t place) c m :=
  { refl s c m with
    listed := fun u hm hcur => Function.update_of_ne (by rcases ht with rfl | rfl <;> assumption) ..
    newthread := fun u hm hcur => Function.update_of_ne (hn u hm hcur).symm ..
    wakeup := fun d hd => Function.update_of_ne (hl d hd).1.symm ..
    victims := fun d hd => Function.update_of_ne (hl d hd).2.1.symm ..
    runqueue := fun d hd => by
      have hq : (s.relist l ts t place).lists (.runqueue d) = s.lists (.runqueue d) :=
        Function.update_of_ne (hl d hd).2.2.symm ..
      rw [hq]
    unidled := fun d hd _ hne => absurd (Function.update_of_ne (hl d hd).2.2.symm ..) hne }

/-- A thread that comes onto a run queue. -/
theorem enqueued {t : ThreadPtr} (ht : t = m ∨ t = s.cCurthread c) (d : ℕ) :
    s.Frame ((s.relist (.runqueue d) (s.lists (.runqueue d) ++ [t]) t (some (.runqueue d))).unidle c d)
      c m := by
  have hself := fun hi hd => unidle_ipiLine_self
    (s := s.relist (.runqueue d) (s.lists (.runqueue d) ++ [t]) t (some (.runqueue d))) (c := c)
    (d := d) hi hd
  have hmono := fun e hl => unidle_ipiLine_mono
    (s := s.relist (.runqueue d) (s.lists (.runqueue d) ++ [t]) t (some (.runqueue d))) (c := c)
    (d := e) (e := d) hl
  have hothers : ∀ l ≠ .runqueue d, Function.update s.lists (.runqueue d)
      (s.lists (.runqueue d) ++ [t]) l = s.lists l := fun l hl => Function.update_of_ne hl ..
  have hqueue : ∀ e ≠ d, Function.update s.lists (.runqueue d) (s.lists (.runqueue d) ++ [t])
      (.runqueue e) = s.lists (.runqueue e) := fun e he => hothers _ (by simpa using he)
  have hprefix : ∀ e, s.lists (.runqueue e) <+: Function.update s.lists (.runqueue d)
      (s.lists (.runqueue d) ++ [t]) (.runqueue e) := by
    intro e
    by_cases he : e = d
    · rw [he, Function.update_self]
      exact List.prefix_append ..
    · rw [hqueue e he]
  rw [unidle_eq]
  exact { refl s c m with
    listed := fun u hm hcur => Function.update_of_ne (by rcases ht with rfl | rfl <;> assumption) ..
    newthread := fun u _ _ => hothers (.newthread u) (by simp)
    wakeup := fun e _ => hothers (.wakeup e) (by simp)
    victims := fun e _ => hothers (.victims e) (by simp)
    runqueue := fun e _ => hprefix e
    unidled := fun e he hi hne => by
      by_cases hed : e = d
      · subst hed
        exact hself hi he
      · exact absurd (hqueue e hed) hne
    line := fun e _ hl => hmono e hl }

/-- A thread that gets ready. -/
theorem readied {t : ThreadPtr} (ht : t = m ∨ t = s.cCurthread c) : s.Frame (s.readied c t) c m :=
  (setState ht .ready).trans (enqueued (s := s.setState t .ready) ht (s.tCpu t))

end Frame

/-- What does not change where the threads stay where they are. -/
structure Quiet (s s' : SchedSys) (c : ℕ) : Prop where
  lists : s'.lists = s.lists
  listed : s'.listed = s.listed
  live : s'.live = s.live
  tState : s'.tState = s.tState
  tCpu : s'.tCpu = s.tCpu
  tProc : s'.tProc = s.tProc
  inInterrupt : ∀ t ≠ s.cCurthread c, s'.tInInterrupt t = s.tInInterrupt t
  pNumthreads : s'.pNumthreads = s.pNumthreads
  curthread : s'.cCurthread = s.cCurthread
  isidle : s'.cIsidle = s.cIsidle
  newstate : (s'.pc c).newstate = (s.pc c).newstate
  pc : ∀ d ≠ c, s'.pc d = s.pc d
  lock : ∀ d ≠ c, ∀ x, s'.splkHolder (.runqueue x) = some d ↔ s.splkHolder (.runqueue x) = some d
  line : ∀ d ≠ c, s.ipiLine d = true → s'.ipiLine d = true

namespace Quiet

theorem frame (h : s.Quiet s' c) : s.Frame s' c m where
  pc := h.pc
  isidle d _ := by rw [h.isidle]
  curthread d _ := by rw [h.curthread]
  current := .inl (by rw [h.curthread])
  lock := h.lock
  live t _ _ := by rw [h.live]
  listed t _ _ := by rw [h.listed]
  tCpu t _ _ := by rw [h.tCpu]
  tState t _ _ := by rw [h.tState]
  tProc t _ _ := by rw [h.tProc]
  inInterrupt t _ ht := h.inInterrupt t ht
  newthread t _ _ := by rw [h.lists]
  wakeup d _ := by rw [h.lists]
  victims d _ := by rw [h.lists]
  runqueue d _ := by rw [h.lists]
  unidled d _ _ hne := absurd (by rw [h.lists]) hne
  line := h.line

theorem refl (s : SchedSys) (c : ℕ) : s.Quiet s c :=
  ⟨rfl, rfl, rfl, rfl, rfl, rfl, fun _ _ => rfl, rfl, rfl, rfl, rfl, fun _ _ => rfl,
    fun _ _ _ => .rfl, fun _ _ h => h⟩

theorem goto {pc : SchedPc} (h : pc.newstate = (s.pc c).newstate) : s.Quiet (s.goto c pc) c :=
  { refl s c with
    newstate := by
      rw [show (s.goto c pc).pc c = pc from Function.update_self ..]
      exact h
    pc := fun _ hd => Function.update_of_ne hd .. }

theorem locked {l : SchedLock} (hl : s.splkHolder l = none) : s.Quiet (s.locked c l) c :=
  { refl s c with lock := (Frame.locked (m := s.cCurthread c) hl).lock }

theorem unlocked {l : SchedLock} (hl : s.splkHolder l = some c) : s.Quiet (s.unlocked c l) c :=
  { refl s c with lock := (Frame.unlocked (m := s.cCurthread c) hl).lock }

/-- One change after another one. -/
theorem trans {s₁ s₂ : SchedSys} (h₁ : s.Quiet s₁ c) (h₂ : s₁.Quiet s₂ c) : s.Quiet s₂ c :=
  ⟨h₂.lists.trans h₁.lists, h₂.listed.trans h₁.listed, h₂.live.trans h₁.live,
    h₂.tState.trans h₁.tState, h₂.tCpu.trans h₁.tCpu, h₂.tProc.trans h₁.tProc,
    fun t ht => (h₂.inInterrupt t (h₁.curthread ▸ ht)).trans (h₁.inInterrupt t ht),
    h₂.pNumthreads.trans h₁.pNumthreads, h₂.curthread.trans h₁.curthread,
    h₂.isidle.trans h₁.isidle, h₂.newstate.trans h₁.newstate,
    fun d hd => (h₂.pc d hd).trans (h₁.pc d hd), fun d hd x => (h₂.lock d hd x).trans (h₁.lock d hd x),
    fun d hd hl => h₂.line d hd (h₁.line d hd hl)⟩

theorem newstate_eq (h : s.Quiet s' c) (d : ℕ) : (s'.pc d).newstate = (s.pc d).newstate := by
  by_cases hd : d = c
  · rw [hd, h.newstate]
  · rw [h.pc d hd]

theorem runs_iff (h : s.Quiet s' c) (d : ℕ) : s'.Runs d ↔ s.Runs d := by
  unfold Runs
  rw [h.isidle, h.newstate_eq]

theorem stateOf_eq (h : s.Quiet s' c) (t : ThreadPtr) : s'.stateOf t = s.stateOf t := by
  unfold stateOf
  rw [h.tCpu, h.curthread, h.newstate_eq, h.tState]

end Quiet

end Parts

end SchedSys

section Quiet

variable {n : ℕ} {s s' : SchedSys} {c : ℕ}

/-- **A step that leaves the threads where they are.** -/
theorem SchedInv.of_quiet (h : SchedInv n s) (hc : c < n) (hq : s.Quiet s' c)
    (hlocks : Counted s'.cSpinlocks s'.splkHolder) (hplace : s'.PlaceOk n c hc) :
    s.Stepped n c s' := by
  have hcur := h.current c hc
  refine h.of_frame (m := s.cCurthread c) hc hq.frame (.inl rfl) ?_ hlocks ?_ ?_
    (fun hne => absurd rfl hne) ?_ hplace
  · rw [hq.lists, hq.listed]
    exact h.located
  · rw [hq.pNumthreads, hq.tProc]
    exact h.procs
  · refine (h.threads _).congr (by rw [hq.listed]) (by rw [hq.live]) (by rw [hq.tCpu])
      (by rw [hq.tProc]) (by rw [hq.lists]; exact id) (hq.stateOf_eq _) fun d ht hr => ?_
    exact ⟨by rw [hq.curthread, ht], (hq.runs_iff d).mpr hr⟩
  · refine ⟨?_, ?_, ?_, ?_⟩ <;> rw [hq.curthread]
    · rw [hq.tCpu]
      exact hcur.home
    · rw [hq.live]
      exact hcur.live
    · rw [hq.listed, hq.runs_iff]
      exact hcur.runs
    · rw [hq.runs_iff, hq.tState]
      exact hcur.state

/-- A place where no lock of a run queue is held, and where no thread is under way. -/
def SchedPc.plain : SchedPc → Bool
  | .unborn | .thread | .clearIpi | .ticked | .woken | .exorcise | .halted => true
  | _ => false

theorem SchedPc.lock_of_plain {pc : SchedPc} (h : pc.plain = true) : pc.lock c = none := by
  cases pc <;> first | rfl | cases h

theorem SchedPc.newstate_of_plain {pc : SchedPc} (h : pc.plain = true) : pc.newstate = none := by
  cases pc <;> first | rfl | cases h

theorem SchedPc.switching_of_plain {pc : SchedPc} (h : pc.plain = true) : pc.switching = false := by
  cases pc <;> first | rfl | cases h

namespace SchedSys.PlaceOk

variable {hc : c < n}

/-- What is to be shown at a place that is known. -/
theorem of_pc {pc : SchedPc} (hpc : s.pc c = pc) (hidle : ∀ b, pc.idleness = some b → s.cIsidle c = b)
    (hlock : ∀ d, s.splkHolder (.runqueue d) = some c ↔ pc.lock c = some d)
    (hwakeup : (∀ w, pc ≠ .gather w) → pc ≠ .waking → s.lists (.wakeup c) = [])
    (hvictims : (∀ m, pc ≠ .migrate m) → s.lists (.victims c) = [])
    (hmigrate : ∀ m, pc = .migrate m → m.Ok (s.migCpus n c hc) (s.migLists c))
    (hunidled : pc = .idle → s.lists (.runqueue c) ≠ [] → s.ipiLine c = true)
    (hhandler : s.inHandler c = true → pc.switching = true →
      pc ≠ .idle ∧ s.lists (.runqueue c) ≠ []) : s.PlaceOk n c hc := by
  subst hpc
  exact ⟨hidle, hlock, hwakeup, hvictims, hmigrate, hunidled, hhandler⟩

/-- What is to be shown at a plain place. -/
theorem of_plain (hp : (s.pc c).plain = true)
    (hidle : ∀ b, (s.pc c).idleness = some b → s.cIsidle c = b)
    (hlock : ∀ d, s.splkHolder (.runqueue d) ≠ some c) (hw : s.lists (.wakeup c) = [])
    (hv : s.lists (.victims c) = []) : s.PlaceOk n c hc where
  idle := hidle
  lock d := by
    rw [SchedPc.lock_of_plain hp]
    exact ⟨fun h => absurd h (hlock d), fun h => by cases h⟩
  wakeup _ _ := hw
  victims _ := hv
  migrate m hm := by
    rw [hm] at hp
    cases hp
  unidled hpc := by
    rw [hpc] at hp
    cases hp
  handler _ hsw := by
    rw [SchedPc.switching_of_plain hp] at hsw
    cases hsw

/-- No lock of a run queue is held. -/
theorem no_lock (h : s.PlaceOk n c hc) (hl : (s.pc c).lock c = none) (d : ℕ) :
    s.splkHolder (.runqueue d) ≠ some c := by
  rw [ne_eq, h.lock, hl]
  exact fun e => by cases e

theorem wakeup_of_plain (h : s.PlaceOk n c hc) (hp : (s.pc c).plain = true) :
    s.lists (.wakeup c) = [] :=
  h.wakeup (fun w e => by rw [e] at hp; cases hp) fun e => by rw [e] at hp; cases hp

theorem victims_of_plain (h : s.PlaceOk n c hc) (hp : (s.pc c).plain = true) :
    s.lists (.victims c) = [] :=
  h.victims fun w e => by rw [e] at hp; cases hp

/-- The same place, with the same lists. -/
theorem congr (h : s.PlaceOk n c hc) (hpc : s'.pc c = s.pc c) (hlists : s'.lists = s.lists)
    (hidle : s'.cIsidle c = s.cIsidle c) (hcur : s'.cCurthread c = s.cCurthread c)
    (hlock : ∀ x, s'.splkHolder (.runqueue x) = s.splkHolder (.runqueue x))
    (hline : s.ipiLine c = true → s'.ipiLine c = true)
    (hin : s'.inHandler c = true → s.inHandler c = true) : s'.PlaceOk n c hc where
  idle := by
    rw [hpc, hidle]
    exact h.idle
  lock d := by
    rw [hlock, hpc]
    exact h.lock d
  wakeup := by
    rw [hpc, hlists]
    exact h.wakeup
  victims := by
    rw [hpc, hlists]
    exact h.victims
  migrate m hm := by
    rw [hpc] at hm
    have hcpus : s'.migCpus n c hc = s.migCpus n c hc := by
      unfold migCpus
      rw [hcur]
    have hmig : s'.migLists c = s.migLists c := by
      funext l
      cases l <;> simp only [migLists, hlists]
    rw [hcpus, hmig]
    exact h.migrate m hm
  unidled := by
    rw [hpc, hlists]
    exact fun hp hq => hline (h.unidled hp hq)
  handler := by
    rw [hpc, hlists]
    exact fun hi hsw => h.handler (hin hi) hsw

end SchedSys.PlaceOk

end Quiet

/-! ## The assertions -/

section Rules

variable {P : SchedSys → Prop} {s : SchedSys} {c : ℕ} {l : SchedLock} {q : SchedList} {t : ThreadPtr}
  {f : SchedSys → Except Stop SchedSys}

open SchedSys

/-- The CPU does not hold the lock. -/
theorem safe_acquire (hne : s.splkHolder l ≠ some c)
    (hf : s.splkHolder l = none → Safe P (f (s.locked c l))) :
    Safe P (s.spinlockAcquire c l >>= f) := by
  unfold spinlockAcquire
  cases hl : s.splkHolder l with
  | none => exact hf hl
  | some d =>
    have hd : d ≠ c := fun e => hne (by rw [hl, e])
    simp only [if_neg hd]
    trivial

/-- The CPU holds the lock. -/
theorem release_eq (hs : Counted s.cSpinlocks s.splkHolder) (hl : s.splkHolder l = some c) :
    s.spinlockRelease c l = .ok (s.unlocked c l) := by
  unfold spinlockRelease
  rw [kassert_bind hl, kassert_bind (hs.pos hl)]
  rfl

theorem safe_release (hs : Counted s.cSpinlocks s.splkHolder) (hl : s.splkHolder l = some c)
    (hf : Safe P (f (s.unlocked c l))) : Safe P (s.spinlockRelease c l >>= f) := by
  rw [release_eq hs hl]
  exact hf

/-- The thread is on no list. -/
theorem addtail_eq (ht : s.listed t = none) :
    s.threadlistAddtail q t = .ok (s.relist q (s.lists q ++ [t]) t (some q)) := by
  unfold threadlistAddtail
  rw [kassert_bind ht]
  rfl

theorem safe_addtail (ht : s.listed t = none)
    (hf : Safe P (f (s.relist q (s.lists q ++ [t]) t (some q)))) :
    Safe P (s.threadlistAddtail q t >>= f) := by
  rw [addtail_eq ht]
  exact hf

theorem addhead_eq (ht : s.listed t = none) :
    s.threadlistAddhead q t = .ok (s.relist q (t :: s.lists q) t (some q)) := by
  unfold threadlistAddhead
  rw [kassert_bind ht]
  rfl

theorem safe_addhead (ht : s.listed t = none)
    (hf : Safe P (f (s.relist q (t :: s.lists q) t (some q)))) :
    Safe P (s.threadlistAddhead q t >>= f) := by
  rw [addhead_eq ht]
  exact hf

/-- A lock that is taken is counted. -/
theorem counted_locked (hs : Counted s.cSpinlocks s.splkHolder) (hl : s.splkHolder l = none) :
    Counted (s.locked c l).cSpinlocks (s.locked c l).splkHolder := hs.insert hl

/-- A lock that is given back is not counted any more. -/
theorem counted_unlocked (hs : Counted s.cSpinlocks s.splkHolder) (hl : s.splkHolder l = some c) :
    Counted (s.unlocked c l).cSpinlocks (s.unlocked c l).splkHolder := hs.remove hl

/-- A lock that was taken and given back. -/
theorem unlocked_locked (hl : s.splkHolder l = none) : (s.locked c l).unlocked c l = s := by
  have hh : Function.update (Function.update s.splkHolder l (some c)) l none = s.splkHolder := by
    rw [Function.update_idem, ← hl, Function.update_eq_self]
  have hn : Function.update (Function.update s.cSpinlocks c (s.cSpinlocks c + 1)) c
      ((Function.update s.cSpinlocks c (s.cSpinlocks c + 1)) c - 1) = s.cSpinlocks := by
    rw [Function.update_self, Nat.add_sub_cancel, Function.update_idem, Function.update_eq_self]
  unfold unlocked locked
  simp only [hh, hn]

theorem enqueue_eq (ht : s.listed t = none) : s.enqueue c t = .ok (s.readied c t) := by
  have hlisted : (s.setState t .ready).listed t = none := ht
  unfold enqueue
  rw [addtail_eq hlisted]
  rfl

/-- `thread_make_runnable` with the lock held. -/
theorem makeRunnable_of_lock (hl : s.splkHolder (.runqueue (s.tCpu t)) = some c)
    (ht : s.listed t = none) : s.threadMakeRunnable c t true = .ok (s.readied c t) := by
  unfold threadMakeRunnable
  rw [if_pos rfl, kassert_bind hl]
  exact enqueue_eq ht

/-- **`thread_make_runnable`**, where the thread is on no list and its CPU's lock is not held. -/
theorem safe_makeRunnable (hs : Counted s.cSpinlocks s.splkHolder) (ht : s.listed t = none)
    (hne : s.splkHolder (.runqueue (s.tCpu t)) ≠ some c)
    (hf : s.splkHolder (.runqueue (s.tCpu t)) = none → Safe P (f (s.readied c t))) :
    Safe P (s.threadMakeRunnable c t false >>= f) := by
  unfold threadMakeRunnable
  rw [if_neg Bool.false_ne_true, bind_assoc]
  refine safe_acquire hne fun hl => ?_
  rw [enqueue_eq (s := s.locked c _) ht]
  have hcomm : (s.locked c (.runqueue (s.tCpu t))).readied c t =
      (s.readied c t).locked c (.runqueue (s.tCpu t)) := by
    unfold readied unidle
    split_ifs <;> first | rfl | contradiction
  rw [hcomm]
  have hl' : (s.readied c t).splkHolder (.runqueue (s.tCpu t)) = none := by
    rw [readied_splkHolder, hl]
  refine safe_release (l := .runqueue (s.tCpu t)) (counted_locked ?_ hl')
    (Function.update_self ..) ?_
  · rw [readied_cSpinlocks, readied_splkHolder]
    exact hs
  · rw [unlocked_locked hl']
    exact hf hl

end Rules

end Os161
