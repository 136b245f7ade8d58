import Mathlib.Data.Prod.Lex
import Os161.Thread.Threadlist

set_option autoImplicit false

/-!
# Migration of threads

`thread_consider_migration`, step by step, while the other CPUs make threads ready. Each of the three
loops holds the lock of one run queue, so that threads come in on the other ones; between the loops
they come in on all of them. The run queues and the list `victims` are the linked lists of
`threadlist.c`.

* `MigSys.step`: one step of the function, or a thread that another CPU adds.
* `Countdown`: what the list of victims has to do with `to_send`, also when `curthread` was put back
  at its end.
* `MigInv.resume`: the invariant, and that no step fails.
* `MigSys.measure`: what each step of the function brings down.
* **`migration_conserves`**: what this says of the threads, and that the function ends.
-/

namespace Os161

open Transition

/-- The lists: `c_runqueue` of each CPU, and the local list. -/
inductive MigList
  | runqueue (c : ℕ)
  | victims
  deriving DecidableEq

/-- `allcpus`, `curcpu->c_self` and `curthread`. -/
structure MigCpus where
  numcpus : ℕ
  self : ℕ
  curthread : ThreadPtr
  self_lt : self < numcpus

/-- Where the function is, with its local variables. -/
inductive MigPc
  | sample (i myCount totalCount : ℕ)
  | pull (i toSend oneShare : ℕ)
  | distribute (i toSend oneShare : ℕ)
  | send (i toSend oneShare : ℕ)
  | leftovers
  | giveBack
  | done
  deriving DecidableEq

/-- The run queue whose lock the function holds. -/
def MigPc.lock (P : MigCpus) : MigPc → Option ℕ
  | .pull .. | .giveBack => some P.self
  | .send i _ _ => some i
  | _ => none

/-- The lists, `t_cpu` of every thread, and the function. -/
structure MigSys where
  mem : TlMem MigList
  tCpu : ThreadPtr → ℕ
  pc : MigPc

/-- The function goes on, or another CPU makes a thread ready. -/
inductive MigAction
  | run
  | add (c : ℕ) (t : ThreadPtr)

namespace MigSys

/-- The end of the function. -/
def finish (s : MigSys) : Except Stop MigSys := do
  kassert (s.mem.threadlistIsempty .victims = true)
  s.mem.threadlistCleanup .victims
  return { s with pc := .done }

/-- The comparison of the own count with one share. -/
def compare (s : MigSys) (myCount oneShare : ℕ) : MigSys :=
  { s with pc := if myCount < oneShare then .done else .pull 0 (myCount - oneShare) oneShare }

/-- The next step of `thread_consider_migration`. The inter-processor interrupts that it sends have no
effect on the lists. -/
def resume (P : MigCpus) (s : MigSys) : Except Stop MigSys :=
  match s.pc with
  | .sample i myCount totalCount =>
    if i < P.numcpus then
      let count := s.mem.tlCount (.runqueue i)
      .ok { s with
        pc := .sample (i + 1) (if i = P.self then count else myCount) (wadd totalCount count) }
    else .ok (s.compare myCount (divroundup totalCount P.numcpus))
  | .pull i toSend oneShare =>
    if i < toSend then do
      let (t, m) ← s.mem.threadlistRemtail (.runqueue P.self)
      let m ← m.threadlistAddhead .victims (← deref t)
      return { s with mem := m, pc := .pull (i + 1) toSend oneShare }
    else .ok { s with pc := .distribute 0 toSend oneShare }
  | .distribute i toSend oneShare =>
    .ok { s with
      pc := if i < P.numcpus ∧ 0 < toSend then
          if i = P.self then .distribute (i + 1) toSend oneShare else .send i toSend oneShare
        else .leftovers }
  | .send i toSend oneShare =>
    if s.mem.tlCount (.runqueue i) < oneShare ∧ 0 < toSend then do
      let (t, m) ← s.mem.threadlistRemhead .victims
      if t = some P.curthread then do
        let m ← m.threadlistAddtail .victims P.curthread
        return { s with mem := m, pc := .send i (toSend - 1) oneShare }
      else do
        let t ← deref t
        let m ← m.threadlistAddtail (.runqueue i) t
        return ⟨m, Function.update s.tCpu t i, .send i (toSend - 1) oneShare⟩
    else .ok { s with pc := .distribute (i + 1) toSend oneShare }
  | .leftovers =>
    if s.mem.threadlistIsempty .victims then s.finish else .ok { s with pc := .giveBack }
  | .giveBack => do
    match ← s.mem.threadlistRemhead .victims with
    | (some t, m) =>
      let m ← m.threadlistAddtail (.runqueue P.self) t
      return { s with mem := m }
    | (none, m) => finish { s with mem := m }
  | .done => .error .blocked

/-- `thread_make_runnable` on another CPU: the thread is on no list, and the lock of its run queue is
free. -/
def makeRunnable (P : MigCpus) (s : MigSys) (c : ℕ) (t : ThreadPtr) : Except Stop MigSys := do
  require (c < P.numcpus ∧ s.pc.lock P ≠ some c ∧ s.tCpu t = c ∧
    s.mem.tlnNext (.thread t) = none ∧ s.mem.tlnPrev (.thread t) = none)
  let m ← s.mem.threadlistAddtail (.runqueue c) t
  return { s with mem := m }

/-- One step. -/
def step (P : MigCpus) (s : MigSys) : MigAction → Except Stop MigSys
  | .run => s.resume P
  | .add c t => s.makeRunnable P c t

end MigSys

/-! ## The invariant -/

/-- **The countdown.** `to_send` of the victims are still to be looked at; behind them there is nothing
or `curthread`, which was skipped. -/
def Countdown (P : MigCpus) (toSend : ℕ) (victims : List ThreadPtr) : Prop :=
  victims.length = toSend ∨ ∃ ts, victims = ts ++ [P.curthread] ∧ ts.length = toSend

/-- What holds at each place of the function. -/
def MigPc.Ok (P : MigCpus) (L : MigList → List ThreadPtr) : MigPc → Prop
  | .sample i myCount _ =>
    L .victims = [] ∧ (P.self < i → myCount ≤ (L (.runqueue P.self)).length)
  | .pull i toSend _ =>
    (L .victims).length = i ∧ i ≤ toSend ∧ toSend ≤ i + (L (.runqueue P.self)).length
  | .distribute _ toSend _ => Countdown P toSend (L .victims)
  | .send i toSend _ => i < P.numcpus ∧ i ≠ P.self ∧ Countdown P toSend (L .victims)
  | .leftovers | .giveBack => True
  | .done => L .victims = []

/-- **The invariant**: the memory represents the lists `L`, every thread on a run queue is at home
there, the victims and `curthread` are at home on the current CPU, and the threads on the lists are
those that were or became ready. -/
structure MigInv (P : MigCpus) (ready : ThreadPtr → Prop) (s : MigSys)
    (L : MigList → List ThreadPtr) : Prop where
  rep : s.mem.Rep L
  home : ∀ c, ∀ t ∈ L (.runqueue c), c < P.numcpus ∧ s.tCpu t = c
  victims : ∀ t ∈ L .victims, s.tCpu t = P.self
  curthread : s.tCpu P.curthread = P.self
  ready : ∀ t, (∃ l, t ∈ L l) ↔ ready t
  pc : s.pc.Ok P L

/-- An upper bound for the number of steps that are left. -/
def MigSys.bound (P : MigCpus) (s : MigSys) : ℕ :=
  match s.pc with
  | .sample i myCount _ =>
    P.numcpus - i + 1 +
      (3 * (if i ≤ P.self then s.mem.tlCount (.runqueue P.self) else myCount) +
        2 * P.numcpus + 4)
  | .pull i toSend _ => toSend - i + 1 + (2 * toSend + 2 * P.numcpus + 3)
  | .distribute i toSend _ =>
    2 * (P.numcpus - i) + toSend + 3 + s.mem.tlCount .victims
  | .send i toSend _ => 2 * (P.numcpus - i) - 1 + toSend + 3 + s.mem.tlCount .victims
  | .leftovers => s.mem.tlCount .victims + 2
  | .giveBack => s.mem.tlCount .victims + 1
  | .done => 0

/-- How many queues are still to be sampled, until it is the own one. -/
def MigSys.early (P : MigCpus) (s : MigSys) : ℕ :=
  match s.pc with
  | .sample i _ _ => P.self + 1 - i
  | _ => 0

/-- **The measure**: until the own queue is sampled an added thread counts for the number of steps, so
that the queues to sample come first. -/
def MigSys.measure (P : MigCpus) (s : MigSys) : ℕ ×ₗ ℕ :=
  toLex (s.early P, if s.early P = 0 then s.bound P else 0)

/-- What one step of the function does: it keeps the invariant, it comes closer to the end, and a run
queue of another CPU changes only where its length stays within one share. -/
structure MigStep (P : MigCpus) (ready : ThreadPtr → Prop) (s s' : MigSys)
    (L L' : MigList → List ThreadPtr) : Prop where
  inv : MigInv P ready s' L'
  early : s'.early P ≤ s.early P - 1
  bound : s'.bound P < s.bound P
  share : ∀ c ≠ P.self, L' (.runqueue c) = L (.runqueue c) ∨
    ∃ toSend oneShare, s.pc = .send c toSend oneShare ∧ (L' (.runqueue c)).length ≤ oneShare

section Lists

variable {L : MigList → List ThreadPtr} {m : TlMem MigList} {l₁ l₂ : MigList} {t : ThreadPtr}
  {ts us : List ThreadPtr}

/-- A thread that was taken from its list is on no list. -/
theorem TlMem.Rep.not_mem_removed (h : m.Rep L) (ht : t ∈ L l₁) (hts : t ∉ ts) :
    ∀ l, t ∉ Function.update L l₁ ts l := by
  intro l hl
  by_cases e : l = l₁
  · rw [e, Function.update_self] at hl
    exact hts hl
  · rw [Function.update_of_ne e] at hl
    exact e (h.apart hl ht)

/-- A thread goes from one list to another one. -/
theorem mem_move (hne : l₁ ≠ l₂) (h₁ : ∀ u, u ∈ L l₁ ↔ u = t ∨ u ∈ ts)
    (h₂ : ∀ u, u ∈ us ↔ u = t ∨ u ∈ L l₂) :
    (∀ l u, u ∈ Function.update (Function.update L l₁ ts) l₂ us l →
      u ∈ L l ∨ u = t ∧ l = l₂) ∧
    ∀ u, (∃ l, u ∈ Function.update (Function.update L l₁ ts) l₂ us l) ↔ ∃ l, u ∈ L l := by
  have hback : ∀ l u, u ∈ Function.update (Function.update L l₁ ts) l₂ us l →
      u ∈ L l ∨ u = t ∧ l = l₂ := by
    intro l u hu
    by_cases e₂ : l = l₂
    · subst e₂
      rw [Function.update_self, h₂] at hu
      exact hu.symm.imp_right fun e => ⟨e, rfl⟩
    · rw [Function.update_of_ne e₂] at hu
      by_cases e₁ : l = l₁
      · subst e₁
        rw [Function.update_self] at hu
        exact .inl ((h₁ u).mpr (.inr hu))
      · rw [Function.update_of_ne e₁] at hu
        exact .inl hu
  refine ⟨hback, fun u => ⟨?_, ?_⟩⟩
  · rintro ⟨l, hu⟩
    rcases hback l u hu with hu | ⟨rfl, -⟩
    · exact ⟨l, hu⟩
    · exact ⟨l₁, (h₁ u).mpr (.inl rfl)⟩
  · rintro ⟨l, hu⟩
    by_cases e₂ : l = l₂
    · subst e₂
      refine ⟨l, ?_⟩
      rw [Function.update_self]
      exact (h₂ u).mpr (.inr hu)
    by_cases e₁ : l = l₁
    · subst e₁
      rcases (h₁ u).mp hu with rfl | hu
      · refine ⟨l₂, ?_⟩
        rw [Function.update_self]
        exact (h₂ u).mpr (.inl rfl)
      · refine ⟨l, ?_⟩
        rwa [Function.update_of_ne hne, Function.update_self]
    · refine ⟨l, ?_⟩
      rwa [Function.update_of_ne e₂, Function.update_of_ne e₁]

end Lists

section Steps

variable {P : MigCpus} {ready : ThreadPtr → Prop} {s s' : MigSys} {L : MigList → List ThreadPtr}
  {t : ThreadPtr} {ts : List ThreadPtr} {i toSend oneShare : ℕ}

/-- One of the victims is looked at. -/
theorem Countdown.next (h : Countdown P toSend (t :: ts)) (hnd : (t :: ts).Nodup)
    (hpos : 0 < toSend) :
    (t ≠ P.curthread → Countdown P (toSend - 1) ts) ∧
      (t = P.curthread → Countdown P (toSend - 1) (ts ++ [t])) := by
  rcases h with hlen | ⟨us, hus, hlen⟩
  · rw [List.length_cons] at hlen
    exact ⟨fun _ => .inl (by omega), fun ht => .inr ⟨ts, by rw [ht], by omega⟩⟩
  · cases us with
    | nil =>
      rw [List.length_nil] at hlen
      omega
    | cons u us =>
      rw [List.cons_append] at hus
      obtain ⟨rfl, rfl⟩ := List.cons.inj hus
      rw [List.length_cons] at hlen
      refine ⟨fun _ => .inr ⟨us, rfl, by omega⟩, fun ht => ?_⟩
      -- `curthread` is among the victims once
      exact absurd (List.nodup_cons.mp hnd).1 (by simp [ht])

/-- Where a victim is to be sent there is one. -/
theorem Countdown.exists_cons {vs : List ThreadPtr} (h : Countdown P toSend vs)
    (hpos : 0 < toSend) : ∃ t ts, vs = t :: ts := by
  refine List.exists_cons_of_ne_nil ?_
  rintro rfl
  rcases h with hlen | ⟨us, hus, -⟩
  · rw [List.length_nil] at hlen
    omega
  · simp at hus

/-- A step that changes nothing but the place of the function. -/
theorem MigInv.goto (h : MigInv P ready s L) {pc : MigPc} (hpc : pc.Ok P L)
    (he : MigSys.early P { s with pc := pc } ≤ s.early P - 1)
    (hb : MigSys.bound P { s with pc := pc } < s.bound P) :
    MigStep P ready s { s with pc := pc } L L :=
  ⟨⟨h.rep, h.home, h.victims, h.curthread, h.ready, hpc⟩, he, hb, fun _ _ => .inl rfl⟩

/-- The function comes closer to its end. -/
theorem MigStep.measure_lt {L' : MigList → List ThreadPtr} (h : MigStep P ready s s' L L') :
    s'.measure P < s.measure P := by
  have he := h.early
  refine Prod.Lex.toLex_lt_toLex.mpr ?_
  by_cases h₀ : s.early P = 0
  · have h₁ : s'.early P = 0 := by omega
    rw [h₀, h₁]
    exact .inr ⟨rfl, h.bound⟩
  · exact .inl (by omega)

/-- **The loop that pulls** the victims from the run queue: it is not empty. -/
theorem MigInv.pull (h : MigInv P ready s L) (hpc : s.pc = .pull i toSend oneShare) :
    ∃ s' L', s.resume P = .ok s' ∧ MigStep P ready s s' L L' := by
  have hok := h.pc
  rw [hpc] at hok
  obtain ⟨hlen, hle, hcount⟩ := hok
  have hV := h.rep.count .victims
  unfold MigSys.resume
  simp only [hpc]
  by_cases hi : i < toSend
  · rw [if_pos hi]
    rcases List.eq_nil_or_concat' (L (.runqueue P.self)) with hnil | ⟨ts, t, hq⟩
    · rw [hnil, List.length_nil] at hcount
      omega
    have hmem : t ∈ L (.runqueue P.self) := by rw [hq]; simp
    have hts : t ∉ ts := fun hmem' =>
      (List.nodup_append.mp (hq ▸ h.rep.nodup _)).2.2 t hmem' t (by simp) rfl
    obtain ⟨m₁, hm₁, hrep₁⟩ := h.rep.remtail_concat hq
    obtain ⟨m₂, hm₂, hrep₂⟩ := hrep₁.addhead (l := .victims) (h.rep.not_mem_removed hmem hts)
    rw [Function.update_of_ne (by simp : MigList.victims ≠ .runqueue P.self)] at hrep₂
    have hpulled : ∀ u, u ∈ L (.runqueue P.self) ↔ u = t ∨ u ∈ ts := by
      intro u
      rw [hq]
      simp [or_comm]
    obtain ⟨hback, hready⟩ :=
      mem_move (by simp : MigList.runqueue P.self ≠ .victims) hpulled fun u => List.mem_cons
    refine ⟨⟨m₂, s.tCpu, .pull (i + 1) toSend oneShare⟩, _, ?_,
      ⟨⟨hrep₂, fun c u hu => ?_, fun u hu => ?_, h.curthread, fun u => ?_, ?_⟩, Nat.zero_le _, ?_, ?_⟩⟩
    · rw [hm₁]
      change (m₁.threadlistAddhead .victims t >>= _) = _
      rw [hm₂]
      rfl
    · rcases hback _ u hu with hu | ⟨-, e⟩
      · exact h.home c u hu
      · cases e
    · rcases hback _ u hu with hu | ⟨rfl, -⟩
      · exact h.victims u hu
      · exact (h.home _ u hmem).2
    · rw [hready]
      exact h.ready u
    · refine ⟨?_, hi, ?_⟩
      · rw [Function.update_self, List.length_cons, hlen]
      · rw [Function.update_of_ne (by simp), Function.update_self]
        rw [hq, List.length_append, List.length_singleton] at hcount
        omega
    · simp only [MigSys.bound, hpc]
      omega
    · intro c hc
      left
      rw [Function.update_of_ne (by simp), Function.update_of_ne (by simpa using hc)]
  · rw [if_neg hi]
    refine ⟨_, L, rfl, h.goto ?_ (Nat.zero_le _) ?_⟩
    · exact .inl (by omega)
    · simp only [MigSys.bound, hpc, hV]
      omega

/-- **The loop that sends** victims to the CPU `i`: there is a victim, `curthread` is put back, and
another thread fits into the share. -/
theorem MigInv.send (h : MigInv P ready s L) (hpc : s.pc = .send i toSend oneShare) :
    ∃ s' L', s.resume P = .ok s' ∧ MigStep P ready s s' L L' := by
  have hok := h.pc
  rw [hpc] at hok
  obtain ⟨hi, hne, hdown⟩ := hok
  have hV := h.rep.count .victims
  unfold MigSys.resume
  simp only [hpc]
  by_cases hc : s.mem.tlCount (.runqueue i) < oneShare ∧ 0 < toSend
  · rw [if_pos hc]
    obtain ⟨t, ts, hv⟩ := hdown.exists_cons hc.2
    have hnd : (t :: ts).Nodup := hv ▸ h.rep.nodup .victims
    rw [hv] at hdown
    obtain ⟨hother, hcur⟩ := hdown.next hnd hc.2
    have hmem : t ∈ L .victims := by rw [hv]; exact List.mem_cons_self
    have hts : t ∉ ts := (List.nodup_cons.mp hnd).1
    have hoff := h.rep.not_mem_removed hmem hts
    obtain ⟨m₁, hm₁, hrep₁⟩ := h.rep.remhead_cons hv
    rw [hm₁]
    by_cases ht : t = P.curthread
    · -- `curthread` goes to the end of the list
      obtain ⟨m₂, hm₂, hrep₂⟩ := hrep₁.addtail (l := .victims) hoff
      rw [Function.update_self, Function.update_idem] at hrep₂
      have hsame : ∀ l u, u ∈ Function.update L .victims (ts ++ [t]) l ↔ u ∈ L l := by
        intro l u
        by_cases e : l = .victims
        · subst e
          rw [Function.update_self, hv, List.mem_append, List.mem_singleton, List.mem_cons, or_comm]
        · rw [Function.update_of_ne e]
      refine ⟨⟨m₂, s.tCpu, .send i (toSend - 1) oneShare⟩, _, ?_,
        ⟨⟨hrep₂, fun c u hu => ?_, fun u hu => ?_, h.curthread, fun u => ?_, hi, hne, ?_⟩, Nat.zero_le _,
          ?_, ?_⟩⟩
      · change (if some t = some P.curthread then _ else _) = _
        rw [if_pos (congrArg some ht), ← ht]
        change (m₁.threadlistAddtail .victims t >>= _) = _
        rw [hm₂]
        rfl
      · exact h.home c u ((hsame _ u).mp hu)
      · exact h.victims u ((hsame _ u).mp hu)
      · rw [← h.ready u]
        exact exists_congr fun l => hsame l u
      · rw [Function.update_self]
        exact hcur ht
      · have hV' := hrep₂.count .victims
        rw [Function.update_self, List.length_append, List.length_singleton] at hV'
        rw [hv, List.length_cons] at hV
        simp only [MigSys.bound, hpc]
        omega
      · exact fun c _ => .inl (Function.update_of_ne (by simp) _ _)
    · obtain ⟨m₂, hm₂, hrep₂⟩ := hrep₁.addtail (l := .runqueue i) hoff
      rw [Function.update_of_ne (by simp : MigList.runqueue i ≠ .victims)] at hrep₂
      have htaken : ∀ u, u ∈ L .victims ↔ u = t ∨ u ∈ ts := fun u => by rw [hv, List.mem_cons]
      have hput : ∀ u, u ∈ L (.runqueue i) ++ [t] ↔ u = t ∨ u ∈ L (.runqueue i) := by
        simp [or_comm]
      obtain ⟨hback, hready⟩ := mem_move (by simp : MigList.victims ≠ .runqueue i) htaken hput
      have hstay : ∀ {c u}, u ∈ L (.runqueue c) → u ≠ t := by
        rintro c u hu rfl
        cases h.rep.apart hu hmem
      refine ⟨⟨m₂, Function.update s.tCpu t i, .send i (toSend - 1) oneShare⟩, _, ?_,
        ⟨⟨hrep₂, fun c u hu => ?_, fun u hu => ?_, ?_, fun u => ?_, hi, hne, ?_⟩, Nat.zero_le _,
          ?_, ?_⟩⟩
      · change (if some t = some P.curthread then _ else _) = _
        rw [if_neg fun e => ht (Option.some.inj e)]
        change (m₁.threadlistAddtail (.runqueue i) t >>= _) = _
        rw [hm₂]
        rfl
      · rcases hback _ u hu with hu | ⟨rfl, e⟩
        · obtain ⟨hlt, hhome⟩ := h.home c u hu
          exact ⟨hlt, (Function.update_of_ne (hstay hu) _ _).trans hhome⟩
        · obtain rfl := MigList.runqueue.inj e
          exact ⟨hi, Function.update_self ..⟩
      · rw [Function.update_of_ne (by simp), Function.update_self] at hu
        have hne : u ≠ t := fun e => hts (e ▸ hu)
        have hold := h.victims u (by rw [hv]; exact List.mem_cons_of_mem _ hu)
        exact (Function.update_of_ne hne _ _).trans hold
      · exact (Function.update_of_ne (Ne.symm ht) _ _).trans h.curthread
      · rw [hready]
        exact h.ready u
      · rw [Function.update_of_ne (by simp), Function.update_self]
        exact hother ht
      · have hV' := hrep₂.count .victims
        rw [Function.update_of_ne (by simp), Function.update_self] at hV'
        rw [hv, List.length_cons] at hV
        simp only [MigSys.bound, hpc]
        omega
      · intro c _
        by_cases e : c = i
        · subst e
          right
          have hlen := h.rep.count (.runqueue c)
          refine ⟨toSend, oneShare, hpc, ?_⟩
          rw [Function.update_self, List.length_append, List.length_singleton]
          omega
        · left
          rw [Function.update_of_ne (by simpa using e), Function.update_of_ne (by simp)]
  · rw [if_neg hc]
    refine ⟨_, L, rfl, h.goto hdown (Nat.zero_le _) ?_⟩
    simp only [MigSys.bound, hpc]
    omega

/-- The end of the function, when no victims are left. -/
theorem MigInv.finish (h : MigInv P ready s L) (hnil : L .victims = []) (hpos : 0 < s.bound P) :
    ∃ s' L', s.finish = .ok s' ∧ MigStep P ready s s' L L' := by
  refine ⟨{ s with pc := .done }, L, ?_, h.goto hnil (Nat.zero_le _) hpos⟩
  unfold MigSys.finish
  rw [kassert_bind (h.rep.isempty_iff.mpr hnil), h.rep.cleanup hnil]
  rfl

/-- **The loop that puts back** the victims that are left. -/
theorem MigInv.giveBack (h : MigInv P ready s L) (hpc : s.pc = .giveBack) :
    ∃ s' L', s.resume P = .ok s' ∧ MigStep P ready s s' L L' := by
  have hV := h.rep.count .victims
  unfold MigSys.resume
  simp only [hpc]
  cases hv : L .victims with
  | nil =>
    rw [h.rep.remhead_nil hv]
    refine h.finish hv ?_
    simp only [MigSys.bound, hpc]
    omega
  | cons t ts =>
    have hmem : t ∈ L .victims := by rw [hv]; exact List.mem_cons_self
    have hts : t ∉ ts := (List.nodup_cons.mp (hv ▸ h.rep.nodup .victims)).1
    obtain ⟨m₁, hm₁, hrep₁⟩ := h.rep.remhead_cons hv
    obtain ⟨m₂, hm₂, hrep₂⟩ :=
      hrep₁.addtail (l := .runqueue P.self) (h.rep.not_mem_removed hmem hts)
    rw [Function.update_of_ne (by simp : MigList.runqueue P.self ≠ .victims)] at hrep₂
    have htaken : ∀ u, u ∈ L .victims ↔ u = t ∨ u ∈ ts := fun u => by rw [hv, List.mem_cons]
    have hput : ∀ u, u ∈ L (.runqueue P.self) ++ [t] ↔ u = t ∨ u ∈ L (.runqueue P.self) := by
      simp [or_comm]
    obtain ⟨hback, hready⟩ := mem_move (by simp : MigList.victims ≠ .runqueue P.self) htaken hput
    refine ⟨⟨m₂, s.tCpu, .giveBack⟩, _, ?_,
      ⟨⟨hrep₂, fun c u hu => ?_, fun u hu => ?_, h.curthread, fun u => ?_, trivial⟩, Nat.zero_le _, ?_,
        ?_⟩⟩
    · rw [hm₁]
      change (m₁.threadlistAddtail (.runqueue P.self) t >>= _) = _
      rw [hm₂]
      rfl
    · rcases hback _ u hu with hu | ⟨rfl, e⟩
      · exact h.home c u hu
      · obtain rfl := MigList.runqueue.inj e
        exact ⟨P.self_lt, h.victims u hmem⟩
    · rcases hback _ u hu with hu | ⟨-, e⟩
      · exact h.victims u hu
      · cases e
    · rw [hready]
      exact h.ready u
    · have hV' := hrep₂.count .victims
      rw [Function.update_of_ne (by simp), Function.update_self] at hV'
      rw [hv, List.length_cons] at hV
      simp only [MigSys.bound, hpc]
      omega
    · intro c hc
      left
      rw [Function.update_of_ne (by simpa using hc), Function.update_of_ne (by simp)]

/-- The counts are compared with any share. -/
theorem MigInv.compare {myCount totalCount : ℕ} (h : MigInv P ready s L)
    (hpc : s.pc = .sample i myCount totalCount) (hi : P.numcpus ≤ i) (oneShare : ℕ) :
    MigStep P ready s (s.compare myCount oneShare) L L := by
  have hlt := P.self_lt
  have hok := h.pc
  rw [hpc] at hok
  obtain ⟨hnil, hmine⟩ := hok
  have hmine := hmine (by omega)
  by_cases hc : myCount < oneShare
  · unfold MigSys.compare
    rw [if_pos hc]
    refine h.goto hnil (Nat.zero_le _) ?_
    simp only [MigSys.bound, hpc]
    omega
  · unfold MigSys.compare
    rw [if_neg hc]
    refine h.goto ⟨by rw [hnil, List.length_nil], Nat.zero_le _, by omega⟩ (Nat.zero_le _) ?_
    simp only [MigSys.bound, hpc]
    split_ifs <;> omega

/-- **Every step of the function** succeeds until it is done. -/
theorem MigInv.resume (h : MigInv P ready s L) (hdone : s.pc ≠ .done) :
    ∃ s' L', s.resume P = .ok s' ∧ MigStep P ready s s' L L' := by
  have hok := h.pc
  have hlt := P.self_lt
  cases hpc : s.pc with
  | sample i myCount totalCount =>
    rw [hpc] at hok
    obtain ⟨hnil, hmine⟩ := hok
    have hQ := h.rep.count (.runqueue P.self)
    unfold MigSys.resume
    simp only [hpc]
    by_cases hi : i < P.numcpus
    · rw [if_pos hi]
      refine ⟨_, L, rfl, h.goto ⟨hnil, fun hi' => ?_⟩ ?_ ?_⟩
      · split_ifs with e
        · rw [e, hQ]
        · exact hmine (by omega)
      · simp only [MigSys.early, hpc]
        omega
      · simp only [MigSys.bound, hpc]
        split_ifs with e <;> subst_vars <;> omega
    · rw [if_neg hi]
      exact ⟨_, L, rfl, h.compare hpc (Nat.not_lt.mp hi) _⟩
  | pull i toSend oneShare => exact h.pull hpc
  | distribute i toSend oneShare =>
    rw [hpc] at hok
    unfold MigSys.resume
    simp only [hpc]
    refine ⟨_, L, rfl, h.goto ?_ ?_ ?_⟩
    · split_ifs with hi e
      · exact hok
      · exact ⟨hi.1, e, hok⟩
      · trivial
    · unfold MigSys.early
      split_ifs <;> exact Nat.zero_le _
    · simp only [MigSys.bound, hpc]
      split_ifs <;> simp only <;> omega
  | send i toSend oneShare => exact h.send hpc
  | leftovers =>
    unfold MigSys.resume
    simp only [hpc]
    split_ifs with he
    · exact h.finish (h.rep.isempty_iff.mp he) (by simp only [MigSys.bound, hpc]; omega)
    · refine ⟨_, L, rfl, h.goto trivial (Nat.zero_le _) ?_⟩
      simp only [MigSys.bound, hpc]
      omega
  | giveBack => exact h.giveBack hpc
  | done => exact absurd hpc hdone

/-- **A thread that another CPU makes ready** comes to a run queue whose lock is free. -/
theorem MigInv.makeRunnable {c : ℕ} (h : MigInv P ready s L)
    (hs : s.makeRunnable P c t = .ok s') :
    ∃ L', MigInv P (fun u => ready u ∨ u = t) s' L' ∧ s'.early P = s.early P ∧
      (s.early P = 0 → s'.bound P ≤ s.bound P) := by
  obtain ⟨⟨hc, hlock, hhome, hnext, -⟩, hs⟩ := require_bind_ok.mp hs
  have hoff : ∀ l, t ∉ L l := fun l hl => (h.rep.links_ne_none hl).1 hnext
  obtain ⟨m, hm, hrep⟩ := h.rep.addtail (l := .runqueue c) hoff
  rw [hm] at hs
  cases hs
  have hv : Function.update L (.runqueue c) (L (.runqueue c) ++ [t]) .victims = L .victims :=
    Function.update_of_ne (by simp) _ _
  have hsub : ∀ l u, u ∈ Function.update L (.runqueue c) (L (.runqueue c) ++ [t]) l ↔
      u ∈ L l ∨ u = t ∧ l = .runqueue c := by
    intro l u
    by_cases e : l = .runqueue c
    · subst e
      rw [Function.update_self, List.mem_append, List.mem_singleton]
      simp
    · rw [Function.update_of_ne e]
      simp [e]
  have hQ : (L (.runqueue P.self)).length ≤
      (Function.update L (.runqueue c) (L (.runqueue c) ++ [t]) (.runqueue P.self)).length ∧
      (Function.update L (.runqueue c) (L (.runqueue c) ++ [t]) (.runqueue P.self)).length ≤
        (L (.runqueue P.self)).length + 1 := by
    by_cases e : P.self = c
    · rw [e, Function.update_self, List.length_append, List.length_singleton]
      omega
    · rw [Function.update_of_ne (by simpa using e)]
      omega
  refine ⟨_, ⟨hrep, fun c' u hu => ?_, fun u hu => ?_, h.curthread, fun u => ?_, ?_⟩, ?_⟩
  · rcases (hsub _ u).mp hu with hu | ⟨rfl, e⟩
    · exact h.home c' u hu
    · obtain rfl := MigList.runqueue.inj e
      exact ⟨hc, hhome⟩
  · rw [hv] at hu
    exact h.victims u hu
  · rw [← h.ready u]
    constructor
    · rintro ⟨l, hu⟩
      exact ((hsub l u).mp hu).imp (fun hu => ⟨l, hu⟩) And.left
    · rintro (⟨l, hu⟩ | rfl)
      · exact ⟨l, (hsub l u).mpr (.inl hu)⟩
      · exact ⟨_, (hsub _ u).mpr (.inr ⟨rfl, rfl⟩)⟩
  · have hok := h.pc
    change MigPc.Ok P _ s.pc
    cases hpc : s.pc with
    | sample i myCount totalCount =>
      rw [hpc] at hok
      exact ⟨hv.trans hok.1, fun hi => Nat.le_trans (hok.2 hi) hQ.1⟩
    | pull i toSend oneShare =>
      rw [hpc] at hok
      obtain ⟨hlen, hle, hcount⟩ := hok
      exact ⟨by rw [hv, hlen], hle, by omega⟩
    | distribute i toSend oneShare =>
      rw [hpc] at hok
      exact (congrArg (Countdown P toSend) hv).mpr hok
    | send i toSend oneShare =>
      rw [hpc] at hok
      exact ⟨hok.1, hok.2.1, (congrArg (Countdown P toSend) hv).mpr hok.2.2⟩
    | leftovers | giveBack => trivial
    | done =>
      rw [hpc] at hok
      exact hv.trans hok
  · refine ⟨rfl, fun hearly => ?_⟩
    have hvict := hrep.count .victims
    have hvict₀ := h.rep.count .victims
    rw [hv] at hvict
    unfold MigSys.early at hearly
    unfold MigSys.bound
    cases hpc : s.pc with
    | sample i myCount totalCount =>
      -- the own queue was sampled
      simp only [hpc] at hearly ⊢
      rw [if_neg (by omega), if_neg (by omega)]
    | _ =>
      simp only
      omega

/-- Another CPU does not fail either. -/
theorem MigInv.makeRunnable_safe (h : MigInv P ready s L) (c : ℕ) (p : Panic) :
    s.makeRunnable P c t ≠ .error (.panic p) := by
  intro hs
  unfold MigSys.makeRunnable at hs
  by_cases hc : c < P.numcpus ∧ s.pc.lock P ≠ some c ∧ s.tCpu t = c ∧
      s.mem.tlnNext (.thread t) = none ∧ s.mem.tlnPrev (.thread t) = none
  · rw [require_bind hc] at hs
    have hoff : ∀ l, t ∉ L l := fun l hl => (h.rep.links_ne_none hl).1 hc.2.2.2.1
    obtain ⟨m, hm, -⟩ := h.rep.addtail (l := .runqueue c) hoff
    rw [hm] at hs
    cases hs
  · unfold require at hs
    rw [if_neg hc] at hs
    cases hs

end Steps

/-! ## Runs -/

section Run

variable {P : MigCpus} {ready : ThreadPtr → Prop} {s s' : MigSys} {L : MigList → List ThreadPtr}
  {acts : List MigAction}

/-- The threads that are ready, written in another way. -/
theorem MigInv.congr {ready' : ThreadPtr → Prop} (h : MigInv P ready s L)
    (hr : ∀ t, ready t ↔ ready' t) : MigInv P ready' s L :=
  ⟨h.rep, h.home, h.victims, h.curthread, fun t => (h.ready t).trans (hr t), h.pc⟩

/-- One step keeps the invariant and does not go away from the end; a step of the function comes
closer. -/
theorem MigInv.step {a : MigAction} (h : MigInv P ready s L) (hs : MigSys.step P s a = .ok s') :
    (∃ L', MigInv P (fun t => ready t ∨ ∃ c, a = .add c t) s' L') ∧
      s'.measure P ≤ s.measure P ∧ (a = .run → s'.measure P < s.measure P) := by
  cases a with
  | run =>
    have hdone : s.pc ≠ .done := by
      intro e
      simp only [MigSys.step, MigSys.resume, e] at hs
      cases hs
    obtain ⟨u, L', hu, hstep⟩ := h.resume hdone
    obtain rfl := Except.ok.inj (hu.symm.trans hs)
    have hlt := hstep.measure_lt
    exact ⟨⟨L', hstep.inv.congr (by simp)⟩, hlt.le, fun _ => hlt⟩
  | add c t =>
    obtain ⟨L', hinv, hearly, hb⟩ := h.makeRunnable hs
    refine ⟨⟨L', hinv.congr fun u => or_congr_right ⟨?_, ?_⟩⟩, ?_, fun e => by cases e⟩
    · rintro rfl
      exact ⟨c, rfl⟩
    · rintro ⟨c', e⟩
      exact (MigAction.add.inj e).2.symm
    · unfold MigSys.measure
      rw [hearly]
      refine Prod.Lex.toLex_le_toLex.mpr (.inr ⟨rfl, ?_⟩)
      by_cases he : s.early P = 0
      · rw [if_pos he, if_pos he]
        exact hb he
      · rw [if_neg he, if_neg he]

/-- **The invariant of runs.** -/
theorem migInv_run (h : MigInv P ready s L) (hrun : run (MigSys.step P) s acts = .ok s') :
    ∃ L', MigInv P (fun t => ready t ∨ ∃ c, .add c t ∈ acts) s' L' := by
  induction acts generalizing s ready L with
  | nil =>
    cases hrun
    exact ⟨L, h.congr (by simp)⟩
  | cons a acts ih =>
    rw [run_cons, bind_eq_ok] at hrun
    obtain ⟨u, hu, hrun⟩ := hrun
    obtain ⟨⟨L', hinv⟩, -⟩ := h.step hu
    obtain ⟨L'', hinv⟩ := ih hinv hrun
    refine ⟨L'', hinv.congr fun t => ?_⟩
    rw [or_assoc, ← exists_or]
    refine or_congr_right (exists_congr fun c => ?_)
    rw [List.mem_cons, eq_comm]

/-- **The function ends**: it takes finitely many steps, also when threads are added forever. -/
theorem MigInv.ends (h : MigInv P ready s L) {states : ℕ → MigSys} {actions : ℕ → MigAction}
    (h₀ : states 0 = s)
    (hsteps : ∀ n, MigSys.step P (states n) (actions n) = .ok (states (n + 1))) :
    ∃ N, ∀ n, N ≤ n → actions n ≠ .run := by
  have hinv : ∀ n, ∃ ready' L', MigInv P ready' (states n) L' := by
    intro n
    induction n with
    | zero => exact ⟨ready, L, h₀ ▸ h⟩
    | succ n ih =>
      obtain ⟨ready', L', hn⟩ := ih
      obtain ⟨⟨L'', hn'⟩, -⟩ := hn.step (hsteps n)
      exact ⟨_, L'', hn'⟩
  refine exists_forall_not_mark (μ := fun n => (states n).measure P) (fun n => ?_) fun n => ?_
  · obtain ⟨_, _, hn⟩ := hinv n
    exact (hn.step (hsteps n)).2.1
  · obtain ⟨_, _, hn⟩ := hinv n
    exact (hn.step (hsteps n)).2.2

/-- **The start of the function**: any run queues with the threads at home there, `curthread` at home
on the current CPU, and the empty local list. -/
structure MigStart (P : MigCpus) (s : MigSys) (L : MigList → List ThreadPtr) : Prop where
  pc : s.pc = .sample 0 0 0
  rep : s.mem.Rep L
  home : ∀ c, ∀ t ∈ L (.runqueue c), c < P.numcpus ∧ s.tCpu t = c
  victims : L .victims = []
  curthread : s.tCpu P.curthread = P.self

theorem MigStart.inv (h : MigStart P s L) : MigInv P (fun t => ∃ c, t ∈ L (.runqueue c)) s L := by
  refine ⟨h.rep, h.home, fun t ht => ?_, h.curthread, fun t => ⟨?_, ?_⟩, ?_⟩
  · rw [h.victims] at ht
    cases ht
  · rintro ⟨l, ht⟩
    cases l with
    | runqueue c => exact ⟨c, ht⟩
    | victims =>
      rw [h.victims] at ht
      cases ht
  · rintro ⟨c, ht⟩
    exact ⟨_, ht⟩
  · rw [h.pc]
    exact ⟨h.victims, fun hi => absurd hi (Nat.not_lt_zero _)⟩

/-- **A migration after any steps**, with the lists `L` at its start and `L'` now. -/
structure MigSound (P : MigCpus) (L L' : MigList → List ThreadPtr) (acts : List MigAction)
    (s : MigSys) : Prop where
  rep : s.mem.Rep L'
  /-- The threads on the lists are those that were or became ready, each on one list. -/
  conserved : ∀ t, (∃ l, t ∈ L' l) ↔ (∃ c, t ∈ L (.runqueue c)) ∨ ∃ c, .add c t ∈ acts
  unique : ∀ t l l', t ∈ L' l → t ∈ L' l' → l = l'
  home : ∀ c, ∀ t ∈ L' (.runqueue c), c < P.numcpus ∧ s.tCpu t = c
  /-- `curthread` stays on its CPU. -/
  curthread : s.tCpu P.curthread = P.self
  /-- No list is empty where a thread is taken from it. -/
  taken : (∀ i toSend oneShare, s.pc = .pull i toSend oneShare → i < toSend →
      L' (.runqueue P.self) ≠ []) ∧
    ∀ i toSend oneShare, s.pc = .send i toSend oneShare → 0 < toSend → L' .victims ≠ []
  /-- Until it is done the function can go on, and on another CPU its step leaves at most one share
  where it adds a thread. -/
  progress : s.pc ≠ .done → ∃ s' L'', s.resume P = .ok s' ∧ s'.mem.Rep L'' ∧
    ∀ c ≠ P.self, L'' (.runqueue c) = L' (.runqueue c) ∨
      ∃ toSend oneShare, s.pc = .send c toSend oneShare ∧ (L'' (.runqueue c)).length ≤ oneShare
  safe : ∀ c t p, s.makeRunnable P c t ≠ .error (.panic p)
  /-- At the end every ready thread is on the run queue of its CPU. -/
  done : s.pc = .done → L' .victims = [] ∧ ∀ t c, t ∈ L' (.runqueue c) ↔
    ((∃ c, t ∈ L (.runqueue c)) ∨ ∃ c, .add c t ∈ acts) ∧ c = s.tCpu t

/-- **Migration conserves the threads**, for any number of CPUs and any run queues, and with threads
that become ready at any time; and it ends. -/
theorem migration_conserves (hs : MigStart P s L) :
    (∀ acts s', run (MigSys.step P) s acts = .ok s' → ∃ L', MigSound P L L' acts s') ∧
      ∀ (states : ℕ → MigSys) (actions : ℕ → MigAction), states 0 = s →
        (∀ n, MigSys.step P (states n) (actions n) = .ok (states (n + 1))) →
        ∃ N, ∀ n, N ≤ n → actions n ≠ .run := by
  refine ⟨fun acts s' hrun => ?_, fun states actions h₀ hsteps => hs.inv.ends h₀ hsteps⟩
  obtain ⟨L', h⟩ := migInv_run hs.inv hrun
  have hok := h.pc
  refine ⟨L', h.rep, h.ready, fun t l l' => h.rep.apart, h.home, h.curthread, ⟨?_, ?_⟩, ?_,
    fun c t p => h.makeRunnable_safe c p, fun hpc => ?_⟩
  · intro i toSend oneShare hpc hi hnil
    rw [hpc] at hok
    have := hok.2.2
    rw [hnil, List.length_nil] at this
    omega
  · intro i toSend oneShare hpc hpos
    rw [hpc] at hok
    obtain ⟨t, ts, hv⟩ := hok.2.2.exists_cons hpos
    rw [hv]
    exact List.cons_ne_nil t ts
  · intro hdone
    obtain ⟨s'', L'', hs'', hstep⟩ := h.resume hdone
    exact ⟨s'', L'', hs'', hstep.inv.rep, hstep.share⟩
  · rw [hpc] at hok
    have hnil : L' .victims = [] := hok
    refine ⟨hnil, fun t c => ⟨fun ht => ?_, ?_⟩⟩
    · exact ⟨(h.ready t).mp ⟨_, ht⟩, (h.home c t ht).2.symm⟩
    · rintro ⟨hr, rfl⟩
      obtain ⟨l, hl⟩ := (h.ready t).mpr hr
      cases l with
      | runqueue c => rwa [(h.home c t hl).2]
      | victims =>
        rw [hnil] at hl
        cases hl

/-- Two CPUs; the threads of the first one, `curthread` last. -/
def migExample : MigCpus where
  numcpus := 2
  self := 0
  curthread := fakethread 0 (by decide)
  self_lt := by decide

def migExampleQueue : List (TlOp MigList) :=
  [1, 2, 3, 0].map fun i : Fin 8 => .addtail (.runqueue 0) (fakethread i.val i.isLt)

/-- The second CPU makes another thread of the first one ready after the victims were pulled. -/
def migExampleRun : List MigAction :=
  List.replicate 6 .run ++ .add 0 (fakethread 4 (by decide)) :: List.replicate 9 .run

/-- The third thread is sent, and `curthread` is put back. -/
theorem migration_conserves_example :
    ∃ r s', (TlMem.init MigList).steps migExampleQueue = .ok r ∧
      run (MigSys.step migExample)
        ⟨r.2, fun _ => 0, .sample 0 0 0⟩ migExampleRun =
        .ok s' ∧
      s'.pc = .done ∧ s'.tCpu (fakethread 3 (by decide)) = 1 ∧
      s'.tCpu (fakethread 0 (by decide)) = 0 ∧
      ∃ L', MigSound migExample (TlOp.applyAll (fun _ => []) migExampleQueue).2 L' migExampleRun
        s' := by
  have hv : TlOp.ValidAll (fun _ => []) migExampleQueue := by
    simp only [migExampleQueue, List.map, TlOp.ValidAll, TlOp.Valid, TlOp.apply, Function.update_apply]
    refine ⟨?_, ?_, ?_, ?_, trivial⟩ <;> intro l <;> (try split_ifs) <;> simp [fakethread]
  have hcompute : (((TlMem.init MigList).steps migExampleQueue).toOption.map fun r =>
      (run (MigSys.step migExample)
        ⟨r.2, fun _ => 0, .sample 0 0 0⟩
        migExampleRun).toOption.map fun s => (s.pc, s.tCpu (fakethread 3 (by decide)),
          s.tCpu (fakethread 0 (by decide)))) = some (some (.done, 1, 0)) := by
    decide +kernel
  obtain ⟨r, hr, hcompute⟩ := exists_ok_of_toOption hcompute
  obtain ⟨s', hs', hend⟩ := exists_ok_of_toOption hcompute
  simp only [Prod.mk.injEq] at hend
  obtain ⟨m, hm, hrep⟩ := (TlMem.rep_init MigList).steps hv
  obtain rfl := Except.ok.inj (hr.symm.trans hm)
  refine ⟨_, s', hm, hs', hend.1, hend.2.1, hend.2.2, (migration_conserves ⟨rfl, hrep, ?_, ?_, ?_⟩).1
    _ _ hs'⟩
  · intro c t ht
    simp only [migExampleQueue, List.map, TlOp.applyAll, TlOp.apply, Function.update_apply] at ht
    by_cases hc : MigList.runqueue c = .runqueue 0
    · obtain rfl := MigList.runqueue.inj hc
      exact ⟨by decide, rfl⟩
    · simp [hc] at ht
  · rfl
  · rfl

end Run

end Os161
