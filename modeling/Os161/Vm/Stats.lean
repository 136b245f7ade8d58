import Mathlib.Algebra.BigOperators.Group.Finset.Basic
import Os161.Vm.Lookup
import Os161.Vm.Owner

set_option autoImplicit false

/-!
# The statistics

`vm_stats.c`: ten counters, and the calls of `vmstats_inc` in the steps of the machine. The laws that
`vmstats_print` checks are balances between the counters and the faults in progress, each of which
still owes its increments.

* `statBumps`: the counters that a step increments; `StatState.step`: the machine with its counters.
* `Owes`: what the faults in progress owe together, over all address spaces and nesting levels.
* **`tlbFault_balance`**: the first law, up to the replacements of `tlbR`; **`reload_balance`**,
  **`disk_balance`**: the other two.
-/

namespace Os161

open Transition

/-- The statistics ids. -/
inductive VmStat
  | tlbFault
  | tlbFaultFree
  | tlbFaultReplace
  | tlbInvalid
  | tlbReload
  | pageFaultZero
  | pageFaultDisk
  | pageFaultElf
  | pageFaultSwap
  | swapFileWrite
  deriving DecidableEq, Repr

/-- `stat_counters`, which are words. -/
abbrev VmStats : Type := VmStat → ℕ

/-- `vmstats_inc`. -/
def vmstatsInc (st : VmStats) (pos : VmStat) : VmStats := Function.update st pos (wadd (st pos) 1)

/-- The counter that `tlbW` increments. -/
def tlbWStat (t : Tlb) (faultaddress : ℕ) : VmStat :=
  match tlbProbe t faultaddress with
  | some _ => .tlbFaultFree
  | none =>
    match Loop.firstIdx (fun i => !(t.entry i).valid) 0 numTlb with
    | some _ => .tlbFaultFree
    | none => .tlbFaultReplace

/-- The counter that `tlbR` increments. -/
def tlbRStats (t : Tlb) (victim : ℕ) : List VmStat :=
  match tlbProbe t victim with
  | some _ => [.tlbFaultFree]
  | none => []

/-- The counters of `vm_fault` for a TLB miss, up to its first critical section. -/
def faultStats (s : VmState) (P : Proc) (a : ℕ) : List VmStat :=
  match findSegment P.space (pageFrame a) with
  | none => [.tlbFault]
  | some seg =>
    match (findPte P.space seg (pageFrame a)).bind fun j => P.space.pt[j]? with
    | none => [.tlbFault]
    | some pte =>
      if pte.inMem then [.tlbFault, .tlbReload, tlbWStat s.tlb (pageFrame a)] else [.tlbFault]

/-- A fault that only fills its page with zeros. -/
def Activation.zeroed (act : Activation) : Bool := !act.inSwap && act.seg.offset < 0

/-- The counters of the next step of a fault. -/
def goStats (s : VmState) (act : Activation) : List VmStat :=
  match act.pc with
  | .evict => [.swapFileWrite]
  | .replace victim _ => tlbRStats s.tlb victim
  | .setClean _ =>
    if act.inSwap then [.pageFaultSwap, .pageFaultDisk]
    else if act.seg.offset < 0 then []
    else [.pageFaultElf, .pageFaultDisk]
  | .map _ => tlbWStat s.tlb act.page :: if act.zeroed then [.pageFaultZero] else []
  | _ => []

/-- The counters that a step increments. -/
def statBumps (s : VmState) : VmAction → List VmStat
  | .fault as a => ((s.procs as).map fun P => faultStats s P a).getD []
  | .go as _ => (((s.procs as).bind fun P => P.stack.head?).map fun act => goStats s act).getD []
  | .switch (some _) => [.tlbInvalid]
  | _ => []

/-- The machine with its counters. -/
structure StatState where
  vm : VmState
  stats : VmStats

/-- After the boot. -/
def StatState.boot (ram : RamLayout) (garbage : ℕ → CmEntry) (file mem : ℕ → UInt8)
    (files : FileId → List UInt8) : StatState :=
  ⟨VmState.boot ram garbage file mem files, fun _ => 0⟩

/-- A step of the machine with its counters. -/
def StatState.step (s : StatState) (a : VmAction) : Except Stop StatState := do
  let vm ← s.vm.step a
  return ⟨vm, (statBumps s.vm a).foldl vmstatsInc s.stats⟩

/-- The fault succeeds: the searches of `vm_fault` find the page. -/
def served (s : VmState) : VmAction → Bool
  | .fault as a =>
    match s.procs as with
    | some P => (P.space.lookup (pageFrame a)).isSome
    | none => true
  | _ => true

/-- Whether the step is a `tlbR` that finds its victim in the TLB. -/
def replaces (s : VmState) : VmAction → Bool
  | .go as _ =>
    match (s.procs as).bind fun P => P.stack.head? with
    | some act =>
      match act.pc with
      | .replace victim _ => (tlbProbe s.tlb victim).isSome
      | _ => false
    | none => false
  | _ => false

/-- No fault is in progress. -/
def Quiet (s : VmState) : Prop := ∀ as P, s.procs as = some P → P.stack = []

/-! ## The faults in progress -/

/-- What the faults of an address space weigh together. -/
def owed (w : Activation → ℕ) (s : VmState) (as : AsId) : ℕ :=
  match s.procs as with
  | some P => (P.stack.map w).sum
  | none => 0

/-- The faults in progress weigh `n` together. -/
def Owes (w : Activation → ℕ) (s : VmState) (n : ℕ) : Prop :=
  ∃ S : Finset AsId, (∀ as ∉ S, s.procs as = none) ∧ ∑ as ∈ S, owed w s as = n

section Owes

variable {w : Activation → ℕ} {s s' : VmState} {as : AsId} {n : ℕ}

/-- Without a fault in progress nothing is owed. -/
theorem Owes.eq_zero (h : Owes w s n) (hq : Quiet s) : n = 0 := by
  obtain ⟨S, -, rfl⟩ := h
  refine Finset.sum_eq_zero fun as _ => ?_
  unfold owed
  split
  · next P hP =>
    rw [hq as P hP]
    rfl
  · rfl

/-- **A step of one address space** changes what is owed by its own change. -/
theorem Owes.change (h : Owes w s n) (hother : ∀ as' ≠ as, s'.procs as' = s.procs as') :
    ∃ n', Owes w s' n' ∧ n' + owed w s as = n + owed w s' as := by
  obtain ⟨S, hS, rfl⟩ := h
  have howed : ∀ as' ≠ as, owed w s' as' = owed w s as' := fun as' hne => by
    unfold owed
    rw [hother as' hne]
  have hout : as ∉ S → owed w s as = 0 := fun ho => by
    unfold owed
    rw [hS as ho]
  refine ⟨_, ⟨insert as S, fun as' ho => ?_, rfl⟩, ?_⟩
  · rw [Finset.mem_insert, not_or] at ho
    rw [hother as' ho.1]
    exact hS as' ho.2
  · have hold : ∑ x ∈ S, owed w s x = ∑ x ∈ insert as S, owed w s x := by
      by_cases hm : as ∈ S
      · rw [Finset.insert_eq_of_mem hm]
      · rw [Finset.sum_insert hm, hout hm, Nat.zero_add]
    have hs : owed w s as + ∑ x ∈ (insert as S).erase as, owed w s x = ∑ x ∈ insert as S, owed w s x :=
      Finset.add_sum_erase _ _ (Finset.mem_insert_self as S)
    have hs' : owed w s' as + ∑ x ∈ (insert as S).erase as, owed w s' x =
        ∑ x ∈ insert as S, owed w s' x := Finset.add_sum_erase _ _ (Finset.mem_insert_self as S)
    have hrest : ∑ x ∈ (insert as S).erase as, owed w s' x = ∑ x ∈ (insert as S).erase as, owed w s x :=
      Finset.sum_congr rfl fun x hx => howed x (Finset.ne_of_mem_erase hx)
    omega

end Owes

theorem owed_eq {w : Activation → ℕ} {s : VmState} {as : AsId} {P : Proc}
    (hP : s.procs as = some P) : owed w s as = (P.stack.map w).sum := by
  unfold owed
  rw [hP]

theorem owed_none {w : Activation → ℕ} {s : VmState} {as : AsId} (hP : s.procs as = none) :
    owed w s as = 0 := by
  unfold owed
  rw [hP]

theorem owed_setProc {w : Activation → ℕ} {s : VmState} {as : AsId} {P : Proc} :
    owed w (s.setProc as P) as = (P.stack.map w).sum := owed_eq (setProc_self s as P)

/-! ## The increments -/

section Bumps

variable {st : VmStats} {c : VmStat} {l : List VmStat} {t : Tlb} {fa : ℕ}

theorem vmstatsInc_lt (h : ∀ c, st c < wordSize) (pos : VmStat) : vmstatsInc st pos c < wordSize := by
  unfold vmstatsInc
  rw [Function.update_apply]
  split_ifs
  · exact Nat.mod_lt _ (by decide)
  · exact h c

/-- **The counters after a step.** -/
theorem foldl_vmstatsInc (h : ∀ c, st c < wordSize) :
    (l.foldl vmstatsInc st) c < wordSize ∧
      (l.foldl vmstatsInc st) c = (st c + l.count c) % wordSize := by
  induction l generalizing st with
  | nil => exact ⟨h c, (Nat.mod_eq_of_lt (h c)).symm⟩
  | cons pos l ih =>
    obtain ⟨hlt, he⟩ := ih fun c => vmstatsInc_lt h pos
    refine ⟨hlt, he.trans ?_⟩
    unfold vmstatsInc wadd
    rw [Function.update_apply, List.count_cons]
    by_cases hc : c = pos
    · subst hc
      rw [if_pos rfl, beq_self_eq_true, if_pos rfl, Nat.mod_add_mod, Nat.add_assoc,
        Nat.add_comm 1]
    · rw [if_neg hc, beq_eq_false_iff_ne.mpr (Ne.symm hc)]
      rfl

/-- `tlbW` increments one of two counters. -/
theorem tlbWStat_cases (t : Tlb) (fa : ℕ) :
    tlbWStat t fa = .tlbFaultFree ∨ tlbWStat t fa = .tlbFaultReplace := by
  unfold tlbWStat
  split
  · exact .inl rfl
  · split
    · exact .inl rfl
    · exact .inr rfl

end Bumps

/-! ## The balances of a step -/

/-- A fault owes the write of the TLB at its end. -/
def owesTlb (_ : Activation) : ℕ := 1

/-- A fault owes its cause until it is counted. -/
def owesCause (act : Activation) : ℕ :=
  match act.pc with
  | .map _ => if act.zeroed then 1 else 0
  | _ => 1

/-- What the increments of a step balance, with the changes of the faults of one address space. -/
structure Balance (s : VmState) (a : VmAction) (s' : VmState) (as : AsId) : Prop where
  other : ∀ as' ≠ as, s'.procs as' = s.procs as'
  tlb : (statBumps s a).count .tlbFault + (if replaces s a then 1 else 0) + owed owesTlb s as =
    (statBumps s a).count .tlbFaultFree + (statBumps s a).count .tlbFaultReplace + owed owesTlb s' as
  cause : (statBumps s a).count .tlbFault + owed owesCause s as =
    (statBumps s a).count .tlbReload + (statBumps s a).count .pageFaultDisk +
      (statBumps s a).count .pageFaultZero + owed owesCause s' as
  disk : (statBumps s a).count .pageFaultDisk =
    (statBumps s a).count .pageFaultElf + (statBumps s a).count .pageFaultSwap

section Step

variable {s s' : VmState} {as : AsId} {P : Proc} {act : Activation} {rest : List Activation}
  {a : VmAction} {n : ℕ}

/-- A step that counts nothing, and after which the same is owed. -/
theorem Balance.of_nil (hother : ∀ as' ≠ as, s'.procs as' = s.procs as') (hb : statBumps s a = [])
    (hr : replaces s a = false) (howed : ∀ w, owed w s' as = owed w s as) : Balance s a s' as := by
  refine ⟨hother, ?_, ?_, ?_⟩
  · simp [hb, hr, howed]
  · simp [hb, howed]
  · simp [hb]

theorem owesCause_filled {paddr : ℕ} : owesCause { act with pc := act.filled paddr } = 1 := by
  unfold Activation.filled
  split_ifs <;> rfl

theorem owesCause_copying {what : Fill} {paddr dst len done : ℕ} {buf : ℕ → UInt8} :
    owesCause { act with pc := act.copying what paddr dst len buf done } = 1 := by
  unfold Activation.copying
  split_ifs
  · cases what <;> rfl
  · cases what <;> rfl
  · rfl

/-- **The balance of a fault's step.** -/
theorem balance_of_goStep (hP : s.procs as = some P) (hst : P.stack = act :: rest)
    (hgo : GoStep s as P act rest s') : Balance s (.go as n) s' as := by
  have hb : statBumps s (.go as n) = goStats s act := by simp [statBumps, hP, hst]
  have hr : replaces s (.go as n) = match act.pc with
      | .replace victim _ => (tlbProbe s.tlb victim).isSome
      | _ => false := by simp [replaces, hP, hst]
  have hother : ∀ (t : VmState) (Q : Proc), t.procs = s.procs → ∀ as' ≠ as,
      (t.setProc as Q).procs as' = s.procs as' :=
    fun t Q ht as' hne => (setProc_of_ne t Q hne).trans (by rw [ht])
  have howed : ∀ w : Activation → ℕ, owed w s as = w act + (rest.map w).sum := fun w => by
    rw [owed_eq hP, hst, List.map_cons, List.sum_cons]
  -- where the fault goes on, owing as much as before
  have hgoto : ∀ (w : Activation → ℕ) (pc : Pc), ((P.goto act rest pc).stack.map w).sum =
      w { act with pc := pc } + (rest.map w).sum := fun w pc => rfl
  have hsame : ∀ (t : VmState) (Q : Proc) (act' : Activation), t.procs = s.procs →
      Q.stack = act' :: rest → goStats s act = [] → replaces s (.go as n) = false →
      owesCause act' = owesCause act → Balance s (.go as n) (t.setProc as Q) as :=
    fun t Q act' ht hQ hg hrep hw => by
      refine ⟨hother t Q ht, ?_, ?_, ?_⟩
      · rw [hb, hg, hrep, howed, owed_setProc, hQ, List.map_cons, List.sum_cons]
        simp [owesTlb]
      · rw [hb, hg, howed, owed_setProc, hQ, List.map_cons, List.sum_cons, hw]
        simp
      · rw [hb, hg]
        rfl
  cases hgo with
  | full hpc hs =>
    refine hsame _ _ _ rfl rfl (by simp [goStats, hpc]) (by simp [hr, hpc]) ?_
    simp [owesCause, hpc]
  | alloc hpc hs hne =>
    refine hsame _ _ _ rfl rfl (by simp [goStats, hpc]) (by simp [hr, hpc]) ?_
    rw [owesCause_filled]
    simp [owesCause, hpc]
  | swapOutFind hpc | swapOutCopy hpc | swapOutCopied hpc | swapOutWrite hpc | update hpc
  | swapInFind hpc | swapInRead hpc =>
    exact hsame _ _ _ rfl rfl (by simp [goStats, hpc]) (by simp [hr, hpc]) (by simp [owesCause, hpc])
  | fill hpc | elfRead hpc =>
    refine hsame _ _ _ rfl rfl (by simp [goStats, hpc]) (by simp [hr, hpc]) ?_
    rw [owesCause_copying]
    simp [owesCause, hpc]
  | evict hpc hs =>
    have hg : goStats s act = [.swapFileWrite] := by simp [goStats, hpc]
    refine ⟨hother _ _ rfl, ?_, ?_, ?_⟩
    · rw [hb, hg, hr, hpc, howed, owed_setProc, hgoto]
      simp [owesTlb]
    · rw [hb, hg, howed, owed_setProc, hgoto]
      simp [owesCause, hpc]
    · rw [hb, hg]
      rfl
  | @replace victim paddr hpc =>
    have hg : goStats s act = tlbRStats s.tlb victim := by simp [goStats, hpc]
    have hcause : owesCause { act with pc := act.filled paddr } = owesCause act := by
      rw [owesCause_filled]
      simp [owesCause, hpc]
    have henter : ∀ w : Activation → ℕ, ((P.enter act rest paddr).stack.map w).sum =
        w { act with pc := act.filled paddr } + (rest.map w).sum := fun w => rfl
    unfold tlbRStats at hg
    rw [hpc] at hr
    cases hp : tlbProbe s.tlb victim with
    | none =>
      exact hsame _ _ _ rfl rfl (by simp [hg, hp]) (by simp [hr, hp]) hcause
    | some x =>
      simp only [hp] at hg hr
      refine ⟨hother _ _ rfl, ?_, ?_, ?_⟩
      · rw [hb, hg, hr, howed, owed_setProc, henter]
        simp [owesTlb]
      · rw [hb, hg, howed, owed_setProc, henter, hcause]
        simp
      · rw [hb, hg]
        rfl
  | @setClean paddr hpc =>
    have hg : goStats s act = if act.inSwap then [.pageFaultSwap, .pageFaultDisk]
        else if act.seg.offset < 0 then [] else [.pageFaultElf, .pageFaultDisk] := by
      simp [goStats, hpc]
    have hold : owesCause act = 1 := by simp [owesCause, hpc]
    have hnew : owesCause { act with pc := .map paddr } =
        if !act.inSwap && act.seg.offset < 0 then 1 else 0 := by
      simp [owesCause, Activation.zeroed]
    refine ⟨hother _ _ rfl, ?_, ?_, ?_⟩
    · rw [hb, hg, hr, hpc, howed, owed_setProc, hgoto]
      by_cases hsw : act.inSwap = true
      · simp [hsw, owesTlb]
      · by_cases hneg : act.seg.offset < 0 <;> simp [hsw, hneg, owesTlb]
    · rw [hb, hg, howed, owed_setProc, hgoto, hold, hnew]
      by_cases hsw : act.inSwap = true
      · simp [hsw]
      · by_cases hneg : act.seg.offset < 0 <;> simp [hsw, hneg]
    · rw [hb, hg]
      split_ifs <;> rfl
  | @map paddr hpc =>
    have hg : goStats s act = tlbWStat s.tlb act.page ::
        if act.zeroed then [.pageFaultZero] else [] := by simp [goStats, hpc]
    have hpop : ∀ w : Activation → ℕ, owed w (({ s with
        tlb := tlbW s.tlb act.page paddr act.seg.write }).setProc as { P with stack := rest }) as =
        (rest.map w).sum := fun w => owed_setProc
    have hold : owesCause act = if act.zeroed then 1 else 0 := by simp [owesCause, hpc]
    refine ⟨hother _ _ rfl, ?_, ?_, ?_⟩
    · rw [hb, hg, hr, hpc, howed, hpop]
      rcases tlbWStat_cases s.tlb act.page with e | e <;>
        cases act.zeroed <;> simp [e, owesTlb]
    · rw [hb, hg, howed, hpop, hold]
      rcases tlbWStat_cases s.tlb act.page with e | e <;>
        cases act.zeroed <;> simp [e]
    · rw [hb, hg]
      rcases tlbWStat_cases s.tlb act.page with e | e <;>
        cases act.zeroed <;> simp [e]

/-- **The balance of every step**, if faults succeed. -/
theorem balance_of_vmStep (hown : Own s) (hstep : VmStep s a s')
    (hserved : served s a = true) : ∃ as, Balance s a s' as := by
  have hset : ∀ {t : VmState} {as : AsId} {Q : Proc}, t.procs = s.procs → ∀ as' ≠ as,
      (t.setProc as Q).procs as' = s.procs as' :=
    fun {t as Q} ht as' hne => (setProc_of_ne t Q hne).trans (by rw [ht])
  cases hstep with
  | @create as hnone =>
    refine ⟨as, .of_nil (hset rfl) rfl rfl fun w => ?_⟩
    rw [owed_setProc, owed_none hnone]
    rfl
  | @defineRegion as P _ _ _ _ _ _ _ _ hP | @defineStack as P _ hP | @completeLoad as P _ hP =>
    exact ⟨as, .of_nil (hset rfl) rfl rfl fun w => owed_setProc.trans (owed_eq hP).symm⟩
  | @exitCm as P hcur hP | @exitSwap as P _ hcur hP =>
    exact ⟨as, .of_nil (hset rfl) rfl rfl fun w => owed_setProc.trans (owed_eq hP).symm⟩
  | @exitDone as P hcur hP hstage =>
    refine ⟨as, .of_nil (fun as' hne => Function.update_of_ne hne _ _) rfl rfl fun w => ?_⟩
    have hst := ((hown.proc _ _ hP).idle (by rw [hstage]; decide)).1
    rw [owed_eq hP, hst]
    exact owed_none (Function.update_self as none s.procs)
  | leave => exact ⟨0, .of_nil (fun _ _ => rfl) rfl rfl fun _ => rfl⟩
  | enter =>
    refine ⟨0, fun _ _ => rfl, ?_, ?_, ?_⟩ <;> simp [statBumps, replaces, owed]
  | load | store | kalloc | kfree | kwrite =>
    exact ⟨0, .of_nil (fun _ _ => rfl) rfl rfl fun _ => rfl⟩
  | @fault as P x _ hcur hP hrun ha hmiss hst hf =>
    have hb : statBumps s (.fault as x) = faultStats s P x := by simp [statBumps, hP]
    have hr : replaces s (.fault as x) = false := rfl
    cases hf with
    | @reload seg j pte hseg hj hpte hin =>
      have hg : faultStats s P x = [.tlbFault, .tlbReload, tlbWStat s.tlb (pageFrame x)] := by
        simp [faultStats, hseg, hj, hpte, hin]
      have hsame : ∀ w : Activation → ℕ, owed w { s with
          tlb := tlbW s.tlb (pageFrame x) pte.frame
            (if cmCheckState s.cms.cm pte.frame .loading then 2 else seg.write) } as = owed w s as :=
        fun _ => rfl
      refine ⟨as, fun _ _ => rfl, ?_, ?_, ?_⟩
      · rw [hb, hg, hr, hsame]
        rcases tlbWStat_cases s.tlb (pageFrame x) with e | e <;> simp [e]
      · rw [hb, hg, hsame]
        rcases tlbWStat_cases s.tlb (pageFrame x) with e | e <;> simp [e]
      · rw [hb, hg]
        rcases tlbWStat_cases s.tlb (pageFrame x) with e | e <;> simp [e]
    | @push seg j pte hseg hj hpte hin =>
      have hg : faultStats s P x = [.tlbFault] := by simp [faultStats, hseg, hj, hpte, hin]
      refine ⟨as, hset rfl, ?_, ?_, ?_⟩
      · rw [hb, hg, hr, owed_eq hP, owed_setProc]
        simp [owesTlb]
      · rw [hb, hg, owed_eq hP, owed_setProc]
        simp [owesCause]
      · rw [hb, hg]
        rfl
    | abort hst' hpc hno =>
      have hsome : (P.space.lookup (pageFrame x)).isSome = true := by
        simpa [served, hP] using hserved
      rcases hno with hnone | ⟨seg, hseg, hnone⟩
      · simp [Addrspace.lookup, hnone] at hsome
      · simp [Addrspace.lookup, hseg, hnone] at hsome
  | @go as P act rest n _ hcur hP hrun hst hgo => exact ⟨as, balance_of_goStep hP hst hgo⟩

end Step

/-! ## The laws -/

/-- The balances between the counters and the faults in progress; `hits` counts the replacements of
`tlbR`. -/
structure Ledger (s : StatState) (hits : ℕ) : Prop where
  own : Own s.vm
  word : ∀ c, s.stats c < wordSize
  tlb : ∃ n, Owes owesTlb s.vm n ∧ (s.stats .tlbFault + hits) % wordSize =
    (s.stats .tlbFaultFree + s.stats .tlbFaultReplace + n) % wordSize
  cause : ∃ n, Owes owesCause s.vm n ∧ s.stats .tlbFault % wordSize =
    (s.stats .tlbReload + s.stats .pageFaultDisk + s.stats .pageFaultZero + n) % wordSize
  disk : s.stats .pageFaultDisk % wordSize =
    (s.stats .pageFaultElf + s.stats .pageFaultSwap) % wordSize

section Laws

variable {ram : RamLayout} {garbage : ℕ → CmEntry} {file mem : ℕ → UInt8}
  {files : FileId → List UInt8} {acts : List VmAction} {s s' : StatState} {a : VmAction} {hits : ℕ}

theorem ledger_boot : Ledger (StatState.boot ram garbage file mem files) 0 := by
  have howes : ∀ w, Owes w (VmState.boot ram garbage file mem files) 0 :=
    fun w => ⟨∅, fun _ _ => rfl, rfl⟩
  exact ⟨own_boot, fun _ => (by decide : 0 < wordSize), ⟨0, howes _, rfl⟩, ⟨0, howes _, rfl⟩, rfl⟩

/-- **Every step keeps the balances**, if faults succeed. -/
theorem ledger_step (h : Ledger s hits) (hserved : served s.vm a = true) (hs : s.step a = .ok s') :
    Ledger s' (hits + if replaces s.vm a then 1 else 0) := by
  obtain ⟨vm, hvm, hs⟩ := bind_eq_ok.mp hs
  obtain rfl := Except.ok.inj hs
  have hstep := vmStep_of_step hvm
  obtain ⟨as, hbal⟩ := balance_of_vmStep h.own hstep hserved
  have hcount := fun c => foldl_vmstatsInc (c := c) (l := statBumps s.vm a) h.word
  obtain ⟨n, howes, htlb⟩ := h.tlb
  obtain ⟨n', howes', hn⟩ := howes.change hbal.other
  obtain ⟨m, howes₂, hcause⟩ := h.cause
  obtain ⟨m', howes₂', hm⟩ := howes₂.change hbal.other
  have hb₁ := hbal.tlb
  have hb₂ := hbal.cause
  have hb₃ := hbal.disk
  have hdisk := h.disk
  refine ⟨own_step h.own hstep, fun c => (hcount c).1, ⟨n', howes', ?_⟩, ⟨m', howes₂', ?_⟩, ?_⟩
  · simp only [(hcount _).2]
    unfold wordSize at *
    omega
  · simp only [(hcount _).2]
    unfold wordSize at *
    omega
  · simp only [(hcount _).2]
    unfold wordSize at *
    omega

/-- How many steps of the run are replacements of `tlbR`. -/
def tlbRHits (s : StatState) : List VmAction → ℕ
  | [] => 0
  | a :: acts => (if replaces s.vm a then 1 else 0) +
    match s.step a with
    | .ok t => tlbRHits t acts
    | .error _ => 0

theorem ledger_run (h : Ledger s hits) (hserved : Along StatState.step (fun s a => served s.vm a = true) s acts)
    (hrun : run StatState.step s acts = .ok s') : Ledger s' (hits + tlbRHits s acts) := by
  induction acts generalizing s hits with
  | nil =>
    obtain rfl := Except.ok.inj hrun
    exact h
  | cons a acts ih =>
    obtain ⟨t, ht, hrun⟩ := bind_eq_ok.mp hrun
    have := ih (ledger_step h hserved.1 ht) (hserved.2 t ht) hrun
    rw [tlbRHits, ht]
    simpa [Nat.add_assoc] using this

/-- The first check of `vmstats_print`. -/
def tlbCheck (st : VmStats) : Prop :=
  wadd (st .tlbFaultFree) (st .tlbFaultReplace) = st .tlbFault

/-- The second check of `vmstats_print`. -/
def reloadCheck (st : VmStats) : Prop :=
  wadd (wadd (st .pageFaultDisk) (st .pageFaultZero)) (st .tlbReload) = st .tlbFault

/-- The third check of `vmstats_print`. -/
def diskCheck (st : VmStats) : Prop :=
  wadd (st .pageFaultElf) (st .pageFaultSwap) = st .pageFaultDisk

/-- **The first law, exactly**: when no fault is in progress, `TLB_FAULT` lags behind by the
replacements of `tlbR`. -/
theorem tlbFault_balance (hserved : Along StatState.step (fun s a => served s.vm a = true)
      (.boot ram garbage file mem files) acts)
    (hrun : run StatState.step (.boot ram garbage file mem files) acts = .ok s) (hq : Quiet s.vm) :
    wadd (s.stats .tlbFaultFree) (s.stats .tlbFaultReplace) =
      wadd (s.stats .tlbFault) (tlbRHits (.boot ram garbage file mem files) acts) := by
  have h := ledger_run ledger_boot hserved hrun
  obtain ⟨n, howes, he⟩ := h.tlb
  rw [howes.eq_zero hq, Nat.zero_add, Nat.add_zero] at he
  exact he.symm

/-- A run without replacements of `tlbR`. -/
theorem tlbRHits_eq_zero (h : Along StatState.step (fun s a => replaces s.vm a = false) s acts) :
    tlbRHits s acts = 0 := by
  induction acts generalizing s with
  | nil => rfl
  | cons a acts ih =>
    rw [tlbRHits, h.1]
    cases ht : s.step a with
    | error e => rfl
    | ok t => simpa using ih (h.2 t ht)

/-- **The first law** holds when no fault is in progress, if no `tlbR` finds its victim in the TLB. -/
theorem tlbFault_law (hserved : Along StatState.step (fun s a => served s.vm a = true)
      (.boot ram garbage file mem files) acts)
    (hno : Along StatState.step (fun s a => replaces s.vm a = false)
      (.boot ram garbage file mem files) acts)
    (hrun : run StatState.step (.boot ram garbage file mem files) acts = .ok s) (hq : Quiet s.vm) :
    tlbCheck s.stats := by
  have h := ledger_run ledger_boot hserved hrun
  have hbal := tlbFault_balance hserved hrun hq
  rw [tlbRHits_eq_zero hno] at hbal
  exact hbal.trans (Nat.mod_eq_of_lt (h.word _))

/-- **The second and the third law** hold whenever no fault is in progress. -/
theorem reload_disk_laws (hserved : Along StatState.step (fun s a => served s.vm a = true)
      (.boot ram garbage file mem files) acts)
    (hrun : run StatState.step (.boot ram garbage file mem files) acts = .ok s) (hq : Quiet s.vm) :
    reloadCheck s.stats ∧ diskCheck s.stats := by
  have h := ledger_run ledger_boot hserved hrun
  obtain ⟨n, howes, hc⟩ := h.cause
  have hd := h.disk
  rw [howes.eq_zero hq] at hc
  have hfault := h.word .tlbFault
  have hdisk := h.word .pageFaultDisk
  unfold reloadCheck diskCheck wadd
  unfold wordSize at *
  omega

end Laws

/-! ## Two stack pages and one frame -/

/-- Only processes that are created exist. -/
theorem procs_eq_none {as : AsId} {acts : List VmAction} {s t : StatState}
    (h : s.vm.procs as = none) (hacts : ∀ a ∈ acts, a ≠ .create as)
    (hrun : run StatState.step s acts = .ok t) : t.vm.procs as = none := by
  induction acts generalizing s with
  | nil =>
    obtain rfl := Except.ok.inj hrun
    exact h
  | cons a acts ih =>
    obtain ⟨u, hu, hrun⟩ := bind_eq_ok.mp hrun
    obtain ⟨vm, hvm, hu⟩ := bind_eq_ok.mp hu
    obtain rfl := Except.ok.inj hu
    refine ih ?_ (fun b hb => hacts b (List.mem_cons_of_mem _ hb)) hrun
    have hset : ∀ {v : VmState} {as' : AsId} {Q : Proc}, v.procs = s.vm.procs → as' ≠ as →
        (v.setProc as' Q).procs as = none :=
      fun {v as' Q} hv hne => (setProc_of_ne v Q hne.symm).trans (by rw [hv]; exact h)
    have hne : ∀ {as' : AsId} {P : Proc}, s.vm.procs as' = some P → as' ≠ as := by
      rintro as' P hP rfl
      rw [h] at hP
      cases hP
    cases vmStep_of_step hvm with
    | @create as' hnone =>
      refine hset rfl ?_
      rintro rfl
      exact hacts _ List.mem_cons_self rfl
    | defineRegion hP | defineStack hP | completeLoad hP => exact hset rfl (hne hP)
    | exitCm _ hP | exitSwap _ hP => exact hset rfl (hne hP)
    | exitDone _ hP => exact (Function.update_of_ne (hne hP).symm _ _).trans h
    | fault _ hP _ _ _ _ hf =>
      cases hf with
      | reload => exact h
      | push | abort => exact hset rfl (hne hP)
    | go _ hP _ _ hgo => cases hgo <;> exact hset rfl (hne hP)
    | leave | enter | load | store | kalloc | kfree | kwrite => exact h

/-- The only free frame becomes a stack page of process 1, and then another one. -/
def stackEviction (flush : List VmAction) : List VmAction :=
  [.kalloc 14, .create 1, .defineStack 1 ⟨0, 0, fun _ => 0⟩, .switch (some 1),
    .fault 1 0x7ffff000, .go 1 0, .fault 1 0x7ffff000, .go 1 4096, .go 1 0, .go 1 0,
    .fault 1 0x7fffe000, .go 1 0, .go 1 0, .go 1 0, .go 1 4096, .go 1 0, .go 1 0] ++ flush ++
  [.go 1 4096, .go 1 0, .go 1 0]

/-- The statistics start on a machine with sixteen frames. -/
def smallBoot : StatState :=
  .boot smallRam (fun _ => evictedEntry) (fun _ => 0) (fun _ => 1) fun _ => []

/-- Process 1 is the only one, and it has no fault. -/
theorem quiet_stackEviction {flush : List VmAction} {s : StatState}
    (hflush : ∀ a ∈ flush, ∀ as, a ≠ .create as)
    (hrun : run StatState.step smallBoot (stackEviction flush) = .ok s)
    (hone : (s.vm.procs 1).map (fun P => P.stack.length) = some 0) : Quiet s.vm := by
  intro as P hP
  by_cases he : as = 1
  · rw [he] at hP
    rw [hP] at hone
    exact List.length_eq_zero_iff.mp (Option.some.inj hone)
  · have hacts : ∀ a ∈ stackEviction flush, a ≠ .create as := by
      unfold stackEviction
      simp only [List.forall_mem_append, List.forall_mem_cons]
      simp [Ne.symm he]
      exact fun a ha => hflush a ha as
    rw [procs_eq_none rfl hacts hrun] at hP
    cases hP

/-- **The first law fails** when `tlbR` finds its victim in the TLB: three faults, four entries. -/
theorem not_tlbCheck_stackEviction :
    ∃ s, run StatState.step smallBoot (stackEviction [.go 1 0]) = .ok s ∧
      Along StatState.step (fun s a => served s.vm a = true) smallBoot (stackEviction [.go 1 0]) ∧
      Quiet s.vm ∧ s.stats .tlbFault = 3 ∧ s.stats .tlbFaultFree = 4 ∧ ¬ tlbCheck s.stats := by
  obtain ⟨s, hs, he⟩ := exists_ok_of_toOption (show (run StatState.step smallBoot
    (stackEviction [.go 1 0])).toOption.map (fun s => ((s.vm.procs 1).map fun P => P.stack.length,
      s.stats .tlbFault, s.stats .tlbFaultFree, s.stats .tlbFaultReplace)) = some (some 0, 3, 4, 0) by
    decide +kernel)
  simp only [Prod.mk.injEq] at he
  obtain ⟨hone, h₁, h₂, h₃⟩ := he
  refine ⟨s, hs, by decide +kernel, quiet_stackEviction (by simp) hs hone, h₁, h₂, ?_⟩
  unfold tlbCheck
  rw [h₁, h₂, h₃]
  decide

theorem tlbFault_law_flushedEviction :
    ∃ s, run StatState.step smallBoot
        (stackEviction [.switch (some 1), .go 1 0, .fault 1 0x7fffe000]) = .ok s ∧
      tlbCheck s.stats := by
  obtain ⟨s, hs, hone⟩ := exists_ok_of_toOption (show (run StatState.step smallBoot
    (stackEviction [.switch (some 1), .go 1 0, .fault 1 0x7fffe000])).toOption.map
      (fun s => (s.vm.procs 1).map fun P => P.stack.length) = some (some 0) by decide +kernel)
  exact ⟨s, hs, tlbFault_law (by decide +kernel) (by decide +kernel) hs
    (quiet_stackEviction (by simp) hs hone)⟩

theorem reload_disk_laws_eviction :
    ∃ s, run StatState.step smallBoot (stackEviction [.go 1 0]) = .ok s ∧
      reloadCheck s.stats ∧ diskCheck s.stats := by
  obtain ⟨s, hs, hone⟩ := exists_ok_of_toOption (show (run StatState.step smallBoot
    (stackEviction [.go 1 0])).toOption.map
      (fun s => (s.vm.procs 1).map fun P => P.stack.length) = some (some 0) by decide +kernel)
  exact ⟨s, hs, reload_disk_laws (by decide +kernel) hs (quiet_stackEviction (by simp) hs hone)⟩

end Os161
