import Mathlib.Data.Finset.Card
import Os161.Vm.Pages

set_option autoImplicit false

/-!
# When the swap file is full

`swap_out` takes a slot for the victim before `swap_in` gives up the slot of the page of the fault:
the frame of the victim is the one that the page is read into. The slots of a fault that swaps one
page in and one page out are therefore one more than the pages that are in the swap file afterwards.

* `SwapSpace.heldPages`: the pages that have a slot; `Activation.heldAfter`: those that have one when
  the fault is over.
* **`swapfileFull_iff`**: the panic of `swap_out`, in every reachable state.
* **`not_swapCapacity`**: it happens where the pages held afterwards fit into the swap file.
-/

namespace Os161

open Transition Addrspace Loop

/-- The pages that have a slot, each as the entry that its slot has. -/
def SwapSpace.heldPages (sw : SwapSpace) : Finset SwapEntry :=
  ((Finset.range swapSize).filter fun i => (sw.entry i).as ≠ none).image sw.entry

/-- The page of a fault gives up its slot if it has one. -/
def Activation.leave (act : Activation) (as : AsId) (pages : Finset SwapEntry) : Finset SwapEntry :=
  if act.inSwap then pages.erase ⟨some as, act.page⟩ else pages

/-- The pages that have a slot when a fault is over, as far as it has chosen its victim. -/
def Activation.heldAfter (act : Activation) (sw : SwapSpace) (as : AsId) : Finset SwapEntry :=
  match act.pc with
  | .swapOutFind victim _ _ => act.leave as (insert ⟨some as, victim⟩ sw.heldPages)
  | .alloc | .evict | .swapOutCopy _ _ _ _ _ _ | .swapOutWrite _ _ _ _ _ | .update _ _ _
  | .replace _ _ => act.leave as sw.heldPages
  | .swapInFind _ => sw.heldPages.erase ⟨some as, act.page⟩
  | _ => sw.heldPages

/-- The pages that have a slot when the innermost fault of the process is over. -/
def Proc.heldAfter (P : Proc) (sw : SwapSpace) (as : AsId) : Finset SwapEntry :=
  match P.stack with
  | [] => sw.heldPages
  | act :: _ => act.heldAfter sw as

/-- The fault has not chosen its victim. -/
def Pc.searching : Pc → Bool
  | .alloc | .evict => true
  | _ => false

/-- An action that serves the innermost fault of the process: no other one begins. -/
def ServesFault (as : AsId) (s : VmState) : VmAction → Prop
  | .go as' _ => as' = as
  | .fault as' a => as' = as ∧ ∃ P f, s.procs as = some P ∧ P.space.InMem (pageFrame a) f
  | _ => False

/-- The current process is about to find a slot for `victim`. -/
def SwapsOut (s : VmState) (as : AsId) (act : Activation) (victim : ℕ) : Prop :=
  ∃ P rest pos paddr, s.cur = some as ∧ s.procs as = some P ∧ P.stage = .running ∧
    P.stack = act :: rest ∧ act.pc = .swapOutFind victim pos paddr

section Slots

variable {sw : SwapSpace} {as : AsId} {v : ℕ}

theorem not_mem_heldPages_none : ⟨none, v⟩ ∉ sw.heldPages := by
  unfold SwapSpace.heldPages
  simp only [Finset.mem_image, Finset.mem_filter]
  rintro ⟨i, ⟨-, hne⟩, he⟩
  rw [he] at hne
  exact hne rfl

theorem mem_heldPages : ⟨some as, v⟩ ∈ sw.heldPages ↔ sw.Holds as v := by
  unfold SwapSpace.heldPages SwapSpace.Holds
  simp only [Finset.mem_image, Finset.mem_filter, Finset.mem_range]
  constructor
  · rintro ⟨i, ⟨hi, -⟩, he⟩
    exact ⟨i, hi, he⟩
  · rintro ⟨i, hi, he⟩
    exact ⟨i, ⟨hi, by rw [he]; exact Option.some_ne_none _⟩, he⟩

/-- As many pages as slots that are taken. -/
theorem card_heldPages (h : sw.Apart) : sw.heldPages.card =
    ((Finset.range swapSize).filter fun i => (sw.entry i).as ≠ none).card := by
  refine Finset.card_image_of_injOn fun i hi j hj he => ?_
  rw [Finset.mem_coe, Finset.mem_filter, Finset.mem_range] at hi hj
  exact h i hi.1 j hj.1 hi.2 he

theorem card_heldPages_le (h : sw.Apart) : sw.heldPages.card ≤ swapSize := by
  rw [card_heldPages h]
  exact (Finset.card_filter_le _ _).trans_eq (Finset.card_range _)

/-- `swap_out` panics exactly when no slot is free. -/
theorem swapOutFind_eq_none :
    swapOutFind sw as v = none ↔ ∀ i < swapSize, (sw.entry i).as ≠ none := by
  have hsearch : swapOutFind sw as v = none ↔
      firstIdx (fun i => (sw.entry i).as = none) 0 swapSize = none := by
    unfold swapOutFind
    split <;> simp_all
  rw [hsearch, firstIdx_eq_none]
  constructor
  · intro h i hi
    simpa using h i (Nat.zero_le _) (by omega)
  · intro h i _ hi
    simpa using h i (by omega)

/-- **`swap_out` panics exactly when as many pages have a slot as there are slots.** -/
theorem swapOutFind_eq_none_iff (h : sw.Apart) :
    swapOutFind sw as v = none ↔ sw.heldPages.card = swapSize := by
  rw [swapOutFind_eq_none, card_heldPages h]
  constructor
  · intro hall
    rw [Finset.filter_true_of_mem fun i hi => hall i (Finset.mem_range.mp hi), Finset.card_range]
  · intro hcard i hi
    have heq : (Finset.range swapSize).filter (fun i => (sw.entry i).as ≠ none) =
        Finset.range swapSize :=
      Finset.eq_of_subset_of_card_le (Finset.filter_subset _ _)
        (by rw [hcard, Finset.card_range])
    have hmem : i ∈ (Finset.range swapSize).filter fun i => (sw.entry i).as ≠ none := by
      rw [heq]
      exact Finset.mem_range.mpr hi
    exact (Finset.mem_filter.mp hmem).2

end Slots

section Served

variable {s s' : VmState} {sw : SwapSpace} {as : AsId} {P P' : Proc} {act : Activation}
  {rest : List Activation} {acts : List VmAction} {a : VmAction} {i v victim : ℕ}

theorem heldPages_tag (hi : i < swapSize) (hfree : (sw.entry i).as = none) :
    (sw.setEntry i ⟨some as, v⟩).heldPages = insert ⟨some as, v⟩ sw.heldPages := by
  ext ⟨o, w⟩
  cases o with
  | none => simp [not_mem_heldPages_none]
  | some as' => simp [mem_heldPages, holds_tag hi hfree, or_comm]

theorem heldPages_release (h : sw.Apart) (hi : i < swapSize) (htag : sw.entry i = ⟨some as, v⟩) :
    (sw.setEntry i ⟨none, 0⟩).heldPages = sw.heldPages.erase ⟨some as, v⟩ := by
  ext ⟨o, w⟩
  cases o with
  | none => simp [not_mem_heldPages_none]
  | some as' => simp [mem_heldPages, holds_release (apart_iff.mp h as) hi htag, and_comm]

theorem heldPages_congr {sw' : SwapSpace} (h : sw'.entry = sw.entry) :
    sw'.heldPages = sw.heldPages := by
  unfold SwapSpace.heldPages
  rw [h]

theorem searching_filled {paddr : ℕ} : (act.filled paddr).searching = false := by
  unfold Activation.filled
  split_ifs <;> rfl

theorem heldAfter_filled {paddr : ℕ} :
    Activation.heldAfter { act with pc := act.filled paddr } sw as = act.leave as sw.heldPages := by
  unfold Activation.heldAfter Activation.filled Activation.leave
  split_ifs <;> rfl

theorem heldAfter_copying {what : Fill} {paddr dst len done : ℕ} {buf : ℕ → UInt8} :
    Activation.heldAfter { act with pc := act.copying what paddr dst len buf done } sw as =
      sw.heldPages := by
  unfold Activation.heldAfter Activation.copying
  split_ifs
  · cases what <;> rfl
  · cases what <;> rfl
  · rfl

theorem searching_copying (act : Activation) {what : Fill} {paddr dst len done : ℕ} {buf : ℕ → UInt8} :
    (act.copying what paddr dst len buf done).searching = false := by
  unfold Activation.copying
  split_ifs
  · cases what <;> rfl
  · cases what <;> rfl
  · rfl

theorem heldAfter_cons (hst : P.stack = act :: rest) : P.heldAfter sw as = act.heldAfter sw as := by
  unfold Proc.heldAfter
  rw [hst]

/-- An interrupted fault changes no slot any more. -/
theorem FaultOk.heldAfter_rest (hok : FaultOk s as P) (hst : P.stack = act :: rest) :
    Proc.heldAfter { P with stack := rest } sw as = sw.heldPages ∧
      ∀ r, rest.head? = some r → r.pc.searching = false := by
  unfold Proc.heldAfter
  cases rest with
  | nil => exact ⟨rfl, fun r hr => by cases hr⟩
  | cons r rest =>
    obtain ⟨_, _, _, _, _, hpc⟩ := hok.tail r (by rw [hst]; exact List.mem_cons_self)
    refine ⟨?_, fun r' hr => ?_⟩
    · change r.heldAfter sw as = _
      unfold Activation.heldAfter
      rw [hpc]
    · obtain rfl := Option.some.inj hr
      rw [hpc]
      rfl

/-- **A step of a fault brings the slots closer to those it ends with.** -/
theorem heldAfter_of_goStep (hst : P.stack = act :: rest) (hok : FaultOk s as P)
    (hapart : s.sw.Apart) (hno : act.pc.searching = false) (hgo : GoStep s as P act rest s')
    (hP' : s'.procs as = some P') :
    P'.heldAfter s'.sw as = P.heldAfter s.sw as ∧
      ∀ r, P'.stack.head? = some r → r.pc.searching = false := by
  rw [heldAfter_cons hst]
  cases hgo with
  | full hpc | alloc hpc | evict hpc =>
    rw [hpc] at hno
    cases hno
  | @swapOutFind victim pos paddr i sw hpc hs =>
    obtain rfl := Option.some.inj ((setProc_self _ _ _).symm.trans hP')
    obtain ⟨hi, hfree, rfl⟩ := swapOutFind_some hs
    refine ⟨?_, fun r hr => by obtain rfl := Option.some.inj hr; rfl⟩
    rw [heldAfter_cons rfl]
    change act.leave as (s.sw.setEntry i _).heldPages = _
    rw [heldPages_tag hi hfree]
    unfold Activation.heldAfter
    rw [hpc]
  | swapOutCopy hpc | swapOutCopied hpc | update hpc =>
    obtain rfl := Option.some.inj ((setProc_self _ _ _).symm.trans hP')
    refine ⟨?_, fun r hr => by obtain rfl := Option.some.inj hr; rfl⟩
    rw [heldAfter_cons rfl]
    unfold Activation.heldAfter
    rw [hpc]
    rfl
  | @swapOutWrite _ _ _ i _ hpc =>
    obtain rfl := Option.some.inj ((setProc_self _ _ _).symm.trans hP')
    refine ⟨?_, fun r hr => by obtain rfl := Option.some.inj hr; rfl⟩
    rw [heldAfter_cons rfl]
    change act.leave as (writePage s.sw i _).heldPages = _
    rw [heldPages_congr writePage_entry]
    unfold Activation.heldAfter
    rw [hpc]
  | replace hpc =>
    obtain rfl := Option.some.inj ((setProc_self _ _ _).symm.trans hP')
    refine ⟨?_, fun r hr => by obtain rfl := Option.some.inj hr; exact searching_filled⟩
    rw [heldAfter_cons rfl]
    refine heldAfter_filled.trans ?_
    unfold Activation.heldAfter
    rw [hpc]
    rfl
  | @swapInFind _ i _ hpc hs =>
    obtain rfl := Option.some.inj ((setProc_self _ _ _).symm.trans hP')
    obtain ⟨hi, htag, rfl⟩ := swapInFind_some hs
    refine ⟨?_, fun r hr => by obtain rfl := Option.some.inj hr; rfl⟩
    rw [heldAfter_cons rfl]
    change (s.sw.setEntry i _).heldPages = _
    rw [heldPages_release hapart hi htag]
    unfold Activation.heldAfter
    rw [hpc]
  | swapInRead hpc | setClean hpc =>
    obtain rfl := Option.some.inj ((setProc_self _ _ _).symm.trans hP')
    refine ⟨?_, fun r hr => by obtain rfl := Option.some.inj hr; rfl⟩
    rw [heldAfter_cons rfl]
    unfold Activation.heldAfter
    rw [hpc]
    rfl
  | fill hpc | elfRead hpc =>
    obtain rfl := Option.some.inj ((setProc_self _ _ _).symm.trans hP')
    refine ⟨?_, fun r hr => by obtain rfl := Option.some.inj hr; exact searching_copying act⟩
    rw [heldAfter_cons rfl]
    refine heldAfter_copying.trans ?_
    unfold Activation.heldAfter
    rw [hpc]
    rfl
  | map hpc =>
    obtain rfl := Option.some.inj ((setProc_self _ _ _).symm.trans hP')
    obtain ⟨hheld, hhead⟩ := hok.heldAfter_rest hst
    refine ⟨hheld.trans ?_, hhead⟩
    unfold Activation.heldAfter
    rw [hpc]
    rfl

/-- **The slots when a fault is over**: where no other fault begins meanwhile, they are those that
`heldAfter` counts as soon as the victim is chosen. -/
theorem heldPages_of_served (h : Placed s) (hP : s.procs as = some P) (hrun : P.stage = .running)
    (hno : ∀ r, P.stack.head? = some r → r.pc.searching = false)
    (hserves : Along VmState.step (ServesFault as) s acts) (hs : run VmState.step s acts = .ok s') :
    ∃ P', s'.procs as = some P' ∧ P'.stage = .running ∧
      P'.heldAfter s'.sw as = P.heldAfter s.sw as ∧
      ∀ r, P'.stack.head? = some r → r.pc.searching = false := by
  induction acts generalizing s P with
  | nil =>
    obtain rfl := Except.ok.inj hs
    exact ⟨P, hP, hrun, rfl, hno⟩
  | cons a acts ih =>
    obtain ⟨u, hu, hs⟩ := bind_eq_ok.mp hs
    obtain ⟨ha, hserves⟩ := hserves
    have hstep := vmStep_of_step hu
    have hdef : DefineApart s a := by
      cases a <;> trivial
    have hu' := placed_step h hdef hu
    -- one step: the fault goes on, or a page that is there is mapped again
    have hone : ∃ Q, u.procs as = some Q ∧ Q.stage = .running ∧
        Q.heldAfter u.sw as = P.heldAfter s.sw as ∧
        ∀ r, Q.stack.head? = some r → r.pc.searching = false := by
      cases hstep with
      | fault _ hP' hrun' _ _ _ hf =>
        obtain ⟨rfl, Q, f, hQ, hin⟩ := ha
        obtain rfl := Option.some.inj (hP.symm.trans hP')
        obtain rfl := Option.some.inj (hP.symm.trans hQ)
        cases hf with
        | reload => exact ⟨P, hP, hrun, rfl, hno⟩
        | push hseg hj hpte hout =>
          exact (hin.absurd ⟨_, _, lookup_eq_some.mpr ⟨_, hseg, hj⟩, hpte, hout⟩).elim
        | abort _ _ hmiss =>
          obtain ⟨j, -, hj, -⟩ := hin
          obtain ⟨seg, hseg, hpte⟩ := lookup_eq_some.mp hj
          rcases hmiss with hnone | ⟨seg', hseg', hnone⟩
          · rw [hseg] at hnone
            cases hnone
          · obtain rfl := Option.some.inj (hseg.symm.trans hseg')
            rw [hpte] at hnone
            cases hnone
      | go _ hP' hrun' hst hgo =>
        obtain rfl := ha
        obtain rfl := Option.some.inj (hP.symm.trans hP')
        obtain ⟨Q, hQ, hQrun, -⟩ := procOwn_of_goStep h.own.cm (h.own.proc _ _ hP) hst hrun hgo
        obtain ⟨hheld, hhead⟩ := heldAfter_of_goStep hst (h.fault _ _ hP hrun) h.apart
          (hno _ (by rw [hst]; rfl)) hgo hQ
        exact ⟨Q, hQ, hQrun, hheld, hhead⟩
      | _ => cases ha
    obtain ⟨Q, hQ, hQrun, hheld, hhead⟩ := hone
    obtain ⟨P', hP', hrun', hheld', hhead'⟩ := ih hu' hQ hQrun hhead (hserves u hu) hs
    exact ⟨P', hP', hrun', hheld'.trans hheld, hhead'⟩

end Served

/-! ## The panic -/

section Panic

variable {s : VmState} {as : AsId} {P : Proc} {act : Activation} {rest : List Activation}
  {a victim n : ℕ}

/-- The computation does not end with the panic of `swap_out`. -/
def NotFull {α : Type} (x : Except Stop α) : Prop := x ≠ .error (.panic .swapfileFull)

theorem NotFull.bind {α β : Type} {x : Except Stop α} {f : α → Except Stop β} (hx : NotFull x)
    (hf : ∀ a, NotFull (f a)) : NotFull (x >>= f) := fun h => by
  rcases bind_eq_error.mp h with h | ⟨a, -, h⟩
  · exact hx h
  · exact hf a h

theorem notFull_ok {α : Type} (a : α) : NotFull (Except.ok a) := fun h => by cases h

theorem notFull_require (p : Prop) [Decidable p] : NotFull (require p) := by
  unfold NotFull require
  split_ifs <;> exact fun h => by cases h

theorem notFull_running : NotFull (s.running as) := by
  unfold NotFull VmState.running
  split
  · split_ifs <;> exact fun h => by cases h
  · exact fun h => by cases h

theorem notFull_current : NotFull (s.current as) := by
  unfold VmState.current
  split_ifs
  · exact notFull_running
  · exact fun h => by cases h

theorem notFull_translate {w : Bool} : NotFull (s.translate a w) := by
  unfold NotFull VmState.translate
  split
  · exact fun h => by cases h
  · split_ifs <;> exact fun h => by cases h

theorem notFull_efault : NotFull (s.efault as P) := by
  unfold NotFull VmState.efault
  split
  · exact fun h => by cases h
  · split <;> exact fun h => by cases h

theorem notFull_fault : NotFull (s.fault as P a) := by
  unfold VmState.fault
  simp only
  split
  · exact notFull_efault
  · split
    · exact notFull_efault
    · split
      · exact fun h => by cases h
      · split_ifs <;> exact notFull_ok _

/-- **The panic comes from the search of `swap_out`.** -/
theorem go_full_iff : s.go as P act rest n = .error (.panic .swapfileFull) ↔
    ∃ victim pos paddr, act.pc = .swapOutFind victim pos paddr ∧
      swapOutFind s.sw as victim = none := by
  constructor
  swap
  · rintro ⟨victim, pos, paddr, hpc, hnone⟩
    unfold VmState.go
    rw [hpc]
    simp only [hnone]
  · intro h
    unfold VmState.go at h
    split at h
    · simp only at h
      split_ifs at h
    · split at h <;> cases h
    · next victim pos paddr hpc =>
      split at h
      · next hnone => exact ⟨victim, pos, paddr, hpc, hnone⟩
      · cases h
    · exact ((notFull_require _).bind (fun _ => notFull_translate.bind fun _ => notFull_ok _) h).elim
    · cases h
    · cases h
    · cases h
    · split at h <;> cases h
    · cases h
    · exact ((notFull_require _).bind (fun _ => notFull_translate.bind fun _ => notFull_ok _) h).elim
    · split at h <;> cases h
    · cases h
    · cases h

/-- The step of the current process. -/
theorem current_ok (hcur : s.cur = some as) (hP : s.procs as = some P)
    (hrun : P.stage = .running) : s.current as = .ok P := by
  unfold VmState.current VmState.running
  rw [if_pos hcur, hP]
  simp only [hrun, if_true]

theorem step_go (hcur : s.cur = some as) (hP : s.procs as = some P) (hrun : P.stage = .running)
    (hst : P.stack = act :: rest) : s.step (.go as n) = s.go as P act rest n := by
  simp only [VmState.step, current_ok hcur hP hrun, bind, Except.bind, hst]

/-- The panic of `swap_out` is that of a fault that finds no slot for its victim. -/
theorem step_full_iff {a : VmAction} : s.step a = .error (.panic .swapfileFull) ↔
    ∃ as n act victim, a = .go as n ∧ SwapsOut s as act victim ∧
      swapOutFind s.sw as victim = none := by
  constructor
  swap
  · rintro ⟨as, n, act, victim, rfl, ⟨P, rest, pos, paddr, hcur, hP, hrun, hst, hpc⟩, hnone⟩
    rw [step_go hcur hP hrun hst]
    exact go_full_iff.mpr ⟨victim, pos, paddr, hpc, hnone⟩
  intro h
  have hguard : ∀ {p : Prop} [Decidable p] {t : VmState},
      NotFull (require p >>= fun _ => Except.ok t) :=
    (notFull_require _).bind fun _ => notFull_ok _
  cases a with
  | create => exact (hguard h).elim
  | defineRegion =>
    refine (notFull_running.bind (fun P => (notFull_require _).bind fun _ => ?_) h).elim
    split
    · exact fun h => by cases h
    · exact notFull_ok _
  | defineStack | completeLoad => exact (notFull_running.bind (fun P => hguard) h).elim
  | exitCm => exact (notFull_current.bind (fun P => hguard) h).elim
  | exitSwap | exitDone =>
    simp only [VmState.step] at h
    split at h
    · cases h
    · exact (hguard h).elim
  | switch as =>
    cases as with
    | none => cases h
    | some as => exact (hguard h).elim
  | load => exact (notFull_current.bind (fun P => (notFull_require _).bind fun _ =>
      notFull_translate.bind fun _ => hguard) h).elim
  | store => exact (notFull_current.bind (fun P => (notFull_require _).bind fun _ =>
      notFull_translate.bind fun _ => notFull_ok _) h).elim
  | fault => exact (notFull_current.bind (fun P => (notFull_require _).bind fun _ =>
      notFull_fault) h).elim
  | go as n =>
    rcases bind_eq_error.mp h with h | ⟨P, hP, h⟩
    · exact (notFull_current h).elim
    · obtain ⟨hcur, hP, hrun⟩ := current_eq_ok hP
      split at h
      · cases h
      · next act rest hst =>
        obtain ⟨victim, pos, paddr, hpc, hnone⟩ := go_full_iff.mp h
        exact ⟨as, n, act, victim, rfl, ⟨P, rest, pos, paddr, hcur, hP, hrun, hst, hpc⟩, hnone⟩
  | kalloc | kfree | kwrite => exact (hguard h).elim

end Panic

section Run

variable {ram : RamLayout} {garbage : ℕ → CmEntry} {file mem : ℕ → UInt8}
  {files : FileId → List UInt8} {acts : List VmAction} {s : VmState}

/-- The victim has no slot, and when the fault is over it has one; the page of the fault has none. -/
theorem SwapsOut.card_heldAfter {as : AsId} {act : Activation} {victim : ℕ} (h : Placed s)
    (hswaps : SwapsOut s as act victim) :
    (insert ⟨some as, victim⟩ s.sw.heldPages).card = s.sw.heldPages.card + 1 ∧
      (act.heldAfter s.sw as).card =
        if act.inSwap then s.sw.heldPages.card else s.sw.heldPages.card + 1 := by
  obtain ⟨P, rest, pos, paddr, -, hP, hrun, hst, hpc⟩ := hswaps
  have hok := h.fault _ _ hP hrun
  have hslots := h.slots _ _ hP hrun
  have hmem : act ∈ P.stack := by rw [hst]; exact List.mem_cons_self
  have hno : (⟨some as, victim⟩ : SwapEntry) ∉ s.sw.heldPages := fun hin =>
    hslots.not_holds (h.nodup _ _ hP) hst hok hpc (mem_heldPages.mp hin)
  have hcard := Finset.card_insert_of_notMem hno
  refine ⟨hcard, ?_⟩
  unfold Activation.heldAfter
  rw [hpc]
  change (act.leave as _).card = _
  unfold Activation.leave
  split_ifs with hin
  · -- the entry of the page says that it has a slot
    obtain ⟨e, -, he, hp⟩ := (hok.found act hmem).entry
    have hs := hslots.branch act (by rw [hst]; rfl) (by rw [hpc]; rfl) e he hp
    have hheld : (⟨some as, act.page⟩ : SwapEntry) ∈ s.sw.heldPages :=
      mem_heldPages.mpr ((hslots.held _).mpr (.inl ⟨e, he, hp, hs.trans hin⟩))
    rw [Finset.card_erase_of_mem (Finset.mem_insert_of_mem hheld), hcard, Nat.add_sub_cancel]
  · exact hcard

end Run

/-! ## A fault that swaps one page in and one page out -/

section OneEntry

/-- The TLB maps one user page, in its first slot. -/
structure OneEntry (t : Tlb) (v f : ℕ) : Prop where
  first : t.entry 0 = ⟨v, f, true, true⟩
  others : ∀ i < numTlb, i ≠ 0 → kseg0 ≤ (t.entry i).vpage

variable {t : Tlb} {v w f : ℕ}

theorem OneEntry.probe (h : OneEntry t v f) : tlbProbe t v = some 0 :=
  firstIdx_eq_some.mpr ⟨le_refl 0, Nat.succ_pos 63, by simp [h.first],
    fun j _ hj => absurd hj (Nat.not_lt_zero j)⟩

theorem OneEntry.lookup (h : OneEntry t v f) : t.lookup v = some ⟨v, f, true, true⟩ := by
  unfold Tlb.lookup
  rw [h.probe]
  simp [h.first]

theorem OneEntry.lookup_ne (h : OneEntry t v f) (hw : w < kseg0) (hne : w ≠ v) :
    t.lookup w = none := by
  have hnone : tlbProbe t w = none := by
    refine firstIdx_eq_none.mpr fun i _ hi => ?_
    rw [decide_eq_false_iff_not]
    rintro rfl
    by_cases h0 : i = 0
    · rw [h0, h.first] at hne
      exact hne rfl
    · exact absurd hw (Nat.not_lt.mpr (h.others i (by omega) h0))
  unfold Tlb.lookup
  rw [hnone]
  rfl

theorem OneEntry.write (h : ∀ i < numTlb, i ≠ 0 → kseg0 ≤ (t.entry i).vpage) :
    OneEntry (tlbWrite t 0 ⟨v, f, true, true⟩) v f := by
  refine ⟨by rw [tlbWrite_entry, if_pos rfl], fun i hi h0 => ?_⟩
  rw [tlbWrite_entry, if_neg h0]
  exact h i hi h0

theorem OneEntry.tlbR (h : OneEntry t v f) : OneEntry (tlbR t v w f) w f := by
  unfold Os161.tlbR
  rw [h.probe]
  exact .write h.others

theorem OneEntry.tlbW (h : OneEntry t v f) : OneEntry (tlbW t v f 2) v f := by
  unfold Os161.tlbW
  simp only [h.probe]
  exact .write h.others

/-- The first entry of an empty TLB. -/
theorem oneEntry_tlbW_flush (hv : v < kseg0) : OneEntry (Os161.tlbW (tlbFlush t) v f 2) v f := by
  have hent : ∀ i < numTlb, (tlbFlush t).entry i = tlbInvalid i := fun i hi => tlbFlush_entry hi
  have hge : ∀ i < numTlb, kseg0 ≤ ((tlbFlush t).entry i).vpage := fun i hi => by
    rw [hent i hi]
    exact Nat.le_add_right _ _
  have hprobe : tlbProbe (tlbFlush t) v = none := by
    refine firstIdx_eq_none.mpr fun i _ hi => ?_
    rw [decide_eq_false_iff_not]
    rintro rfl
    exact absurd hv (Nat.not_lt.mpr (hge i (by omega)))
  have hfree : firstIdx (fun i => !((tlbFlush t).entry i).valid) 0 numTlb = some 0 :=
    firstIdx_eq_some.mpr ⟨le_refl 0, Nat.succ_pos 63, by rw [hent 0 (Nat.succ_pos 63)]; rfl,
      fun j _ hj => absurd hj (Nat.not_lt_zero j)⟩
  unfold Os161.tlbW
  simp only [hprobe, hfree]
  exact .write fun i hi _ => hge i hi

end OneEntry

section Wide

/-- The page table of the pages `0, …, m - 1` with the entries `e 0, …, e (m - 1)`. -/
def wideTable (m : ℕ) (e : ℕ → PtEntry) : List PtEntry := (List.range m).map e

/-- The entry of page `i` when the pages up to `p` were touched, one after the other. -/
def wideEntry (p i : ℕ) : PtEntry :=
  if i < p then ⟨0, i * pageSize, 0, false, true⟩
  else if i = p then ⟨0, i * pageSize, smallRam.frameAddr 15, true, false⟩
  else ⟨0, i * pageSize, 0, false, false⟩

/-- The region of these pages. -/
def wideSeg (m : ℕ) : SegmentEntry := ⟨0, 0, 0, m, m * pageSize, 0, 4, 2, 0, m⟩

/-- An address space with this region and an empty program. -/
def wideSpace (m : ℕ) (e : ℕ → PtEntry) : Addrspace := ⟨wideTable m e, [wideSeg m], some 0⟩

variable {e : ℕ → PtEntry} {m p i : ℕ}

theorem getElem?_wideTable (hi : i < m) : (wideTable m e)[i]? = some (e i) := by
  unfold wideTable
  rw [List.getElem?_map, List.getElem?_range hi]
  rfl

theorem page_wideEntry : (wideEntry p i).page = i * pageSize := by
  unfold wideEntry
  split_ifs <;> rfl

/-- The first entry of a page changes. -/
theorem ptUpdate_eq_modify {pt : List PtEntry} {x : PtEntry} (h : (pt.map PtEntry.page).Nodup)
    (hi : pt[i]? = some x) :
    ptUpdate pt x.page = pt.modify i fun x => { x with inMem := false, inSwap := true, frame := 0 } := by
  induction pt generalizing i with
  | nil => cases hi
  | cons y pt ih =>
    rw [List.map_cons, List.nodup_cons] at h
    rw [ptUpdate]
    cases i with
    | zero =>
      obtain rfl : y = x := by simpa using hi
      rw [if_pos rfl]
      rfl
    | succ i =>
      have hx : pt[i]? = some x := by simpa using hi
      have hne : y.page ≠ x.page := fun hp =>
        h.1 (hp ▸ List.mem_map_of_mem (List.mem_of_getElem? hx))
      rw [if_neg hne, ih h.2 hx]
      rfl

theorem modify_wideTable (f : PtEntry → PtEntry) :
    (wideTable m e).modify i f = wideTable m (Function.update e i (f (e i))) := by
  refine List.ext_getElem? fun j => ?_
  unfold wideTable
  rw [List.getElem?_modify, List.getElem?_map, List.getElem?_map]
  by_cases hj : j < m
  · rw [List.getElem?_range hj]
    by_cases hij : i = j
    · subst hij
      simp
    · simp [hij, Function.update_of_ne (Ne.symm hij)]
  · rw [List.getElem?_eq_none (by simpa using hj)]
    rfl

theorem nodup_wideTable (h : ∀ i, (e i).page = i * pageSize) :
    ((wideTable m e).map PtEntry.page).Nodup := by
  have hpages : (wideTable m e).map PtEntry.page = (List.range m).map (· * pageSize) := by
    unfold wideTable
    rw [List.map_map]
    exact List.map_congr_left fun i _ => h i
  rw [hpages]
  exact List.nodup_range.map fun i j hij => Nat.eq_of_mul_eq_mul_right pageSize_pos hij

/-- **The next page takes the place of the last one.** -/
theorem wideTable_succ (hp : p < m) :
    ptSetFrame (ptUpdate (wideTable m (wideEntry p)) (p * pageSize)) (p + 1)
      (smallRam.frameAddr 15) = wideTable m (wideEntry (p + 1)) := by
  have hup := ptUpdate_eq_modify (nodup_wideTable fun i => page_wideEntry)
    (getElem?_wideTable (e := wideEntry p) hp)
  rw [page_wideEntry] at hup
  unfold ptSetFrame
  rw [hup, modify_wideTable, modify_wideTable]
  refine congrArg (wideTable m) (funext fun i => ?_)
  unfold wideEntry
  by_cases h₁ : i = p + 1
  · subst h₁
    have hlt : ¬ p + 1 < p := by omega
    simp [hlt]
  · rw [Function.update_of_ne h₁]
    by_cases h₂ : i = p
    · subst h₂
      simp
    · rw [Function.update_of_ne h₂]
      have : i < p + 1 ↔ i < p := by omega
      simp [h₁, h₂, this]

variable (hm : m * pageSize ≤ userspaceTop) (hp : p < m)
include hm hp

theorem wide_lt : p * pageSize + pageSize ≤ userspaceTop := by
  rw [← Nat.succ_mul]
  exact le_trans (Nat.mul_le_mul_right _ hp) hm

theorem userPage_wide : UserPage (p * pageSize) :=
  ⟨Nat.dvd_mul_left _ _, Nat.lt_of_lt_of_le (Nat.lt_add_of_pos_right pageSize_pos) (wide_lt hm hp)⟩

theorem findSegment_wide : findSegment (wideSpace m e) (p * pageSize) = some (wideSeg m) := by
  have hcov : (wideSeg m).covers (p * pageSize) = true := by
    have hend : wadd 0 (m * pageSize) = m * pageSize := by
      unfold wadd wordSize userspaceTop kseg0 at *
      omega
    change (decide (0 ≤ p * pageSize) && decide (p * pageSize < wadd 0 (m * pageSize))) = true
    rw [hend, Bool.and_eq_true, decide_eq_true_eq, decide_eq_true_eq]
    exact ⟨Nat.zero_le _, Nat.mul_lt_mul_of_pos_right hp pageSize_pos⟩
  unfold findSegment wideSpace
  rw [List.find?_cons, hcov]

omit hm in
theorem findPte_wide (h : ∀ i, (e i).page = i * pageSize) :
    findPte (wideSpace m e) (wideSeg m) (p * pageSize) = some p := by
  have hstart : firstPte (wideSpace m e) (wideSeg m) = 0 := by
    unfold firstPte wideSpace wideTable wideSeg
    rw [List.length_map, List.length_range, Nat.sub_self]
  unfold findPte
  rw [hstart]
  refine firstIdx_eq_some.mpr ⟨Nat.zero_le p, by rw [Nat.zero_add]; exact hp, ?_, fun j _ hj => ?_⟩
  · rw [decide_eq_true_eq]
    change ((wideTable m e)[p]?).map PtEntry.page = _
    rw [getElem?_wideTable hp, Option.map_some, h]
  · rw [decide_eq_false_iff_not]
    change ¬ ((wideTable m e)[j]?).map PtEntry.page = _
    rw [getElem?_wideTable (lt_trans hj hp), Option.map_some, h, Option.some.injEq]
    exact fun he => Nat.ne_of_lt hj (Nat.eq_of_mul_eq_mul_right pageSize_pos he)

end Wide

section Progress

variable {s : VmState} {as : AsId} {P : Proc} {act : Activation} {rest : List Activation}
  {victim pos paddr i n : ℕ} {cms : CmSys} {sw : SwapSpace}

theorem setProc_setProc (s : VmState) (as : AsId) (P Q : Proc) :
    (s.setProc as P).setProc as Q = s.setProc as Q := by
  unfold VmState.setProc
  simp only [Function.update_idem]

theorem setProc_eq_self (hP : s.procs as = some P) : s.setProc as P = s := by
  unfold VmState.setProc
  rw [← hP, Function.update_eq_self]

variable (hcur : s.cur = some as) (hrun : P.stage = .running) (hst : P.stack = act :: rest)
include hcur hrun hst

theorem step_of_go {t : VmState} (h : (s.setProc as P).go as P act rest n = .ok t) :
    (s.setProc as P).step (.go as n) = .ok t :=
  (step_go (s := s.setProc as P) hcur (setProc_self s as P) hrun hst).trans h

theorem step_full (hpc : act.pc = .alloc) (hs : s.cms.alloc act.page as = (0, s.cms)) :
    (s.setProc as P).step (.go as n) = .ok (s.setProc as (P.goto act rest .evict)) := by
  refine step_of_go hcur hrun hst ?_
  have hs' : (s.setProc as P).cms.alloc act.page as = (0, s.cms) := hs
  unfold VmState.go
  rw [hpc]
  simp only [hs', if_true]
  exact congrArg Except.ok (setProc_setProc s as P _)

theorem step_alloc (hpc : act.pc = .alloc) (hs : s.cms.alloc act.page as = (paddr, cms))
    (hne : paddr ≠ 0) : (s.setProc as P).step (.go as n) =
      .ok ({ s with cms := cms }.setProc as (P.enter act rest paddr)) := by
  refine step_of_go hcur hrun hst ?_
  have hs' : (s.setProc as P).cms.alloc act.page as = (paddr, cms) := hs
  unfold VmState.go
  rw [hpc]
  simp only [hs', if_neg hne]
  exact congrArg Except.ok (setProc_setProc { s with cms := cms } as P _)

theorem step_evict (hpc : act.pc = .evict) (hs : s.cms.evict as = some (victim, paddr, pos, cms)) :
    (s.setProc as P).step (.go as n) =
      .ok ({ s with cms := cms }.setProc as (P.goto act rest (.swapOutFind victim pos paddr))) := by
  refine step_of_go hcur hrun hst ?_
  have hs' : (s.setProc as P).cms.evict as = some (victim, paddr, pos, cms) := hs
  unfold VmState.go
  rw [hpc]
  simp only [hs']
  exact congrArg Except.ok (setProc_setProc { s with cms := cms } as P _)

theorem step_swapOutFind (hpc : act.pc = .swapOutFind victim pos paddr)
    (hs : swapOutFind s.sw as victim = some (i, sw)) :
    (s.setProc as P).step (.go as n) = .ok ({ s with sw := sw }.setProc as
      (P.goto act rest (.swapOutCopy victim pos paddr i (fun _ => 0) 0))) := by
  refine step_of_go hcur hrun hst ?_
  have hs' : swapOutFind (s.setProc as P).sw as victim = some (i, sw) := hs
  unfold VmState.go
  rw [hpc]
  simp only [hs']
  exact congrArg Except.ok (setProc_setProc { s with sw := sw } as P _)

/-- The whole page is copied at once. -/
theorem step_swapOutCopy {buf : ℕ → UInt8} {f : ℕ} {d : Bool}
    (hpc : act.pc = .swapOutCopy victim pos paddr i buf 0)
    (hs : s.tlb.lookup (pageFrame victim) = some ⟨pageFrame victim, f, d, true⟩) :
    ∃ buf', (s.setProc as P).step (.go as pageSize) =
      .ok (s.setProc as (P.goto act rest (.swapOutWrite victim pos paddr i buf'))) := by
  have htr : (s.setProc as P).translate (victim + 0) false = .ok (f + pageOffset (victim + 0)) := by
    have hs' : (s.setProc as P).tlb.lookup (pageFrame (victim + 0)) =
        some ⟨pageFrame victim, f, d, true⟩ := hs
    unfold VmState.translate
    rw [hs']
    rfl
  refine ⟨poke buf 0 pageSize fun o => s.mem (f + pageOffset (victim + 0) + o),
    step_of_go hcur hrun hst ?_⟩
  unfold VmState.go
  rw [hpc]
  refine (require_bind ⟨pageSize_pos, (Nat.zero_add pageSize).le⟩).trans ?_
  rw [htr]
  exact congrArg Except.ok (setProc_setProc s as P _)

theorem step_swapOutWrite {buf : ℕ → UInt8} (hpc : act.pc = .swapOutWrite victim pos paddr i buf) :
    (s.setProc as P).step (.go as n) =
      .ok ({ s with sw := writePage s.sw i fun o => buf o }.setProc as
        (P.goto act rest (.update victim pos paddr))) := by
  refine step_of_go hcur hrun hst ?_
  unfold VmState.go
  rw [hpc]
  exact congrArg Except.ok (setProc_setProc { s with sw := writePage s.sw i fun o => buf o } as P _)

theorem step_update (hpc : act.pc = .update victim pos paddr) :
    (s.setProc as P).step (.go as n) =
      .ok ({ s with cms := s.cms.updateVaddr as pos act.page }.setProc as
        (Proc.goto { P with space := { P.space with pt := ptUpdate P.space.pt victim } } act rest
          (.replace victim paddr))) := by
  refine step_of_go hcur hrun hst ?_
  unfold VmState.go
  rw [hpc]
  exact congrArg Except.ok
    (setProc_setProc { s with cms := s.cms.updateVaddr as pos act.page } as P _)

theorem step_replace (hpc : act.pc = .replace victim paddr) :
    (s.setProc as P).step (.go as n) =
      .ok ({ s with tlb := tlbR s.tlb victim act.page paddr }.setProc as
        (P.enter act rest paddr)) := by
  refine step_of_go hcur hrun hst ?_
  unfold VmState.go
  rw [hpc]
  exact congrArg Except.ok
    (setProc_setProc { s with tlb := tlbR s.tlb victim act.page paddr } as P _)

/-- The whole page is cleared at once. -/
theorem step_zero {dst f : ℕ} {buf : ℕ → UInt8} (hpc : act.pc = .fill .zero paddr dst pageSize buf 0)
    (hdst : pageOffset dst = 0) (hseg : ¬ act.seg.offset < 0)
    (hs : s.tlb.lookup (pageFrame dst) = some ⟨pageFrame dst, f, true, true⟩) :
    ∃ mem, (s.setProc as P).step (.go as pageSize) =
      .ok ({ s with mem := mem }.setProc as (P.goto act rest (.elfRead paddr))) := by
  have htr : (s.setProc as P).translate (dst + 0) true = .ok (f + pageOffset (dst + 0)) := by
    have hs' : (s.setProc as P).tlb.lookup (pageFrame (dst + 0)) =
        some ⟨pageFrame dst, f, true, true⟩ := hs
    unfold VmState.translate
    rw [hs']
    rfl
  have hpage : pageOffset (dst + 0) + pageSize ≤ pageSize := by
    rw [Nat.add_zero, hdst, Nat.zero_add]
  have hcopy : act.copying .zero paddr dst pageSize buf (0 + pageSize) = .elfRead paddr := by
    unfold Activation.copying
    rw [if_pos (Nat.zero_add pageSize)]
    simp only [if_neg hseg]
  refine ⟨poke s.mem (f + pageOffset (dst + 0)) pageSize fun o => buf (0 + o),
    step_of_go hcur hrun hst ?_⟩
  unfold VmState.go
  rw [hpc]
  refine (require_bind ⟨pageSize_pos, (Nat.zero_add pageSize).le, hpage⟩).trans ?_
  rw [htr, ← hcopy]
  exact congrArg Except.ok (setProc_setProc { s with mem := _ } as P _)

/-- An empty program has nothing to read. -/
theorem step_elfRead {v : FileId} (hpc : act.pc = .elfRead paddr) (hv : P.space.elfFile = some v)
    (hfile : s.files v = []) : (s.setProc as P).step (.go as n) =
      .ok (s.setProc as (P.goto act rest (.setClean paddr))) := by
  have hbytes : elfBytes ((s.setProc as P).files v) act.seg act.page
      (pageNumber P.space act.seg act.j) = [] := by
    change elfBytes (s.files v) _ _ _ = []
    rw [hfile]
    unfold elfBytes loadPageFromElf vopRead
    simp
  refine step_of_go hcur hrun hst ?_
  unfold VmState.go
  rw [hpc]
  simp only [hv, hbytes]
  exact congrArg Except.ok (setProc_setProc s as P _)

theorem step_setClean (hpc : act.pc = .setClean paddr) : (s.setProc as P).step (.go as n) =
    .ok ({ s with cms := s.cms.setClean paddr }.setProc as (P.goto act rest (.map paddr))) := by
  refine step_of_go hcur hrun hst ?_
  unfold VmState.go
  rw [hpc]
  exact congrArg Except.ok (setProc_setProc { s with cms := s.cms.setClean paddr } as P _)

theorem step_map (hpc : act.pc = .map paddr) : (s.setProc as P).step (.go as n) =
    .ok ({ s with tlb := tlbW s.tlb act.page paddr act.seg.write }.setProc as
      { P with stack := rest }) := by
  refine step_of_go hcur hrun hst ?_
  unfold VmState.go
  rw [hpc]
  exact congrArg Except.ok
    (setProc_setProc { s with tlb := tlbW s.tlb act.page paddr act.seg.write } as P _)

end Progress

/-- The pages up to `p` were touched: page `p` is in the only user frame, and the others have the
slots with their numbers. -/
structure Wide (m p : ℕ) (st : FrameState) (stack : List Activation) (s : VmState) : Prop where
  cur : s.cur = some 0
  proc : s.procs 0 = some ⟨wideSpace m (wideEntry p), stack, .running⟩
  ram : s.cms.cm.ram = smallRam
  kernel : ∀ k < 15, (s.cms.cm.entry k).as = none ∧ (s.cms.cm.entry k).state = .fixed
  frame : s.cms.cm.entry 15 = ⟨some 0, p * pageSize, st, 1, p + 2⟩
  stamp : s.cms.cm.timestamp = p + 3
  slots : ∀ i < swapSize, s.sw.entry i = if i < p then ⟨some 0, i * pageSize⟩ else ⟨none, 0⟩
  tlb : OneEntry s.tlb (p * pageSize) (smallRam.frameAddr 15)
  file : s.files 0 = []

/-- The fault on page `q`. -/
def wideFault (m p q : ℕ) (pc : Pc) : Activation :=
  ⟨q * pageSize, wideSeg m, q, (wideEntry p q).inSwap, pc⟩

/-- The fault on page `q` has chosen its victim. -/
def VmState.wideVictim (s : VmState) (m p q : ℕ) : VmState :=
  { s with cms := ⟨s.cms.cm.setEntry 15 evictedEntry, s.cms.live, (0, 15) :: s.cms.pending⟩ }.setProc
    0 ⟨wideSpace m (wideEntry p),
      [wideFault m p q (.swapOutFind (p * pageSize) 15 (smallRam.frameAddr 15))], .running⟩

section WideRun

variable {s : VmState} {m p q v : ℕ} {st : FrameState} {stack : List Activation}

/-- No frame is free. -/
theorem Wide.alloc (h : Wide m p .clean stack s) : s.cms.alloc v 0 = (0, s.cms) := by
  have hnone : firstIdx (fun i => (s.cms.cm.entry i).state = .free) 0 s.cms.cm.ramFrames = none := by
    refine firstIdx_eq_none.mpr fun i _ hi => ?_
    have hlt : i < 16 := by
      unfold Coremap.ramFrames at hi
      rw [h.ram] at hi
      exact lt_of_lt_of_eq hi (by decide)
    by_cases h15 : i = 15
    · rw [h15, h.frame]
      rfl
    · rw [(h.kernel i (by omega)).2]
      rfl
  unfold CmSys.alloc frameAlloc
  rw [hnone]
  rfl

/-- The victim is the page that was touched last. -/
theorem Wide.evict (h : Wide m p .clean stack s) :
    s.cms.evict 0 = some (p * pageSize, smallRam.frameAddr 15, 15,
      ⟨s.cms.cm.setEntry 15 evictedEntry, s.cms.live, (0, 15) :: s.cms.pending⟩) := by
  have hev : evictable s.cms.cm 0 15 = true := by
    unfold evictable
    rw [h.frame]
    rfl
  have hsome : cmEvict s.cms.cm 0 = some (p * pageSize, smallRam.frameAddr 15, 15,
      s.cms.cm.setEntry 15 evictedEntry) := by
    cases hc : cmEvict s.cms.cm 0 with
    | none =>
      have hlt : 15 < s.cms.cm.ramFrames := by
        unfold Coremap.ramFrames
        rw [h.ram]
        decide
      have hle := cmEvict_eq_none.mp hc 15 hlt hev
      rw [h.frame, h.stamp] at hle
      exact absurd hle (Nat.not_le.mpr (Nat.lt_succ_self _))
    | some r =>
      obtain ⟨pos, rfl, hlt, hown, -⟩ := cmEvict_cases hc
      have hpos : pos = 15 := by
        have hlt' : pos < 16 := by
          unfold Coremap.ramFrames at hlt
          rw [h.ram] at hlt
          exact lt_of_lt_of_eq hlt (by decide)
        by_contra hne
        have has : (s.cms.cm.entry pos).as = some 0 := by
          unfold evictable at hown
          exact (of_decide_eq_true hown).1
        rw [(h.kernel pos (by omega)).1] at has
        cases has
      subst hpos
      rw [h.frame, h.ram]
  unfold CmSys.evict
  rw [hsome]
  rfl

theorem pageFrame_wide (hm : m * pageSize ≤ userspaceTop) (hq : q < m) :
    pageFrame (q * pageSize) = q * pageSize := by
  have := (userPage_wide hm hq).pageFrame_add pageSize_pos
  rwa [Nat.add_zero] at this

/-- A TLB miss of a page of the region. -/
theorem step_fault_wide {e : ℕ → PtEntry} {stack : List Activation} (hcur : s.cur = some 0)
    (hP : s.procs 0 = some ⟨wideSpace m e, stack, .running⟩)
    (he : ∀ i, (e i).page = i * pageSize) (hm : m * pageSize ≤ userspaceTop) (hq : q < m)
    (hmiss : s.tlb.lookup (q * pageSize) = none)
    (hst : stack = [] ∨ stack.head?.bind Activation.access = some (q * pageSize)) :
    s.step (.fault 0 (q * pageSize)) =
      if (e q).inMem then .ok { s with
        tlb := tlbW s.tlb (q * pageSize) (e q).frame
          (if cmCheckState s.cms.cm (e q).frame .loading then 2 else 2) }
      else .ok (s.setProc 0
        ⟨wideSpace m e, ⟨q * pageSize, wideSeg m, q, (e q).inSwap, .alloc⟩ :: stack, .running⟩) := by
  have hu := userPage_wide hm hq
  have hframe := pageFrame_wide hm hq
  have hget : (wideSpace m e).pt[q]? = some (e q) := getElem?_wideTable hq
  have hstep : s.step (.fault 0 (q * pageSize)) = s.current 0 >>= fun P =>
      require (q * pageSize < userspaceTop ∧
        (s.tlb.lookup (pageFrame (q * pageSize))).isNone = true ∧
        (P.stack.isEmpty = true ∨ P.stack.head?.bind Activation.access = some (q * pageSize))) >>=
      fun _ => s.fault 0 P (q * pageSize) := rfl
  rw [hstep, current_ok hcur hP rfl]
  refine (require_bind ⟨hu.2, by rw [hframe, hmiss]; rfl,
    hst.imp_left List.isEmpty_iff.mpr⟩).trans ?_
  unfold VmState.fault
  simp only [hframe, findSegment_wide hm hq, findPte_wide hq he, hget]
  rfl

/-- **The fault up to the search of `swap_out`.** -/
theorem Wide.run_victim (h : Wide m p .clean [] s) (hm : m * pageSize ≤ userspaceTop) (hq : q < m)
    (hne : q ≠ p) : run VmState.step s [.fault 0 (q * pageSize), .go 0 0, .go 0 0] =
      .ok (s.wideVictim m p q) := by
  have hmiss : s.tlb.lookup (q * pageSize) = none :=
    h.tlb.lookup_ne (userPage_wide hm hq).2 fun he =>
      hne (Nat.eq_of_mul_eq_mul_right pageSize_pos he)
  have hfault := step_fault_wide h.cur h.proc (fun i => page_wideEntry) hm hq hmiss (.inl rfl)
  have hout : ¬ (wideEntry p q).inMem = true := by
    unfold wideEntry
    split_ifs <;> exact not_false
  rw [if_neg hout] at hfault
  rw [run_cons_of_ok _ _ hfault, run_cons_of_ok _ _ (step_full h.cur rfl rfl rfl h.alloc),
    run_cons_of_ok _ _ (step_evict h.cur rfl rfl rfl h.evict)]
  rfl

/-- The next free slot. -/
theorem Wide.swapOutFind (h : Wide m p st stack s) (hp : p < swapSize) :
    Os161.swapOutFind s.sw 0 v = some (p, s.sw.setEntry p ⟨some 0, v⟩) := by
  have hfind : firstIdx (fun i => (s.sw.entry i).as = none) 0 swapSize = some p := by
    refine firstIdx_eq_some.mpr ⟨Nat.zero_le p, by rw [Nat.zero_add]; exact hp, ?_, fun j _ hj => ?_⟩
    · rw [h.slots p hp, if_neg (lt_irrefl p)]
      rfl
    · rw [h.slots j (lt_trans hj hp), if_pos hj]
      rfl
  unfold Os161.swapOutFind
  rw [hfind]

/-- **The page is replaced by the next one.** -/
theorem Wide.run_replace (h : Wide m p .clean [] s) (hm : m * pageSize ≤ userspaceTop)
    (hpm : p + 1 < m) (hp : p < swapSize) :
    ∃ s', run VmState.step (s.wideVictim m p (p + 1))
        [.go 0 0, .go 0 pageSize, .go 0 0, .go 0 0, .go 0 0] = .ok s' ∧
      Wide m (p + 1) .loading [wideFault m p (p + 1) (.fill .zero (smallRam.frameAddr 15)
        ((p + 1) * pageSize) pageSize (fun _ => 0) 0)] s' := by
  have hframe := pageFrame_wide hm (lt_trans (Nat.lt_succ_self p) hpm)
  have hin : (wideEntry p (p + 1)).inSwap = false := by
    unfold wideEntry
    rw [if_neg (by omega), if_neg (by omega)]
  obtain ⟨buf, hcopy⟩ := step_swapOutCopy
    (s := { s with
      cms := ⟨s.cms.cm.setEntry 15 evictedEntry, s.cms.live, (0, 15) :: s.cms.pending⟩
      sw := s.sw.setEntry p ⟨some 0, p * pageSize⟩ })
    (P := ⟨wideSpace m (wideEntry p), [wideFault m p (p + 1) (.swapOutCopy (p * pageSize) 15
      (smallRam.frameAddr 15) p (fun _ => 0) 0)], .running⟩)
    h.cur rfl rfl rfl (by rw [hframe]; exact h.tlb.lookup)
  refine ⟨_, Eq.trans (run_cons_of_ok _ _
    (step_swapOutFind (by exact h.cur) rfl rfl rfl (h.swapOutFind hp))) (Eq.trans
    (run_cons_of_ok _ _ hcopy) (Eq.trans
    (run_cons_of_ok _ _ (step_swapOutWrite (by exact h.cur) rfl rfl rfl)) (Eq.trans
    (run_cons_of_ok _ _ (step_update (by exact h.cur) rfl rfl rfl)) (Eq.trans
    (run_cons_of_ok _ _ (step_replace (by exact h.cur) rfl rfl rfl)) rfl)))), ?_⟩
  have hfilled : (wideFault m p (p + 1) (.replace (p * pageSize) (smallRam.frameAddr 15))).filled
      (smallRam.frameAddr 15) = .fill .zero (smallRam.frameAddr 15) ((p + 1) * pageSize) pageSize
        (fun _ => 0) 0 := if_neg (by rw [show (wideFault m p (p + 1) _).inSwap = false from hin]; decide)
  refine ⟨h.cur, ?_, h.ram, fun k hk => ?_, ?_, ?_, fun i hi => ?_, h.tlb.tlbR, h.file⟩
  · refine (setProc_self _ _ _).trans (congrArg some ?_)
    change Proc.mk ⟨ptSetFrame (ptUpdate (wideTable m (wideEntry p)) (p * pageSize)) (p + 1) _,
      [wideSeg m], some 0⟩ [{ wideFault m p (p + 1) (.replace (p * pageSize) _) with
        pc := (wideFault m p (p + 1) (.replace (p * pageSize) _)).filled _ }] .running = _
    rw [hfilled, wideTable_succ (lt_trans (Nat.lt_succ_self p) hpm)]
    rfl
  · change ((cmUpdateVaddr (s.cms.cm.setEntry 15 evictedEntry) 0 15 _).entry k).as = none ∧
      ((cmUpdateVaddr (s.cms.cm.setEntry 15 evictedEntry) 0 15 _).entry k).state = .fixed
    have hne : k ≠ 15 := Nat.ne_of_lt hk
    rw [cmUpdateVaddr_entry, if_neg hne, Coremap.setEntry_entry_ne _ _ hne]
    exact h.kernel k hk
  · change (cmUpdateVaddr (s.cms.cm.setEntry 15 evictedEntry) 0 15 ((p + 1) * pageSize)).entry 15 = _
    rw [cmUpdateVaddr_entry, if_pos rfl, Coremap.setEntry_timestamp, h.stamp]
  · change wadd s.cms.cm.timestamp 1 = p + 1 + 3
    rw [h.stamp, wadd_of_lt]
    exact lt_of_lt_of_le (Nat.add_lt_add_right hp 4) (by decide)
  · change (s.sw.setEntry p ⟨some 0, p * pageSize⟩).entry i = _
    rw [SwapSpace.setEntry_entry, h.slots i hi]
    by_cases hip : i = p
    · rw [if_pos hip, if_pos (by omega), hip]
    · rw [if_neg hip]
      exact if_congr (by omega) rfl rfl

/-- **The page is filled.** -/
theorem Wide.run_fill {act : Activation} (hpage : act.page = p * pageSize)
    (hseg : act.seg = wideSeg m)
    (hpc : act.pc = .fill .zero (smallRam.frameAddr 15) (p * pageSize) pageSize (fun _ => 0) 0)
    (h : Wide m p .loading [act] s) (hm : m * pageSize ≤ userspaceTop) (hp : p < m) :
    ∃ s', run VmState.step s [.go 0 pageSize, .go 0 0, .go 0 0, .go 0 0] = .ok s' ∧
      Wide m p .clean [] s' := by
  have hframe := pageFrame_wide hm hp
  have hoff : pageOffset (p * pageSize) = 0 := Nat.mul_mod_left _ _
  have hneg : ¬ act.seg.offset < 0 := by
    rw [hseg]
    exact lt_irrefl 0
  obtain ⟨mem, hzero⟩ := step_zero (P := ⟨wideSpace m (wideEntry p), [act], .running⟩) h.cur rfl rfl
    hpc hoff hneg (by rw [hframe]; exact h.tlb.lookup)
  rw [setProc_eq_self h.proc] at hzero
  refine ⟨_, Eq.trans (run_cons_of_ok _ _ hzero) (Eq.trans
    (run_cons_of_ok _ _ (step_elfRead (by exact h.cur) rfl rfl rfl rfl h.file)) (Eq.trans
    (run_cons_of_ok _ _ (step_setClean (by exact h.cur) rfl rfl rfl)) (Eq.trans
    (run_cons_of_ok _ _ (step_map (by exact h.cur) rfl rfl rfl)) rfl))), ?_⟩
  have hlt : 15 < s.cms.cm.ramFrames := by
    unfold Coremap.ramFrames
    rw [h.ram]
    decide
  have hent : ∀ k, (cmUpdateState s.cms.cm (smallRam.frameAddr 15) .clean).entry k =
      if k = 15 then { s.cms.cm.entry 15 with state := .clean } else s.cms.cm.entry k := by
    rw [← h.ram]
    exact cmUpdateState_entry hlt
  refine ⟨h.cur, setProc_self _ _ _, h.ram, fun k hk => ?_, ?_, h.stamp, h.slots, ?_, h.file⟩
  · change ((cmUpdateState s.cms.cm _ .clean).entry k).as = none ∧
      ((cmUpdateState s.cms.cm _ .clean).entry k).state = .fixed
    rw [hent, if_neg (Nat.ne_of_lt hk)]
    exact h.kernel k hk
  · change (cmUpdateState s.cms.cm _ .clean).entry 15 = _
    rw [hent, if_pos rfl, h.frame]
  · change OneEntry (Os161.tlbW s.tlb act.page _ act.seg.write) _ _
    rw [hpage, hseg]
    exact h.tlb.tlbW

/-- The actions of a fault on page `q` that takes the place of another page. -/
def touchRun (q : ℕ) : List VmAction :=
  [.fault 0 (q * pageSize), .go 0 0, .go 0 0] ++
    ([.go 0 0, .go 0 pageSize, .go 0 0, .go 0 0, .go 0 0] ++
      [.go 0 pageSize, .go 0 0, .go 0 0, .go 0 0])

/-- The faults on the pages from `1` to `n`. -/
def touchRuns (n : ℕ) : List VmAction := (List.range n).flatMap fun i => touchRun (i + 1)

theorem Wide.run_touch (h : Wide m p .clean [] s) (hm : m * pageSize ≤ userspaceTop)
    (hpm : p + 1 < m) (hp : p < swapSize) :
    ∃ s', run VmState.step s (touchRun (p + 1)) = .ok s' ∧ Wide m (p + 1) .clean [] s' := by
  obtain ⟨s₁, hs₁, h₁⟩ := h.run_replace hm hpm hp
  obtain ⟨s₂, hs₂, h₂⟩ := h₁.run_fill rfl rfl rfl hm hpm
  refine ⟨s₂, ?_, h₂⟩
  unfold touchRun
  rw [run_append_of_ok _ _ (h.run_victim hm hpm (Nat.succ_ne_self p)), run_append_of_ok _ _ hs₁]
  exact hs₂

/-- **Page after page fills the swap file.** -/
theorem Wide.run_touchRuns (h : Wide m 0 .clean [] s) (hm : m * pageSize ≤ userspaceTop)
    (hpm : p < m) (hp : p ≤ swapSize) :
    ∃ s', run VmState.step s (touchRuns p) = .ok s' ∧ Wide m p .clean [] s' := by
  induction p with
  | zero => exact ⟨s, rfl, h⟩
  | succ p ih =>
    obtain ⟨s₁, hs₁, h₁⟩ := ih (lt_trans (Nat.lt_succ_self p) hpm) (Nat.le_of_succ_le hp)
    obtain ⟨s₂, hs₂, h₂⟩ := h₁.run_touch hm hpm hp
    refine ⟨s₂, ?_, h₂⟩
    unfold touchRuns
    rw [List.range_succ, List.flatMap_append]
    refine (run_append_of_ok _ _ hs₁).trans ?_
    rw [List.flatMap_singleton]
    exact hs₂

/-- An entry of a page that was not touched. -/
def outEntry (i : ℕ) : PtEntry := ⟨0, i * pageSize, 0, false, false⟩

theorem define_wide (hm : m * pageSize ≤ userspaceTop) (hpos : 0 < m) :
    asDefineRegion asCreate 0 0 (m * pageSize) 4 2 0 ⟨0, 0, fun _ => 0⟩ =
      some ⟨wideTable m outEntry, [wideSeg m], none⟩ := by
  have hpages : regionPages 0 (m * pageSize) = m := by
    have h0 : pageOffset 0 = 0 := rfl
    rw [regionPages_eq]
    · rw [h0, Nat.zero_add]
      unfold pageSize
      omega
    · rw [h0]
      unfold userspaceTop kseg0 wordSize pageSize at *
      omega
  have htable : ((List.range m).map fun i => ptCreate 0 (wadd (pageFrame 0) (i * pageSize))) =
      wideTable m outEntry := by
    refine List.map_congr_left fun i hi => ?_
    have hlt := wide_lt hm (List.mem_range.mp hi)
    unfold ptCreate outEntry
    rw [show pageFrame 0 = 0 from rfl, wadd_of_lt, Nat.zero_add]
    unfold userspaceTop kseg0 wordSize pageSize at *
    omega
  unfold asDefineRegion
  simp only [hpages, if_neg (Nat.ne_of_gt hpos)]
  rw [htable]
  unfold asCreate
  rw [List.append_nil]
  rfl

/-- The machine with sixteen frames and empty files. -/
def wideBoot : VmState :=
  .boot smallRam (fun _ => evictedEntry) (fun _ => 0) (fun _ => 0) fun _ => []

/-- The kernel takes all frames but one. -/
def wideCms : CmSys := ((CmSys.boot smallRam fun _ => evictedEntry).kalloc 14).2

/-- The process with the region, and its first page. -/
def wideStart (m : ℕ) : List VmAction :=
  [.create 0, .defineRegion 0 0 0 (m * pageSize) 4 2 0 ⟨0, 0, fun _ => 0⟩, .completeLoad 0 0,
    .kalloc 14, .switch (some 0), .fault 0 (0 * pageSize), .go 0 0, .fault 0 (0 * pageSize)]

theorem run_wideStart (hm : m * pageSize ≤ userspaceTop) (hpos : 0 < m) :
    ∃ s act, run VmState.step wideBoot (wideStart m) = .ok s ∧ act.page = 0 * pageSize ∧
      act.seg = wideSeg m ∧
      act.pc = .fill .zero (smallRam.frameAddr 15) (0 * pageSize) pageSize (fun _ => 0) 0 ∧
      Wide m 0 .loading [act] s := by
  have hdefine : (wideBoot.setProc 0 ⟨asCreate, [], .running⟩).step
      (.defineRegion 0 0 0 (m * pageSize) 4 2 0 ⟨0, 0, fun _ => 0⟩) =
      .ok (wideBoot.setProc 0 ⟨⟨wideTable m outEntry, [wideSeg m], none⟩, [], .running⟩) := by
    have hrunning : (wideBoot.setProc 0 ⟨asCreate, [], .running⟩).running 0 =
        .ok ⟨asCreate, [], .running⟩ := rfl
    have hneeds : (([] : List Activation).isEmpty = true ∧ 0 < wordSize) :=
      ⟨rfl, Nat.two_pow_pos 32⟩
    simp only [VmState.step, hrunning, bind, Except.bind, require, if_pos hneeds,
      define_wide hm hpos]
    exact congrArg Except.ok (setProc_setProc wideBoot 0 _ _)
  have hload : (wideBoot.setProc 0 ⟨⟨wideTable m outEntry, [wideSeg m], none⟩, [], .running⟩).step
      (.completeLoad 0 0) = .ok (wideBoot.setProc 0 ⟨wideSpace m outEntry, [], .running⟩) :=
    congrArg Except.ok (setProc_setProc wideBoot 0 _ _)
  have hflush : (tlbFlush wideBoot.tlb).lookup (0 * pageSize) = none := by
    cases hl : (tlbFlush wideBoot.tlb).lookup (0 * pageSize) with
    | none => rfl
    | some e => exact absurd (Tlb.maps_of_lookup hl).2 not_maps_tlbFlush
  -- the machine when the process runs
  let s₁ : VmState := { wideBoot with cms := wideCms, cur := some 0, tlb := tlbFlush wideBoot.tlb }
  have hmiss : (s₁.setProc 0 ⟨wideSpace m outEntry, [], .running⟩).step (.fault 0 (0 * pageSize)) =
      .ok (s₁.setProc 0 ⟨wideSpace m outEntry, [⟨0 * pageSize, wideSeg m, 0, false, .alloc⟩],
        .running⟩) :=
    (step_fault_wide (s := s₁.setProc 0 ⟨wideSpace m outEntry, [], .running⟩) rfl
      (setProc_self _ _ _) (fun _ => rfl) hm hpos hflush (.inl rfl)).trans
      (congrArg Except.ok (setProc_setProc s₁ 0 _ _))
  have htable : ptSetFrame (wideTable m outEntry) 0 (smallRam.frameAddr 15) =
      wideTable m (wideEntry 0) := by
    unfold ptSetFrame
    rw [modify_wideTable]
    refine congrArg (wideTable m) (funext fun i => ?_)
    unfold wideEntry outEntry
    by_cases hi : i = 0
    · subst hi
      simp
    · simp [hi]
  let act : Activation := ⟨0 * pageSize, wideSeg m, 0, false,
    .fill .zero (smallRam.frameAddr 15) (0 * pageSize) pageSize (fun _ => 0) 0⟩
  let s₂ : VmState := { s₁ with cms := (wideCms.alloc 0 0).2 }
  have halloc : (s₁.setProc 0 ⟨wideSpace m outEntry, [⟨0 * pageSize, wideSeg m, 0, false, .alloc⟩],
      .running⟩).step (.go 0 0) =
      .ok (s₂.setProc 0 ⟨wideSpace m (wideEntry 0), [act], .running⟩) := by
    have hfirst : (wideCms.alloc 0 0).1 = smallRam.frameAddr 15 := by decide
    have hframe : s₁.cms.alloc (0 * pageSize) 0 =
        (smallRam.frameAddr 15, (wideCms.alloc 0 0).2) := by
      rw [Nat.zero_mul]
      exact Prod.ext hfirst rfl
    refine (step_alloc (s := s₁)
      (P := ⟨wideSpace m outEntry, [⟨0 * pageSize, wideSeg m, 0, false, .alloc⟩], .running⟩)
      rfl rfl rfl rfl hframe (smallRam.frameAddr_ne_zero 15)).trans ?_
    refine congrArg (fun P => Except.ok (s₂.setProc 0 P)) ?_
    change Proc.mk ⟨ptSetFrame (wideTable m outEntry) 0 _, [wideSeg m], some 0⟩ [act] .running = _
    rw [htable]
    rfl
  have hreload : (s₂.setProc 0 ⟨wideSpace m (wideEntry 0), [act], .running⟩).step
      (.fault 0 (0 * pageSize)) = .ok { s₂.setProc 0 ⟨wideSpace m (wideEntry 0), [act], .running⟩ with
        tlb := tlbW (tlbFlush wideBoot.tlb) (0 * pageSize) (smallRam.frameAddr 15) 2 } := by
    refine (step_fault_wide (s := s₂.setProc 0 ⟨wideSpace m (wideEntry 0), [act], .running⟩) rfl
      (setProc_self _ _ _) (fun i => page_wideEntry) hm hpos hflush (.inr rfl)).trans ?_
    rw [ite_self]
    rfl
  have hkernel : ∀ k < 15, ((wideCms.alloc 0 0).2.cm.entry k).as = none ∧
      ((wideCms.alloc 0 0).2.cm.entry k).state = .fixed := by decide
  have hframe : (wideCms.alloc 0 0).2.cm.entry 15 = ⟨some 0, 0 * pageSize, .loading, 1, 0 + 2⟩ := by
    decide
  have hstamp : (wideCms.alloc 0 0).2.cm.timestamp = 0 + 3 := by decide
  have hlow : 0 * pageSize < kseg0 := by decide
  have hkalloc : (wideBoot.setProc 0 ⟨wideSpace m outEntry, [], .running⟩).step (.kalloc 14) =
      .ok ({ wideBoot with cms := wideCms }.setProc 0 ⟨wideSpace m outEntry, [], .running⟩) := rfl
  have hswitch : ({ wideBoot with cms := wideCms }.setProc 0
      ⟨wideSpace m outEntry, [], .running⟩).step (.switch (some 0)) =
      .ok (s₁.setProc 0 ⟨wideSpace m outEntry, [], .running⟩) := rfl
  refine ⟨{ s₂.setProc 0 ⟨wideSpace m (wideEntry 0), [act], .running⟩ with
    tlb := tlbW (tlbFlush wideBoot.tlb) (0 * pageSize) (smallRam.frameAddr 15) 2 }, act, ?_, rfl, rfl,
    rfl, ?_⟩
  · have hcreate : wideBoot.step (.create 0) = .ok (wideBoot.setProc 0 ⟨asCreate, [], .running⟩) :=
      rfl
    unfold wideStart
    rw [run_cons_of_ok _ _ hcreate, run_cons_of_ok _ _ hdefine, run_cons_of_ok _ _ hload,
      run_cons_of_ok _ _ hkalloc, run_cons_of_ok _ _ hswitch, run_cons_of_ok _ _ hmiss,
      run_cons_of_ok _ _ halloc, run_cons_of_ok _ _ hreload]
    rfl
  · exact ⟨rfl, setProc_self s₂ 0 ⟨wideSpace m (wideEntry 0), [act], .running⟩, rfl, hkernel,
      hframe, hstamp, fun i hi => rfl,
      oneEntry_tlbW_flush hlow, rfl⟩

/-- The run that fills the swap file, up to the search of `swap_out` in a fault on the first page. -/
def wideRun : List VmAction :=
  wideStart (swapSize + 1) ++ ([.go 0 pageSize, .go 0 0, .go 0 0, .go 0 0] ++
    (touchRuns swapSize ++ [.fault 0 (0 * pageSize), .go 0 0, .go 0 0]))

/-- The region of the run fits below the stack. -/
theorem wide_fits : (swapSize + 1) * pageSize ≤ userspaceTop := by decide

theorem run_wideRun : ∃ s, Wide (swapSize + 1) swapSize .clean [] s ∧
    run VmState.step wideBoot wideRun = .ok (s.wideVictim (swapSize + 1) swapSize 0) := by
  obtain ⟨s₁, act, hs₁, hpage, hseg, hpc, h₁⟩ := run_wideStart wide_fits (Nat.succ_pos swapSize)
  obtain ⟨s₂, hs₂, h₂⟩ := Wide.run_fill hpage hseg hpc h₁ wide_fits (Nat.succ_pos swapSize)
  obtain ⟨s₃, hs₃, h₃⟩ := h₂.run_touchRuns wide_fits (Nat.lt_succ_self swapSize) (le_refl swapSize)
  refine ⟨s₃, h₃, ?_⟩
  unfold wideRun
  rw [run_append_of_ok _ _ hs₁, run_append_of_ok _ _ hs₂, run_append_of_ok _ _ hs₃]
  exact h₃.run_victim wide_fits (Nat.succ_pos swapSize) (by decide)

/-- The run defines one region. -/
theorem along_wideStart (hm : m * pageSize ≤ userspaceTop) (hpos : 0 < m) :
    Along VmState.step DefineApart wideBoot (wideStart m) := by
  have hothers : ∀ a ∈ ([.completeLoad 0 0, .kalloc 14, .switch (some 0), .fault 0 (0 * pageSize),
      .go 0 0, .fault 0 (0 * pageSize)] : List VmAction), ∀ s, DefineApart s a := by
    simp [DefineApart]
  refine ⟨trivial, fun s hs => ⟨fun P hP space hspace => ?_, fun t _ => .of_forall _ hothers⟩⟩
  obtain rfl : wideBoot.setProc 0 ⟨asCreate, [], .running⟩ = s := Except.ok.inj hs
  obtain rfl := Option.some.inj ((setProc_self _ _ _).symm.trans hP)
  rw [define_wide hm hpos] at hspace
  obtain rfl := Option.some.inj hspace
  exact nodup_wideTable fun i => rfl

theorem along_wideRun : Along VmState.step DefineApart wideBoot wideRun := by
  refine Along.append _ (along_wideStart wide_fits (Nat.succ_pos swapSize)) fun t _ =>
    .of_forall _ fun a ha s => ?_
  cases a with
  | defineRegion | defineStack => simp [touchRuns, touchRun] at ha
  | _ => trivial

/-- The fault on the first page is about to take a slot. -/
theorem Wide.swapsOut (h : Wide m p .clean [] s) : SwapsOut (s.wideVictim m p q) 0
    (wideFault m p q (.swapOutFind (p * pageSize) 15 (smallRam.frameAddr 15))) (p * pageSize) :=
  ⟨_, _, 15, smallRam.frameAddr 15, h.cur, setProc_self _ _ _, rfl, rfl, rfl⟩

end WideRun

end Os161
