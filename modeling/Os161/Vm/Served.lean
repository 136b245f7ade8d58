import Os161.Vm.Transparent
import Os161.Vm.Victim

set_option autoImplicit false

/-!
# Faults are served

When nothing else happens, the fault of the running process comes to its end, unless memory or the swap
file is full. So a load of a defined page returns, and it returns the byte of the flat memory.

* `VmAction.Handles`: the steps of the fault handling of one process.
* `Pc.left`: how far a fault is from its end; `Serving.next`: every step brings it nearer.
* **`load_transparent`**: what a load returns, and that it does.
-/

namespace Os161

open Transition Addrspace

/-- The action belongs to the fault handling of the process. -/
def VmAction.Handles (as : AsId) : VmAction → Prop
  | .fault as' _ | .go as' _ => as' = as
  | _ => False

/-- How many kinds of steps a fault may still take. -/
def Pc.left : Pc → ℕ
  | .alloc => 13
  | .evict => 12
  | .swapOutFind _ _ _ => 11
  | .swapOutCopy _ _ _ _ _ _ => 10
  | .swapOutWrite _ _ _ _ _ => 9
  | .update _ _ _ => 8
  | .replace _ _ => 7
  | .swapInFind _ => 6
  | .swapInRead _ _ => 5
  | .fill .zero _ _ _ _ _ => 4
  | .elfRead _ => 3
  | .fill _ _ _ _ _ _ => 2
  | .setClean _ => 1
  | .map _ => 0

/-- Memory or the swap file is full: the next step of the fault is a panic. -/
def Full (s : VmState) (as : AsId) : Prop :=
  s.step (.go as 0) = .error (.panic .cannotFindVictim) ∨
    s.step (.go as 0) = .error (.panic .swapfileFull)

/-- The process runs a loaded program in a transparent state. -/
structure Serving (files : FileId → List UInt8) (m : Flat) (as : AsId) (s : VmState) (P : Proc) :
    Prop where
  shown : TransparentAt files s as m
  cur : s.cur = some as
  proc : s.procs as = some P
  running : P.stage = .running
  loaded : P.space.elfFile ≠ none

section Next

variable {files : FileId → List UInt8} {m : Flat} {s t : VmState} {as : AsId} {P P' : Proc}
  {act : Activation} {n x : ℕ}

/-- A step of the fault handling keeps the flat memory. -/
theorem TransparentAt.of_fault {a : VmAction} (h : TransparentAt files s as m)
    (ha : VmAction.Handles as a) (hser : Serial s a) (hs : s.step a = .ok t) :
    TransparentAt files t as m := by
  have hdef : a.actor = some as → DefineApart s a ∧ Orderly s a := fun _ => by
    cases a with
    | fault => exact ⟨trivial, hser⟩
    | go => exact ⟨trivial, trivial⟩
    | _ => cases ha
  have hstep := transparentAt_step (m := fun _ => m) h hser hdef hs
  cases a with
  | fault | go => exact hstep
  | _ => cases ha

theorem Serving.go (h : Serving files m as s P) (hst : P.stack = [act])
    (hs : s.go as P act [] n = .ok t) (hP' : t.procs as = some P') : Serving files m as t P' := by
  have hstep : s.step (.go as n) = .ok t := (step_go h.cur h.proc h.running hst).trans hs
  refine ⟨h.shown.of_fault (a := .go as n) rfl trivial hstep, ?_, hP', ?_, ?_⟩
  · rw [← h.cur]
    cases goStep_of_go hs <;> rfl
  · cases goStep_of_go hs <;>
    · obtain rfl := Option.some.inj ((setProc_self _ _ _).symm.trans hP')
      exact h.running
  · cases goStep_of_go hs <;>
    · obtain rfl := Option.some.inj ((setProc_self _ _ _).symm.trans hP')
      exact h.loaded

/-- A user address that the TLB maps is translated, if it maps it as it is needed. -/
theorem translate_ok {e : TlbEntry} {w : Bool} (he : s.tlb.lookup (pageFrame x) = some e)
    (hw : w = true → e.dirty = true) : s.translate x w = .ok (e.ppage + pageOffset x) := by
  unfold VmState.translate
  rw [he]
  simp only
  rw [if_neg]
  rintro ⟨hwt, hd⟩
  rw [hw hwt] at hd
  cases hd

/-- What the next step of a fault leads to. -/
def Nearer (as : AsId) (act : Activation) (s t : VmState) (P' : Proc) : Prop :=
  (∃ n, s.step (.go as n) = .ok t) ∧ t.procs as = some P' ∧
    ((∃ act', P'.stack = [act'] ∧ act'.page = act.page ∧ act'.pc.left < act.pc.left) ∨
      P'.stack = [] ∧ (t.tlb.lookup act.page).isSome = true)

/-- The step leads to another point of the fault. -/
theorem Serving.nearer (h : Serving files m as s P) (hst : P.stack = [act]) (P' : Proc) (pc : Pc)
    (hs : s.go as P act [] n = .ok (t.setProc as P'))
    (hst' : P'.stack = [{ act with pc := pc }]) (hlt : pc.left < act.pc.left) :
    ∃ t P', Nearer as act s t P' :=
  ⟨_, P', ⟨n, (step_go h.cur h.proc h.running hst).trans hs⟩, setProc_self _ _ _,
    .inl ⟨_, hst', rfl, hlt⟩⟩

/-- The fault goes on at `pc` with the same page table. -/
theorem Serving.goto (h : Serving files m as s P) (hst : P.stack = [act]) (pc : Pc)
    (hlt : pc.left < act.pc.left) (hs : s.go as P act [] n = .ok (t.setProc as (P.goto act [] pc))) :
    ∃ t P', Nearer as act s t P' :=
  h.nearer hst _ pc hs rfl hlt

theorem left_filled {paddr : ℕ} : (act.filled paddr).left < 7 := by
  unfold Activation.filled
  split_ifs
  · exact Nat.lt_succ_self 6
  · exact (by decide : 4 < 7)

/-- A copy that is done leaves less to do than one that is not. -/
theorem left_copying {what : Fill} {paddr dst len : ℕ} {buf : ℕ → UInt8} {done : ℕ} :
    (act.copying what paddr dst len buf len).left < (Pc.fill what paddr dst len buf done).left := by
  unfold Activation.copying
  rw [if_pos rfl]
  cases what with
  | zero =>
    dsimp only
    split_ifs
    · exact (by decide : 1 < 4)
    · exact Nat.lt_succ_self 3
  | swap | elf => exact Nat.one_lt_two

/-- A copy of program bytes comes after the read. -/
theorem left_copying_elf {paddr dst len done : ℕ} {buf : ℕ → UInt8} :
    (act.copying .elf paddr dst len buf done).left < 3 := by
  unfold Activation.copying
  by_cases hd : done = len
  · rw [if_pos hd]
    exact (by decide : 1 < 3)
  · rw [if_neg hd]
    exact Nat.lt_succ_self 2

/-- **The next step of a fault** whose next address is mapped brings it nearer to its end. -/
theorem Serving.next (h : Serving files m as s P) (hst : P.stack = [act])
    (hready : ∀ x, act.access = some x → (s.tlb.lookup (pageFrame x)).isSome = true) :
    Full s as ∨ ∃ t P', Nearer as act s t P' := by
  have hc := h.shown.coherent
  have hact : act ∈ P.stack := by rw [hst]; exact List.mem_cons_self
  have hhead : P.stack.head? = some act := by rw [hst]; rfl
  have hpc₀ := (hc.placed.fault _ h.proc h.running).pc act hact
  have hslots := hc.placed.slots _ h.proc h.running
  have hshow := (h.shown.shows _ h.proc h.running).pc_of hst
  have hgo := fun n => step_go (n := n) h.cur h.proc h.running hst
  cases hpc : act.pc with
  | alloc =>
    rcases hs : s.cms.alloc act.page as with ⟨paddr, cms⟩
    refine .inr ?_
    by_cases h0 : paddr = 0
    · refine h.goto (n := 0) (t := { s with cms := cms }) hst .evict
        (by rw [hpc]; exact Nat.lt_succ_self 12) ?_
      unfold VmState.go
      simp only [hpc, hs, if_pos h0]
    · refine h.nearer (n := 0) (t := { s with cms := cms }) hst (P.enter act [] paddr)
        (act.filled paddr) ?_ rfl (by rw [hpc]; exact lt_trans left_filled (by decide))
      unfold VmState.go
      simp only [hpc, hs, if_neg h0]
  | evict =>
    cases hs : s.cms.evict as with
    | none => exact .inl (.inl ((hgo 0).trans (go_noVictim_iff.mpr ⟨hpc, hs⟩)))
    | some r =>
      obtain ⟨victim, paddr, pos, cms⟩ := r
      refine .inr (h.goto (n := 0) (t := { s with cms := cms })
        hst (.swapOutFind victim pos paddr) (by rw [hpc]; exact Nat.lt_succ_self 11) ?_)
      unfold VmState.go
      simp only [hpc, hs]
  | swapOutFind victim pos paddr =>
    cases hs : swapOutFind s.sw as victim with
    | none =>
      refine .inl (.inr ((hgo 0).trans ?_))
      unfold VmState.go
      simp only [hpc, hs]
    | some r =>
      obtain ⟨i, sw⟩ := r
      refine .inr (h.goto (n := 0) (t := { s with sw := sw })
        hst (.swapOutCopy victim pos paddr i (fun _ => 0) 0)
        (by rw [hpc]; exact Nat.lt_succ_self 10) ?_)
      unfold VmState.go
      simp only [hpc, hs]
  | swapOutCopy victim pos paddr i buf done =>
    rw [hpc] at hpc₀
    have hlt := hpc₀.2.2.2
    obtain ⟨e, he⟩ := Option.isSome_iff_exists.mp
      (hready (victim + done) (by rw [Activation.access, hpc]))
    have htr := translate_ok (w := false) he (fun hw => by cases hw)
    have hall : done + (pageSize - done) = pageSize := by omega
    refine .inr (h.goto (n := pageSize - done) (t := s) hst (.swapOutWrite victim pos paddr i
      (poke buf done (pageSize - done) fun o => s.mem (e.ppage + pageOffset (victim + done) + o)))
      (by rw [hpc]; exact Nat.lt_succ_self 9) ?_)
    unfold VmState.go
    simp only [hpc, htr]
    rw [require_bind (by omega)]
    simp only [bind, Except.bind, hall, if_true]
    rfl
  | swapOutWrite victim pos paddr i buf =>
    refine .inr (h.goto (n := 0) (t := { s with sw := writePage s.sw i fun o => buf o })
      hst (.update victim pos paddr) (by rw [hpc]; exact Nat.lt_succ_self 8) ?_)
    unfold VmState.go
    simp only [hpc]
  | update victim pos paddr =>
    refine .inr (h.nearer (n := 0) (t := { s with cms := s.cms.updateVaddr as pos act.page }) hst
      (Proc.goto { P with space := { P.space with pt := ptUpdate P.space.pt victim } } act []
        (.replace victim paddr)) (.replace victim paddr) ?_ rfl
      (by rw [hpc]; exact Nat.lt_succ_self 7))
    unfold VmState.go
    simp only [hpc]
  | replace victim paddr =>
    refine .inr (h.nearer (n := 0) (t := { s with tlb := tlbR s.tlb victim act.page paddr }) hst
      (P.enter act [] paddr) (act.filled paddr) ?_ rfl
      (by rw [hpc]; exact left_filled))
    unfold VmState.go
    simp only [hpc]
  | swapInFind paddr =>
    cases hs : swapInFind s.sw as act.page with
    | none =>
      obtain ⟨i, hi, he⟩ := (hslots.held act.page).mpr
        (.inr ⟨act, hhead, by rw [hpc]; rfl⟩)
      exact absurd he (swapInFind_eq_none.mp hs i hi)
    | some r =>
      obtain ⟨i, sw⟩ := r
      refine .inr (h.goto (n := 0) (t := { s with sw := sw })
        hst (.swapInRead paddr i) (by rw [hpc]; exact Nat.lt_succ_self 5) ?_)
      unfold VmState.go
      simp only [hpc, hs]
  | swapInRead paddr i =>
    refine .inr (h.goto (n := 0) (t := s) hst
      (act.copying .swap paddr act.page pageSize (pageBuf (readPage s.sw i)) 0)
      (by rw [hpc]; exact (by decide : 2 < 5)) ?_)
    unfold VmState.go
    simp only [hpc]
    rfl
  | fill what paddr dst len buf done =>
    rw [hpc] at hpc₀ hshow
    have hlt := hpc₀.2.1
    have hlo := Copied.lo hshow
    have hhi := Copied.hi hshow
    have hu := ((hc.placed.fault _ h.proc h.running).found act hact).user
    have hoff : dst + done = act.page + (dst - act.page + done) := by omega
    have hpage : pageFrame (dst + done) = act.page := by
      rw [hoff]
      exact hu.pageFrame_add (by omega)
    have hpos : pageOffset (dst + done) = dst - act.page + done := by
      rw [hoff]
      exact hu.pageOffset_add (by omega)
    obtain ⟨e, he⟩ := Option.isSome_iff_exists.mp
      (hready (dst + done) (by rw [Activation.access, hpc]))
    have hdirty : e.dirty = true := by
      rw [hpage] at he
      have hm := (Tlb.maps_of_lookup he).2
      cases hd : e.dirty with
      | true => rfl
      | false =>
        rw [hd] at hm
        exact absurd hm (h.shown.fillable _ h.proc h.running h.cur act hhead _)
    have htr := translate_ok (w := true) he fun _ => hdirty
    have hall : done + (len - done) = len := by omega
    refine .inr (h.goto (n := len - done)
      (t := { s with
        mem := poke s.mem (e.ppage + pageOffset (dst + done)) (len - done) (fun o => buf (done + o)) })
      hst (act.copying what paddr dst len buf len) (by rw [hpc]; exact left_copying) ?_)
    unfold VmState.go
    simp only [hpc, htr]
    rw [require_bind (by omega)]
    simp only [bind, Except.bind, hall]
    rfl
  | elfRead paddr =>
    obtain ⟨v, hv⟩ := Option.ne_none_iff_exists'.mp h.loaded
    let bytes := elfBytes (s.files v) act.seg act.page (pageNumber P.space act.seg act.j)
    refine .inr (h.goto (n := 0) (t := s) hst (act.copying .elf paddr
      (loadAddress act.seg act.page (pageNumber P.space act.seg act.j)) bytes.length
      (fun o => bytes.getD o 0) 0) (by rw [hpc]; exact left_copying_elf) ?_)
    unfold VmState.go
    simp only [hpc, hv, bytes]
  | setClean paddr =>
    refine .inr (h.goto (n := 0) (t := { s with cms := s.cms.setClean paddr })
      hst (.map paddr) (by rw [hpc]; exact Nat.zero_lt_one) ?_)
    unfold VmState.go
    simp only [hpc]
  | map paddr =>
    refine .inr ⟨({ s with tlb := tlbW s.tlb act.page paddr act.seg.write }).setProc as
      { P with stack := [] }, _, ⟨0, (hgo 0).trans ?_⟩, setProc_self _ _ _, .inr ⟨rfl, ?_⟩⟩
    · unfold VmState.go
      simp only [hpc]
    · change ((tlbW s.tlb act.page paddr act.seg.write).lookup act.page).isSome = true
      rw [lookup_tlbW _ _ _ h.shown.own.next]
      rfl

end Next

/-! ## Whole faults -/

section Whole

variable {files : FileId → List UInt8} {m : Flat} {s t : VmState} {as : AsId} {P : Proc}
  {act : Activation} {a x : ℕ}

/-- A fault accesses a page in memory. -/
theorem Serving.access (h : Serving files m as s P) (hst : P.stack = [act])
    (hacc : act.access = some x) : x < userspaceTop ∧ ∃ f, P.space.InMem (pageFrame x) f := by
  have hok := h.shown.coherent.placed.fault _ h.proc h.running
  have hact : act ∈ P.stack := by rw [hst]; exact List.mem_cons_self
  have hpc₀ := hok.pc act hact
  have hu := (hok.found act hact).user
  have hshow := (h.shown.shows _ h.proc h.running).pc_of hst
  have htop : ∀ {v o : ℕ}, UserPage v → o < pageSize → v + o < userspaceTop := fun {v o} hv ho => by
    obtain ⟨⟨q, rfl⟩, hlt⟩ := hv
    unfold userspaceTop kseg0 pageSize at *
    omega
  unfold Activation.access at hacc
  split at hacc
  · next hpc =>
    obtain rfl := Option.some.inj hacc
    rw [hpc] at hpc₀
    obtain ⟨-, hin, hv, hlt⟩ := hpc₀
    exact ⟨htop hv hlt, _, by rw [hv.pageFrame_add hlt]; exact hin⟩
  · next what paddr dst len buf done hpc =>
    obtain rfl := Option.some.inj hacc
    rw [hpc] at hpc₀ hshow
    have hlt := hpc₀.2.1
    have hlo := Copied.lo hshow
    have hhi := Copied.hi hshow
    have ho : dst - act.page + done < pageSize := by omega
    rw [show dst + done = act.page + (dst - act.page + done) by omega, hu.pageFrame_add ho]
    exact ⟨htop hu ho, _, hpc₀.1⟩
  · cases hacc

/-- A fault on a page in memory maps it. -/
theorem Serving.reload {f : ℕ} (h : Serving files m as s P) (hx : x < userspaceTop)
    (hmiss : s.tlb.lookup (pageFrame x) = none) (hin : P.space.InMem (pageFrame x) f)
    (hst : P.stack = [] ∨ P.stack.head?.bind Activation.access = some x) :
    ∃ u, s.step (.fault as x) = .ok { s with tlb := u } ∧ (u.lookup (pageFrame x)).isSome = true := by
  obtain ⟨j, pte, hj, hpte, hmem, -⟩ := hin
  obtain ⟨seg, hseg, hj⟩ := lookup_eq_some.mp hj
  refine ⟨tlbW s.tlb (pageFrame x) pte.frame
    (if cmCheckState s.cms.cm pte.frame .loading then 2 else seg.write), ?_, ?_⟩
  · have hstep : s.step (.fault as x) = (s.current as >>= fun P =>
        require (x < userspaceTop ∧ (s.tlb.lookup (pageFrame x)).isNone = true ∧
          (P.stack.isEmpty = true ∨ P.stack.head?.bind Activation.access = some x)) >>=
        fun _ => s.fault as P x) := rfl
    rw [hstep, current_ok h.cur h.proc h.running]
    refine (require_bind ⟨hx, by rw [hmiss]; rfl, hst.imp_left List.isEmpty_iff.mpr⟩).trans ?_
    unfold VmState.fault
    simp only [hseg, hj, hpte, hmem, if_true]
  · rw [lookup_tlbW _ _ _ h.shown.own.next]
    rfl

/-- The others have no fault while this process has one. -/
theorem Serving.alone (h : Serving files m as s P) (hst : P.stack ≠ []) :
    Serial s (.fault as x) := fun as' Q hne hQ => by
  by_contra hc
  exact hne (h.shown.serial _ _ _ _ hQ h.proc hc hst)

/-- A mapping that is entered leaves the process as it is. -/
theorem Serving.withTlb {u : Tlb} (h : Serving files m as s P) (hser : Serial s (.fault as x))
    (hs : s.step (.fault as x) = .ok { s with tlb := u }) :
    Serving files m as { s with tlb := u } P :=
  ⟨h.shown.of_fault (a := .fault as x) rfl hser hs, h.cur, h.proc, h.running, h.loaded⟩

/-- **The next address of a fault becomes mapped**, by a fault on its page if it is not. -/
theorem Serving.ready (h : Serving files m as s P) (hst : P.stack = [act]) :
    ∃ acts t, (∀ a ∈ acts, VmAction.Handles as a) ∧ run VmState.step s acts = .ok t ∧
      Serving files m as t P ∧
      ∀ x, act.access = some x → (t.tlb.lookup (pageFrame x)).isSome = true := by
  cases hacc : act.access with
  | none => exact ⟨[], s, by simp, rfl, h, fun x hx => by cases hx⟩
  | some x =>
    cases hlook : s.tlb.lookup (pageFrame x) with
    | some e =>
      refine ⟨[], s, by simp, rfl, h, fun y hy => ?_⟩
      obtain rfl := Option.some.inj hy
      rw [hlook]
      rfl
    | none =>
      obtain ⟨hx, f, hin⟩ := h.access hst hacc
      have hstack : P.stack.head?.bind Activation.access = some x := by
        rw [hst]
        exact hacc
      obtain ⟨u, hs, hu⟩ := h.reload hx hlook hin (.inr hstack)
      have hser : Serial s (.fault as x) := h.alone (by rw [hst]; exact List.cons_ne_nil _ _)
      refine ⟨[.fault as x], _, by simp [VmAction.Handles], run_cons_of_ok _ _ hs,
        h.withTlb hser hs, fun y hy => ?_⟩
      obtain rfl := Option.some.inj hy
      exact hu

/-- **A fault comes to its end**, unless memory or the swap file is full. -/
theorem Serving.served : ∀ {n : ℕ} {s : VmState} {P : Proc} {act : Activation},
    Serving files m as s P → P.stack = [act] → act.pc.left = n →
    ∃ acts t, (∀ a ∈ acts, VmAction.Handles as a) ∧ run VmState.step s acts = .ok t ∧
      (Full t as ∨ ∃ P', Serving files m as t P' ∧ P'.stack = [] ∧
        (t.tlb.lookup act.page).isSome = true) := by
  intro n
  induction n using Nat.strong_induction_on with
  | _ n ih =>
    rintro s P act h hst rfl
    obtain ⟨acts, t, hacts, ht, h₁, hready⟩ := h.ready hst
    rcases h₁.next hst hready with hfull | ⟨u, P', ⟨k, hu⟩, hP', hcase⟩
    · exact ⟨acts, t, hacts, ht, .inl hfull⟩
    have h₂ := h₁.go hst ((step_go h₁.cur h₁.proc h₁.running hst).symm.trans hu) hP'
    have hrun : run VmState.step s (acts ++ [.go as k]) = .ok u :=
      (run_append_of_ok _ _ ht).trans (run_cons_of_ok _ _ hu)
    have hall : ∀ a ∈ acts ++ [.go as k], VmAction.Handles as a := fun a ha => by
      rcases List.mem_append.mp ha with ha | ha
      · exact hacts a ha
      · rw [List.mem_singleton.mp ha]
        rfl
    rcases hcase with ⟨act', hst', hpage, hlt⟩ | ⟨hnil, hmap⟩
    · obtain ⟨acts', t', hacts', ht', hend⟩ := ih _ hlt h₂ hst' rfl
      refine ⟨(acts ++ [.go as k]) ++ acts', t', fun a ha => ?_,
        (run_append_of_ok _ _ hrun).trans ht', by rw [← hpage]; exact hend⟩
      exact (List.mem_append.mp ha).elim (hall a) (hacts' a)
    · exact ⟨_, u, hall, hrun, .inr ⟨P', h₂, hnil, hmap⟩⟩

/-- A load of a mapped page returns the byte of the flat memory. -/
theorem Serving.load (h : Serving files m as s P) (hst : P.stack = []) (ha : a < userspaceTop)
    (hmap : (s.tlb.lookup (pageFrame a)).isSome = true) :
    s.step (.load as a (m.byte files a)) = .ok s := by
  obtain ⟨e, he⟩ := Option.isSome_iff_exists.mp hmap
  have htr := translate_ok (w := false) he (fun hw => by cases hw)
  have hload : ∀ b, s.mem (e.ppage + pageOffset a) = b → s.step (.load as a b) = .ok s := fun b hb => by
    have hstep : s.step (.load as a b) = (s.current as >>= fun P =>
        require (P.stack.isEmpty = true ∧ a < userspaceTop) >>= fun _ =>
          s.translate a false >>= fun pa => require (s.mem pa = b) >>= fun _ => .ok s) := rfl
    rw [hstep, current_ok h.cur h.proc h.running]
    refine (require_bind ⟨List.isEmpty_iff.mpr hst, ha⟩).trans ?_
    rw [htr]
    exact require_bind hb
  have hs := hload _ rfl
  rwa [h.shown.load hs] at hs

/-- The page table entry of a page of the page table. -/
theorem Serving.entry (h : Serving files m as s P) (hp : pageFrame a ∈ P.space.pages) :
    ∃ seg j pte, findSegment P.space (pageFrame a) = some seg ∧
      findPte P.space seg (pageFrame a) = some j ∧ P.space.pt[j]? = some pte := by
  have hl := (h.shown.own.proc _ _ h.proc).linked
  obtain ⟨seg, hseg⟩ := Option.ne_none_iff_exists'.mp
    ((h.shown.shows _ h.proc h.running).describes.findSegment_of_mem hl hp)
  obtain ⟨j, hj⟩ := Option.ne_none_iff_exists'.mp (findPte_ne_none hl (pageFrame_dvd a) hseg)
  obtain ⟨-, -, pte, hpte, -⟩ := findPte_some hj
  exact ⟨seg, j, pte, hseg, hj, hpte⟩

/-- **A load of a defined page returns**, after a fault if the page is not mapped, and it returns the
byte of the flat memory, unless memory or the swap file is full. -/
theorem Serving.returns (h : Serving files m as s P) (hst : P.stack = []) (ha : a < userspaceTop)
    (hp : pageFrame a ∈ P.space.pages) (hser : Serial s (.fault as a)) :
    ∃ acts t, (∀ a ∈ acts, VmAction.Handles as a) ∧ run VmState.step s acts = .ok t ∧
      (t.step (.load as a (m.byte files a)) = .ok t ∨ Full t as) := by
  cases hlook : s.tlb.lookup (pageFrame a) with
  | some e => exact ⟨[], s, by simp, rfl, .inl (h.load hst ha (by rw [hlook]; rfl))⟩
  | none =>
    obtain ⟨seg, j, pte, hseg, hj, hpte⟩ := h.entry hp
    cases hin : pte.inMem with
    | true =>
      obtain ⟨u, hs, hu⟩ := h.reload ha hlook
        ⟨j, pte, lookup_eq_some.mpr ⟨seg, hseg, hj⟩, hpte, hin, rfl⟩ (.inl hst)
      exact ⟨[.fault as a], _, by simp [VmAction.Handles], run_cons_of_ok _ _ hs,
        .inl ((h.withTlb hser hs).load hst ha hu)⟩
    | false =>
      let P' : Proc := { P with stack := [⟨pageFrame a, seg, j, pte.inSwap, .alloc⟩] }
      have hs : s.step (.fault as a) = .ok (s.setProc as P') := by
        have hstep : s.step (.fault as a) = (s.current as >>= fun P =>
            require (a < userspaceTop ∧ (s.tlb.lookup (pageFrame a)).isNone = true ∧
              (P.stack.isEmpty = true ∨ P.stack.head?.bind Activation.access = some a)) >>=
            fun _ => s.fault as P a) := rfl
        rw [hstep, current_ok h.cur h.proc h.running]
        refine (require_bind ⟨ha, by rw [hlook]; rfl, .inl (List.isEmpty_iff.mpr hst)⟩).trans ?_
        unfold VmState.fault
        simp only [hseg, hj, hpte, hin, hst]
        rfl
      have h' : Serving files m as (s.setProc as P') P' :=
        ⟨h.shown.of_fault (a := .fault as a) rfl hser hs, h.cur, setProc_self _ _ _,
          h.running, h.loaded⟩
      obtain ⟨acts, t, hacts, ht, hend⟩ := h'.served rfl rfl
      refine ⟨.fault as a :: acts, t, fun y hy => ?_, (run_cons_of_ok _ _ hs).trans ht, ?_⟩
      · rcases List.mem_cons.mp hy with rfl | hy
        · rfl
        · exact hacts y hy
      · rcases hend with hfull | ⟨Q, hQ, hnil, hmap⟩
        · exact .inr hfull
        · exact .inl (hQ.load hnil ha hmap)

end Whole

section Run

variable {ram : RamLayout} {garbage : ℕ → CmEntry} {file mem : ℕ → UInt8}
  {files : FileId → List UInt8} {acts : List VmAction} {s : VmState}

/-- **Virtual memory is transparent.** Whatever the steps before were, a load returns the last byte that
was stored to its address, or the initial byte if none was; and a load of a page of a loaded program
does return, when no other process has a fault in progress, unless the kernel panics because memory or
the swap file is full. -/
theorem load_transparent
    (hdef : Along VmState.step (fun s a => DefineApart s a ∧ Orderly s a)
      (VmState.boot ram garbage file mem files) acts)
    (h : run VmState.step (VmState.boot ram garbage file mem files) acts = .ok s) :
    (∀ as a b s', s.step (.load as a b) = .ok s' →
      b = ((flatRun acts as).stored a).getD ((flatRun acts as).initial files a)) ∧
    ∀ as P a, s.cur = some as → s.procs as = some P → P.stage = .running → P.stack = [] →
      P.space.elfFile ≠ none → (∀ as' Q, s.procs as' = some Q → Q.stack = []) →
      a < userspaceTop → pageFrame a ∈ P.space.pages →
      ∃ acts' t, (∀ x ∈ acts', VmAction.Handles as x) ∧ run VmState.step s acts' = .ok t ∧
        (t.step (.load as a
            (((flatRun acts as).stored a).getD ((flatRun acts as).initial files a))) = .ok t ∨
          Full t as) := by
  have hshown := transparent_run hdef h
  refine ⟨fun as a b s' hs => (hshown.transparentAt as).load hs,
    fun as P a hcur hP hrun hst helf hidle ha hp => ?_⟩
  have hserve : Serving files (flatRun acts as) as s P :=
    ⟨hshown.transparentAt as, hcur, hP, hrun, helf⟩
  exact hserve.returns hst ha hp fun as' Q _ hQ => hidle as' Q hQ

/-! ## A page goes to the swap file and comes back -/

/-- The action is about no other address space. -/
def VmAction.Alone (as : AsId) (a : VmAction) : Bool := a.actor = none || a.actor = some as

/-- The action is no part of the loading of a program. -/
def VmAction.Runs : VmAction → Bool
  | .defineRegion _ _ _ _ _ _ _ _ | .completeLoad _ _ => false
  | _ => true

section Alone

variable {s t : VmState} {as : AsId} {acts : List VmAction} {a : VmAction}

theorem alone_step (h : Own s ∧ ∀ as' ≠ as, s.procs as' = none) (ha : a.Alone as = true)
    (hs : s.step a = .ok t) : Own t ∧ ∀ as' ≠ as, t.procs as' = none := by
  have hstep := vmStep_of_step hs
  refine ⟨own_step h.1 hstep, fun as' hne => ?_⟩
  have hact : a.actor ≠ some as' := fun he => by
    simp only [VmAction.Alone, he, Bool.or_eq_true, decide_eq_true_eq] at ha
    exact hne (Option.some.inj (ha.resolve_left (Option.some_ne_none _)))
  exact (agree_of_vmStep h.1 hstep hact).procs.trans (h.2 as' hne)

/-- With one process, faults are serviced one at a time. -/
theorem along_alone (hown : Own s) (h : ∀ as' ≠ as, s.procs as' = none)
    (hacts : ∀ a ∈ acts, a.Alone as = true ∧ a.Runs = true) :
    Along VmState.step Orderly s acts := by
  refine Along.of_inv VmState.step (fun s a t hs ha ht => alone_step hs ha.1 ht)
    (fun s a hs ha => ?_) ⟨hown, h⟩ hacts
  cases a with
  | fault b x =>
    have hb : b = as := by simpa [VmAction.Alone, VmAction.actor] using ha.1
    intro as' P hne hP
    rw [hs.2 as' (fun he => hne (he.trans hb.symm))] at hP
    cases hP
  | defineRegion | completeLoad => cases ha.2
  | _ => trivial

end Alone

/-- With one frame and two pages: the first page is written, the second one drives it out, and a fault on
the first one brings it back. -/
def swapRun : List VmAction :=
  wideStart 2 ++ [.go 0 pageSize, .go 0 0, .go 0 0, .go 0 0, .store 0 5 7,
    .fault 0 pageSize, .go 0 0, .go 0 0, .go 0 0, .go 0 pageSize, .go 0 0, .go 0 0, .go 0 0,
    .go 0 pageSize, .go 0 0, .go 0 0, .go 0 0,
    .fault 0 0, .go 0 0, .go 0 0, .go 0 0, .go 0 pageSize, .go 0 0, .go 0 0, .go 0 0,
    .go 0 0, .go 0 0, .go 0 pageSize, .go 0 0, .go 0 0]

theorem along_swapRun :
    Along VmState.step (fun s a => DefineApart s a ∧ Orderly s a) wideBoot swapRun := by
  refine Along.and _ (Along.append _ (along_wideStart (by decide) (by decide)) fun t _ =>
    .of_forall _ (by simp [DefineApart])) ?_
  refine ⟨trivial, fun t₁ h₁ => ⟨⟨by decide, by decide, by decide, by decide⟩, fun t₂ h₂ =>
    ⟨fun P hP => ?_, fun t₃ h₃ => ?_⟩⟩⟩
  · obtain rfl := Except.ok.inj h₁
    obtain rfl := Except.ok.inj h₂
    obtain rfl := Option.some.inj hP
    unfold Proc.Untouched
    decide
  · have h₀ : Own wideBoot ∧ ∀ as' ≠ 0, wideBoot.procs as' = none := ⟨own_boot, fun _ _ => rfl⟩
    obtain ⟨hown, hnone⟩ := alone_step (alone_step (alone_step h₀ rfl h₁) rfl h₂) rfl h₃
    exact along_alone hown hnone (by decide)

theorem load_transparent_swapRun : ∃ s, run VmState.step wideBoot swapRun = .ok s ∧
    (∀ b s', s.step (.load 0 5 b) = .ok s' → b = 7) ∧
    ∃ acts t, run VmState.step s acts = .ok t ∧
      (t.step (.load 0 5 7) = .ok t ∨ Full t 0) := by
  obtain ⟨s, P, hs, hcur, hP, hrun, hst, helf, hpage⟩ : ∃ s P,
      run VmState.step wideBoot swapRun = .ok s ∧ s.cur = some 0 ∧ s.procs 0 = some P ∧
      P.stage = .running ∧ P.stack = [] ∧ P.space.elfFile = some 0 ∧ pageFrame 5 ∈ P.space.pages :=
    ⟨_, _, rfl, rfl, rfl, rfl, rfl, rfl, by decide⟩
  have halone : ∀ a ∈ swapRun, a.Alone 0 = true := by decide
  obtain ⟨-, hnone⟩ := run_inv_along VmState.step (fun _ _ _ h ha ht => alone_step h ha ht)
    ⟨own_boot, fun _ _ => rfl⟩ (.of_forall _ fun a ha _ => halone a ha) hs
  have hidle : ∀ as' Q, s.procs as' = some Q → Q.stack = [] := fun as' Q hQ => by
    by_cases hne : as' = 0
    · subst hne
      obtain rfl := Option.some.inj (hP.symm.trans hQ)
      exact hst
    · rw [hnone as' hne] at hQ
      cases hQ
  obtain ⟨hload, hreturn⟩ := load_transparent along_swapRun hs
  obtain ⟨acts, t, -, ht, hend⟩ := hreturn 0 P 5 hcur hP hrun hst
    (by rw [helf]; exact Option.some_ne_none _) hidle (by decide) hpage
  exact ⟨s, hs, hload 0 5, acts, t, ht, hend⟩

end Run

end Os161
