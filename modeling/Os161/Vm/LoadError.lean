import Os161.Vm.Lookup
import Os161.Vm.Owner

set_option autoImplicit false

/-!
# A load that fails

`vm_fault` calls `load_page_from_elf` and drops its result. The machine is run here with that result
beside each fault: a short read, a copy that user memory refuses, or an error of the disk after any
number of bytes.

* `LoadState.step`: the machine with the results; `LoadState.returned`: what `vm_fault` returns.
* `LoadFailureHandled`: what an error path would have to reach.
* **`not_loadFailureHandled`**: no fault whose load fails reaches it. It returns `0`, its page is
  `CLEAN` in the coremap, and the TLB maps it.
-/

namespace Os161

open Transition

/-- What `load_page_from_elf` returns besides `0`. -/
inductive LoadErrno
  | enoexec
  | efault
  | eio
  deriving DecidableEq, Repr

/-- The result of `load_page_from_elf` for page `i` at `fa`, if the disk has no error and the copy
meets no unmapped page; `none` is `0`. -/
def loadResult (file : List UInt8) (seg : SegmentEntry) (fa i : ℕ) : Option LoadErrno :=
  let b := vopRead file (computeOffset seg.offset.toNat i) (computeMemsz seg i)
  if copycheck (loadAddress seg fa i) b.length = false then some .efault
  else if b.length < computeMemsz seg i then some .enoexec
  else none

/-- The machine, and for each address space and each depth of its stack of faults what
`load_page_from_elf` returned there. -/
structure LoadState where
  vm : VmState
  loads : AsId → ℕ → Option LoadErrno

/-- A step of the machine, or a disk error after `m` bytes of the read of a fault. -/
inductive LoadAction
  | vm (a : VmAction)
  | readError (as : AsId) (m : ℕ)

/-- `load_page_from_elf` returns `r` in the fault at depth `d`. -/
def setLoad (loads : AsId → ℕ → Option LoadErrno) (as : AsId) (d : ℕ) (r : Option LoadErrno) :
    AsId → ℕ → Option LoadErrno :=
  Function.update loads as (Function.update (loads as) d r)

/-- The results after a step. A new fault has none yet, and a TLB miss that is refused is an `EFAULT`
of the copy that it interrupted. -/
def loadsAfter (s : VmState) (loads : AsId → ℕ → Option LoadErrno) :
    VmAction → AsId → ℕ → Option LoadErrno
  | .fault as a =>
    match s.procs as with
    | none => loads
    | some P =>
      if (P.space.lookup (pageFrame a)).isSome then setLoad loads as P.stack.length none
      else setLoad loads as (P.stack.length - 1) (some .efault)
  | .go as _ =>
    match (s.procs as).map fun P => (P, P.stack) with
    | some (P, act :: rest) =>
      match act.pc, P.space.elfFile with
      | .elfRead _, some v =>
        setLoad loads as rest.length
          (loadResult (s.files v) act.seg act.page (pageNumber P.space act.seg act.j))
      | _, _ => loads
    | _ => loads
  | _ => loads

/-- The bytes that arrive before the disk error, and how the innermost fault goes on. -/
def VmState.readError (s : VmState) (as : AsId) (P : Proc) (act : Activation)
    (rest : List Activation) (m : ℕ) : Except Stop VmState :=
  match act.pc, P.space.elfFile with
  | .elfRead paddr, some v =>
    let i := pageNumber P.space act.seg act.j
    let bytes := (elfBytes (s.files v) act.seg act.page i).take m
    .ok (s.setProc as (P.goto act rest (act.copying .elf paddr (loadAddress act.seg act.page i)
      bytes.length (fun o => bytes.getD o 0) 0)))
  | _, _ => .error .blocked

namespace LoadState

/-- After the boot. -/
def boot (ram : RamLayout) (garbage : ℕ → CmEntry) (file mem : ℕ → UInt8)
    (files : FileId → List UInt8) : LoadState :=
  ⟨VmState.boot ram garbage file mem files, fun _ _ => none⟩

/-- A step. -/
def step (t : LoadState) : LoadAction → Except Stop LoadState
  | .vm a => do
    let s ← t.vm.step a
    return ⟨s, loadsAfter t.vm t.loads a⟩
  | .readError as m => do
    let P ← t.vm.current as
    match P.stack with
    | [] => .error .blocked
    | act :: rest => do
      let s ← t.vm.readError as P act rest m
      return ⟨s, setLoad t.loads as rest.length (some .eio)⟩

end LoadState

/-- A call of `vm_fault` that returns: its page, what `load_page_from_elf` returned in it, and what
it returns itself. -/
structure FaultReturn where
  as : AsId
  page : ℕ
  load : Option LoadErrno
  result : Option LoadErrno
  deriving DecidableEq, Repr

/-- The call of `vm_fault` that returns in a step: `EFAULT` when the page is not found, `0` after a
reload and after the last step of a fault. -/
def LoadState.returned (t : LoadState) : LoadAction → Option FaultReturn
  | .vm (.fault as a) =>
    match t.vm.procs as with
    | none => none
    | some P =>
      match (P.space.lookup (pageFrame a)).bind fun j => P.space.pt[j]? with
      | none => some ⟨as, pageFrame a, none, some .efault⟩
      | some pte => if pte.inMem then some ⟨as, pageFrame a, none, none⟩ else none
  | .vm (.go as _) =>
    match (t.vm.procs as).map fun P => P.stack with
    | some (act :: rest) =>
      match act.pc with
      | .map _ => some ⟨as, act.page, t.loads as rest.length, none⟩
      | _ => none
    | _ => none
  | _ => none

/-- A touch of the page starts to load it from the executable. -/
def VmState.LoadsOnTouch (s : VmState) (as : AsId) (page : ℕ) : Prop :=
  s.tlb.lookup page = none ∧ ∀ a s', pageFrame a = page → s.step (.fault as a) = .ok s' →
    ∃ P act rest, s'.procs as = some P ∧ P.stack = act :: rest ∧ act.page = page ∧
      act.inSwap = false

/-- **A failed load is handled**: `vm_fault` returns an error and leaves the page as if it had never
been touched. -/
structure LoadFailureHandled (r : FaultReturn) (s : VmState) : Prop where
  error : r.result ≠ none
  notClean : ∀ k, s.cms.tag k ≠ some (r.as, r.page, .clean)
  notMapped : ∀ f d, ¬ s.tlb.Maps r.page f d
  retried : s.LoadsOnTouch r.as r.page

/-- The machine keeps to its frames, and a fault that is about to map its page has marked its frame
`CLEAN`. -/
structure LoadInv (s : VmState) : Prop where
  own : Own s
  clean : ∀ as P, s.procs as = some P → ∀ act ∈ P.stack, ∀ paddr, act.pc = .map paddr →
    ∃ k, paddr = s.cms.cm.ram.frameAddr k ∧ s.cms.tag k = some (as, act.page, .clean)

section Lemmas

variable {s s' : VmState} {as : AsId} {P P' : Proc} {act act' : Activation}
  {rest : List Activation} {paddr : ℕ} {a : VmAction}

/-- The step of a fault returns, or goes on; it is about to map its page after `setClean` only. -/
theorem map_of_goStep (h : GoStep s as P act rest s') (hP' : s'.procs as = some P')
    (hact : act' ∈ P'.stack) (hpc : act'.pc = .map paddr) :
    act' ∈ rest ∨ act.pc = .setClean paddr ∧ s'.cms = s.cms.setClean paddr ∧
      act'.page = act.page := by
  have hgoto : ∀ {t : VmState} {Q : Proc} {pc : Pc}, pc.phase ≠ .loaded paddr →
      Q.stack = { act with pc := pc } :: rest → (t.setProc as Q).procs as = some P' →
      act' ∈ rest := by
    intro t Q pc hne hQ hP'
    obtain rfl := Option.some.inj ((setProc_self _ _ _).symm.trans hP')
    rw [hQ] at hact
    rcases List.mem_cons.mp hact with rfl | hact
    · exact absurd (congrArg Pc.phase hpc) hne
    · exact hact
  cases h with
  | @setClean paddr' hpc' =>
    obtain rfl := Option.some.inj ((setProc_self _ _ _).symm.trans hP')
    rcases List.mem_cons.mp hact with rfl | hact
    · obtain rfl := Pc.map.inj hpc
      exact .inr ⟨hpc', rfl, rfl⟩
    · exact .inl hact
  | map hpc' =>
    obtain rfl := Option.some.inj ((setProc_self _ _ _).symm.trans hP')
    exact .inl hact
  | alloc | replace => exact .inl (hgoto (by simp) rfl hP')
  | fill | elfRead => exact .inl (hgoto (by simp) rfl hP')
  | full => exact .inl (@hgoto _ _ .evict Phase.noConfusion rfl hP')
  | evict | swapOutFind | swapOutCopy | swapOutCopied | swapOutWrite | update | swapInFind
  | swapInRead => exact .inl (hgoto (by simp [Pc.phase]) rfl hP')

/-- Below the innermost fault nothing is about to be mapped. -/
theorem ProcOwn.not_map_of_mem_rest {c : CmSys} {sw : SwapSpace} (h : ProcOwn c sw as P)
    (hst : P.stack = act :: rest) (hr : act' ∈ rest) : act'.pc ≠ .map paddr := by
  intro hpc
  have := h.tail act' (by rw [hst]; exact hr)
  unfold Activation.access at this
  rw [hpc] at this
  cases this

/-- **Every step** keeps it. -/
theorem loadInv_vmStep (h : LoadInv s) (hstep : VmStep s a s') : LoadInv s' := by
  refine ⟨own_step h.own hstep, fun as P' hP' r hr paddr hpc => ?_⟩
  have hnil : ∀ {Q : Proc}, Q.stack = [] → r ∉ Q.stack := fun hQ hr => by
    rw [hQ] at hr
    cases hr
  by_cases hact : a.actor = some as
  swap
  · have hag := agree_of_vmStep h.own hstep hact
    obtain ⟨k, hk, ht⟩ := h.clean as P' (hag.procs.symm.trans hP') r hr paddr hpc
    exact ⟨k, by rw [hag.ram]; exact hk, (hag.tag _ _ _).mpr ht⟩
  cases hstep with
  | create =>
    cases hact
    obtain rfl := Option.some.inj ((setProc_self _ _ _).symm.trans hP')
    cases hr
  | defineRegion _ _ hst | defineStack _ _ hst | completeLoad _ _ hst | exitCm _ _ _ hst =>
    cases hact
    obtain rfl := Option.some.inj ((setProc_self _ _ _).symm.trans hP')
    exact absurd hr (hnil hst)
  | @exitSwap _ P _ _ hP hstage =>
    cases hact
    obtain rfl := Option.some.inj ((setProc_self _ _ _).symm.trans hP')
    have hidle := (h.own.proc _ P hP).idle (by rw [hstage]; exact Stage.noConfusion)
    exact absurd hr (hnil hidle.1)
  | exitDone =>
    cases hact
    cases (Function.update_self as none s.procs).symm.trans hP'
  | load | store => exact h.clean as P' hP' r hr paddr hpc
  | @fault _ P _ _ _ hP _ _ _ _ hf =>
    cases hact
    cases hf with
    | reload => exact h.clean as P' hP' r hr paddr hpc
    | push =>
      obtain rfl := Option.some.inj ((setProc_self _ _ _).symm.trans hP')
      rcases List.mem_cons.mp hr with rfl | hr
      · cases hpc
      · exact h.clean as P hP r hr paddr hpc
    | abort hst =>
      obtain rfl := Option.some.inj ((setProc_self _ _ _).symm.trans hP')
      rcases List.mem_cons.mp hr with rfl | hr
      · cases hpc
      · exact absurd hpc ((h.own.proc _ P hP).not_map_of_mem_rest hst hr)
  | @go _ P act rest _ _ _ hP _ hst hgo =>
    cases hact
    have hown := h.own.proc as P hP
    rcases map_of_goStep hgo hP' hr hpc with hrest | ⟨hact, hcms, hpage⟩
    · exact absurd hpc (hown.not_map_of_mem_rest hst hrest)
    · have hf := hown.acts act (by rw [hst]; exact List.mem_cons_self)
      rw [hact] at hf
      obtain ⟨k, rfl, ht⟩ := hf
      refine ⟨k, by rw [hcms]; rfl, ?_⟩
      rw [hcms, CmSys.tag_setClean ht, if_pos rfl, hpage]
  | _ => cases hact

/-- A read that ends after `m` bytes. -/
theorem vopRead_take (file : List UInt8) (offset n m : ℕ) :
    vopRead (file.take (offset + m)) offset n = (vopRead file offset n).take m := by
  unfold vopRead
  split_ifs
  · exact List.take_nil.symm
  · rw [List.drop_take, Nat.add_sub_cancel_left, List.take_take, List.take_take, Nat.min_comm]

/-- **The bytes before a disk error** are those of a shorter file. -/
theorem exists_elfBytes_take (file : List UInt8) (seg : SegmentEntry) (fa i m : ℕ) :
    ∃ file', elfBytes file' seg fa i = (elfBytes file seg fa i).take m := by
  unfold elfBytes loadPageFromElf
  simp only
  split_ifs with hcheck
  · refine ⟨file.take (computeOffset seg.offset.toNat i + m), ?_⟩
    rw [vopRead_take, if_pos]
    unfold copycheck at hcheck ⊢
    rw [decide_eq_true_eq] at hcheck ⊢
    have := List.length_take_le' m (vopRead file (computeOffset seg.offset.toNat i)
      (min (computeMemsz seg i) (computeMemsz seg i)))
    omega
  · exact ⟨file, by rw [if_neg hcheck, List.take_nil]⟩

/-- **A disk error** keeps it. -/
theorem loadInv_readError {m : ℕ} (h : LoadInv s) (hcur : s.current as = .ok P)
    (hst : P.stack = act :: rest) (hs : s.readError as P act rest m = .ok s') : LoadInv s' := by
  unfold VmState.readError at hs
  split at hs
  · next paddr v hpc hv =>
    obtain ⟨hc, hP, hrun⟩ := current_eq_ok hcur
    obtain rfl := Except.ok.inj hs
    obtain ⟨file', hb⟩ := exists_elfBytes_take (s.files v) act.seg act.page
      (pageNumber P.space act.seg act.j) m
    -- the same step on a machine with shorter files
    have hstep : VmStep { s with files := fun _ => file' } (.go as 0) _ :=
      .go hc hP hrun hst (.elfRead hpc hv hb.symm)
    have hinv := loadInv_vmStep (s := { s with files := fun _ => file' })
      ⟨⟨h.own.cm, h.own.gone, h.own.proc, h.own.maps, h.own.cur, h.own.next⟩, h.clean⟩ hstep
    exact ⟨⟨hinv.own.cm, hinv.own.gone, hinv.own.proc, hinv.own.maps, hinv.own.cur, hinv.own.next⟩,
      hinv.clean⟩
  · cases hs

theorem loadInv_step {t t' : LoadState} {a : LoadAction} (h : LoadInv t.vm)
    (hstep : t.step a = .ok t') : LoadInv t'.vm := by
  cases a with
  | vm a =>
    obtain ⟨s, hs, ht⟩ := bind_eq_ok.mp hstep
    obtain rfl := Except.ok.inj ht
    exact loadInv_vmStep h (vmStep_of_step hs)
  | readError as m =>
    obtain ⟨P, hP, ht⟩ := bind_eq_ok.mp hstep
    split at ht
    · cases ht
    · next act rest hst =>
      obtain ⟨s, hs, ht⟩ := bind_eq_ok.mp ht
      obtain rfl := Except.ok.inj ht
      exact loadInv_readError h hP hst hs

end Lemmas

section Run

variable {ram : RamLayout} {garbage : ℕ → CmEntry} {file mem : ℕ → UInt8}
  {files : FileId → List UInt8} {acts : List LoadAction} {t t' : LoadState} {a : LoadAction}
  {r : FaultReturn}

theorem loadInv_run (h : run LoadState.step (LoadState.boot ram garbage file mem files) acts = .ok t) :
    LoadInv t.vm :=
  run_inv LoadState.step (P := fun t => LoadInv t.vm) (fun _ _ _ hs ht => loadInv_step hs ht)
    ⟨own_boot, fun _ _ hP => by cases hP⟩ h

/-- A call of `vm_fault` in which `load_page_from_elf` ran returns by its last step. -/
theorem returned_eq_some (h : t.returned a = some r) (hload : r.load ≠ none) :
    ∃ n P act rest paddr, a = .vm (.go r.as n) ∧ t.vm.procs r.as = some P ∧
      P.stack = act :: rest ∧ act.pc = .map paddr ∧ r.page = act.page ∧ r.result = none := by
  unfold LoadState.returned at h
  split at h
  · split at h
    · cases h
    · split at h
      · obtain rfl := Option.some.inj h
        exact absurd rfl hload
      · split_ifs at h
        obtain rfl := Option.some.inj h
        exact absurd rfl hload
  · next as n =>
    split at h
    · next act rest hst =>
      split at h
      · next paddr hpc =>
        obtain rfl := Option.some.inj h
        obtain ⟨P, hP, hst⟩ := Option.map_eq_some_iff.mp hst
        exact ⟨n, P, act, rest, paddr, rfl, hP, hst, hpc, rfl, rfl⟩
      · cases h
    · cases h
  · cases h

/-- What a fault whose load fails leaves: its page is in the coremap as loaded, and mapped. -/
theorem loadFailure_ignored
    (hrun : run LoadState.step (LoadState.boot ram garbage file mem files) acts = .ok t)
    (hstep : t.step a = .ok t') (hret : t.returned a = some r) (hload : r.load ≠ none) :
    r.result = none ∧ (∃ k, t'.vm.cms.tag k = some (r.as, r.page, .clean)) ∧
      ∃ e, t'.vm.tlb.lookup r.page = some e := by
  obtain ⟨n, P, act, rest, paddr, rfl, hP, hst, hpc, hpage, hres⟩ := returned_eq_some hret hload
  have hinv := loadInv_run hrun
  obtain ⟨s, hs, ht⟩ := bind_eq_ok.mp hstep
  obtain rfl := Except.ok.inj ht
  obtain ⟨k, -, hk⟩ := hinv.clean r.as P hP act (by rw [hst]; exact List.mem_cons_self) paddr hpc
  refine ⟨hres, ?_⟩
  rw [hpage]
  cases vmStep_of_step hs with
  | go hcur hP' hrun' hst' hgo =>
    obtain rfl := Option.some.inj (hP.symm.trans hP')
    obtain ⟨rfl, rfl⟩ := List.cons.inj (hst.symm.trans hst')
    cases hgo with
    | map hpc' => exact ⟨⟨k, hk⟩, _, lookup_tlbW _ _ _ hinv.own.next⟩
    | _ hpc' => cases hpc.symm.trans hpc'

/-- **No failed load is handled**, and nothing of it is undone. -/
theorem not_loadFailureHandled
    (hrun : run LoadState.step (LoadState.boot ram garbage file mem files) acts = .ok t)
    (hstep : t.step a = .ok t') (hret : t.returned a = some r) (hload : r.load ≠ none) :
    ¬ LoadFailureHandled r t'.vm ∧ r.result = none ∧
      (∃ k, t'.vm.cms.tag k = some (r.as, r.page, .clean)) ∧
      (∃ f d, t'.vm.tlb.Maps r.page f d) ∧ ¬ t'.vm.LoadsOnTouch r.as r.page := by
  obtain ⟨hres, hclean, e, he⟩ := loadFailure_ignored hrun hstep hret hload
  refine ⟨fun h => h.error hres, hres, hclean, ⟨_, _, (Tlb.maps_of_lookup he).2⟩, fun h => ?_⟩
  rw [h.1] at he
  cases he

end Run

/-! ## A program file that is too short -/

/-- Process 1 touches the only page of a program whose file is empty, up to the last step. -/
def shortRead : List LoadAction :=
  [.vm (.create 1), .vm (.defineRegion 1 0x400000 0 4096 4 2 1 ⟨0, 0, fun _ => 0⟩),
    .vm (.completeLoad 1 0), .vm (.switch (some 1)), .vm (.fault 1 0x400000), .vm (.go 1 0),
    .vm (.fault 1 0x400000), .vm (.go 1 4096), .vm (.go 1 0), .vm (.go 1 0)]

/-- The machine that it runs on. -/
def shortBoot : LoadState :=
  .boot smallRam (fun _ => evictedEntry) (fun _ => 0) (fun _ => 1) fun _ => []

/-- The last step returns `0` after a short read. -/
theorem returned_shortRead :
    ∃ t t', run LoadState.step shortBoot shortRead = .ok t ∧ t.step (.vm (.go 1 0)) = .ok t' ∧
      t.returned (.vm (.go 1 0)) = some ⟨1, 0x400000, some .enoexec, none⟩ ∧
      (t'.step (.vm (.load 1 0x400000 0))).toOption.isSome = true := by
  obtain ⟨t, ht, he⟩ := exists_ok_of_toOption (show (run LoadState.step shortBoot
    shortRead).toOption.map (fun t => (t.returned (.vm (.go 1 0)),
      (t.step (.vm (.go 1 0))).toOption.map fun t' =>
        (t'.step (.vm (.load 1 0x400000 0))).toOption.isSome)) =
    some (some ⟨1, 0x400000, some .enoexec, none⟩, some true) by decide +kernel)
  simp only [Prod.mk.injEq] at he
  obtain ⟨t', ht', hload⟩ := exists_ok_of_toOption he.2
  exact ⟨t, t', ht, ht', he.1, hload⟩

theorem not_loadFailureHandled_shortRead :
    ∃ t t' : LoadState, run LoadState.step shortBoot shortRead = .ok t ∧
      t.step (.vm (.go 1 0)) = .ok t' ∧ ¬ t'.vm.LoadsOnTouch 1 0x400000 := by
  obtain ⟨t, t', ht, ht', hret, -⟩ := returned_shortRead
  obtain ⟨-, -, -, -, htouch⟩ := not_loadFailureHandled ht ht' hret (Option.some_ne_none _)
  exact ⟨t, t', ht, ht', htouch⟩

/-- **A short read goes unnoticed**: `vm_fault` returns `0`, and the program reads zeros. -/
theorem exists_unhandled_load :
    ∃ t t' : LoadState, run LoadState.step shortBoot shortRead = .ok t ∧
      t.step (.vm (.go 1 0)) = .ok t' ∧
      t.returned (.vm (.go 1 0)) = some ⟨1, 0x400000, some .enoexec, none⟩ ∧
      ¬ LoadFailureHandled ⟨1, 0x400000, some .enoexec, none⟩ t'.vm ∧
      ∃ u, t'.step (.vm (.load 1 0x400000 0)) = .ok u := by
  obtain ⟨t, t', ht, ht', hret, hload⟩ := returned_shortRead
  refine ⟨t, t', ht, ht', hret, fun h => h.error rfl, ?_⟩
  cases hu : t'.step (.vm (.load 1 0x400000 0)) with
  | ok u => exact ⟨u, rfl⟩
  | error e =>
    rw [hu] at hload
    cases hload

end Os161
