import Os161.Machine.Stop
import Os161.Vm.Model

set_option autoImplicit false

/-!
# What a step can do

The step function of the machine as a relation: one constructor for each way a step can go, with what
is known then.

* `GoStep`: the steps of a fault; `FaultStep`: its start; `VmStep`: all actions.
* **`vmStep_of_step`**: a step of the machine is one of these.
-/

namespace Os161

open Transition

/-- The processor translates the user address `a` to `pa`. -/
def VmState.At (s : VmState) (a pa : ℕ) : Prop :=
  ∃ f d, s.tlb.Maps (pageFrame a) f d ∧ pa = f + pageOffset a

/-- The bytes of a page of the swap file, as a buffer. -/
def pageBuf (page : Page) : ℕ → UInt8 := fun o => if h : o < pageSize then page ⟨o, h⟩ else 0

/-- **The steps of a fault.** -/
inductive GoStep (s : VmState) (as : AsId) (P : Proc) (act : Activation)
    (rest : List Activation) : VmState → Prop
  | full (hpc : act.pc = .alloc) (hs : (s.cms.alloc act.page as).1 = 0) :
    GoStep s as P act rest (({ s with cms := (s.cms.alloc act.page as).2 }).setProc as
      (P.goto act rest .evict))
  | alloc {paddr : ℕ} {cms : CmSys} (hpc : act.pc = .alloc)
      (hs : s.cms.alloc act.page as = (paddr, cms)) (hne : paddr ≠ 0) :
    GoStep s as P act rest (({ s with cms := cms }).setProc as (P.enter act rest paddr))
  | evict {victim paddr pos : ℕ} {cms : CmSys} (hpc : act.pc = .evict)
      (hs : s.cms.evict as = some (victim, paddr, pos, cms)) :
    GoStep s as P act rest (({ s with cms := cms }).setProc as
      (P.goto act rest (.swapOutFind victim pos paddr)))
  | swapOutFind {victim pos paddr i : ℕ} {sw : SwapSpace}
      (hpc : act.pc = .swapOutFind victim pos paddr)
      (hs : swapOutFind s.sw as victim = some (i, sw)) :
    GoStep s as P act rest (({ s with sw := sw }).setProc as
      (P.goto act rest (.swapOutCopy victim pos paddr i (fun _ => 0) 0)))
  | swapOutCopy {victim pos paddr i done n pa : ℕ} {buf : ℕ → UInt8}
      (hpc : act.pc = .swapOutCopy victim pos paddr i buf done) (hlt : done + n < pageSize)
      (hpa : s.At (victim + done) pa) :
    GoStep s as P act rest (s.setProc as (P.goto act rest
      (.swapOutCopy victim pos paddr i (poke buf done n fun o => s.mem (pa + o)) (done + n))))
  | swapOutCopied {victim pos paddr i done n pa : ℕ} {buf : ℕ → UInt8}
      (hpc : act.pc = .swapOutCopy victim pos paddr i buf done) (hall : done + n = pageSize)
      (hpa : s.At (victim + done) pa) :
    GoStep s as P act rest (s.setProc as (P.goto act rest
      (.swapOutWrite victim pos paddr i (poke buf done n fun o => s.mem (pa + o)))))
  | swapOutWrite {victim pos paddr i : ℕ} {buf : ℕ → UInt8}
      (hpc : act.pc = .swapOutWrite victim pos paddr i buf) :
    GoStep s as P act rest (({ s with sw := writePage s.sw i fun o => buf o }).setProc as
      (P.goto act rest (.update victim pos paddr)))
  | update {victim pos paddr : ℕ} (hpc : act.pc = .update victim pos paddr) :
    GoStep s as P act rest (({ s with cms := s.cms.updateVaddr as pos act.page }).setProc as
      (Proc.goto { P with space := { P.space with pt := ptUpdate P.space.pt victim } } act rest
        (.replace victim paddr)))
  | replace {victim paddr : ℕ} (hpc : act.pc = .replace victim paddr) :
    GoStep s as P act rest (({ s with tlb := tlbR s.tlb victim act.page paddr }).setProc as
      (P.enter act rest paddr))
  | swapInFind {paddr i : ℕ} {sw : SwapSpace} (hpc : act.pc = .swapInFind paddr)
      (hs : swapInFind s.sw as act.page = some (i, sw)) :
    GoStep s as P act rest (({ s with sw := sw }).setProc as
      (P.goto act rest (.swapInRead paddr i)))
  | swapInRead {paddr i : ℕ} (hpc : act.pc = .swapInRead paddr i) :
    GoStep s as P act rest (s.setProc as (P.goto act rest
      (.fill .swap paddr act.page pageSize (pageBuf (readPage s.sw i)) 0)))
  | fill {what : Fill} {paddr dst len done n pa : ℕ} {buf : ℕ → UInt8}
      (hpc : act.pc = .fill what paddr dst len buf done) (hle : done + n ≤ len)
      (hpage : pageOffset (dst + done) + n ≤ pageSize) (hpa : s.At (dst + done) pa) :
    GoStep s as P act rest (({ s with mem := poke s.mem pa n fun o => buf (done + o) }).setProc as
      (P.goto act rest (act.copying what paddr dst len buf (done + n))))
  | elfRead {paddr : ℕ} {v : FileId} {bytes : List UInt8} (hpc : act.pc = .elfRead paddr)
      (hv : P.space.elfFile = some v)
      (hb : bytes = elfBytes (s.files v) act.seg act.page (pageNumber P.space act.seg act.j)) :
    GoStep s as P act rest (s.setProc as (P.goto act rest
      (act.copying .elf paddr
        (loadAddress act.seg act.page (pageNumber P.space act.seg act.j)) bytes.length
        (fun o => bytes.getD o 0) 0)))
  | setClean {paddr : ℕ} (hpc : act.pc = .setClean paddr) :
    GoStep s as P act rest (({ s with cms := s.cms.setClean paddr }).setProc as
      (P.goto act rest (.map paddr)))
  | map {paddr : ℕ} (hpc : act.pc = .map paddr) :
    GoStep s as P act rest
      (({ s with tlb := tlbW s.tlb act.page paddr act.seg.write }).setProc as
        { P with stack := rest })

/-- **The start of a fault at `a`**: a frame that is there is mapped again, or a fault begins, or the
copy of a program page is given up. -/
inductive FaultStep (s : VmState) (as : AsId) (P : Proc) (a : ℕ) : VmState → Prop
  | reload {seg : SegmentEntry} {j : ℕ} {pte : PtEntry}
      (hseg : findSegment P.space (pageFrame a) = some seg)
      (hj : findPte P.space seg (pageFrame a) = some j) (hpte : P.space.pt[j]? = some pte)
      (hin : pte.inMem = true) :
    FaultStep s as P a { s with
      tlb := tlbW s.tlb (pageFrame a) pte.frame
        (if cmCheckState s.cms.cm pte.frame .loading then 2 else seg.write) }
  | push {seg : SegmentEntry} {j : ℕ} {pte : PtEntry}
      (hseg : findSegment P.space (pageFrame a) = some seg)
      (hj : findPte P.space seg (pageFrame a) = some j) (hpte : P.space.pt[j]? = some pte)
      (hin : pte.inMem = false) :
    FaultStep s as P a (s.setProc as
      { P with stack := ⟨pageFrame a, seg, j, pte.inSwap, .alloc⟩ :: P.stack })
  | abort {act : Activation} {rest : List Activation} {paddr dst len done : ℕ} {buf : ℕ → UInt8}
      (hst : P.stack = act :: rest) (hpc : act.pc = .fill .elf paddr dst len buf done)
      (hno : findSegment P.space (pageFrame a) = none ∨
        ∃ seg, findSegment P.space (pageFrame a) = some seg ∧
          findPte P.space seg (pageFrame a) = none) :
    FaultStep s as P a (s.setProc as (P.goto act rest (.setClean paddr)))

/-- **The steps of the machine.** -/
inductive VmStep (s : VmState) : VmAction → VmState → Prop
  | create {as : AsId} (h : s.procs as = none) :
    VmStep s (.create as) (s.setProc as ⟨asCreate, [], .running⟩)
  | defineRegion {as : AsId} {P : Proc} {vaddr offset sz r w x : ℕ} {b : RegionBlocks}
      {space : Addrspace} (hP : s.procs as = some P) (hrun : P.stage = .running)
      (hst : P.stack = []) (ho : offset < wordSize)
      (hdef : asDefineRegion P.space vaddr offset sz r w x b = some space) :
    VmStep s (.defineRegion as vaddr offset sz r w x b) (s.setProc as { P with space := space })
  | defineStack {as : AsId} {P : Proc} {b : RegionBlocks} (hP : s.procs as = some P)
      (hrun : P.stage = .running) (hst : P.stack = []) :
    VmStep s (.defineStack as b) (s.setProc as { P with space := asDefineStack P.space b })
  | completeLoad {as : AsId} {P : Proc} {v : FileId} (hP : s.procs as = some P)
      (hrun : P.stage = .running) (hst : P.stack = []) :
    VmStep s (.completeLoad as v) (s.setProc as { P with space := asCompleteLoad P.space v })
  | exitCm {as : AsId} {P : Proc} (hcur : s.cur = some as) (hP : s.procs as = some P)
      (hrun : P.stage = .running) (hst : P.stack = []) :
    VmStep s (.exitCm as)
      (({ s with cms := s.cms.asfree as }).setProc as { P with stage := .cmFreed })
  | exitSwap {as : AsId} {P : Proc} {sw : SwapSpace} (hcur : s.cur = some as)
      (hP : s.procs as = some P) (hstage : P.stage = .cmFreed) (hsw : sw = swapAsfree s.sw as) :
    VmStep s (.exitSwap as) (({ s with sw := sw }).setProc as { P with stage := .swapFreed })
  | exitDone {as : AsId} {P : Proc} (hcur : s.cur = some as) (hP : s.procs as = some P)
      (hstage : P.stage = .swapFreed) :
    VmStep s (.exitDone as) { s with procs := Function.update s.procs as none, cur := none }
  | leave : VmStep s (.switch none) { s with cur := none }
  | enter {as : AsId} (h : s.procs as ≠ none) :
    VmStep s (.switch (some as)) { s with cur := some as, tlb := tlbFlush s.tlb }
  | load {as : AsId} {P : Proc} {a pa : ℕ} {b : UInt8} (hcur : s.cur = some as)
      (hP : s.procs as = some P) (hrun : P.stage = .running) (hst : P.stack = [])
      (ha : a < userspaceTop) (hpa : s.At a pa) (hb : s.mem pa = b) :
    VmStep s (.load as a b) s
  | store {as : AsId} {P : Proc} {a pa : ℕ} {b : UInt8} (hcur : s.cur = some as)
      (hP : s.procs as = some P) (hrun : P.stage = .running) (hst : P.stack = [])
      (ha : a < userspaceTop) (hpa : s.At a pa) :
    VmStep s (.store as a b) { s with mem := poke s.mem pa 1 fun _ => b }
  | fault {as : AsId} {P : Proc} {a : ℕ} {s' : VmState} (hcur : s.cur = some as)
      (hP : s.procs as = some P) (hrun : P.stage = .running) (ha : a < userspaceTop)
      (hmiss : s.tlb.lookup (pageFrame a) = none)
      (hst : P.stack = [] ∨ P.stack.head?.bind Activation.access = some a)
      (h : FaultStep s as P a s') : VmStep s (.fault as a) s'
  | go {as : AsId} {P : Proc} {act : Activation} {rest : List Activation} {n : ℕ} {s' : VmState}
      (hcur : s.cur = some as) (hP : s.procs as = some P) (hrun : P.stage = .running)
      (hst : P.stack = act :: rest) (h : GoStep s as P act rest s') : VmStep s (.go as n) s'
  | kalloc {n paddr : ℕ} {cms : CmSys} (hn : 1 ≤ n) (hs : s.cms.kalloc n = (paddr, cms)) :
    VmStep s (.kalloc n) { s with cms := cms }
  | kfree {a : Alloc} (ha : a ∈ s.cms.live) (ho : a.owner = none) :
    VmStep s (.kfree a) { s with cms := s.cms.kfree a }
  | kwrite {pa : ℕ} {b : UInt8} (h : s.userFrame pa = false) :
    VmStep s (.kwrite pa b) { s with mem := poke s.mem pa 1 fun _ => b }

section Inversion

variable {s s' : VmState} {as : AsId} {P : Proc} {act : Activation} {rest : List Activation}
  {a pa n : ℕ}

theorem running_eq_ok (h : s.running as = .ok P) : s.procs as = some P ∧ P.stage = .running := by
  unfold VmState.running at h
  split at h
  · next Q hQ =>
    split_ifs at h with hrun
    obtain rfl := Except.ok.inj h
    exact ⟨hQ, hrun⟩
  · cases h

theorem current_eq_ok (h : s.current as = .ok P) :
    s.cur = some as ∧ s.procs as = some P ∧ P.stage = .running := by
  unfold VmState.current at h
  split_ifs at h with hcur
  exact ⟨hcur, running_eq_ok h⟩

theorem at_of_translate {w : Bool} (h : s.translate a w = .ok pa) : s.At a pa := by
  unfold VmState.translate at h
  split at h
  · cases h
  · next e he =>
    split_ifs at h
    obtain rfl := Except.ok.inj h
    exact ⟨e.ppage, e.dirty, (Tlb.maps_of_lookup he).2, rfl⟩

theorem faultStep_of_efault (h : s.efault as P = .ok s')
    (hno : findSegment P.space (pageFrame a) = none ∨
      ∃ seg, findSegment P.space (pageFrame a) = some seg ∧
        findPte P.space seg (pageFrame a) = none) : FaultStep s as P a s' := by
  unfold VmState.efault at h
  split at h
  · cases h
  · next act rest hst =>
    split at h
    · next hpc =>
      obtain rfl := Except.ok.inj h
      exact .abort hst hpc hno
    · cases h
    · cases h
    · cases h

theorem faultStep_of_fault (h : s.fault as P a = .ok s') : FaultStep s as P a s' := by
  unfold VmState.fault at h
  simp only at h
  split at h
  · next hseg => exact faultStep_of_efault h (.inl hseg)
  · next seg hseg =>
    split at h
    · next hj => exact faultStep_of_efault h (.inr ⟨seg, hseg, hj⟩)
    · next j hj =>
      split at h
      · cases h
      · next pte hpte =>
        by_cases hin : pte.inMem = true
        · rw [if_pos hin] at h
          obtain rfl := Except.ok.inj h
          exact .reload hseg hj hpte hin
        · rw [if_neg hin] at h
          obtain rfl := Except.ok.inj h
          exact .push hseg hj hpte (by simpa using hin)

theorem goStep_of_go (h : s.go as P act rest n = .ok s') : GoStep s as P act rest s' := by
  unfold VmState.go at h
  split at h
  · next hpc =>
    rcases hs : s.cms.alloc act.page as with ⟨paddr, cms⟩
    simp only [hs] at h
    split_ifs at h with h0
    · obtain rfl := Except.ok.inj h
      have hfull : GoStep s as P act rest (({ s with cms := (s.cms.alloc act.page as).2 }).setProc as
          (P.goto act rest .evict)) := .full hpc (by rw [hs]; exact h0)
      rwa [hs] at hfull
    · obtain rfl := Except.ok.inj h
      exact .alloc hpc hs h0
  · next hpc =>
    split at h
    · cases h
    · next hs =>
      obtain rfl := Except.ok.inj h
      exact .evict hpc hs
  · next hpc =>
    split at h
    · cases h
    · next hs =>
      obtain rfl := Except.ok.inj h
      exact .swapOutFind hpc hs
  · next hpc =>
    obtain ⟨⟨-, hle⟩, h⟩ := require_bind_ok.mp h
    obtain ⟨pa, hpa, h⟩ := bind_eq_ok.mp h
    obtain rfl := Except.ok.inj h
    split_ifs with hall
    · exact .swapOutCopied hpc hall (at_of_translate hpa)
    · exact .swapOutCopy hpc (Nat.lt_of_le_of_ne hle hall) (at_of_translate hpa)
  · next hpc =>
    obtain rfl := Except.ok.inj h
    exact .swapOutWrite hpc
  · next hpc =>
    obtain rfl := Except.ok.inj h
    exact .update hpc
  · next hpc =>
    obtain rfl := Except.ok.inj h
    exact .replace hpc
  · next hpc =>
    split at h
    · cases h
    · next hs =>
      obtain rfl := Except.ok.inj h
      exact .swapInFind hpc hs
  · next hpc =>
    obtain rfl := Except.ok.inj h
    exact .swapInRead hpc
  · next hpc =>
    obtain ⟨⟨-, hle, hpage⟩, h⟩ := require_bind_ok.mp h
    obtain ⟨pa, hpa, h⟩ := bind_eq_ok.mp h
    obtain rfl := Except.ok.inj h
    exact .fill hpc hle hpage (at_of_translate hpa)
  · next hpc =>
    split at h
    · cases h
    · next v hv =>
      obtain rfl := Except.ok.inj h
      exact .elfRead hpc hv rfl
  · next hpc =>
    obtain rfl := Except.ok.inj h
    exact .setClean hpc
  · next hpc =>
    obtain rfl := Except.ok.inj h
    exact .map hpc

/-- **A step of the machine** is one of the listed ones. -/
theorem vmStep_of_step {a : VmAction} (h : s.step a = .ok s') : VmStep s a s' := by
  cases a with
  | create as =>
    obtain ⟨hnone, h⟩ := require_bind_ok.mp h
    cases h
    exact .create (Option.isNone_iff_eq_none.mp hnone)
  | defineRegion as vaddr offset sz r w x b =>
    obtain ⟨P, hP, h⟩ := bind_eq_ok.mp h
    obtain ⟨⟨hst, ho⟩, h⟩ := require_bind_ok.mp h
    obtain ⟨hP, hrun⟩ := running_eq_ok hP
    split at h
    · cases h
    · next hdef =>
      cases h
      exact .defineRegion hP hrun (List.isEmpty_iff.mp hst) ho hdef
  | defineStack as b =>
    obtain ⟨P, hP, h⟩ := bind_eq_ok.mp h
    obtain ⟨hst, h⟩ := require_bind_ok.mp h
    obtain ⟨hP, hrun⟩ := running_eq_ok hP
    cases h
    exact .defineStack hP hrun (List.isEmpty_iff.mp hst)
  | completeLoad as v =>
    obtain ⟨P, hP, h⟩ := bind_eq_ok.mp h
    obtain ⟨hst, h⟩ := require_bind_ok.mp h
    obtain ⟨hP, hrun⟩ := running_eq_ok hP
    cases h
    exact .completeLoad hP hrun (List.isEmpty_iff.mp hst)
  | exitCm as =>
    obtain ⟨P, hP, h⟩ := bind_eq_ok.mp h
    obtain ⟨hst, h⟩ := require_bind_ok.mp h
    obtain ⟨hcur, hP, hrun⟩ := current_eq_ok hP
    cases h
    exact .exitCm hcur hP hrun (List.isEmpty_iff.mp hst)
  | exitSwap as =>
    simp only [VmState.step] at h
    split at h
    · cases h
    · next P hP =>
      obtain ⟨⟨hcur, hstage⟩, h⟩ := require_bind_ok.mp h
      obtain rfl := Except.ok.inj h
      exact .exitSwap hcur hP hstage rfl
  | exitDone as =>
    simp only [VmState.step] at h
    split at h
    · cases h
    · next P hP =>
      obtain ⟨⟨hcur, hstage⟩, h⟩ := require_bind_ok.mp h
      cases h
      exact .exitDone hcur hP hstage
  | switch as =>
    cases as with
    | none => cases h; exact .leave
    | some as =>
      obtain ⟨hsome, h⟩ := require_bind_ok.mp h
      obtain rfl := Except.ok.inj h
      exact .enter fun hn => by rw [hn] at hsome; cases hsome
  | load as a b =>
    obtain ⟨P, hP, h⟩ := bind_eq_ok.mp h
    obtain ⟨⟨hst, ha⟩, h⟩ := require_bind_ok.mp h
    obtain ⟨pa, hpa, h⟩ := bind_eq_ok.mp h
    obtain ⟨hb, h⟩ := require_bind_ok.mp h
    obtain ⟨hcur, hP, hrun⟩ := current_eq_ok hP
    cases h
    exact .load hcur hP hrun (List.isEmpty_iff.mp hst) ha (at_of_translate hpa) hb
  | store as a b =>
    obtain ⟨P, hP, h⟩ := bind_eq_ok.mp h
    obtain ⟨⟨hst, ha⟩, h⟩ := require_bind_ok.mp h
    obtain ⟨pa, hpa, h⟩ := bind_eq_ok.mp h
    obtain ⟨hcur, hP, hrun⟩ := current_eq_ok hP
    cases h
    exact .store hcur hP hrun (List.isEmpty_iff.mp hst) ha (at_of_translate hpa)
  | fault as a =>
    obtain ⟨P, hP, h⟩ := bind_eq_ok.mp h
    obtain ⟨⟨ha, hmiss, hst⟩, h⟩ := require_bind_ok.mp h
    obtain ⟨hcur, hP, hrun⟩ := current_eq_ok hP
    exact .fault hcur hP hrun ha (Option.isNone_iff_eq_none.mp hmiss)
      (hst.imp_left List.isEmpty_iff.mp) (faultStep_of_fault h)
  | go as n =>
    obtain ⟨P, hP, h⟩ := bind_eq_ok.mp h
    obtain ⟨hcur, hP, hrun⟩ := current_eq_ok hP
    split at h
    · cases h
    · next hst => exact .go hcur hP hrun hst (goStep_of_go h)
  | kalloc n =>
    obtain ⟨hn, h⟩ := require_bind_ok.mp h
    cases h
    exact .kalloc hn rfl
  | kfree a =>
    obtain ⟨⟨ha, ho⟩, h⟩ := require_bind_ok.mp h
    cases h
    exact .kfree ha ho
  | kwrite pa b =>
    obtain ⟨hno, h⟩ := require_bind_ok.mp h
    cases h
    exact .kwrite hno

end Inversion

end Os161
