import Os161.Coremap.Live
import Os161.Elf.Model
import Os161.Swap.Model
import Os161.Vm.Tlb

set_option autoImplicit false

/-!
# The virtual memory system

`vm_fault` and the paths that meet it: one processor, any number of address spaces, the coremap, the
swap file, the TLB and the memory. A fault is a sequence of steps between which other processes and
the kernel may run: one step for each critical section and each transfer of a page, and any number
of them for a copy between a buffer and user memory, which goes through the TLB and may fault itself.
The thread of an address space therefore has a stack of faults. This allows more than the kernel
does: a lock of the file system keeps a fault inside a copy from reading a file.

* `Pc`: where a fault is; `Activation`: one fault with its local variables.
* `VmState.fault`: a TLB miss, up to the first critical section.
* `VmState.go`: the next step of a fault.
* `VmState.step`: all actions, with those of `as_destroy`, context switches and user code.
-/

namespace Os161

/-- What a copy to user memory is for. -/
inductive Fill
  | zero
  | swap
  | elf
  deriving DecidableEq, Repr

/-- Where a fault is. `paddr` is the frame it got, `pos` its index, `i` the slot in the swap file; a
copy has a buffer and the number of bytes that are done. -/
inductive Pc
  | alloc
  | evict
  | swapOutFind (victim pos paddr : ℕ)
  | swapOutCopy (victim pos paddr i : ℕ) (buf : ℕ → UInt8) (done : ℕ)
  | swapOutWrite (victim pos paddr i : ℕ) (buf : ℕ → UInt8)
  | update (victim pos paddr : ℕ)
  | replace (victim paddr : ℕ)
  | swapInFind (paddr : ℕ)
  | swapInRead (paddr i : ℕ)
  | fill (what : Fill) (paddr dst len : ℕ) (buf : ℕ → UInt8) (done : ℕ)
  | elfRead (paddr : ℕ)
  | setClean (paddr : ℕ)
  | map (paddr : ℕ)

/-- A fault on `page`: its segment, the position of its entry in the page table, and the branch of
`vm_fault` it is in. -/
structure Activation where
  page : ℕ
  seg : SegmentEntry
  j : ℕ
  inSwap : Bool
  pc : Pc

/-- How far `as_destroy` is. -/
inductive Stage
  | running
  | cmFreed
  | swapFreed
  deriving DecidableEq, Repr

/-- A process, by its address space: the faults of its thread, the innermost first. -/
structure Proc where
  space : Addrspace
  stack : List Activation
  stage : Stage

/-- The machine: coremap, swap file, physical memory, TLB, the processes, the address space that
`as_activate` saw last, and the files. -/
structure VmState where
  cms : CmSys
  sw : SwapSpace
  mem : ℕ → UInt8
  tlb : Tlb
  procs : AsId → Option Proc
  cur : Option AsId
  files : FileId → List UInt8

/-- What happens. -/
inductive VmAction
  | create (as : AsId)
  | defineRegion (as : AsId) (vaddr offset sz readable writeable executable : ℕ) (b : RegionBlocks)
  | defineStack (as : AsId) (b : RegionBlocks)
  | completeLoad (as : AsId) (v : FileId)
  | exitCm (as : AsId)
  | exitSwap (as : AsId)
  | exitDone (as : AsId)
  | switch (as : Option AsId)
  | load (as : AsId) (a : ℕ) (b : UInt8)
  | store (as : AsId) (a : ℕ) (b : UInt8)
  | fault (as : AsId) (a : ℕ)
  | go (as : AsId) (n : ℕ)
  | kalloc (n : ℕ)
  | kfree (a : Alloc)
  | kwrite (pa : ℕ) (b : UInt8)

/-- The bytes `[pa, pa + n)` are replaced. -/
def poke (mem : ℕ → UInt8) (pa n : ℕ) (g : ℕ → UInt8) : ℕ → UInt8 :=
  fun x => if pa ≤ x ∧ x < pa + n then g (x - pa) else mem x

/-- The pc after the frame is entered in the page table. -/
def Activation.filled (act : Activation) (paddr : ℕ) : Pc :=
  if act.inSwap then .swapInFind paddr else .fill .zero paddr act.page pageSize (fun _ => 0) 0

/-- The pc of a copy to user memory when `done` bytes are there. -/
def Activation.copying (act : Activation) (what : Fill) (paddr dst len : ℕ) (buf : ℕ → UInt8)
    (done : ℕ) : Pc :=
  if done = len then
    match what with
    | .zero => if act.seg.offset < 0 then .setClean paddr else .elfRead paddr
    | _ => .setClean paddr
  else .fill what paddr dst len buf done

/-- The process goes on with its innermost fault at `pc`. -/
def Proc.goto (P : Proc) (act : Activation) (rest : List Activation) (pc : Pc) : Proc :=
  { P with stack := { act with pc := pc } :: rest }

/-- `pte->frame = paddr; pte->in_mem = 1; pte->in_swap = 0`, and on to the transfer. -/
def Proc.enter (P : Proc) (act : Activation) (rest : List Activation) (paddr : ℕ) : Proc where
  space := { P.space with pt := ptSetFrame P.space.pt act.j paddr }
  stack := { act with pc := act.filled paddr } :: rest
  stage := P.stage

/-- The user address that a fault accesses next. -/
def Activation.access (act : Activation) : Option ℕ :=
  match act.pc with
  | .swapOutCopy victim _ _ _ _ done => some (victim + done)
  | .fill _ _ dst _ _ done => some (dst + done)
  | _ => none

namespace VmState

/-- After the boot, with any memory, swap file and files. -/
def boot (ram : RamLayout) (garbage : ℕ → CmEntry) (file mem : ℕ → UInt8)
    (files : FileId → List UInt8) : VmState where
  cms := CmSys.boot ram garbage
  sw := swapspaceBootstrap file
  mem := mem
  tlb := ⟨tlbInvalid, 0⟩
  procs := fun _ => none
  cur := none
  files := files

/-- The process of an address space goes on as `P`. -/
def setProc (s : VmState) (as : AsId) (P : Proc) : VmState :=
  { s with procs := Function.update s.procs as (some P) }

/-- The process that runs in its address space and is not being destroyed. -/
def running (s : VmState) (as : AsId) : Except Stop Proc :=
  match s.procs as with
  | some P => if P.stage = .running then .ok P else .error .blocked
  | none => .error .blocked

/-- The process that the processor executes. -/
def current (s : VmState) (as : AsId) : Except Stop Proc :=
  if s.cur = some as then s.running as else .error .blocked

/-- The address translation of the processor. A miss is a fault, which is an action of its own. -/
def translate (s : VmState) (a : ℕ) (write : Bool) : Except Stop ℕ :=
  match s.tlb.lookup (pageFrame a) with
  | none => .error .blocked
  | some e =>
    if write = true ∧ e.dirty = false then .error (.panic .readonlyFault)
    else .ok (e.ppage + pageOffset a)

/-- The `EFAULT` of a fault. In user mode and in `bzero` nobody handles it, the swap transfers panic;
the result of `load_page_from_elf` is ignored. -/
def efault (s : VmState) (as : AsId) (P : Proc) : Except Stop VmState :=
  match P.stack with
  | [] => .error (.panic .userFault)
  | act :: rest =>
    match act.pc with
    | .fill .elf paddr _ _ _ _ => .ok (s.setProc as (P.goto act rest (.setClean paddr)))
    | .fill .swap _ _ _ _ _ => .error (.panic .swapInError)
    | .swapOutCopy _ _ _ _ _ _ => .error (.panic .swapOutError)
    | _ => .error (.panic .kernelFault)

/-- `vm_fault` for a TLB miss at `a` up to its first critical section. -/
def fault (s : VmState) (as : AsId) (P : Proc) (a : ℕ) : Except Stop VmState :=
  let fa := pageFrame a
  match findSegment P.space fa with
  | none => s.efault as P
  | some seg =>
    match findPte P.space seg fa with
    | none => s.efault as P
    | some j =>
      match P.space.pt[j]? with
      | none => .error .blocked
      | some pte =>
        if pte.inMem then
          let write := if cmCheckState s.cms.cm pte.frame .loading then 2 else seg.write
          .ok { s with tlb := tlbW s.tlb fa pte.frame write }
        else
          let act : Activation := ⟨fa, seg, j, pte.inSwap, .alloc⟩
          .ok (s.setProc as { P with stack := act :: P.stack })

/-- The next step of the innermost fault; `n` is the size of a piece that is copied. -/
def go (s : VmState) (as : AsId) (P : Proc) (act : Activation) (rest : List Activation) (n : ℕ) :
    Except Stop VmState :=
  match act.pc with
  | .alloc =>
    let (paddr, cms) := s.cms.alloc act.page as
    let s' := { s with cms := cms }
    if paddr = 0 then .ok (s'.setProc as (P.goto act rest .evict))
    else .ok (s'.setProc as (P.enter act rest paddr))
  | .evict =>
    match s.cms.evict as with
    | none => .error (.panic .cannotFindVictim)
    | some (victim, paddr, pos, cms) =>
      let s' := { s with cms := cms }
      .ok (s'.setProc as (P.goto act rest (.swapOutFind victim pos paddr)))
  | .swapOutFind victim pos paddr =>
    match swapOutFind s.sw as victim with
    | none => .error (.panic .swapfileFull)
    | some (i, sw) =>
      let s' := { s with sw := sw }
      .ok (s'.setProc as (P.goto act rest (.swapOutCopy victim pos paddr i (fun _ => 0) 0)))
  | .swapOutCopy victim pos paddr i buf done => do
    require (1 ≤ n ∧ done + n ≤ pageSize)
    let pa ← s.translate (victim + done) false
    let buf' := poke buf done n fun o => s.mem (pa + o)
    let pc := if done + n = pageSize then Pc.swapOutWrite victim pos paddr i buf'
      else .swapOutCopy victim pos paddr i buf' (done + n)
    return s.setProc as (P.goto act rest pc)
  | .swapOutWrite victim pos paddr i buf =>
    let s' := { s with sw := writePage s.sw i fun o => buf o }
    .ok (s'.setProc as (P.goto act rest (.update victim pos paddr)))
  | .update victim pos paddr =>
    let s' := { s with cms := s.cms.updateVaddr as pos act.page }
    let P' := { P with space := { P.space with pt := ptUpdate P.space.pt victim } }
    .ok (s'.setProc as (P'.goto act rest (.replace victim paddr)))
  | .replace victim paddr =>
    let s' := { s with tlb := tlbR s.tlb victim act.page paddr }
    .ok (s'.setProc as (P.enter act rest paddr))
  | .swapInFind paddr =>
    match swapInFind s.sw as act.page with
    | none => .error (.panic .swapVaddrNotFound)
    | some (i, sw) =>
      let s' := { s with sw := sw }
      .ok (s'.setProc as (P.goto act rest (.swapInRead paddr i)))
  | .swapInRead paddr i =>
    let page := readPage s.sw i
    let buf := fun o => if h : o < pageSize then page ⟨o, h⟩ else 0
    .ok (s.setProc as (P.goto act rest (act.copying .swap paddr act.page pageSize buf 0)))
  | .fill what paddr dst len buf done => do
    require (1 ≤ n ∧ done + n ≤ len ∧ pageOffset (dst + done) + n ≤ pageSize)
    let pa ← s.translate (dst + done) true
    let s' := { s with mem := poke s.mem pa n fun o => buf (done + o) }
    return s'.setProc as (P.goto act rest (act.copying what paddr dst len buf (done + n)))
  | .elfRead paddr =>
    match P.space.elfFile with
    | none => .error (.panic .nullPointer)
    | some v =>
      let i := pageNumber P.space act.seg act.j
      let bytes := elfBytes (s.files v) act.seg act.page i
      let pc := act.copying .elf paddr (loadAddress act.seg act.page i) bytes.length
        (fun o => bytes.getD o 0) 0
      .ok (s.setProc as (P.goto act rest pc))
  | .setClean paddr =>
    let s' := { s with cms := s.cms.setClean paddr }
    .ok (s'.setProc as (P.goto act rest (.map paddr)))
  | .map paddr =>
    let s' := { s with tlb := tlbW s.tlb act.page paddr act.seg.write }
    .ok (s'.setProc as { P with stack := rest })

/-- A user frame. -/
def userFrame (s : VmState) (pa : ℕ) : Bool :=
  s.cms.live.any fun a => a.owner ≠ none ∧ a.paddr ≤ pa ∧ pa < a.paddr + pageSize

/-- One step. User code runs when its thread has no fault, `as_destroy` is called by the process
itself, and the kernel writes to its own memory. -/
def step (s : VmState) : VmAction → Except Stop VmState
  | .create as => do
    require ((s.procs as).isNone = true)
    return s.setProc as ⟨asCreate, [], .running⟩
  | .defineRegion as vaddr offset sz r w x b => do
    let P ← s.running as
    require (P.stack.isEmpty = true ∧ offset < wordSize)
    match asDefineRegion P.space vaddr offset sz r w x b with
    | none => .error .blocked
    | some space => return s.setProc as { P with space := space }
  | .defineStack as b => do
    let P ← s.running as
    require (P.stack.isEmpty = true)
    return s.setProc as { P with space := asDefineStack P.space b }
  | .completeLoad as v => do
    let P ← s.running as
    require (P.stack.isEmpty = true)
    return s.setProc as { P with space := asCompleteLoad P.space v }
  | .exitCm as => do
    let P ← s.current as
    require (P.stack.isEmpty = true)
    let s' := { s with cms := s.cms.asfree as }
    return s'.setProc as { P with stage := .cmFreed }
  | .exitSwap as =>
    match s.procs as with
    | none => .error .blocked
    | some P => do
      require (s.cur = some as ∧ P.stage = .cmFreed)
      let s' := { s with sw := swapAsfree s.sw as }
      return s'.setProc as { P with stage := .swapFreed }
  | .exitDone as =>
    match s.procs as with
    | none => .error .blocked
    | some P => do
      require (s.cur = some as ∧ P.stage = .swapFreed)
      return { s with procs := Function.update s.procs as none, cur := none }
  | .switch none => return { s with cur := none }
  | .switch (some as) => do
    require ((s.procs as).isSome = true)
    return { s with cur := some as, tlb := tlbFlush s.tlb }
  | .load as a b => do
    let P ← s.current as
    require (P.stack.isEmpty = true ∧ a < userspaceTop)
    let pa ← s.translate a false
    require (s.mem pa = b)
    return s
  | .store as a b => do
    let P ← s.current as
    require (P.stack.isEmpty = true ∧ a < userspaceTop)
    let pa ← s.translate a true
    return { s with mem := poke s.mem pa 1 fun _ => b }
  | .fault as a => do
    let P ← s.current as
    require (a < userspaceTop ∧ (s.tlb.lookup (pageFrame a)).isNone = true ∧
      (P.stack.isEmpty = true ∨ P.stack.head?.bind Activation.access = some a))
    s.fault as P a
  | .go as n => do
    let P ← s.current as
    match P.stack with
    | [] => .error .blocked
    | act :: rest => s.go as P act rest n
  | .kalloc n => do
    require (1 ≤ n)
    return { s with cms := (s.cms.kalloc n).2 }
  | .kfree a => do
    require (a ∈ s.cms.live ∧ a.owner = none)
    return { s with cms := s.cms.kfree a }
  | .kwrite pa b => do
    require (s.userFrame pa = false)
    return { s with mem := poke s.mem pa 1 fun _ => b }

end VmState

end Os161
