import Os161.Machine.Stop
import Os161.Sfs.Uio

set_option autoImplicit false

/-!
# The emulator file system

`emu.c`: the driver has one set of registers, one buffer and one completion semaphore for all files.
The threads in the driver, the device and its interrupt take steps in any order. `lock_acquire` and
`lock_release` do nothing.

* `emuOpen`, `emuDoread`, `emuWrite`, `emuGetsize`, `emuTrunc`: the operations, step by step.
* `EmuSys.step`: the system. What the device does with a command is a parameter.
-/

namespace Os161

open Buffer Transition

/-- The operation codes for `REG_OPER`. -/
inductive EmuOper
  | open
  | create
  | exclcreate
  | read
  | readdir
  | write
  | getsize
  | trunc
  deriving DecidableEq, Repr

/-- The registers of a request. -/
inductive EmuReg
  | handle
  | offset
  | iolen
  deriving DecidableEq, Repr

/-- The errors of the driver. -/
inductive EmuErr
  | enametoolong
  | efbig
  | efault
  | enoent
  | eexist
  | eisdir
  | eio
  | enfile
  | enospc
  | enotdir
  | enosys
  | eagain
  deriving DecidableEq, Repr

/-- The panics of the driver: a fatal result code, or `uiomove` ran out of buffers. -/
inductive EmuPanic
  | fatalResult
  | uiomove
  deriving DecidableEq, Repr

/-- `EMU_MAXIO`. -/
def emuMaxio : ℕ := 16384

/-- `translate_err`. -/
def translateErr : (code : ℕ) → Except EmuPanic (Option EmuErr)
  | 1 => .ok none
  | 2 => .error .fatalResult
  | 3 => .error .fatalResult
  | 4 => .ok (some .enoent)
  | 5 => .error .fatalResult
  | 6 => .ok (some .eexist)
  | 7 => .ok (some .eisdir)
  | 8 => .ok (some .eio)
  | 9 => .ok (some .enfile)
  | 10 => .ok (some .enospc)
  | 11 => .ok (some .enotdir)
  | 12 => .ok (some .eio)
  | 13 => .ok (some .enosys)
  | _ => .ok (some .eagain)

/-- The registers of the device. -/
structure EmuRegs where
  handle : UInt32
  offset : UInt32
  iolen : UInt32
  result : ℕ

/-- `emu_rreg`. -/
def emuRreg (regs : EmuRegs) : EmuReg → UInt32
  | .handle => regs.handle
  | .offset => regs.offset
  | .iolen => regs.iolen

/-- `emu_wreg`. -/
def emuWreg (regs : EmuRegs) (r : EmuReg) (val : UInt32) : EmuRegs :=
  match r with
  | .handle => { regs with handle := val }
  | .offset => { regs with offset := val }
  | .iolen => { regs with iolen := val }

/-- What the device is asked to do. -/
inductive EmuCmd
  | open (oper : EmuOper) (handle : UInt32) (name : List UInt8)
  | read (oper : EmuOper) (handle : UInt32) (len offset : ℕ)
  | write (handle : UInt32) (len offset : ℕ) (data : List UInt8)
  | getsize (handle : UInt32)
  | trunc (handle : UInt32) (len : ℕ)
  deriving DecidableEq, Repr

/-- The first `n` bytes of a buffer. -/
def bytes (b : Buffer) (n : ℕ) : List UInt8 := (List.range n).map b

/-- The command in the registers and the buffer. -/
def EmuRegs.command (regs : EmuRegs) (buf : Buffer) : EmuOper → EmuCmd
  | .open => .open .open regs.handle (bytes buf regs.iolen.toNat)
  | .create => .open .create regs.handle (bytes buf regs.iolen.toNat)
  | .exclcreate => .open .exclcreate regs.handle (bytes buf regs.iolen.toNat)
  | .read => .read .read regs.handle regs.iolen.toNat regs.offset.toNat
  | .readdir => .read .readdir regs.handle regs.iolen.toNat regs.offset.toNat
  | .write => .write regs.handle regs.iolen.toNat regs.offset.toNat (bytes buf regs.iolen.toNat)
  | .getsize => .getsize regs.handle
  | .trunc => .trunc regs.handle regs.iolen.toNat

/-- What the device leaves in the registers and the buffer. -/
structure EmuReply where
  regs : EmuRegs
  buf : Buffer

/-- The steps of an operation. -/
inductive EmuAct
  | lockAcquire
  | strcpy (name : List UInt8)
  | wreg (r : EmuReg) (val : UInt32)
  /-- `uiomove` of the caller's data to the buffer -/
  | fill (len : UInt32)
  /-- `REG_OPER` is written -/
  | oper (op : EmuOper)
  | waitdone
  | rreg (r : EmuReg)
  /-- `uiomove` of the buffer, for the length read last -/
  | drain
  | lockRelease

/-- `emu_open`, after the check of the length of the name. -/
def emuOpen (handle : UInt32) (name : List UInt8) (create excl : Bool) : List EmuAct :=
  [.lockAcquire, .strcpy name, .wreg .iolen (UInt32.ofNat name.length), .wreg .handle handle,
    .oper (if create && excl then .exclcreate else if create then .create else .open),
    .waitdone, .rreg .handle, .rreg .iolen, .lockRelease]

/-- `emu_doread`, after the check of the offset. -/
def emuDoread (handle len : UInt32) (op : EmuOper) (uio : Uio) : List EmuAct :=
  [.lockAcquire, .wreg .handle handle, .wreg .iolen len, .wreg .offset (UInt32.ofNat uio.offset),
    .oper op, .waitdone, .rreg .iolen, .drain, .rreg .offset, .lockRelease]

/-- `emu_write`, after the check of the offset. -/
def emuWrite (handle len : UInt32) (uio : Uio) : List EmuAct :=
  [.lockAcquire, .wreg .handle handle, .wreg .iolen len, .wreg .offset (UInt32.ofNat uio.offset),
    .fill len, .oper .write, .waitdone, .lockRelease]

/-- `emu_getsize`. -/
def emuGetsize (handle : UInt32) : List EmuAct :=
  [.lockAcquire, .wreg .handle handle, .oper .getsize, .waitdone, .rreg .iolen, .lockRelease]

/-- `emu_trunc`. -/
def emuTrunc (handle : UInt32) (len : ℕ) : List EmuAct :=
  [.lockAcquire, .wreg .handle handle, .wreg .iolen (UInt32.ofNat len), .oper .trunc, .waitdone,
    .lockRelease]

/-- The operations with their arguments. -/
inductive EmuOp
  | open (handle : UInt32) (name : List UInt8) (create excl : Bool)
  | doread (handle len : UInt32) (readdir : Bool) (uio : Uio)
  | write (handle len : UInt32) (uio : Uio)
  | getsize (handle : UInt32)
  | trunc (handle : UInt32) (len : ℕ)

/-- What an operation returns: its result, the registers it has read, and the uio. -/
structure EmuAnswer where
  result : Except EmuPanic (Option EmuErr)
  handle : UInt32
  iolen : UInt32
  uio : Option Uio

namespace EmuOp

/-- The caller's uio. -/
def uio : EmuOp → Option Uio
  | .doread _ _ _ uio => some uio
  | .write _ _ uio => some uio
  | _ => none

/-- The steps. -/
def prog : EmuOp → List EmuAct
  | .open handle name create excl => emuOpen handle name create excl
  | .doread handle len readdir uio => emuDoread handle len (if readdir then .readdir else .read) uio
  | .write handle len uio => emuWrite handle len uio
  | .getsize handle => emuGetsize handle
  | .trunc handle len => emuTrunc handle len

/-- The answer of an operation so far, with this result. -/
def returning (op : EmuOp) (result : Except EmuPanic (Option EmuErr)) : EmuAnswer :=
  ⟨result, 0, 0, op.uio⟩

/-- The checks before the lock: a name that is too long, and an offset beyond 32 bits. -/
def early (op : EmuOp) : Option EmuAnswer :=
  match op with
  | .open _ name _ _ =>
    if emuMaxio < name.length + 1 then some (op.returning (.ok (some .enametoolong))) else none
  | .doread _ _ _ uio => if 0xffffffff < uio.offset then some (op.returning (.ok none)) else none
  | .write _ _ uio =>
    if 0xffffffff < uio.offset then some (op.returning (.ok (some .efbig))) else none
  | _ => none

/-- What the callers promise: the direction of the uio, and memory for the request. -/
def Valid : EmuOp → Prop
  | .doread _ _ _ uio => uio.rw = .read
  | .write _ len uio => uio.rw = .write ∧ len.toNat ≤ uio.resid ∧ uio.resid ≤ uio.iov.sum ∧
      uio.resid < wordSize
  | _ => True

instance (op : EmuOp) : Decidable op.Valid := by
  cases op <;> unfold Valid <;> infer_instance

end EmuOp

/-- A thread in the driver: the steps left, and its answer so far. -/
structure EmuThread where
  op : EmuOp
  rest : List EmuAct
  answer : EmuAnswer

/-- The registers and the buffer of the device, the command it is working on, its interrupt line,
`e_result` and the count of `e_sem`, the files behind it, the commands that it has performed with the
replies, the threads in the driver, and the operations that have returned. -/
structure EmuSys (F : Type) where
  regs : EmuRegs
  buf : Buffer
  pending : Option EmuOper
  irq : Bool
  result : ℕ
  sem : ℕ
  files : F
  served : List (EmuCmd × EmuReply)
  thread : ℕ → Option EmuThread
  returned : List (EmuOp × EmuAnswer)

/-- The actions of the system. -/
inductive EmuAction
  | start (t : ℕ) (op : EmuOp)
  | step (t : ℕ)
  | perform
  | irq

/-- The answer after `uiomove` ended with this result. -/
def EmuAnswer.moved (a : EmuAnswer) : Except FsPanic (Option FsErr × Uio × Buffer) → EmuAnswer
  | .error _ => { a with result := .error .uiomove }
  | .ok (none, uio, _) => { a with uio := some uio }
  | .ok (some _, uio, _) => { a with result := .ok (some .efault), uio := some uio }

/-- A value that was read from a register. -/
def EmuAnswer.read (a : EmuAnswer) (r : EmuReg) (val : UInt32) : EmuAnswer :=
  match r with
  | .handle => { a with handle := val }
  | .iolen => { a with iolen := val }
  | .offset => { a with uio := a.uio.map fun u => { u with offset := val.toNat } }

/-- `strcpy` to the buffer. -/
def strcpy (buf : Buffer) (name : List UInt8) : Buffer :=
  fun x => if x ≤ name.length then name.getD x 0 else buf x

namespace EmuSys

variable {F : Type}

/-- The device is idle, and no thread is in the driver. -/
def init (files : F) (regs : EmuRegs) (buf : Buffer) : EmuSys F :=
  ⟨regs, buf, none, false, 0, 0, files, [], fun _ => none, []⟩

/-- Thread `t` has these steps left and this answer. -/
def goto (s : EmuSys F) (t : ℕ) (op : EmuOp) (rest : List EmuAct) (answer : EmuAnswer) : EmuSys F :=
  { s with thread := Function.update s.thread t (some ⟨op, rest, answer⟩) }

/-- One step of an operation. `emu_doread` passes a uio for a read, so that `drain` leaves the buffer
alone; after an error the lock is released, and after a panic nothing is done any more. -/
def act (s : EmuSys F) (t : ℕ) (op : EmuOp) (rest : List EmuAct) (answer : EmuAnswer) :
    EmuAct → Except Stop (EmuSys F)
  | .lockAcquire => .ok (s.goto t op rest answer)
  | .lockRelease => .ok (s.goto t op rest answer)
  | .strcpy name => .ok ({ s with buf := strcpy s.buf name }.goto t op rest answer)
  | .wreg r val => .ok ({ s with regs := emuWreg s.regs r val }.goto t op rest answer)
  | .oper o => .ok ({ s with pending := some o }.goto t op rest answer)
  | .rreg r => .ok (s.goto t op rest (answer.read r (emuRreg s.regs r)))
  | .fill len =>
    match answer.uio with
    | none => .error .blocked
    | some u =>
      match uiomove s.buf 0 len.toNat u with
      | .error p => .ok (s.goto t op [] (answer.moved (.error p)))
      | .ok (none, u, buf) =>
        .ok ({ s with buf := buf }.goto t op rest (answer.moved (.ok (none, u, buf))))
      | .ok (some e, u, buf) =>
        .ok ({ s with buf := buf }.goto t op [.lockRelease] (answer.moved (.ok (some e, u, buf))))
  | .drain =>
    match answer.uio with
    | none => .error .blocked
    | some u =>
      match uiomove s.buf 0 answer.iolen.toNat u with
      | .error p => .ok (s.goto t op [] (answer.moved (.error p)))
      | .ok r => .ok (s.goto t op rest (answer.moved (.ok r)))
  | .waitdone => do
    require (0 < s.sem)
    let s := { s with sem := s.sem - 1 }
    match translateErr s.result with
    | .error p => .ok (s.goto t op [] { answer with result := .error p })
    | .ok (some e) => .ok (s.goto t op [.lockRelease] { answer with result := .ok (some e) })
    | .ok none => .ok (s.goto t op rest answer)

/-- One step of the system: a thread begins an operation, takes a step or returns, the device
performs the command in its registers, or `emu_irq` runs. -/
def step (serve : F → EmuCmd → F × EmuReply) (s : EmuSys F) : EmuAction → Except Stop (EmuSys F)
  | .start t op => do
    require ((s.thread t).isNone ∧ op.Valid)
    match op.early with
    | some answer => return { s with returned := s.returned ++ [(op, answer)] }
    | none => return s.goto t op op.prog (op.returning (.ok none))
  | .step t =>
    match s.thread t with
    | none => .error .blocked
    | some ⟨op, [], answer⟩ => .ok { s with
        thread := Function.update s.thread t none
        returned := s.returned ++ [(op, answer)] }
    | some ⟨op, a :: rest, answer⟩ => s.act t op rest answer a
  | .perform =>
    match s.pending with
    | none => .error .blocked
    | some oper =>
      let cmd := s.regs.command s.buf oper
      let (files, r) := serve s.files cmd
      .ok { s with
        regs := r.regs
        buf := r.buf
        pending := none
        irq := true
        files := files
        served := s.served ++ [(cmd, r)] }
  | .irq => do
    require (s.irq = true)
    return { s with
      result := s.regs.result
      regs := { s.regs with result := 0 }
      irq := false
      sem := s.sem + 1 }

end EmuSys

end Os161
