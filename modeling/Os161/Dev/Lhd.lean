import Mathlib.Data.List.Forall2
import Os161.Machine.Stop
import Os161.Sfs.Lhd

set_option autoImplicit false

/-!
# The disk driver and its interrupts

`lhd_io` in any number of threads on one disk, the card, and the interrupt handler `lhd_irq`, in any
order. `P` and `V` of the two semaphores are steps; each access to a register, to the buffer of the
card and to `lh_result` is a step of its own. What the card does with an operation is left open, but
that it ends it once.

* `LhdSys.step`: the threads, the card and the handler.
* `LhdSys.Phase`: what holds where the thread is that has taken `lh_clear`.
* **`lhdInv_run`**: the invariant; **`lhd_isolated`**: what it says about the operations.
-/

namespace Os161

open Buffer Transition

/-- The status register: `LHD_IDLE`, `LHD_WORKING`, or how the operation ended. -/
inductive LhdStat
  | idle
  | working
  | ended (status : LhdStatus)
  deriving DecidableEq, Repr

/-- Where `lhd_irq` is: outside, before it clears the status register, before it saves the result in
`lh_result`, before `V(lh_done)`. -/
inductive IrqPc
  | idle
  | ack (status : LhdStatus)
  | save (status : LhdStatus)
  | wake
  deriving DecidableEq, Repr

/-- The variables of a call of `lhd_io`; `write` is `uio_rw`, which no transfer changes. -/
structure LhdCall where
  uio : Uio
  write : Bool
  sector : ℕ
  len : ℕ
  i : ℕ

/-- An operation of the card: the thread that started it, the sector it asked for, the data it had
transferred to the card for a write, and the registers and the buffer when it started. -/
structure LhdOp where
  thread : ThreadId
  sector : ℕ
  sent : Option Buffer
  cmd : LhdCommand

/-- What a thread took from the driver: the value of `lh_result`, and the contents of the buffer. -/
structure LhdUse where
  thread : ThreadId
  result : Option FsErr
  seen : Option Buffer

/-- Where a thread is: outside with the result of its last call, or in an iteration of the loop. -/
inductive LhdPc
  | returned (e : Option FsErr)
  | clear (c : LhdCall)
  | fill (c : LhdCall)
  | abort (e : FsErr)
  | sect (c : LhdCall) (sent : Option Buffer)
  | stat (c : LhdCall) (sent : Option Buffer)
  | done (c : LhdCall)
  | result (c : LhdCall)
  | drain (c : LhdCall)
  | giveClear (c : LhdCall) (result : Option FsErr) (seen : Option Buffer) (e : Option FsErr)

/-- The thread has taken `lh_clear`. -/
def LhdPc.inside : LhdPc → Bool
  | .returned _ | .clear _ => false
  | _ => true

/-- The card with its registers and its buffer, `lh_result`, the counts of `lh_clear` and `lh_done`,
the handler and the threads; the operations in the order in which they started, how they ended and
what was then in the buffer, and what the threads took, both in the order in which it happened. -/
structure LhdSys where
  nsect : ℕ
  status : LhdStat
  sect : ℕ
  buf : Buffer
  result : Option FsErr
  clear : ℕ
  done : ℕ
  irq : IrqPc
  pc : ThreadId → LhdPc
  started : List LhdOp
  completed : List (LhdStatus × Buffer)
  consumed : List LhdUse

/-- A thread calls `lhd_io` or goes on, the card ends its operation and leaves something in its
buffer, or the handler is called or goes on. -/
inductive LhdAction
  | io (t : ThreadId) (uio : Uio)
  | run (t : ThreadId)
  | complete (status : LhdStatus) (buf : Buffer)
  | irq

/-- Why a step of the driver does not happen. -/
inductive LhdStop
  | blocked
  | panic (p : FsPanic)
  deriving DecidableEq, Repr

/-- The head of the loop of `lhd_io`. -/
def LhdCall.next (c : LhdCall) : LhdPc := if c.i < c.len then .clear c else .returned none

/-- `lhd_io` up to its loop. -/
def lhdIoStart (nsect : ℕ) (uio : Uio) : LhdPc :=
  let sector := uio.offset / lhdSectsize % wordSize
  let len := uio.resid / lhdSectsize
  if uio.offset % lhdSectsize ≠ 0 ∨ uio.resid % lhdSectsize ≠ 0 then .returned (some .einval)
  else if nsect < wadd sector len then .returned (some .einval)
  else LhdCall.next ⟨uio, uio.rw = .write, sector, len, 0⟩

namespace LhdSys

/-- After `config_lhd`. -/
def config (nsect sect : ℕ) (buf : Buffer) (result : Option FsErr) : LhdSys :=
  ⟨nsect, .idle, sect, buf, result, 1, 0, .idle, fun _ => .returned none, [], [], []⟩

/-- The thread goes on at `pc`. -/
def goto (s : LhdSys) (t : ThreadId) (pc : LhdPc) : LhdSys :=
  { s with pc := Function.update s.pc t pc }

/-- The next step of a call of `lhd_io`. -/
def io (s : LhdSys) (t : ThreadId) : LhdPc → Except LhdStop LhdSys
  | .returned _ => .error .blocked
  | .clear c =>
    if 0 < s.clear then
      .ok { s.goto t (if c.write then .fill c else .sect c none) with clear := s.clear - 1 }
    else .error .blocked
  | .fill c =>
    match uiomove s.buf 0 lhdSectsize c.uio with
    | .error p => .error (.panic p)
    | .ok (none, uio, buf) => .ok { s.goto t (.sect { c with uio := uio } (some buf)) with buf := buf }
    | .ok (some e, _, buf) => .ok { s.goto t (.abort e) with buf := buf }
  | .abort e => .ok { s.goto t (.returned (some e)) with clear := s.clear + 1 }
  | .sect c sent => .ok { s.goto t (.stat c sent) with sect := wadd c.sector c.i }
  | .stat c sent =>
    .ok { s.goto t (.done c) with
      status := .working
      started := s.started ++ [⟨t, wadd c.sector c.i, sent, ⟨s.sect, c.write, s.buf⟩⟩] }
  | .done c =>
    if 0 < s.done then .ok { s.goto t (.result c) with done := s.done - 1 } else .error .blocked
  | .result c =>
    if s.result = none ∧ c.write = false then .ok (s.goto t (.drain c))
    else .ok (s.goto t (.giveClear c s.result none s.result))
  | .drain c =>
    match uiomove s.buf 0 lhdSectsize c.uio with
    | .error p => .error (.panic p)
    | .ok (e, uio, buf) =>
      .ok { s.goto t (.giveClear { c with uio := uio } none (some s.buf) e) with buf := buf }
  | .giveClear c result seen e =>
    let pc := if e.isSome then .returned e else LhdCall.next { c with i := c.i + 1 }
    .ok { s.goto t pc with
      clear := s.clear + 1
      consumed := s.consumed ++ [⟨t, result, seen⟩] }

/-- The next step of `lhd_irq`. -/
def lhdIrq (s : LhdSys) : IrqPc → LhdSys
  | .idle =>
    match s.status with
    | .idle | .working => s
    | .ended status => { s with irq := .ack status }
  | .ack status => { s with status := .idle, irq := .save status }
  | .save status => { s with result := lhdCodeToErrno status, irq := .wake }
  | .wake => { s with done := s.done + 1, irq := .idle }

/-- A step of the system. -/
def step (s : LhdSys) : LhdAction → Except LhdStop LhdSys
  | .io t uio =>
    match s.pc t with
    | .returned _ => .ok (s.goto t (lhdIoStart s.nsect uio))
    | _ => .error .blocked
  | .run t => s.io t (s.pc t)
  | .complete status buf =>
    if s.status = .working then
      .ok { s with
        status := .ended status
        buf := buf
        completed := s.completed ++ [(status, buf)] }
    else .error .blocked
  | .irq => .ok (s.lhdIrq s.irq)

end LhdSys

/-! ## The invariant -/

/-- The card was asked for what the thread wanted, and the thread took the result of its operation and,
after a successful read, the contents of the buffer that the operation had left. -/
structure LhdOp.Matches (op : LhdOp) (c : LhdStatus × Buffer) (u : LhdUse) : Prop where
  sector : op.cmd.sector = op.sector
  write : op.cmd.write = op.sent.isSome
  data : ∀ b, op.sent = some b → op.cmd.data = b
  thread : u.thread = op.thread
  result : u.result = lhdCodeToErrno c.1
  seen : u.seen = if c.1 = .ok ∧ op.cmd.write = false then some c.2 else none

namespace LhdSys

/-- The operations `S`, which ended as `C`, are those whose results were taken. -/
structure Served (s : LhdSys) (S : List LhdOp) (C : List (LhdStatus × Buffer)) : Prop where
  len : S.length = C.length
  all : List.Forall₂ (fun p u => p.1.Matches p.2 u) (S.zip C) s.consumed

/-- No operation is under way. -/
structure Quiet (s : LhdSys) : Prop where
  status : s.status = .idle
  irq : s.irq = .idle
  done : s.done = 0
  served : s.Served s.started s.completed

/-- The card was asked for what the thread wants. -/
structure Asked (op : LhdOp) (t : ThreadId) (c : LhdCall) : Prop where
  thread : op.thread = t
  write : op.cmd.write = c.write
  sound : op.cmd.sector = op.sector ∧ op.cmd.write = op.sent.isSome ∧
    ∀ b, op.sent = some b → op.cmd.data = b

/-- The last operation is that of the call; it ended as `e`. -/
def Ended (s : LhdSys) (t : ThreadId) (c : LhdCall) (e : LhdStatus × Buffer) : Prop :=
  ∃ S op C, s.started = S ++ [op] ∧ s.completed = C ++ [e] ∧ s.Served S C ∧ Asked op t c

/-- **The operation under way**, from its start to the completion that the thread waits for. -/
inductive Awaits (s : LhdSys) (t : ThreadId) (c : LhdCall) : Prop
  | working {S : List LhdOp} {op : LhdOp} (hs : s.started = S ++ [op])
      (hserved : s.Served S s.completed) (hop : Asked op t c) (hstatus : s.status = .working)
      (hirq : s.irq = .idle) (hdone : s.done = 0)
  | raised {st : LhdStatus} (h : s.Ended t c (st, s.buf)) (hstatus : s.status = .ended st)
      (hirq : s.irq = .idle ∨ s.irq = .ack st) (hdone : s.done = 0)
  | acked {st : LhdStatus} (h : s.Ended t c (st, s.buf)) (hstatus : s.status = .idle)
      (hirq : s.irq = .save st) (hdone : s.done = 0)
  | saved {st : LhdStatus} (h : s.Ended t c (st, s.buf)) (hstatus : s.status = .idle)
      (hirq : s.irq = .wake) (hresult : s.result = lhdCodeToErrno st) (hdone : s.done = 0)
  | posted {st : LhdStatus} (h : s.Ended t c (st, s.buf)) (hstatus : s.status = .idle)
      (hirq : s.irq = .idle) (hresult : s.result = lhdCodeToErrno st) (hdone : s.done = 1)

/-- The completion was received: the card and the handler are idle. -/
structure Received (s : LhdSys) (t : ThreadId) (c : LhdCall) (e : LhdStatus × Buffer) : Prop where
  ended : s.Ended t c e
  status : s.status = .idle
  irq : s.irq = .idle
  done : s.done = 0

/-- **What holds where the thread is** that has taken `lh_clear`. -/
def Phase (s : LhdSys) (t : ThreadId) : LhdPc → Prop
  | .fill c => s.Quiet ∧ c.write = true
  | .abort _ => s.Quiet
  | .sect c sent => s.Quiet ∧ sent.isSome = c.write ∧ ∀ b, sent = some b → s.buf = b
  | .stat c sent =>
    s.Quiet ∧ sent.isSome = c.write ∧ (∀ b, sent = some b → s.buf = b) ∧ s.sect = wadd c.sector c.i
  | .done c => s.Awaits t c
  | .result c => ∃ st, s.Received t c (st, s.buf) ∧ s.result = lhdCodeToErrno st
  | .drain c => s.Received t c (.ok, s.buf) ∧ c.write = false
  | .giveClear c result seen _ => ∃ e, s.Received t c e ∧ result = lhdCodeToErrno e.1 ∧
      seen = if e.1 = .ok ∧ c.write = false then some e.2 else none
  | _ => False

/-- **The invariant of the driver**: nobody is inside, or one thread is. -/
inductive Inv (s : LhdSys) : Prop
  | idle (hout : ∀ t, (s.pc t).inside = false) (hclear : s.clear = 1) (hq : s.Quiet)
  | busy {t : ThreadId} (hother : ∀ u ≠ t, (s.pc u).inside = false)
      (hclear : s.clear = 0) (hp : s.Phase t (s.pc t))

section Lemmas

variable {s s' : LhdSys} {t : ThreadId} {c : LhdCall} {p : LhdPc} {S : List LhdOp} {op : LhdOp}
  {C : List (LhdStatus × Buffer)} {e : LhdStatus × Buffer}

theorem inside_next : c.next.inside = false := by
  unfold LhdCall.next
  split_ifs <;> rfl

theorem inside_lhdIoStart (nsect : ℕ) (uio : Uio) : (lhdIoStart nsect uio).inside = false := by
  unfold lhdIoStart
  simp only
  split_ifs
  · rfl
  · rfl
  · exact inside_next

theorem Served.congr (h : s.Served S C) (hconsumed : s'.consumed = s.consumed) : s'.Served S C :=
  ⟨h.len, by rw [hconsumed]; exact h.all⟩

theorem Ended.congr (h : s.Ended t c e) (hstarted : s'.started = s.started)
    (hcompleted : s'.completed = s.completed) (hconsumed : s'.consumed = s.consumed) :
    s'.Ended t c e := by
  obtain ⟨S, op, C, hs, hc, hserved, hop⟩ := h
  exact ⟨S, op, C, hstarted.trans hs, hcompleted.trans hc, hserved.congr hconsumed, hop⟩

/-- The operation does not depend on the caller's uio. -/
theorem Ended.withUio (h : s.Ended t c e) (uio : Uio) : s.Ended t { c with uio := uio } e := by
  obtain ⟨S, op, C, hs, hc, hserved, hop⟩ := h
  exact ⟨S, op, C, hs, hc, hserved, hop.thread, hop.write, hop.sound⟩

/-- **The result of an operation is taken.** -/
theorem Ended.served {u : LhdUse} (h : s.Ended t c e) (hstarted : s'.started = s.started)
    (hcompleted : s'.completed = s.completed) (hconsumed : s'.consumed = s.consumed ++ [u])
    (ht : u.thread = t) (hr : u.result = lhdCodeToErrno e.1)
    (hseen : u.seen = if e.1 = .ok ∧ c.write = false then some e.2 else none) :
    s'.Served s'.started s'.completed := by
  obtain ⟨S, op, C, hs, hc, hserved, hop⟩ := h
  obtain ⟨hsector, hwrite, hdata⟩ := hop.sound
  rw [hstarted, hcompleted, hs, hc]
  refine ⟨by simp [hserved.len], ?_⟩
  rw [hconsumed, List.zip_append hserved.len]
  refine List.rel_append hserved.all (.cons ?_ .nil)
  exact ⟨hsector, hwrite, hdata, ht.trans hop.thread.symm, hr, by rw [hseen, hop.write]⟩

theorem Quiet.congr (h : s.Quiet) (hstatus : s'.status = s.status) (hirq : s'.irq = s.irq)
    (hdone : s'.done = s.done) (hstarted : s'.started = s.started)
    (hcompleted : s'.completed = s.completed) (hconsumed : s'.consumed = s.consumed) : s'.Quiet :=
  ⟨hstatus.trans h.status, hirq.trans h.irq, hdone.trans h.done, by
    rw [hstarted, hcompleted]
    exact h.served.congr hconsumed⟩

/-- The thread that has taken `lh_clear` does not depend on where the others are. -/
theorem Phase.goto {u : ThreadId} {q : LhdPc} (h : s.Phase t p) : (s.goto u q).Phase t p := by
  have hq : s.Quiet → (s.goto u q).Quiet := fun h => h.congr rfl rfl rfl rfl rfl rfl
  have he : ∀ {c e}, s.Ended t c e → (s.goto u q).Ended t c e := fun h => h.congr rfl rfl rfl
  have hr : ∀ {c e}, s.Received t c e → (s.goto u q).Received t c e :=
    fun h => ⟨he h.ended, h.status, h.irq, h.done⟩
  cases p with
  | returned | clear => exact h
  | fill c => exact ⟨hq h.1, h.2⟩
  | abort e => exact hq h
  | sect c sent => exact ⟨hq h.1, h.2⟩
  | stat c sent => exact ⟨hq h.1, h.2⟩
  | done c =>
    cases h with
    | working hs hserved hop hstatus hirq hdone =>
      exact .working hs (hserved.congr rfl) hop hstatus hirq hdone
    | raised h hstatus hirq hdone => exact .raised (he h) hstatus hirq hdone
    | acked h hstatus hirq hdone => exact .acked (he h) hstatus hirq hdone
    | saved h hstatus hirq hresult hdone => exact .saved (he h) hstatus hirq hresult hdone
    | posted h hstatus hirq hresult hdone => exact .posted (he h) hstatus hirq hresult hdone
  | result c =>
    obtain ⟨st, h, hresult⟩ := h
    exact ⟨st, hr h, hresult⟩
  | drain c => exact ⟨hr h.1, h.2⟩
  | giveClear c result seen e =>
    obtain ⟨e, h, hresult, hseen⟩ := h
    exact ⟨e, hr h, hresult, hseen⟩

/-- The card and the handler are idle, unless the thread waits for its operation. -/
theorem Phase.idle_or_awaits (h : s.Phase t p) :
    (s.status = .idle ∧ s.irq = .idle) ∨ ∃ c, p = .done c ∧ s.Awaits t c := by
  cases p with
  | returned | clear => exact h.elim
  | fill c => exact .inl ⟨h.1.status, h.1.irq⟩
  | abort e => exact .inl ⟨h.status, h.irq⟩
  | sect c sent => exact .inl ⟨h.1.status, h.1.irq⟩
  | stat c sent => exact .inl ⟨h.1.status, h.1.irq⟩
  | done c => exact .inr ⟨c, rfl, h⟩
  | result c =>
    obtain ⟨st, h, -⟩ := h
    exact .inl ⟨h.status, h.irq⟩
  | drain c => exact .inl ⟨h.1.status, h.1.irq⟩
  | giveClear c result seen e =>
    obtain ⟨e, h, -⟩ := h
    exact .inl ⟨h.status, h.irq⟩

theorem Phase.inside (h : s.Phase t p) : p.inside = true := by
  cases p with
  | returned | clear => exact h.elim
  | _ => rfl

/-- The thread that is inside is the one that has taken `lh_clear`. -/
theorem Inv.phase (h : s.Inv) (hin : (s.pc t).inside = true) :
    (∀ u ≠ t, (s.pc u).inside = false) ∧ s.clear = 0 ∧ s.Phase t (s.pc t) := by
  cases h with
  | idle hout =>
    rw [hout t] at hin
    cases hin
  | @busy u hother hclear hp =>
    by_cases he : t = u
    · subst he
      exact ⟨hother, hclear, hp⟩
    · rw [hother t he] at hin
      cases hin

/-- **The thread inside goes on.** -/
theorem Inv.advance (hother : ∀ u ≠ t, (s.pc u).inside = false)
    (hpc : s'.pc = Function.update s.pc t p) (hclear : s'.clear = 0) (hp : s'.Phase t p) :
    s'.Inv := by
  refine .busy (t := t) (fun u hu => ?_) hclear ?_
  · rw [hpc, Function.update_of_ne hu]
    exact hother u hu
  · rw [hpc, Function.update_self]
    exact hp

/-- **The thread inside gives `lh_clear` back.** -/
theorem Inv.leave (hother : ∀ u ≠ t, (s.pc u).inside = false)
    (hpc : s'.pc = Function.update s.pc t p) (hp : p.inside = false) (hclear : s'.clear = 1)
    (hq : s'.Quiet) : s'.Inv := by
  refine .idle (fun u => ?_) hclear hq
  rw [hpc]
  by_cases hu : u = t
  · rw [hu, Function.update_self]
    exact hp
  · rw [Function.update_of_ne hu]
    exact hother u hu

/-- A thread that is not inside goes on without `lh_clear`. -/
theorem Inv.outside (h : s.Inv) (ht : (s.pc t).inside = false) (hp : p.inside = false) :
    (s.goto t p).Inv := by
  cases h with
  | idle hout hclear hq =>
    exact .leave (s := s) (t := t) (p := p) (fun u _ => hout u) rfl hp hclear
      (hq.congr rfl rfl rfl rfl rfl rfl)
  | @busy u hother hclear hph =>
    have hne : t ≠ u := by
      rintro rfl
      rw [hph.inside] at ht
      cases ht
    have hself : (s.goto t p).pc u = s.pc u := Function.update_of_ne hne.symm ..
    refine .busy (t := u) (fun v hv => ?_) hclear (by rw [hself]; exact hph.goto)
    change (Function.update s.pc t p v).inside = false
    by_cases he : v = t
    · rw [he, Function.update_self]
      exact hp
    · rw [Function.update_of_ne he]
      exact hother v hv

/-- **Every step of a call of `lhd_io`** keeps the invariant. -/
theorem inv_io (h : s.Inv) (hs : s.io t (s.pc t) = .ok s') : s'.Inv := by
  cases hpc : s.pc t with
  | returned e =>
    rw [hpc] at hs
    cases hs
  | clear c =>
    rw [hpc] at hs
    simp only [io] at hs
    have hidle : 0 < s.clear → (∀ u, (s.pc u).inside = false) ∧ s.clear = 1 ∧ s.Quiet := by
      intro hpos
      cases h with
      | busy hother hclear hp => omega
      | idle hout hclear hq => exact ⟨hout, hclear, hq⟩
    split_ifs at hs with hpos hw
    · obtain ⟨hout, hclear, hq⟩ := hidle hpos
      obtain rfl := Except.ok.inj hs
      exact Inv.advance (t := t) (fun u _ => hout u) rfl (by rw [hclear])
        ⟨hq.congr rfl rfl rfl rfl rfl rfl, hw⟩
    · obtain ⟨hout, hclear, hq⟩ := hidle hpos
      obtain rfl := Except.ok.inj hs
      exact Inv.advance (t := t) (fun u _ => hout u) rfl (by rw [hclear])
        ⟨hq.congr rfl rfl rfl rfl rfl rfl, (Bool.eq_false_iff.mpr hw).symm,
          fun b hb => by cases hb⟩
  | fill c =>
    obtain ⟨hother, hclear, hp⟩ := h.phase (t := t) (by rw [hpc]; rfl)
    rw [hpc] at hs hp
    simp only [io] at hs
    split at hs
    · cases hs
    · obtain rfl := Except.ok.inj hs
      exact Inv.advance hother rfl hclear
        ⟨hp.1.congr rfl rfl rfl rfl rfl rfl, hp.2.symm, fun b hb => Option.some.inj hb⟩
    · obtain rfl := Except.ok.inj hs
      exact Inv.advance hother rfl hclear (hp.1.congr rfl rfl rfl rfl rfl rfl)
  | abort e =>
    obtain ⟨hother, hclear, hp⟩ := h.phase (t := t) (by rw [hpc]; rfl)
    rw [hpc] at hs hp
    obtain rfl := Except.ok.inj hs
    exact Inv.leave hother rfl rfl (by rw [hclear]) (Quiet.congr hp rfl rfl rfl rfl rfl rfl)
  | sect c sent =>
    obtain ⟨hother, hclear, hp⟩ := h.phase (t := t) (by rw [hpc]; rfl)
    rw [hpc] at hs hp
    obtain rfl := Except.ok.inj hs
    exact Inv.advance hother rfl hclear
      ⟨hp.1.congr rfl rfl rfl rfl rfl rfl, hp.2.1, hp.2.2, rfl⟩
  | stat c sent =>
    obtain ⟨hother, hclear, hp⟩ := h.phase (t := t) (by rw [hpc]; rfl)
    rw [hpc] at hs hp
    obtain ⟨hq, hw, hb, hsect⟩ := hp
    obtain rfl := Except.ok.inj hs
    exact Inv.advance hother rfl hclear (.working rfl (hq.served.congr rfl)
      ⟨rfl, rfl, hsect, hw.symm, hb⟩ rfl hq.irq hq.done)
  | done c =>
    obtain ⟨hother, hclear, hp⟩ := h.phase (t := t) (by rw [hpc]; rfl)
    rw [hpc] at hs hp
    simp only [io] at hs
    split_ifs at hs with hpos
    · obtain rfl := Except.ok.inj hs
      -- only the `V` of the handler has raised the count
      cases hp with
      | posted hended hstatus hirq hresult hdone =>
        refine Inv.advance hother rfl hclear ⟨_, ⟨?_, hstatus, hirq, ?_⟩, hresult⟩
        · exact hended.congr rfl rfl rfl
        · change s.done - 1 = 0
          rw [hdone]
      | working _ _ _ _ _ hdone => omega
      | raised _ _ _ hdone => omega
      | acked _ _ _ hdone => omega
      | saved _ _ _ _ hdone => omega
  | result c =>
    obtain ⟨hother, hclear, hp⟩ := h.phase (t := t) (by rw [hpc]; rfl)
    rw [hpc] at hs hp
    obtain ⟨st, hr, hresult⟩ := hp
    simp only [io] at hs
    split_ifs at hs with hread
    · obtain rfl := Except.ok.inj hs
      obtain rfl : st = .ok := by
        rw [hread.1] at hresult
        cases st <;> first | rfl | cases hresult
      exact Inv.advance hother rfl hclear
        ⟨⟨hr.ended.congr rfl rfl rfl, hr.status, hr.irq, hr.done⟩, hread.2⟩
    · obtain rfl := Except.ok.inj hs
      refine Inv.advance hother rfl hclear
        ⟨_, ⟨hr.ended.congr rfl rfl rfl, hr.status, hr.irq, hr.done⟩, hresult, ?_⟩
      rw [if_neg]
      rintro ⟨rfl, hw⟩
      exact hread ⟨hresult, hw⟩
  | drain c =>
    obtain ⟨hother, hclear, hp⟩ := h.phase (t := t) (by rw [hpc]; rfl)
    rw [hpc] at hs hp
    obtain ⟨hr, hw⟩ := hp
    simp only [io] at hs
    split at hs
    · cases hs
    · next e uio buf hmove =>
      obtain rfl := Except.ok.inj hs
      refine Inv.advance hother rfl hclear ⟨(.ok, s.buf),
        ⟨(hr.ended.withUio uio).congr rfl rfl rfl, hr.status, hr.irq, hr.done⟩, rfl, ?_⟩
      rw [if_pos ⟨rfl, hw⟩]
  | giveClear c result seen e =>
    obtain ⟨hother, hclear, hp⟩ := h.phase (t := t) (by rw [hpc]; rfl)
    rw [hpc] at hs hp
    obtain ⟨e', hr, hresult, hseen⟩ := hp
    obtain rfl := Except.ok.inj hs
    refine Inv.leave hother rfl ?_ (by rw [hclear])
      ⟨hr.status, hr.irq, hr.done, hr.ended.served rfl rfl rfl rfl hresult hseen⟩
    split_ifs
    · rfl
    · exact inside_next

/-- **The handler** keeps what the thread that waits relies on. -/
theorem Awaits.lhdIrq (h : s.Awaits t c) : (s.lhdIrq s.irq).Awaits t c := by
  cases h with
  | working hs hserved hop hstatus hirq hdone =>
    rw [hirq]
    simp only [LhdSys.lhdIrq, hstatus]
    exact .working hs hserved hop hstatus hirq hdone
  | raised h hstatus hirq hdone =>
    rcases hirq with hirq | hirq
    · rw [hirq]
      simp only [LhdSys.lhdIrq, hstatus]
      exact .raised (h.congr rfl rfl rfl) rfl (.inr rfl) hdone
    · rw [hirq]
      exact .acked (h.congr rfl rfl rfl) rfl rfl hdone
  | acked h hstatus hirq hdone =>
    rw [hirq]
    exact .saved (h.congr rfl rfl rfl) hstatus rfl rfl hdone
  | saved h hstatus hirq hresult hdone =>
    rw [hirq]
    exact .posted (h.congr rfl rfl rfl) hstatus rfl hresult (by
      change s.done + 1 = 1
      rw [hdone])
  | posted h hstatus hirq hresult hdone =>
    rw [hirq]
    simp only [LhdSys.lhdIrq, hstatus]
    exact .posted h hstatus hirq hresult hdone

/-- **Every step** keeps the invariant. -/
theorem inv_step {a : LhdAction} (h : s.Inv) (hs : s.step a = .ok s') : s'.Inv := by
  cases a with
  | io t uio =>
    simp only [step] at hs
    split at hs
    · next e hpc =>
      obtain rfl := Except.ok.inj hs
      exact h.outside (by rw [hpc]; rfl) (inside_lhdIoStart _ _)
    · cases hs
  | run t => exact inv_io h hs
  | complete st b =>
    simp only [step] at hs
    split_ifs at hs with hw
    · obtain rfl := Except.ok.inj hs
      cases h with
      | idle hout hclear hq =>
        rw [hq.status] at hw
        cases hw
      | @busy t hother hclear hp =>
        rcases hp.idle_or_awaits with ⟨hidle, -⟩ | ⟨c, hpc, haw⟩
        · rw [hidle] at hw
          cases hw
        · refine .busy (t := t) hother hclear ?_
          change Phase _ t (s.pc t)
          rw [hpc]
          cases haw with
          | working hstarted hserved hop hstatus hirq hdone =>
            exact .raised ⟨_, _, _, hstarted, rfl, hserved.congr rfl, hop⟩ rfl (.inl hirq) hdone
          | raised _ hstatus => cases hw.symm.trans hstatus
          | acked _ hstatus => cases hw.symm.trans hstatus
          | saved _ hstatus => cases hw.symm.trans hstatus
          | posted _ hstatus => cases hw.symm.trans hstatus
  | irq =>
    obtain rfl := Except.ok.inj hs
    have hsame : s.status = .idle → s.irq = .idle → s.lhdIrq s.irq = s := fun hstatus hirq => by
      rw [hirq]
      simp only [lhdIrq, hstatus]
    have hpc : (s.lhdIrq s.irq).pc = s.pc := by
      unfold lhdIrq
      split
      · split <;> rfl
      all_goals rfl
    have hclear' : (s.lhdIrq s.irq).clear = s.clear := by
      unfold lhdIrq
      split
      · split <;> rfl
      all_goals rfl
    cases h with
    | idle hout hclear hq =>
      rw [hsame hq.status hq.irq]
      exact .idle hout hclear hq
    | @busy t hother hclear hp =>
      rcases hp.idle_or_awaits with ⟨hstatus, hirq⟩ | ⟨c, he, haw⟩
      · rw [hsame hstatus hirq]
        exact .busy hother hclear hp
      · refine .busy (t := t) (by rw [hpc]; exact hother) (hclear'.trans hclear) ?_
        rw [hpc, he]
        exact haw.lhdIrq

/-- **The operations and what was taken of them**: all but the last one were taken, and the last one
may have ended. -/
theorem Inv.split (h : s.Inv) :
    ∃ S S' C C', s.started = S ++ S' ∧ s.completed = C ++ C' ∧ s.Served S C ∧ S'.length ≤ 1 ∧
      C'.length ≤ S'.length := by
  have hquiet : s.Quiet → ∃ S S' C C', s.started = S ++ S' ∧ s.completed = C ++ C' ∧
      s.Served S C ∧ S'.length ≤ 1 ∧ C'.length ≤ S'.length := fun hq =>
    ⟨_, [], _, [], (List.append_nil _).symm, (List.append_nil _).symm, hq.served, Nat.zero_le 1,
      le_refl _⟩
  have hended : ∀ {t c e}, s.Ended t c e → ∃ S S' C C', s.started = S ++ S' ∧
      s.completed = C ++ C' ∧ s.Served S C ∧ S'.length ≤ 1 ∧ C'.length ≤ S'.length := by
    rintro t c e ⟨S, op, C, hs, hc, hserved, -⟩
    exact ⟨S, [op], C, [e], hs, hc, hserved, le_refl 1, le_refl 1⟩
  cases h with
  | idle hout hclear hq => exact hquiet hq
  | @busy t hother hclear hp =>
    cases hpc : s.pc t with
    | returned | clear =>
      rw [hpc] at hp
      exact hp.elim
    | fill c | sect c sent | stat c sent =>
      rw [hpc] at hp
      exact hquiet hp.1
    | abort e =>
      rw [hpc] at hp
      exact hquiet hp
    | done c =>
      rw [hpc] at hp
      cases hp with
      | @working S op hs hserved =>
        exact ⟨S, [op], s.completed, [], hs, (List.append_nil _).symm, hserved, le_refl 1,
          Nat.zero_le 1⟩
      | raised h | acked h | saved h | posted h => exact hended h
    | result c =>
      rw [hpc] at hp
      obtain ⟨st, hr, -⟩ := hp
      exact hended hr.ended
    | drain c =>
      rw [hpc] at hp
      exact hended hp.1.ended
    | giveClear c result seen e =>
      rw [hpc] at hp
      obtain ⟨e, hr, -⟩ := hp
      exact hended hr.ended

theorem Served.length (h : s.Served S C) : s.consumed.length = S.length := by
  rw [← h.all.length_eq, List.length_zip, h.len, Nat.min_self]

/-- What was taken matches, position by position. -/
theorem Served.matches {i : ℕ} {u : LhdUse} (h : s.Served S C) (hop : S[i]? = some op)
    (he : C[i]? = some e) (hu : s.consumed[i]? = some u) : op.Matches e u := by
  have hzip : (S.zip C)[i]? = some (op, e) := List.getElem?_zip_eq_some.mpr ⟨hop, he⟩
  obtain ⟨hi, hzip⟩ := List.getElem?_eq_some_iff.mp hzip
  obtain ⟨hi', hu⟩ := List.getElem?_eq_some_iff.mp hu
  have := h.all.get hi hi'
  simp only [List.get_eq_getElem, hzip, hu] at this
  exact this

/-- Without a thread inside, the driver is as after `config_lhd`. -/
theorem Inv.of_outside (h : s.Inv) (hout : ∀ t, (s.pc t).inside = false) :
    s.clear = 1 ∧ s.done = 0 := by
  cases h with
  | idle _ hclear hq => exact ⟨hclear, hq.done⟩
  | @busy t _ _ hp =>
    have := hp.inside
    rw [hout t] at this
    cases this

/-- A thread moves only itself. -/
theorem pc_of_io {u : ThreadId} (hs : s.io t p = .ok s') (hu : u ≠ t) : s'.pc u = s.pc u := by
  have hgoto : ∀ {q}, (s.goto t q).pc u = s.pc u := fun {q} => Function.update_of_ne hu ..
  cases p with
  | returned => cases hs
  | clear | done | result =>
    simp only [io] at hs
    split_ifs at hs <;> (obtain rfl := Except.ok.inj hs; exact hgoto)
  | fill | drain =>
    simp only [io] at hs
    split at hs
    · cases hs
    all_goals (obtain rfl := Except.ok.inj hs; exact hgoto)
  | abort | sect | stat | giveClear =>
    obtain rfl := Except.ok.inj hs
    exact hgoto

end Lemmas

section Run

variable {nsect sect : ℕ} {buf : Buffer} {result : Option FsErr} {acts : List LhdAction}
  {s : LhdSys}

theorem inv_config : (config nsect sect buf result).Inv :=
  .idle (fun _ => rfl) rfl ⟨rfl, rfl, rfl, rfl, .nil⟩

/-- **The invariant holds in every run.** -/
theorem lhdInv_run (h : run step (config nsect sect buf result) acts = .ok s) : s.Inv :=
  run_inv step (fun _ _ _ hs ht => inv_step hs ht) inv_config h

/-- **Isolation of the operations of the disk.** At most one operation is outstanding. What is taken
is the result of the operations in their order, by the threads that started them, with what they left
in the buffer. A thread that gives `lh_clear` back, whatever its call returns, leaves it available
and `lh_done` zero, and so they are whenever no thread is inside. -/
theorem lhd_isolated (h : run step (config nsect sect buf result) acts = .ok s) :
    (s.completed.length ≤ s.started.length ∧ s.started.length ≤ s.completed.length + 1) ∧
      (s.consumed.length ≤ s.completed.length ∧ s.started.length ≤ s.consumed.length + 1) ∧
      (∀ (i : ℕ) (op : LhdOp) (e : LhdStatus × Buffer) (u : LhdUse), s.started[i]? = some op →
        s.completed[i]? = some e → s.consumed[i]? = some u → op.Matches e u) ∧
      (∀ t s', s.step (.run t) = .ok s' → (s.pc t).inside = true → (s'.pc t).inside = false →
        s'.clear = 1 ∧ s'.done = 0) ∧
      ((∀ t, (s.pc t).inside = false) → s.clear = 1 ∧ s.done = 0) := by
  have hinv := lhdInv_run h
  obtain ⟨S, S', C, C', hs, hc, hserved, hS, hC⟩ := hinv.split
  have hlen := hserved.len
  have hcons := hserved.length
  refine ⟨?_, ?_, fun i op e u hop he hu => ?_, fun t s' hstep hin hout => ?_, hinv.of_outside⟩
  · rw [hs, hc, List.length_append, List.length_append]
    omega
  · rw [hs, hc, List.length_append, List.length_append]
    omega
  · have hi : i < S.length := by
      have := (List.getElem?_eq_some_iff.mp hu).1
      omega
    rw [hs, List.getElem?_append_left hi] at hop
    rw [hc, List.getElem?_append_left (hlen ▸ hi)] at he
    exact hserved.matches hop he hu
  · refine (inv_step hinv hstep).of_outside fun u => ?_
    by_cases hu : u = t
    · rw [hu]
      exact hout
    · rw [pc_of_io hstep hu]
      exact (hinv.phase hin).1 u hu

/-- Two threads read a sector, and the first one is served. -/
def twoReaders (uio : Uio) : List LhdAction :=
  [.io 0 uio, .io 1 uio, .run 0, .run 0, .run 0, .complete .media fun _ => 7, .irq, .irq, .irq, .irq,
    .run 0, .run 0]

theorem lhd_isolated_twoReaders :
    ∃ s s', run step (config 8 0 (fun _ => 0) none)
        (twoReaders ⟨[512], fun _ => 0, 0, false, 512, 0, 512, .read⟩) = .ok s ∧
      s.step (.run 0) = .ok s' ∧ s'.clear = 1 ∧ s'.done = 0 := by
  obtain ⟨s, hs, he⟩ := exists_ok_of_toOption (show (run step (config 8 0 (fun _ => 0) none)
      (twoReaders ⟨[512], fun _ => 0, 0, false, 512, 0, 512, .read⟩)).toOption.map (fun s =>
        ((s.pc 0).inside, (s.step (.run 0)).toOption.map fun s' => (s'.pc 0).inside)) =
    some (true, some false) by decide +kernel)
  simp only [Prod.mk.injEq] at he
  obtain ⟨s', hs', hout⟩ := exists_ok_of_toOption he.2
  obtain ⟨hclear, hdone⟩ := (lhd_isolated hs).2.2.2.1 0 s' hs' he.1 hout
  exact ⟨s, s', hs, hs', hclear, hdone⟩

end Run

end LhdSys

end Os161
