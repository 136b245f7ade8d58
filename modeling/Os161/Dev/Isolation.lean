import Os161.Dev.Emu

set_option autoImplicit false

/-!
# Isolation of the operations of the emulator file system

What the lock of the driver is for: each operation gives the device its own command and returns the
reply to it.

* `EmuOp.command`, `EmuOp.answer`: an operation on its own.
* `Isolated`: the operations that have returned and the commands that were performed match.
* **`emu_isolated`**: this holds as long as no operation begins while another one is under way, and
  no length is cut off by a register. The lock does not see to that.
-/

namespace Os161

open Buffer Transition

namespace EmuOp

/-- The copy of the data of a write, to some buffer. -/
def send (len : UInt32) (uio : Uio) : Except FsPanic (Option FsErr × Uio × Buffer) :=
  uiomove (fun _ => 0) 0 len.toNat uio

/-- The command of an operation, from its arguments. -/
def command : EmuOp → EmuCmd
  | .open handle name create excl =>
    .open (if create && excl then .exclcreate else if create then .create else .open) handle name
  | .doread handle len readdir uio =>
    .read (if readdir then .readdir else .read) handle len.toNat uio.offset
  | .write handle len uio =>
    .write handle len.toNat uio.offset (bytes (fun o => uio.area (uio.pos + o)) len.toNat)
  | .getsize handle => .getsize handle
  | .trunc handle len => .trunc handle len

/-- What an operation that does not get as far as a command returns. -/
def silent (op : EmuOp) : Option EmuAnswer :=
  match op.early, op with
  | some a, _ => some a
  | none, .write _ len uio =>
    match send len uio with
    | .ok (none, _, _) => none
    | r => some ((op.returning (.ok none)).moved r)
  | none, _ => none

/-- The answer of an operation before the device has replied. -/
def asked (op : EmuOp) : EmuAnswer :=
  match op with
  | .write _ len uio => (op.returning (.ok none)).moved (send len uio)
  | _ => op.returning (.ok none)

/-- The answer of an operation to a reply that is a success. -/
def success (op : EmuOp) (r : EmuReply) : EmuAnswer :=
  match op with
  | .open .. => { op.asked with handle := r.regs.handle, iolen := r.regs.iolen }
  | .doread _ _ _ uio =>
    let a := { op.asked with iolen := r.regs.iolen }
    match uiomove r.buf 0 r.regs.iolen.toNat uio with
    | .error p => a.moved (.error p)
    | .ok x => (a.moved (.ok x)).read .offset r.regs.offset
  | .getsize _ => { op.asked with iolen := r.regs.iolen }
  | _ => op.asked

/-- **The answer of an operation** to the reply of the device. -/
def answer (op : EmuOp) (r : EmuReply) : EmuAnswer :=
  match translateErr r.regs.result with
  | .error p => { op.asked with result := .error p }
  | .ok (some e) => { op.asked with result := .ok (some e) }
  | .ok none => op.success r

/-- The length of a truncation fits the register. -/
def FitsRegister : EmuOp → Prop
  | .trunc _ len => len < 2 ^ 32
  | _ => True

end EmuOp

/-- The operations that have returned, in order, and the commands with their replies: an operation
either was not to reach the device, or the next command is its own and it has returned its own
answer. -/
inductive Matched : List (EmuOp × EmuAnswer) → List (EmuCmd × EmuReply) → Prop
  | nil : Matched [] []
  | silent {returned : List (EmuOp × EmuAnswer)} {served : List (EmuCmd × EmuReply)} {op : EmuOp}
      {a : EmuAnswer} (h : Matched returned served) (ha : op.silent = some a) :
      Matched (returned ++ [(op, a)]) served
  | served {returned : List (EmuOp × EmuAnswer)} {served : List (EmuCmd × EmuReply)} (op : EmuOp)
      (r : EmuReply) (h : Matched returned served) :
      Matched (returned ++ [(op, op.answer r)]) (served ++ [(op.command, r)])

variable {F : Type}

/-- **The operations are isolated**: those that have returned match the commands that were performed,
but for the command of an operation that is under way. -/
def Isolated (s : EmuSys F) : Prop :=
  ∃ served tail, s.served = served ++ tail ∧ Matched s.returned served ∧
    (tail = [] ∨ ∃ t th r, s.thread t = some th ∧ tail = [(th.op.command, r)])

/-- No operation begins while another one is under way, or with a length that does not fit. -/
def Alone (s : EmuSys F) : EmuAction → Prop
  | .start _ op => (∀ t, s.thread t = none) ∧ op.FitsRegister
  | _ => True

/-- The steps after the reply, with the reply in the registers and the buffer, lead to the answer. -/
def Collects : List EmuAct → EmuRegs → Buffer → EmuAnswer → EmuAnswer → Prop
  | [], _, _, a, final => a = final
  | .lockRelease :: rest, regs, buf, a, final => Collects rest regs buf a final
  | .rreg r :: rest, regs, buf, a, final => Collects rest regs buf (a.read r (emuRreg regs r)) final
  | .drain :: rest, regs, buf, a, final =>
    ∃ u, a.uio = some u ∧
      match uiomove buf 0 a.iolen.toNat u with
      | .error p => a.moved (.error p) = final
      | .ok x => Collects rest regs buf (a.moved (.ok x)) final
  | _ :: _, _, _, _, _ => False

/-- The steps from `emu_waitdone` on lead to the answer to the reply of the device. -/
def Waits (op : EmuOp) (rest : List EmuAct) (a : EmuAnswer) : Prop :=
  ∃ rest', rest = .waitdone :: rest' ∧ ∀ r : EmuReply,
    match translateErr r.regs.result with
    | .error p => { a with result := .error p } = op.answer r
    | .ok (some e) => { a with result := .ok (some e) } = op.answer r
    | .ok none => ∀ n, Collects rest' { r.regs with result := n } r.buf a (op.answer r)

/-- The steps before the command is given lead to the command of the operation. -/
def Prepares (op : EmuOp) : List EmuAct → EmuRegs → Buffer → EmuAnswer → Prop
  | .lockAcquire :: rest, regs, buf, a => Prepares op rest regs buf a
  | .strcpy name :: rest, regs, buf, a => Prepares op rest regs (strcpy buf name) a
  | .wreg r val :: rest, regs, buf, a => Prepares op rest (emuWreg regs r val) buf a
  | .fill len :: rest, regs, buf, a =>
    ∃ u, a.uio = some u ∧
      match uiomove buf 0 len.toNat u with
      | .ok (none, u, buf) => Prepares op rest regs buf (a.moved (.ok (none, u, buf)))
      | r => op.silent = some (a.moved r)
  | .oper o :: rest, regs, buf, a => regs.command buf o = op.command ∧ Waits op rest a
  | _, _, _, _ => False

/-- Nothing is under way in the device. -/
structure EmuSys.Quiet (s : EmuSys F) : Prop where
  pending : s.pending = none
  irq : s.irq = false
  sem : s.sem = 0

/-- **Where the only operation is**, with its command if that was performed. -/
inductive EmuPhase (s : EmuSys F) (th : EmuThread) : List (EmuCmd × EmuReply) → Prop
  | prepare (hq : s.Quiet) (h : Prepares th.op th.rest s.regs s.buf th.answer) : EmuPhase s th []
  | pending {o : EmuOper} (hp : s.pending = some o) (hirq : s.irq = false) (hsem : s.sem = 0)
      (hc : s.regs.command s.buf o = th.op.command) (hw : Waits th.op th.rest th.answer) :
      EmuPhase s th []
  | raised {r : EmuReply} (hp : s.pending = none) (hirq : s.irq = true) (hsem : s.sem = 0)
      (hregs : s.regs = r.regs) (hbuf : s.buf = r.buf) (hw : Waits th.op th.rest th.answer) :
      EmuPhase s th [(th.op.command, r)]
  | done {r : EmuReply} {n : ℕ} (hp : s.pending = none) (hirq : s.irq = false) (hsem : s.sem = 1)
      (hresult : s.result = r.regs.result) (hregs : s.regs = { r.regs with result := n })
      (hbuf : s.buf = r.buf) (hw : Waits th.op th.rest th.answer) : EmuPhase s th [(th.op.command, r)]
  | collect {r : EmuReply} (hq : s.Quiet)
      (h : Collects th.rest s.regs s.buf th.answer (th.op.answer r)) :
      EmuPhase s th [(th.op.command, r)]
  | silent {a : EmuAnswer} (hq : s.Quiet) (h : Collects th.rest s.regs s.buf th.answer a)
      (ha : th.op.silent = some a) : EmuPhase s th []

/-- The invariant of the runs in which the operations are alone. -/
inductive EmuInv (s : EmuSys F) : Prop
  | idle (hq : s.Quiet) (ht : ∀ t, s.thread t = none) (hm : Matched s.returned s.served)
  | busy {t : ℕ} {th : EmuThread} {served tail : List (EmuCmd × EmuReply)}
      (ht : s.thread t = some th) (hother : ∀ t' ≠ t, s.thread t' = none)
      (hs : s.served = served ++ tail) (hm : Matched s.returned served) (hp : EmuPhase s th tail)

section Lemmas

variable {serve : F → EmuCmd → F × EmuReply} {s s' : EmuSys F} {t : ℕ} {op : EmuOp}

theorem bytes_strcpy (buf : Buffer) (name : List UInt8) : bytes (strcpy buf name) name.length = name := by
  unfold bytes
  refine List.ext_getElem (by simp) fun i hi hi' => ?_
  simp only [List.getElem_map, List.getElem_range, strcpy]
  rw [if_pos (by omega), List.getD_eq_getElem?_getD, List.getElem?_eq_getElem hi', Option.getD_some]

theorem bytes_congr {b b' : Buffer} {n : ℕ} (h : EqOn n b b') : bytes b n = bytes b' n :=
  List.map_congr_left fun o ho => h o (List.mem_range.mp ho)

theorem ofNat_toNat {n : ℕ} (h : n < 2 ^ 32) : (UInt32.ofNat n).toNat = n :=
  UInt32.toNat_ofNat_of_lt h

/-- The copy of the data of a write: the caller's uio fails, or its bytes are in the buffer. -/
theorem send_cases {len : UInt32} {uio : Uio} (hv : (EmuOp.write 0 len uio).Valid) (buf : Buffer) :
    (∃ e u buf', uiomove buf 0 len.toNat uio = .ok (some e, u, buf') ∧
      ∃ buf₀, EmuOp.send len uio = .ok (some e, u, buf₀)) ∨
    (∃ u buf₀, uiomove buf 0 len.toNat uio =
        .ok (none, u, blit buf 0 len.toNat uio.area uio.pos) ∧
      EmuOp.send len uio = .ok (none, u, buf₀)) := by
  obtain ⟨hrw, hres, hiov, hlt⟩ := hv
  have hcongr := uiomoveLoop_write_congr (k := 0) (n := len.toNat) uio.iov hrw buf fun _ => 0
  by_cases ha : uio.Accessible len.toNat
  · obtain ⟨u, buf', he, -, hc⟩ := uiomove_ok ⟨hres, hres.trans hiov, hlt, ha⟩ buf 0
    obtain ⟨u₀, buf₀, he₀, -, -⟩ := uiomove_ok ⟨hres, hres.trans hiov, hlt, ha⟩ (fun _ => 0) 0
    obtain ⟨-, rfl⟩ := hc.write hrw
    unfold uiomove at he he₀
    rw [he, he₀] at hcongr
    obtain rfl : u = u₀ := by simpa [Except.map] using hcongr
    exact .inr ⟨u, buf₀, he, he₀⟩
  · obtain ⟨u, buf', he⟩ := uiomove_fault hres (hres.trans hiov) hlt ha buf 0
    obtain ⟨u₀, buf₀, he₀⟩ := uiomove_fault hres (hres.trans hiov) hlt ha (fun _ => 0) 0
    unfold uiomove at he he₀
    rw [he, he₀] at hcongr
    obtain rfl : u = u₀ := by simpa [Except.map] using hcongr
    exact .inl ⟨.efault, u, buf', he, buf₀, he₀⟩

/-- After `emu_waitdone`, an error is the answer, and a success is collected. -/
theorem waits_of_collects {op : EmuOp} {rest : List EmuAct}
    (h : ∀ (r : EmuReply) (n : ℕ),
      Collects rest { r.regs with result := n } r.buf op.asked (op.success r)) :
    Waits op (.waitdone :: rest) op.asked := by
  refine ⟨rest, rfl, fun r => ?_⟩
  unfold EmuOp.answer
  cases translateErr r.regs.result with
  | error p => rfl
  | ok e =>
    cases e with
    | none => exact fun n => h r n
    | some e => rfl

/-- **Each operation on its own** gives its command and returns its answer. -/
theorem prog_prepares (hv : op.Valid) (hf : op.FitsRegister) (he : op.early = none)
    (regs : EmuRegs) (buf : Buffer) :
    Prepares op op.prog regs buf (op.returning (.ok none)) := by
  cases op with
  | «open» handle name create excl =>
    have hname : name.length < 2 ^ 32 := by
      have : ¬ emuMaxio < name.length + 1 := by simpa [EmuOp.early] using he
      unfold emuMaxio at this
      omega
    refine ⟨?_, waits_of_collects fun r n => rfl⟩
    simp only [emuWreg]
    cases create <;> cases excl <;>
      simp [EmuRegs.command, EmuOp.command, ofNat_toNat hname, bytes_strcpy]
  | doread handle len readdir uio =>
    have hoff : uio.offset < 2 ^ 32 := by
      have : ¬ 0xffffffff < uio.offset := by simpa [EmuOp.early] using he
      omega
    refine ⟨?_, waits_of_collects fun r n => ⟨uio, rfl, ?_⟩⟩
    · simp only [emuWreg]
      cases readdir <;> simp [EmuRegs.command, EmuOp.command, ofNat_toNat hoff]
    · change match uiomove r.buf 0 r.regs.iolen.toNat uio with
        | .error p => _
        | .ok x => _
      unfold EmuOp.success
      simp only
      cases uiomove r.buf 0 r.regs.iolen.toNat uio with
      | error p => rfl
      | ok x => rfl
  | write handle len uio =>
    have hoff : uio.offset < 2 ^ 32 := by
      have : ¬ 0xffffffff < uio.offset := by simpa [EmuOp.early] using he
      omega
    refine ⟨uio, rfl, ?_⟩
    rcases send_cases hv buf with ⟨e, u, buf', hmove, buf₀, hsend⟩ | ⟨u, buf₀, hmove, hsend⟩
    · rw [hmove]
      simp only [EmuOp.silent, he, hsend]
      rfl
    · have hasked : (EmuOp.write handle len uio).asked =
          ((EmuOp.write handle len uio).returning (.ok none)).moved (.ok (none, u, buf)) := by
        simp only [EmuOp.asked, hsend]
        rfl
      rw [hmove]
      refine ⟨?_, ?_⟩
      · simp only [emuWreg, EmuRegs.command, EmuOp.command, ofNat_toNat hoff]
        rw [bytes_congr fun o ho => by rw [blit_of_mem (Nat.zero_le o) (by omega), Nat.sub_zero]]
      · change Waits _ _ (((EmuOp.write handle len uio).returning (.ok none)).moved
          (.ok (none, u, buf)))
        rw [← hasked]
        exact waits_of_collects fun r n => rfl
  | getsize handle => exact ⟨rfl, waits_of_collects fun r n => rfl⟩
  | trunc handle len =>
    refine ⟨?_, waits_of_collects fun r n => rfl⟩
    simp only [emuWreg, EmuRegs.command, EmuOp.command]
    rw [ofNat_toNat hf]

/-- After the reply was received, the steps of an operation only read. -/
theorem Collects.act {a : EmuAct} {rest : List EmuAct} {answer final : EmuAnswer}
    (h : Collects (a :: rest) s.regs s.buf answer final)
    (hs : s.act t op rest answer a = .ok s') :
    ∃ rest' answer', s' = s.goto t op rest' answer' ∧ Collects rest' s.regs s.buf answer' final := by
  cases a with
  | lockRelease => exact ⟨rest, answer, (Except.ok.inj hs).symm, h⟩
  | rreg r => exact ⟨rest, _, (Except.ok.inj hs).symm, h⟩
  | drain =>
    obtain ⟨u, hu, h⟩ := h
    rw [EmuSys.act, hu] at hs
    simp only at hs
    cases hmove : uiomove s.buf 0 answer.iolen.toNat u with
    | error p =>
      rw [hmove] at hs h
      exact ⟨[], _, (Except.ok.inj hs).symm, h⟩
    | ok x =>
      rw [hmove] at hs h
      exact ⟨rest, _, (Except.ok.inj hs).symm, h⟩
  | lockAcquire => exact absurd h id
  | strcpy name => exact absurd h id
  | wreg r val => exact absurd h id
  | oper o => exact absurd h id
  | fill len => exact absurd h id
  | waitdone => exact absurd h id

/-- **A step of the only operation** leads to its next phase; the device performs nothing. -/
theorem EmuPhase.act {a : EmuAct} {rest : List EmuAct} {answer : EmuAnswer}
    {tail : List (EmuCmd × EmuReply)} (h : EmuPhase s ⟨op, a :: rest, answer⟩ tail)
    (hs : s.act t op rest answer a = .ok s') :
    s'.served = s.served ∧ s'.returned = s.returned ∧ ∃ rest' answer',
      s'.thread = Function.update s.thread t (some ⟨op, rest', answer'⟩) ∧
      EmuPhase s' ⟨op, rest', answer'⟩ tail := by
  cases h with
  | prepare hq h =>
    cases a with
    | lockAcquire =>
      obtain rfl := Except.ok.inj hs
      exact ⟨rfl, rfl, _, _, rfl, .prepare ⟨hq.pending, hq.irq, hq.sem⟩ h⟩
    | lockRelease => exact absurd h id
    | strcpy name =>
      obtain rfl := Except.ok.inj hs
      exact ⟨rfl, rfl, _, _, rfl, .prepare ⟨hq.pending, hq.irq, hq.sem⟩ h⟩
    | wreg r val =>
      obtain rfl := Except.ok.inj hs
      exact ⟨rfl, rfl, _, _, rfl, .prepare ⟨hq.pending, hq.irq, hq.sem⟩ h⟩
    | oper o =>
      obtain rfl := Except.ok.inj hs
      exact ⟨rfl, rfl, _, _, rfl, .pending rfl hq.irq hq.sem h.1 h.2⟩
    | rreg r => exact absurd h id
    | fill len =>
      obtain ⟨u, hu, h⟩ := h
      simp only at hu
      rw [EmuSys.act, hu] at hs
      simp only at hs h
      cases hmove : uiomove s.buf 0 len.toNat u with
      | error p =>
        rw [hmove] at hs h
        obtain rfl := Except.ok.inj hs
        exact ⟨rfl, rfl, _, _, rfl, .silent ⟨hq.pending, hq.irq, hq.sem⟩ rfl h⟩
      | ok x =>
        obtain ⟨e, u', buf'⟩ := x
        rw [hmove] at hs h
        obtain _ | e := e
        · obtain rfl := Except.ok.inj hs
          exact ⟨rfl, rfl, _, _, rfl, .prepare ⟨hq.pending, hq.irq, hq.sem⟩ h⟩
        · obtain rfl := Except.ok.inj hs
          exact ⟨rfl, rfl, _, _, rfl, .silent ⟨hq.pending, hq.irq, hq.sem⟩ rfl h⟩
    | drain => exact absurd h id
    | waitdone => exact absurd h id
  | pending hp hirq hsem hc hw =>
    obtain ⟨rest', hrest, -⟩ := hw
    obtain ⟨rfl, rfl⟩ := List.cons.inj hrest
    obtain ⟨hpos, -⟩ := require_bind_ok.mp hs
    omega
  | raised hp hirq hsem hregs hbuf hw =>
    obtain ⟨rest', hrest, -⟩ := hw
    obtain ⟨rfl, rfl⟩ := List.cons.inj hrest
    obtain ⟨hpos, -⟩ := require_bind_ok.mp hs
    omega
  | @done r n hp hirq hsem hresult hregs hbuf hw =>
    obtain ⟨rest', hrest, hw⟩ := hw
    obtain ⟨rfl, rfl⟩ := List.cons.inj hrest
    obtain ⟨-, hs⟩ := require_bind_ok.mp hs
    have hr := hw r
    rw [← hresult] at hr
    simp only at hs hr
    cases hcode : translateErr s.result with
    | error p =>
      rw [hcode] at hs hr
      obtain rfl := Except.ok.inj hs
      exact ⟨rfl, rfl, _, _, rfl, .collect ⟨hp, hirq, by simp [EmuSys.goto, hsem]⟩ hr⟩
    | ok e =>
      rw [hcode] at hs hr
      obtain _ | e := e
      · obtain rfl := Except.ok.inj hs
        refine ⟨rfl, rfl, _, _, rfl, .collect ⟨hp, hirq, by simp [EmuSys.goto, hsem]⟩ ?_⟩
        simp only [EmuSys.goto, hregs, hbuf]
        exact hr n
      · obtain rfl := Except.ok.inj hs
        exact ⟨rfl, rfl, _, _, rfl, .collect ⟨hp, hirq, by simp [EmuSys.goto, hsem]⟩ hr⟩
  | collect hq h =>
    obtain ⟨rest', answer', rfl, h'⟩ := h.act hs
    exact ⟨rfl, rfl, _, _, rfl, .collect ⟨hq.pending, hq.irq, hq.sem⟩ h'⟩
  | silent hq h ha =>
    obtain ⟨rest', answer', rfl, h'⟩ := h.act hs
    exact ⟨rfl, rfl, _, _, rfl, .silent ⟨hq.pending, hq.irq, hq.sem⟩ h' ha⟩

/-- The only operation returns its own answer. -/
theorem EmuPhase.return {answer : EmuAnswer} {tail served : List (EmuCmd × EmuReply)}
    {returned : List (EmuOp × EmuAnswer)} (h : EmuPhase s ⟨op, [], answer⟩ tail)
    (hm : Matched returned served) :
    s.Quiet ∧ Matched (returned ++ [(op, answer)]) (served ++ tail) := by
  cases h with
  | prepare hq h => exact absurd h id
  | pending hp hirq hsem hc hw =>
    obtain ⟨rest', hrest, -⟩ := hw
    cases hrest
  | raised hp hirq hsem hregs hbuf hw =>
    obtain ⟨rest', hrest, -⟩ := hw
    cases hrest
  | done hp hirq hsem hresult hregs hbuf hw =>
    obtain ⟨rest', hrest, -⟩ := hw
    cases hrest
  | @collect r hq h =>
    obtain rfl : answer = op.answer r := h
    exact ⟨hq, .served op r hm⟩
  | @silent a hq h ha =>
    obtain rfl : answer = a := h
    rw [List.append_nil]
    exact ⟨hq, .silent hm ha⟩

/-- The device performs the command of the only operation. -/
theorem EmuPhase.perform {th : EmuThread} {tail : List (EmuCmd × EmuReply)}
    (h : EmuPhase s th tail) (hs : EmuSys.step serve s .perform = .ok s') :
    ∃ r, tail = [] ∧ s'.served = s.served ++ [(th.op.command, r)] ∧ s'.returned = s.returned ∧
      s'.thread = s.thread ∧ EmuPhase s' th [(th.op.command, r)] := by
  cases h with
  | @pending o hp hirq hsem hc hw =>
    rw [EmuSys.step, hp] at hs
    simp only [hc] at hs
    obtain rfl := Except.ok.inj hs
    exact ⟨_, rfl, rfl, rfl, rfl, .raised rfl rfl hsem rfl rfl hw⟩
  | prepare hq | collect hq | silent hq =>
    rw [EmuSys.step, hq.pending] at hs
    cases hs
  | raised hp | done hp =>
    rw [EmuSys.step, hp] at hs
    cases hs

/-- `emu_irq` takes the result of the only operation. -/
theorem EmuPhase.irq {th : EmuThread} {tail : List (EmuCmd × EmuReply)} (h : EmuPhase s th tail)
    (hs : EmuSys.step serve s .irq = .ok s') :
    s'.served = s.served ∧ s'.returned = s.returned ∧ s'.thread = s.thread ∧
      EmuPhase s' th tail := by
  obtain ⟨hirq, hs⟩ := require_bind_ok.mp hs
  obtain rfl := Except.ok.inj hs
  refine ⟨rfl, rfl, rfl, ?_⟩
  cases h with
  | raised hp _ hsem hregs hbuf hw =>
    exact .done (n := 0) hp rfl (by simp only [hsem]) (congrArg EmuRegs.result hregs)
      (by simp only [hregs]) hbuf hw
  | prepare hq | collect hq | silent hq => exact absurd (hq.irq.symm.trans hirq) (by decide)
  | pending _ hno | done _ hno => exact absurd (hno.symm.trans hirq) (by decide)

theorem silent_of_early {a : EmuAnswer} (h : op.early = some a) : op.silent = some a := by
  unfold EmuOp.silent
  rw [h]

/-- **One step** keeps the invariant if the operation that begins is alone. -/
theorem EmuInv.step {a : EmuAction} (h : EmuInv s) (ha : Alone s a)
    (hs : EmuSys.step serve s a = .ok s') : EmuInv s' := by
  cases h with
  | idle hq ht hm =>
    cases a with
    | start t op =>
      obtain ⟨⟨-, hv⟩, hs⟩ := require_bind_ok.mp hs
      cases he : op.early with
      | some answer =>
        rw [he] at hs
        obtain rfl := Except.ok.inj hs
        exact .idle ⟨hq.pending, hq.irq, hq.sem⟩ ht (.silent hm (silent_of_early he))
      | none =>
        rw [he] at hs
        obtain rfl := Except.ok.inj hs
        exact .busy (Function.update_self ..) (fun t' ht' => (Function.update_of_ne ht' ..).trans (ht t'))
          (List.append_nil _).symm hm (.prepare ⟨hq.pending, hq.irq, hq.sem⟩
            (prog_prepares hv ha.2 he s.regs s.buf))
    | step t =>
      rw [EmuSys.step, ht t] at hs
      cases hs
    | perform =>
      rw [EmuSys.step, hq.pending] at hs
      cases hs
    | irq =>
      obtain ⟨hirq, -⟩ := require_bind_ok.mp hs
      exact absurd (hq.irq.symm.trans hirq) (by decide)
  | @busy t₀ th served tail ht hother hserved hm hp =>
    cases a with
    | start t op =>
      exact absurd (ht.symm.trans (ha.1 t₀)) (by simp)
    | step t =>
      by_cases htt : t = t₀
      · subst htt
        obtain ⟨op, rest, answer⟩ := th
        rw [EmuSys.step, ht] at hs
        cases rest with
        | nil =>
          obtain rfl := Except.ok.inj hs
          obtain ⟨hq, hm'⟩ := hp.return hm
          refine .idle ⟨hq.pending, hq.irq, hq.sem⟩ (fun t' => ?_) (by rw [hserved]; exact hm')
          by_cases ht' : t' = t
          · rw [ht']
            exact Function.update_self ..
          · exact (Function.update_of_ne ht' ..).trans (hother t' ht')
        | cons a rest =>
          obtain ⟨hserved', hret, rest', answer', hthread, hp'⟩ := hp.act hs
          refine .busy (by rw [hthread]; exact Function.update_self ..) (fun t' ht' => ?_)
            (hserved'.trans hserved) (by rw [hret]; exact hm) hp'
          rw [hthread, Function.update_of_ne ht']
          exact hother t' ht'
      · rw [EmuSys.step, hother t htt] at hs
        cases hs
    | perform =>
      obtain ⟨r, rfl, hserved', hret, hthread, hp'⟩ := hp.perform hs
      rw [hserved, List.append_nil] at hserved'
      exact .busy (by rw [hthread]; exact ht) (by rw [hthread]; exact hother) hserved'
        (by rw [hret]; exact hm) hp'
    | irq =>
      obtain ⟨hserved', hret, hthread, hp'⟩ := hp.irq hs
      exact .busy (by rw [hthread]; exact ht) (by rw [hthread]; exact hother)
        (hserved'.trans hserved) (by rw [hret]; exact hm) hp'

theorem EmuInv.isolated (h : EmuInv s) : Isolated s := by
  cases h with
  | idle hq ht hm => exact ⟨s.served, [], (List.append_nil _).symm, hm, .inl rfl⟩
  | @busy t th served tail ht hother hs hm hp =>
    refine ⟨served, tail, hs, hm, ?_⟩
    cases hp with
    | prepare | pending | silent => exact .inl rfl
    | @raised r | @done r | @collect r => exact .inr ⟨t, th, r, ht, rfl⟩

/-- **Operations that are alone are isolated**, in every run. -/
theorem emu_isolated (serve : F → EmuCmd → F × EmuReply) (files : F) (regs : EmuRegs) (buf : Buffer)
    (as : List EmuAction) (s : EmuSys F)
    (hrun : run (EmuSys.step serve) (.init files regs buf) as = .ok s)
    (halone : Along (EmuSys.step serve) Alone (.init files regs buf) as) : Isolated s := by
  have hinit : EmuInv (EmuSys.init files regs buf) :=
    .idle ⟨rfl, rfl, rfl⟩ (fun _ => rfl) .nil
  exact (run_inv_along _ (fun _ _ _ h ha hs => EmuInv.step h ha hs) hinit halone hrun).isolated

/-- An operation that has returned without being silent was given to the device. -/
theorem Matched.command_mem {returned : List (EmuOp × EmuAnswer)}
    {served : List (EmuCmd × EmuReply)} (h : Matched returned served) {x : EmuOp × EmuAnswer}
    (hx : x ∈ returned) (hs : x.1.silent = none) : x.1.command ∈ served.map fun c => c.1 := by
  induction h with
  | nil => cases hx
  | silent _ ha ih =>
    rcases List.mem_append.mp hx with hx | hx
    · exact ih hx
    · rw [List.mem_singleton.mp hx, ha] at hs
      cases hs
  | served op r _ ih =>
    rw [List.map_append]
    rcases List.mem_append.mp hx with hx | hx
    · exact List.mem_append_left _ (ih hx)
    · rw [List.mem_singleton.mp hx]
      exact List.mem_append_right _ (List.mem_singleton_self _)

end Lemmas

/-- A device on which all bytes of a file are the number of its handle. -/
def serveHandle (files : Unit) : EmuCmd → Unit × EmuReply
  | .read _ handle len offset =>
    (files, ⟨⟨handle, UInt32.ofNat (offset + len), UInt32.ofNat len, 1⟩,
      fun _ => UInt8.ofNat handle.toNat⟩)
  | _ => (files, ⟨⟨0, 0, 0, 13⟩, fun _ => 0⟩)

/-- The device before the first operation. -/
def idleEmu : EmuSys Unit := .init () ⟨0, 0, 0, 0⟩ fun _ => 0

/-- The first byte of a file is read. -/
def readByte (handle : UInt32) : EmuOp :=
  .doread handle 1 false ⟨[1], fun _ => 0, 0, false, 0, 0, 1, .read⟩

/-- Thread `t` takes `n` steps. -/
def steps (t n : ℕ) : List EmuAction := List.replicate n (.step t)

/-- Thread 0 has given its handle when thread 1 begins, and reads the file of thread 1. -/
def overlap : List EmuAction :=
  [.start 0 (readByte 1)] ++ steps 0 2 ++ [.start 1 (readByte 2)] ++ steps 1 5 ++
    [.perform, .irq] ++ steps 1 6 ++ steps 0 3 ++ [.perform, .irq] ++ steps 0 6

/-- The run `overlap` ends with the byte of file 2 in the memory of both threads. -/
theorem not_isolated_overlap : ¬ ∀ (as : List EmuAction) (s : EmuSys Unit),
    run (EmuSys.step serveHandle) idleEmu as = .ok s → Isolated s := by
  intro h
  have hrun : (run (EmuSys.step serveHandle) idleEmu overlap).toOption.map (fun s =>
      (s.served.map (fun c => c.1), s.returned.map fun x =>
        (x.1.command, x.1.silent.isSome, x.2.uio.map fun u => u.area 0))) =
      some ([.read .read 2 1 0, .read .read 2 1 0],
        [(.read .read 2 1 0, false, some 2), (.read .read 1 1 0, false, some 2)]) := by
    decide +kernel
  obtain ⟨s, hs, hobs⟩ := exists_ok_of_toOption hrun
  obtain ⟨served, tail, hserved, hm, -⟩ := h overlap s hs
  obtain ⟨hcmds, hret⟩ := Prod.mk.inj hobs
  obtain ⟨x, hx, hxobs⟩ : ∃ x ∈ s.returned, (x.1.command, x.1.silent.isSome,
      x.2.uio.map fun u => u.area 0) = (.read .read 1 1 0, false, some 2) :=
    List.mem_map.mp (by rw [hret]; simp)
  obtain ⟨hcmd, hsilent, -⟩ : x.1.command = .read .read 1 1 0 ∧ x.1.silent.isSome = false ∧ _ := by
    simpa only [Prod.mk.injEq] using hxobs
  have hmem := hm.command_mem hx (by simpa using hsilent)
  have hin : EmuCmd.read .read 1 1 0 ∈ s.served.map fun c => c.1 := by
    rw [hserved, List.map_append, ← hcmd]
    exact List.mem_append_left _ hmem
  rw [hcmds] at hin
  exact absurd hin (by decide)

theorem emu_isolated_readByte : ∃ s, run (EmuSys.step serveHandle) idleEmu
    (.start 0 (readByte 1) :: (steps 0 5 ++ [.perform, .irq] ++ steps 0 6)) = .ok s ∧
    s.returned.length = 1 ∧ Isolated s := by
  obtain ⟨s, hs, hlen⟩ := exists_ok_of_toOption (x := run (EmuSys.step serveHandle) idleEmu
    (.start 0 (readByte 1) :: (steps 0 5 ++ [.perform, .irq] ++ steps 0 6)))
    (f := fun s => s.returned.length) (b := 1) (by decide +kernel)
  have halone : Along (EmuSys.step serveHandle) Alone idleEmu
      (.start 0 (readByte 1) :: (steps 0 5 ++ [.perform, .irq] ++ steps 0 6)) := by
    refine ⟨⟨fun _ => rfl, trivial⟩, fun s' _ => Along.of_forall _ fun a ha s'' => ?_⟩
    cases a with
    | start t op => simp [steps] at ha
    | step t => trivial
    | perform => trivial
    | irq => trivial
  exact ⟨s, hs, hlen, emu_isolated serveHandle () ⟨0, 0, 0, 0⟩ (fun _ => 0) _ s hs halone⟩

end Os161
