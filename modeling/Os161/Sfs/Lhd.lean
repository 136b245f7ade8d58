import Mathlib.Logic.Function.Basic
import Os161.Sfs.Uio

set_option autoImplicit false

/-!
# The disk

`lhd.c`: the driver moves one sector at a time through the buffer of the card. The result of each
command of the device is an answer that is given in advance, and so is what a failed command leaves
behind.

* `Lhd.command`: the device; `lhdIo`: the driver.
* `lhdIo_write`, `lhdIo_read`: a transfer of one sector. The driver consumes the uio before it writes
  and after it has read.
* `lhdIo_done`: a uio without a residue is no transfer.
-/

namespace Os161

open Buffer

/-- `LHD_SECTSIZE`. -/
def lhdSectsize : ℕ := 512

/-- The states in which the device ends a command: `LHD_OK`, `LHD_INVSECT` and `LHD_MEDIA`. -/
inductive LhdStatus
  | ok
  | invsect
  | media
  deriving DecidableEq, Repr

/-- A command of the device, with the contents of the card's buffer. -/
structure LhdCommand where
  sector : ℕ
  write : Bool
  data : Buffer

/-- The device and its driver: the number of sectors, the sectors, the buffer of the card, how each
command ends and what it leaves in the sector or the buffer if it fails, the commands so far, and how
often `lhd_io` was called. -/
structure Lhd where
  nsect : ℕ
  nsect_lt : nsect < wordSize
  disk : ℕ → Buffer
  buf : Buffer
  answer : ℕ → LhdStatus × Buffer
  log : List LhdCommand
  calls : ℕ

/-- How the next command ends. -/
def Lhd.next (d : Lhd) : LhdStatus := (d.answer d.log.length).1

/-- `lhd_code_to_errno`. -/
def lhdCodeToErrno : LhdStatus → Option FsErr
  | .ok => none
  | .invsect => some .einval
  | .media => some .eio

/-- The device performs a command. -/
def Lhd.command (d : Lhd) (sector : ℕ) (write : Bool) : Lhd :=
  let junk := (d.answer d.log.length).2
  let d' := { d with log := d.log ++ [⟨sector, write, d.buf⟩] }
  match d.next, write with
  | .ok, true => { d' with disk := Function.update d.disk sector d.buf }
  | .ok, false => { d' with buf := d.disk sector }
  | .media, true => { d' with disk := Function.update d.disk sector junk }
  | .media, false => { d' with buf := junk }
  | .invsect, _ => d'

/-- One iteration of the loop of `lhd_io`. -/
def lhdSector (d : Lhd) (u : Uio) (sector : ℕ) : Except FsPanic (Option FsErr × Lhd × Uio) :=
  match u.rw with
  | .write => do
    let (e, u, buf) ← uiomove d.buf 0 lhdSectsize u
    let d := { d with buf := buf }
    if e.isSome then return (e, d, u)
    else return (lhdCodeToErrno d.next, d.command sector true, u)
  | .read => do
    let status := d.next
    let d := d.command sector false
    if status = .ok then
      let (e, u, buf) ← uiomove d.buf 0 lhdSectsize u
      return (e, { d with buf := buf }, u)
    else return (lhdCodeToErrno status, d, u)

/-- The loop of `lhd_io` over `n` sectors. -/
def lhdLoop : (n sector : ℕ) → Lhd → Uio → Except FsPanic (Option FsErr × Lhd × Uio)
  | 0, _, d, u => .ok (none, d, u)
  | n + 1, sector, d, u => do
    let (e, d, u) ← lhdSector d u sector
    if e.isSome then return (e, d, u) else lhdLoop n (wadd sector 1) d u

/-- `lhd_io`. -/
def lhdIo (d : Lhd) (u : Uio) : Except FsPanic (Option FsErr × Lhd × Uio) :=
  let d := { d with calls := d.calls + 1 }
  let sector := u.offset / lhdSectsize % wordSize
  let len := u.resid / lhdSectsize
  if u.offset % lhdSectsize ≠ 0 ∨ u.resid % lhdSectsize ≠ 0 then .ok (some .einval, d, u)
  else if d.nsect < wadd sector len then .ok (some .einval, d, u)
  else lhdLoop len sector d u

/-- A uio for one sector. -/
structure Uio.ForSector (u : Uio) (b : ℕ) : Prop where
  offset : u.offset = b * lhdSectsize
  resid : u.resid = lhdSectsize
  iov : lhdSectsize ≤ u.iov.sum

section Lemmas

variable {d : Lhd} {u : Uio} {b : ℕ}

theorem Uio.ForSector.fits (h : u.ForSector b) (ha : u.Accessible lhdSectsize) :
    u.Fits lhdSectsize := ⟨le_of_eq h.resid.symm, h.iov, by rw [h.resid]; decide, ha⟩

/-- `lhd_io` for one sector is one iteration. -/
theorem lhdIo_eq (h : u.ForSector b) (hb : b < d.nsect) :
    lhdIo d u = lhdSector { d with calls := d.calls + 1 } u b := by
  have hlt := d.nsect_lt
  have hsector : u.offset / lhdSectsize % wordSize = b := by
    rw [h.offset, Nat.mul_div_cancel _ (by decide), Nat.mod_eq_of_lt (by omega)]
  have haligned : ¬ (u.offset % lhdSectsize ≠ 0 ∨ u.resid % lhdSectsize ≠ 0) := by
    rw [h.offset, h.resid, Nat.mul_mod_left, Nat.mod_self]
    simp
  have hrange : ¬ d.nsect < wadd b 1 := by
    rw [wadd_of_lt (by omega)]
    omega
  unfold lhdIo
  simp only [hsector, if_neg haligned]
  rw [h.resid, Nat.div_self (by decide), if_neg hrange, lhdLoop]
  cases lhdSector { d with calls := d.calls + 1 } u b with
  | error p => rfl
  | ok r =>
    obtain ⟨e, d', u'⟩ := r
    cases e <;> rfl

/-- **The driver of a write** consumes the uio whether the command succeeds or not. -/
theorem lhdIo_write (h : u.ForSector b) (hb : b < d.nsect) (hrw : u.rw = .write)
    (ha : u.Accessible lhdSectsize) :
    ∃ u', u.Moved u' lhdSectsize ∧ u'.area = u.area ∧
      lhdIo d u = .ok (lhdCodeToErrno d.next,
        ({ d with calls := d.calls + 1, buf := blit d.buf 0 lhdSectsize u.area u.pos } :
          Lhd).command b true, u') := by
  obtain ⟨u', buf', he, hm, hc⟩ := uiomove_ok (h.fits ha) d.buf 0
  obtain ⟨harea, rfl⟩ := hc.write hrw
  refine ⟨u', hm, harea, ?_⟩
  rw [lhdIo_eq h hb, lhdSector, hrw]
  simp only
  rw [he]
  rfl

/-- A command of a read that fails leaves the uio alone. -/
theorem lhdIo_read_failed (h : u.ForSector b) (hb : b < d.nsect) (hrw : u.rw = .read)
    (hno : d.next ≠ .ok) :
    lhdIo d u = .ok (lhdCodeToErrno d.next,
      ({ d with calls := d.calls + 1 } : Lhd).command b false, u) := by
  rw [lhdIo_eq h hb, lhdSector, hrw]
  simp only
  rw [show ({ d with calls := d.calls + 1 } : Lhd).next = d.next from rfl, if_neg hno]
  rfl

/-- **The driver of a read** consumes the uio when the command has succeeded. -/
theorem lhdIo_read (h : u.ForSector b) (hb : b < d.nsect) (hrw : u.rw = .read)
    (ha : u.Accessible lhdSectsize) (hok : d.next = .ok) :
    ∃ u', u.Moved u' lhdSectsize ∧ u'.area = blit u.area u.pos lhdSectsize (d.disk b) 0 ∧
      lhdIo d u = .ok (none, ({ d with calls := d.calls + 1 } : Lhd).command b false, u') := by
  have hnext : ({ d with calls := d.calls + 1 } : Lhd).next = d.next := rfl
  have hbuf : (({ d with calls := d.calls + 1 } : Lhd).command b false).buf = d.disk b := by
    unfold Lhd.command
    simp only [hnext, hok]
  obtain ⟨u', buf', he, hm, hc⟩ := uiomove_ok (h.fits ha) (d.disk b) 0
  obtain ⟨harea, rfl⟩ := hc.read hrw
  refine ⟨u', hm, harea, ?_⟩
  rw [lhdIo_eq h hb, lhdSector, hrw]
  simp only
  rw [hnext, if_pos hok, hbuf, he]
  change Except.ok (none, { ({ d with calls := d.calls + 1 } : Lhd).command b false with
    buf := d.disk b }, u') = _
  rw [← hbuf]

/-- A write from memory that cannot be read is no command. -/
theorem lhdIo_write_fault (h : u.ForSector b) (hb : b < d.nsect) (hrw : u.rw = .write)
    (ha : ¬ u.Accessible lhdSectsize) :
    ∃ u' buf', lhdIo d u =
      .ok (some .efault, { d with calls := d.calls + 1, buf := buf' }, u') := by
  obtain ⟨u', buf', he⟩ := uiomove_fault (le_of_eq h.resid.symm) h.iov (by rw [h.resid]; decide) ha
    d.buf 0
  refine ⟨u', buf', ?_⟩
  rw [lhdIo_eq h hb, lhdSector, hrw]
  simp only
  rw [he]
  rfl

/-- A read to memory that cannot be written is an error. -/
theorem lhdIo_read_fault (h : u.ForSector b) (hb : b < d.nsect) (hrw : u.rw = .read)
    (ha : ¬ u.Accessible lhdSectsize) (hok : d.next = .ok) :
    ∃ u' buf', lhdIo d u = .ok (some .efault,
      { ({ d with calls := d.calls + 1 } : Lhd).command b false with buf := buf' }, u') := by
  obtain ⟨u', buf', he⟩ := uiomove_fault (le_of_eq h.resid.symm) h.iov (by rw [h.resid]; decide) ha
    (({ d with calls := d.calls + 1 } : Lhd).command b false).buf 0
  refine ⟨u', buf', ?_⟩
  rw [lhdIo_eq h hb, lhdSector, hrw]
  simp only
  rw [show ({ d with calls := d.calls + 1 } : Lhd).next = d.next from rfl, if_pos hok, he]
  rfl

/-- **Without a residue there is no transfer.** -/
theorem lhdIo_done (hoff : u.offset = b * lhdSectsize) (hb : b ≤ d.nsect) (hres : u.resid = 0) :
    lhdIo d u = .ok (none, { d with calls := d.calls + 1 }, u) := by
  have hlt := d.nsect_lt
  have hsector : u.offset / lhdSectsize % wordSize = b := by
    rw [hoff, Nat.mul_div_cancel _ (by decide), Nat.mod_eq_of_lt (by omega)]
  have haligned : ¬ (u.offset % lhdSectsize ≠ 0 ∨ u.resid % lhdSectsize ≠ 0) := by
    rw [hoff, hres, Nat.mul_mod_left, Nat.zero_mod]
    simp
  have hrange : ¬ d.nsect < wadd b 0 := by
    rw [wadd_of_lt (by omega)]
    omega
  unfold lhdIo
  simp only [hsector, if_neg haligned]
  rw [hres, Nat.zero_div, if_neg hrange, lhdLoop]

end Lemmas

end Os161
