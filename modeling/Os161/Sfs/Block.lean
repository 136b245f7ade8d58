import Os161.Sfs.Lhd

set_option autoImplicit false

/-!
# Blocks

`sfs_rwblock` calls the driver again with the same uio when the device reports a media error.

* `sfsRwblock`, `sfsReadblock`, `sfsWriteblock`: the code.
* `rwLoop_read`: a read is repeated until it succeeds or the tries are used up.
* `rwLoop_write`: a write is not repeated; the second call of the driver finds nothing to do.
-/

namespace Os161

open Buffer

/-- `SFS_BLOCKSIZE`. -/
def sfsBlocksize : ℕ := 512

/-- The loop of `sfs_rwblock` with `left` retries left. -/
def rwLoop : (left : ℕ) → Lhd → Uio → Except FsPanic (Option FsErr × Lhd × Uio)
  | 0, d, u => do
    let (e, d, u) ← lhdIo d u
    if e = some .einval then .error .devopEinval else return (e, d, u)
  | left + 1, d, u => do
    let (e, d, u) ← lhdIo d u
    if e = some .einval then .error .devopEinval
    else if e = some .eio then rwLoop left d u
    else return (e, d, u)

/-- `sfs_rwblock`: up to ten retries. -/
def sfsRwblock (d : Lhd) (u : Uio) : Except FsPanic (Option FsErr × Lhd × Uio) := rwLoop 10 d u

/-- `SFSUIO`: the position of the block is computed with 64 bits. -/
def sfsuio (data : Buffer) (block : ℕ) (rw : UioRw) : Uio where
  iov := [sfsBlocksize]
  area := data
  pos := 0
  user := false
  valid := 0
  offset := block * sfsBlocksize
  resid := sfsBlocksize
  rw := rw

/-- `sfs_readblock`, with the buffer afterwards. -/
def sfsReadblock (d : Lhd) (block : ℕ) (data : Buffer) :
    Except FsPanic (Option FsErr × Lhd × Buffer) := do
  let (e, d, u) ← sfsRwblock d (sfsuio data block .read)
  return (e, d, u.area)

/-- `sfs_writeblock`. -/
def sfsWriteblock (d : Lhd) (block : ℕ) (data : Buffer) : Except FsPanic (Option FsErr × Lhd) := do
  let (e, d, _) ← sfsRwblock d (sfsuio data block .write)
  return (e, d)

/-- How command `n` from now on ends. -/
def Lhd.status (d : Lhd) (n : ℕ) : LhdStatus := (d.answer (d.log.length + n)).1

/-- Command `j` from now on is the first that does not end in a media error, and it ends so. -/
def Lhd.Ends (d : Lhd) (j : ℕ) (status : LhdStatus) : Prop :=
  (∀ i < j, d.status i = .media) ∧ d.status j = status

/-- The device after `m` calls of the driver, each of which was a read of sector `b`. -/
structure Lhd.Reads (d d' : Lhd) (b m : ℕ) : Prop where
  disk : d'.disk = d.disk
  nsect : d'.nsect = d.nsect
  answer : d'.answer = d.answer
  calls : d'.calls = d.calls + m
  log : ∃ cmds, d'.log = d.log ++ cmds ∧ cmds.length = m ∧
    ∀ c ∈ cmds, c.sector = b ∧ c.write = false

/-- The device after `data` was sent to sector `b`. -/
def Lhd.sent (d : Lhd) (b : ℕ) (data : Buffer) (pos : ℕ) : Lhd :=
  ({ d with calls := d.calls + 1, buf := blit d.buf 0 lhdSectsize data pos } : Lhd).command b true

section Lemmas

variable {d d' d'' : Lhd} {u : Uio} {b m n : ℕ}

theorem Lhd.Reads.status (h : d.Reads d' b m) (i : ℕ) : d'.status i = d.status (m + i) := by
  obtain ⟨cmds, hlog, hlen, -⟩ := h.log
  unfold Lhd.status
  rw [h.answer, hlog, List.length_append, hlen, Nat.add_assoc]

theorem Lhd.Reads.trans (h : d.Reads d' b m) (h' : d'.Reads d'' b n) : d.Reads d'' b (m + n) := by
  obtain ⟨cmds, hlog, hlen, hall⟩ := h.log
  obtain ⟨cmds', hlog', hlen', hall'⟩ := h'.log
  refine ⟨h'.disk.trans h.disk, h'.nsect.trans h.nsect, h'.answer.trans h.answer, ?_,
    cmds ++ cmds', ?_, ?_, fun c hc => ?_⟩
  · rw [h'.calls, h.calls, Nat.add_assoc]
  · rw [hlog', hlog, List.append_assoc]
  · rw [List.length_append, hlen, hlen']
  · exact (List.mem_append.mp hc).elim (hall c) (hall' c)

/-- One call of the driver for a read. -/
theorem Lhd.reads_command (d : Lhd) (b : ℕ) (buf : Buffer) :
    d.Reads { ({ d with calls := d.calls + 1 } : Lhd).command b false with buf := buf } b 1 := by
  unfold Lhd.command Lhd.next
  simp only
  cases (d.answer d.log.length).1 <;>
    exact ⟨rfl, rfl, rfl, rfl, [⟨b, false, d.buf⟩], rfl, rfl,
      fun c hc => by rw [List.mem_singleton.mp hc]; exact ⟨rfl, rfl⟩⟩

theorem Lhd.Ends.unique {i j : ℕ} {s t : LhdStatus} (h : d.Ends i s) (h' : d.Ends j t)
    (hs : s ≠ .media) (ht : t ≠ .media) : i = j := by
  rcases lt_trichotomy i j with hlt | rfl | hlt
  · exact absurd (h.2.symm.trans (h'.1 i hlt)) hs
  · rfl
  · exact absurd (h'.2.symm.trans (h.1 j hlt)) ht

theorem Lhd.reads_failed (d : Lhd) (b : ℕ) :
    d.Reads (({ d with calls := d.calls + 1 } : Lhd).command b false) b 1 := d.reads_command b _

theorem Lhd.ends_zero {s : LhdStatus} (h : d.next = s) : d.Ends 0 s :=
  ⟨fun i hi => absurd hi (Nat.not_lt_zero i), h⟩

@[simp] theorem Lhd.sent_nsect (data : Buffer) (pos : ℕ) : (d.sent b data pos).nsect = d.nsect := by
  unfold Lhd.sent Lhd.command Lhd.next
  simp only
  cases (d.answer d.log.length).1 <;> rfl

@[simp] theorem Lhd.sent_calls (data : Buffer) (pos : ℕ) :
    (d.sent b data pos).calls = d.calls + 1 := by
  unfold Lhd.sent Lhd.command Lhd.next
  simp only
  cases (d.answer d.log.length).1 <;> rfl

@[simp] theorem Lhd.sent_answer (data : Buffer) (pos : ℕ) :
    (d.sent b data pos).answer = d.answer := by
  unfold Lhd.sent Lhd.command Lhd.next
  simp only
  cases (d.answer d.log.length).1 <;> rfl

@[simp] theorem Lhd.sent_log (data : Buffer) (pos : ℕ) : (d.sent b data pos).log =
    d.log ++ [⟨b, true, blit d.buf 0 lhdSectsize data pos⟩] := by
  unfold Lhd.sent Lhd.command Lhd.next
  simp only
  cases (d.answer d.log.length).1 <;> rfl

theorem Lhd.sent_disk (hs : d.next = .ok) (data : Buffer) (pos : ℕ) : (d.sent b data pos).disk =
    Function.update d.disk b (blit d.buf 0 lhdSectsize data pos) := by
  unfold Lhd.next at hs
  unfold Lhd.sent Lhd.command Lhd.next
  simp only [hs]

/-- Neither an error without a retry nor a success depends on the retries left. -/
theorem rwLoop_of_lhdIo {e : Option FsErr} {u' : Uio} (he : lhdIo d u = .ok (e, d', u'))
    (hne : e ≠ some .eio) (left : ℕ) :
    rwLoop left d u = if e = some .einval then .error .devopEinval else .ok (e, d', u') := by
  cases left with
  | zero =>
    rw [rwLoop, he]
    rfl
  | succ left =>
    rw [rwLoop, he]
    change (if _ then _ else if _ then _ else _) = _
    rw [if_neg hne]
    rfl

/-- The first call of the driver, unless it is to be repeated. -/
theorem rwLoop_read_first (h : u.ForSector b) (hb : b < d.nsect) (hrw : u.rw = .read)
    (hno : d.next ≠ .media) (left : ℕ) :
    (d.Ends 0 .invsect ∧ rwLoop left d u = .error .devopEinval) ∨
    (d.Ends 0 .ok ∧ u.Accessible lhdSectsize ∧ ∃ d' u',
      rwLoop left d u = .ok (none, d', u') ∧ d.Reads d' b 1 ∧ u.Moved u' lhdSectsize ∧
      u'.area = blit u.area u.pos lhdSectsize (d.disk b) 0) ∨
    (d.Ends 0 .ok ∧ ¬ u.Accessible lhdSectsize ∧ ∃ d' u',
      rwLoop left d u = .ok (some .efault, d', u') ∧ d.Reads d' b 1) := by
  cases hs : d.next with
  | media => exact absurd hs hno
  | invsect =>
    have he := lhdIo_read_failed h hb hrw (by simp [hs])
    rw [hs] at he
    exact .inl ⟨Lhd.ends_zero hs, rwLoop_of_lhdIo he (by simp [lhdCodeToErrno]) left⟩
  | ok =>
    by_cases ha : u.Accessible lhdSectsize
    · obtain ⟨u', hm, harea, he⟩ := lhdIo_read h hb hrw ha hs
      exact .inr (.inl ⟨Lhd.ends_zero hs, ha, _, u', rwLoop_of_lhdIo he (by simp) left, d.reads_failed b, hm,
        harea⟩)
    · obtain ⟨u', buf', he⟩ := lhdIo_read_fault h hb hrw ha hs
      exact .inr (.inr ⟨Lhd.ends_zero hs, ha, _, u', rwLoop_of_lhdIo he (by simp) left,
        d.reads_command b buf'⟩)

/-- **A read of a block** is repeated until a command does not end in a media error. -/
theorem rwLoop_read (h : u.ForSector b) (hb : b < d.nsect) (hrw : u.rw = .read) (left : ℕ) :
    ((∀ i ≤ left, d.status i = .media) ∧
      ∃ d', rwLoop left d u = .ok (some .eio, d', u) ∧ d.Reads d' b (left + 1)) ∨
    (∃ j ≤ left, d.Ends j .invsect ∧ rwLoop left d u = .error .devopEinval) ∨
    (∃ j ≤ left, d.Ends j .ok ∧ u.Accessible lhdSectsize ∧ ∃ d' u',
      rwLoop left d u = .ok (none, d', u') ∧ d.Reads d' b (j + 1) ∧ u.Moved u' lhdSectsize ∧
      u'.area = blit u.area u.pos lhdSectsize (d.disk b) 0) ∨
    (∃ j ≤ left, d.Ends j .ok ∧ ¬ u.Accessible lhdSectsize ∧ ∃ d' u',
      rwLoop left d u = .ok (some .efault, d', u') ∧ d.Reads d' b (j + 1)) := by
  induction left generalizing d with
  | zero =>
    by_cases hs : d.next = .media
    · refine .inl ⟨fun i hi => ?_, ({ d with calls := d.calls + 1 } : Lhd).command b false, ?_,
        d.reads_failed b⟩
      · obtain rfl : i = 0 := by omega
        exact hs
      · rw [rwLoop, lhdIo_read_failed h hb hrw (by simp [hs]), hs]
        rfl
    · rcases rwLoop_read_first h hb hrw hs 0 with ⟨he, hr⟩ | ⟨he, hr⟩ | ⟨he, hr⟩
      · exact .inr (.inl ⟨0, le_refl _, he, hr⟩)
      · exact .inr (.inr (.inl ⟨0, le_refl _, he, hr⟩))
      · exact .inr (.inr (.inr ⟨0, le_refl _, he, hr⟩))
  | succ left ih =>
    by_cases hs : d.next = .media
    · have hone := d.reads_failed b
      have hstep : rwLoop (left + 1) d u =
          rwLoop left (({ d with calls := d.calls + 1 } : Lhd).command b false) u := by
        rw [rwLoop, lhdIo_read_failed h hb hrw (by simp [hs]), hs]
        rfl
      have hends : ∀ j s, (({ d with calls := d.calls + 1 } : Lhd).command b false).Ends j s →
          d.Ends (j + 1) s := by
        rintro j s ⟨hall, hj⟩
        refine ⟨fun i hi => ?_, ?_⟩
        · cases i with
          | zero => exact hs
          | succ i =>
            rw [Nat.add_comm i 1, ← hone.status]
            exact hall i (by omega)
        · rw [Nat.add_comm j 1, ← hone.status]
          exact hj
      have hdisk := hone.disk
      rw [hstep]
      rcases ih (d := ({ d with calls := d.calls + 1 } : Lhd).command b false)
        (by rw [show _ = d.nsect from hone.nsect]; exact hb) with
        ⟨hall, d', hr, hd⟩ | ⟨j, hj, he, hr⟩ | ⟨j, hj, he, ha, d', u', hr, hd, hm, harea⟩ |
        ⟨j, hj, he, ha, d', u', hr, hd⟩
      · refine .inl ⟨fun i hi => ?_, d', hr, ?_⟩
        · cases i with
          | zero => exact hs
          | succ i =>
            rw [Nat.add_comm i 1, ← hone.status]
            exact hall i (by omega)
        · rw [Nat.add_comm (left + 1) 1]
          exact hone.trans hd
      · exact .inr (.inl ⟨j + 1, by omega, hends j _ he, hr⟩)
      · refine .inr (.inr (.inl ⟨j + 1, by omega, hends j _ he, ha, d', u', hr, ?_, hm, ?_⟩))
        · rw [Nat.add_comm (j + 1) 1]
          exact hone.trans hd
        · rw [harea, hdisk]
      · refine .inr (.inr (.inr ⟨j + 1, by omega, hends j _ he, ha, d', u', hr, ?_⟩))
        rw [Nat.add_comm (j + 1) 1]
        exact hone.trans hd
    · rcases rwLoop_read_first h hb hrw hs (left + 1) with ⟨he, hr⟩ | ⟨he, hr⟩ | ⟨he, hr⟩
      · exact .inr (.inl ⟨0, Nat.zero_le _, he, hr⟩)
      · exact .inr (.inr (.inl ⟨0, Nat.zero_le _, he, hr⟩))
      · exact .inr (.inr (.inr ⟨0, Nat.zero_le _, he, hr⟩))

/-- **A write of a block** is one command, also if that ends in a media error. -/
theorem rwLoop_write (h : u.ForSector b) (hb : b < d.nsect) (hrw : u.rw = .write)
    (ha : u.Accessible lhdSectsize) (left : ℕ) (hleft : 0 < left) :
    (d.next = .invsect ∧ rwLoop left d u = .error .devopEinval) ∨
    ∃ u', u.Moved u' lhdSectsize ∧ u'.area = u.area ∧
      ((d.next = .ok ∧ rwLoop left d u = .ok (none, d.sent b u.area u.pos, u')) ∨
      (d.next = .media ∧ rwLoop left d u =
        .ok (none, { d.sent b u.area u.pos with calls := d.calls + 2 }, u'))) := by
  obtain ⟨u', hm, harea, he⟩ := lhdIo_write h hb hrw ha
  obtain ⟨left, rfl⟩ : ∃ n, left = n + 1 := ⟨left - 1, by omega⟩
  rw [rwLoop, he]
  cases hs : d.next with
  | invsect => exact .inl ⟨rfl, rfl⟩
  | ok => exact .inr ⟨u', hm, harea, .inl ⟨rfl, rfl⟩⟩
  | media =>
    refine .inr ⟨u', hm, harea, .inr ⟨rfl, ?_⟩⟩
    change rwLoop left (d.sent b u.area u.pos) u' = _
    have hoff : u'.offset = (b + 1) * lhdSectsize := by
      rw [hm.offset, h.offset, Nat.succ_mul]
    have hres : u'.resid = 0 := by
      have := hm.resid
      rw [h.resid] at this
      omega
    cases left <;>
      rw [rwLoop, lhdIo_done hoff (by rw [Lhd.sent_nsect]; omega) hres, Lhd.sent_calls] <;> rfl

theorem sfsuio_forSector (data : Buffer) (rw : UioRw) : (sfsuio data b rw).ForSector b :=
  ⟨rfl, rfl, le_refl _⟩

/-- **`sfs_readblock`**: the device is asked until it answers without a media error. -/
theorem sfsReadblock_cases (hb : b < d.nsect) (data : Buffer) :
    ((∀ i ≤ 10, d.status i = .media) ∧
      ∃ d', sfsReadblock d b data = .ok (some .eio, d', data) ∧ d.Reads d' b 11) ∨
    (∃ j ≤ 10, d.Ends j .invsect ∧ sfsReadblock d b data = .error .devopEinval) ∨
    (∃ j ≤ 10, d.Ends j .ok ∧ ∃ d', d.Reads d' b (j + 1) ∧
      sfsReadblock d b data = .ok (none, d', blit data 0 lhdSectsize (d.disk b) 0)) := by
  have hkernel : (sfsuio data b .read).Accessible lhdSectsize := .inl rfl
  unfold sfsReadblock sfsRwblock
  rcases rwLoop_read (sfsuio_forSector data .read) hb rfl 10 with
    ⟨hall, d', hr, hd⟩ | ⟨j, hj, he, hr⟩ | ⟨j, hj, he, -, d', u', hr, hd, -, harea⟩ |
    ⟨j, hj, he, hno, -⟩
  · exact .inl ⟨hall, d', by rw [hr]; rfl, hd⟩
  · exact .inr (.inl ⟨j, hj, he, by rw [hr]; rfl⟩)
  · refine .inr (.inr ⟨j, hj, he, d', hd, ?_⟩)
    rw [hr]
    change Except.ok (none, d', u'.area) = _
    rw [harea]
    rfl
  · exact absurd hkernel hno

/-- **`sfs_writeblock`**: the device is asked once. -/
theorem sfsWriteblock_cases (hb : b < d.nsect) (data : Buffer) :
    (d.next = .invsect ∧ sfsWriteblock d b data = .error .devopEinval) ∨
    (d.next = .ok ∧ sfsWriteblock d b data = .ok (none, d.sent b data 0)) ∨
    (d.next = .media ∧ sfsWriteblock d b data =
      .ok (none, { d.sent b data 0 with calls := d.calls + 2 })) := by
  unfold sfsWriteblock sfsRwblock
  rcases rwLoop_write (sfsuio_forSector data .write) hb rfl (.inl rfl) 10 (by decide) with
    ⟨hs, hr⟩ | ⟨u', -, -, ⟨hs, hr⟩ | ⟨hs, hr⟩⟩
  · exact .inl ⟨hs, by rw [hr]; rfl⟩
  · exact .inr (.inl ⟨hs, by rw [hr]; rfl⟩)
  · exact .inr (.inr ⟨hs, by rw [hr]; rfl⟩)

end Lemmas

end Os161
