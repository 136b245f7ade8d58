import Os161.Sfs.Lhd

set_option autoImplicit false

/-!
# The sectors of a transfer

`lhd_io` narrows a 64-bit offset to a 32-bit sector number, and its check for the end of the disk is a
32-bit sum.

* `lhdSector_spec`, `lhdLoop_spec`: the commands of the loop, however each of them ends.
* **`lhd_io_sectors_iff`**: they are the sectors of the transfer, all of them on the disk, if and only
  if the call is refused, moves nothing, or ends below sector `2 ^ 32`.
-/

namespace Os161

/-- **What `lhd_io` owes**: the commands that it starts, if any, are for the sectors from that of the
offset on, and these are sectors of the disk. -/
def SectorsOk (d : Lhd) (u : Uio) : Prop :=
  ∃ e d' u' cmds, lhdIo d u = .ok (e, d', u') ∧ d'.log = d.log ++ cmds ∧
    ∀ i c, cmds[i]? = some c → c.sector = u.offset / lhdSectsize + i ∧ c.sector < d.nsect

section Loop

variable {d : Lhd} {u : Uio} {b n : ℕ}

/-- The command in the log. -/
theorem Lhd.command_log (d : Lhd) (b : ℕ) (write : Bool) :
    (d.command b write).log = d.log ++ [⟨b, write, d.buf⟩] ∧
      (d.command b write).nsect = d.nsect ∧ (d.command b write).answer = d.answer := by
  unfold Lhd.command
  cases d.next <;> cases write <;> exact ⟨rfl, rfl, rfl⟩

/-- **One iteration** starts at most one command, and one if it succeeds; from and to the memory of the
kernel it succeeds if the command does. -/
theorem lhdSector_spec (hr : lhdSectsize ≤ u.resid) (hi : lhdSectsize ≤ u.iov.sum)
    (hlt : u.resid < wordSize) :
    ∃ e d' u' cmds, lhdSector d u b = .ok (e, d', u') ∧ d'.log = d.log ++ cmds ∧
      (∀ c ∈ cmds, c.sector = b) ∧ cmds.length ≤ 1 ∧ d'.answer = d.answer ∧
      (e = none → cmds.length = 1 ∧ u.Moved u' lhdSectsize) ∧
      (u.user = false → d.next = .ok → e = none) := by
  cases hrw : u.rw with
  | write =>
    unfold lhdSector
    simp only [hrw]
    by_cases ha : u.Accessible lhdSectsize
    · obtain ⟨u', buf, he, hm, -⟩ := uiomove_ok ⟨hr, hi, hlt, ha⟩ d.buf 0
      obtain ⟨hlog, -, hans⟩ := Lhd.command_log { d with buf := buf } b true
      refine ⟨lhdCodeToErrno d.next, ({ d with buf := buf } : Lhd).command b true, u',
        [⟨b, true, buf⟩], ?_, hlog, by simp, Nat.le_refl _, hans, fun _ => ⟨rfl, hm⟩,
        fun _ hok => by rw [hok]; rfl⟩
      rw [he]
      rfl
    · obtain ⟨u', buf, he⟩ := uiomove_fault hr hi hlt ha d.buf 0
      refine ⟨some .efault, { d with buf := buf }, u', [], ?_, (List.append_nil _).symm,
        fun c hc => (by cases hc), Nat.zero_le _, rfl, fun he => (by cases he), fun hu => absurd (.inl hu) ha⟩
      rw [he]
      rfl
  | read =>
    obtain ⟨hlog, -, hans⟩ := d.command_log b false
    unfold lhdSector
    simp only [hrw]
    by_cases hok : d.next = .ok
    · rw [if_pos hok]
      by_cases ha : u.Accessible lhdSectsize
      · obtain ⟨u', buf, he, hm, -⟩ := uiomove_ok ⟨hr, hi, hlt, ha⟩ (d.command b false).buf 0
        refine ⟨none, { d.command b false with buf := buf }, u', [⟨b, false, d.buf⟩], ?_, hlog,
          by simp, Nat.le_refl _, hans, fun _ => ⟨rfl, hm⟩, fun _ _ => rfl⟩
        rw [he]
        rfl
      · obtain ⟨u', buf, he⟩ := uiomove_fault hr hi hlt ha (d.command b false).buf 0
        refine ⟨some .efault, { d.command b false with buf := buf }, u', [⟨b, false, d.buf⟩], ?_,
          hlog, by simp, Nat.le_refl _, hans, fun he => (by cases he),
          fun hu => absurd (.inl hu) ha⟩
        rw [he]
        rfl
    · rw [if_neg hok]
      refine ⟨lhdCodeToErrno d.next, d.command b false, u, [⟨b, false, d.buf⟩], rfl, hlog,
        by simp, Nat.le_refl _, hans, fun he => ?_, fun _ h => absurd h hok⟩
      cases hn : d.next with
      | ok => exact absurd hn hok
      | invsect | media =>
        rw [hn] at he
        cases he

/-- **The loop** over `n` sectors: the commands are for the sectors in order, and without errors there
are `n`. -/
theorem lhdLoop_spec (hr : u.resid = n * lhdSectsize) (hi : n * lhdSectsize ≤ u.iov.sum)
    (hlt : u.resid < wordSize) :
    ∃ e d' u' cmds, lhdLoop n b d u = .ok (e, d', u') ∧ d'.log = d.log ++ cmds ∧
      (b + n < wordSize → ∀ i c, cmds[i]? = some c → i < n ∧ c.sector = b + i) ∧
      (u.user = false → (∀ k, (d.answer k).1 = .ok) → cmds.length = n) := by
  induction n generalizing b d u with
  | zero => exact ⟨none, d, u, [], rfl, (List.append_nil _).symm, fun _ => nofun, fun _ _ => rfl⟩
  | succ n ih =>
    rw [Nat.succ_mul] at hr hi
    obtain ⟨e, d₁, u₁, cmds₁, hs, hlog₁, hsect, hle, hans, hnone, hok⟩ :=
      lhdSector_spec (d := d) (u := u) (b := b) (by omega) (by omega) hlt
    rw [lhdLoop, hs]
    have hfirst : ∀ i c, cmds₁[i]? = some c → i = 0 ∧ c.sector = b := fun i c hc =>
      have hi := (List.getElem?_eq_some_iff.mp hc).1
      ⟨by omega, hsect c (List.mem_of_getElem? hc)⟩
    cases e with
    | some e =>
      refine ⟨some e, d₁, u₁, cmds₁, rfl, hlog₁, fun _ i c hc => ?_, fun hu hall => ?_⟩
      · obtain ⟨rfl, hone⟩ := hfirst i c hc
        exact ⟨Nat.succ_pos n, hone⟩
      · cases hok hu (hall _)
    | none =>
      obtain ⟨hone, hm⟩ := hnone rfl
      have hres := hm.resid
      have hsum := hm.sum
      obtain ⟨e₂, d₂, u₂, cmds₂, hs₂, hlog₂, hsect₂, hlen₂⟩ :=
        ih (b := wadd b 1) (d := d₁) (u := u₁) (by omega) (by omega) (by omega)
      refine ⟨e₂, d₂, u₂, cmds₁ ++ cmds₂, hs₂, by rw [hlog₂, hlog₁, List.append_assoc],
        fun hb i c hc => ?_, fun hu hall => ?_⟩
      · rw [List.getElem?_append, hone] at hc
        split_ifs at hc with h₀
        · obtain ⟨rfl, hone⟩ := hfirst i c hc
          exact ⟨Nat.succ_pos n, hone⟩
        · have hadd : wadd b 1 = b + 1 := wadd_of_lt (by omega)
          obtain ⟨hlt, hc⟩ := hsect₂ (by omega) _ _ hc
          exact ⟨by omega, by omega⟩
      · rw [List.length_append, hone, hlen₂ (hm.user.trans hu) (by rw [hans]; exact hall), Nat.add_comm]

end Loop

/-- A device of `nsect` sectors without errors, and a transfer from the memory of the kernel. -/
def flawless (nsect : ℕ) (h : nsect < wordSize) : Lhd where
  nsect := nsect
  nsect_lt := h
  disk := fun _ _ => 0
  buf := fun _ => 0
  answer := fun _ => (.ok, fun _ => 0)
  log := []
  calls := 0

def kernelUio (offset resid : ℕ) : Uio where
  iov := [resid]
  area := fun _ => 0
  pos := 0
  user := false
  valid := 0
  offset := offset
  resid := resid
  rw := .write

section Call

variable {d : Lhd} {u : Uio} {nsect offset resid : ℕ}

/-- A call that starts no command. -/
theorem sectorsOk_of_none {e : Option FsErr} {d' : Lhd} {u' : Uio}
    (h : lhdIo d u = .ok (e, d', u')) (hlog : d'.log = d.log) : SectorsOk d u :=
  ⟨e, d', u', [], h, by rw [hlog, List.append_nil], nofun⟩

/-- **The sectors of `lhd_io`** are those of the transfer and lie on the disk, whatever the device and
the copies do, if and only if the call is refused, has no residue, or its sectors are words. -/
theorem lhd_io_sectors_iff (hn : nsect < wordSize) (hres : resid < wordSize) :
    (∀ d u, d.nsect = nsect → u.offset = offset → u.resid = resid → resid ≤ u.iov.sum →
      SectorsOk d u) ↔
      (offset % lhdSectsize ≠ 0 ∨ resid % lhdSectsize ≠ 0) ∨
      nsect < wadd (offset / lhdSectsize % wordSize) (resid / lhdSectsize) ∨
      resid / lhdSectsize = 0 ∨ offset / lhdSectsize + resid / lhdSectsize < wordSize := by
  constructor
  · intro hall
    by_contra hno
    simp only [not_or, Nat.not_lt, ne_eq, not_not] at hno
    obtain ⟨⟨hoff, hlen⟩, hcheck, hpos, hwrap⟩ := hno
    have hmul : resid = resid / lhdSectsize * lhdSectsize := by
      unfold lhdSectsize at *
      omega
    obtain ⟨e, d', u', cmds, hcall, hlog, hcmds⟩ :=
      hall (flawless nsect hn) (kernelUio offset resid) rfl rfl rfl (by simp [kernelUio])
    obtain ⟨e₁, d₁, u₁, cmds₁, hloop, hlog₁, -, hlen₁⟩ :=
      lhdLoop_spec (d := { flawless nsect hn with calls := 1 }) (u := kernelUio offset resid)
        (b := offset / lhdSectsize % wordSize) hmul (by rw [← hmul]; simp [kernelUio]) hres
    have hlen₁ := hlen₁ rfl fun _ => rfl
    unfold lhdIo at hcall
    rw [if_neg (by simp [kernelUio, hoff, hlen]),
      if_neg (by exact Nat.not_lt.mpr hcheck)] at hcall
    obtain ⟨-, rfl, -⟩ : e₁ = e ∧ d₁ = d' ∧ u₁ = u' := by
      simpa using hloop.symm.trans hcall
    obtain rfl : cmds₁ = cmds := List.append_cancel_left (hlog₁.symm.trans hlog)
    -- the last command would be for a sector that is no word
    have hlast : resid / lhdSectsize - 1 < cmds₁.length := by omega
    obtain ⟨hs, hd⟩ := hcmds _ _ (List.getElem?_eq_getElem hlast)
    change _ = offset / lhdSectsize + _ at hs
    change _ < nsect at hd
    omega
  · rintro hcond d u rfl rfl rfl hiov
    by_cases hal : u.offset % lhdSectsize ≠ 0 ∨ u.resid % lhdSectsize ≠ 0
    · have hcall : lhdIo d u = .ok (some .einval, { d with calls := d.calls + 1 }, u) := by
        unfold lhdIo
        exact if_pos hal
      exact sectorsOk_of_none hcall rfl
    by_cases hcheck : d.nsect < wadd (u.offset / lhdSectsize % wordSize) (u.resid / lhdSectsize)
    · have hcall : lhdIo d u = .ok (some .einval, { d with calls := d.calls + 1 }, u) := by
        unfold lhdIo
        exact (if_neg hal).trans (if_pos hcheck)
      exact sectorsOk_of_none hcall rfl
    have hmul : u.resid = u.resid / lhdSectsize * lhdSectsize := by
      unfold lhdSectsize at *
      omega
    obtain ⟨e, d', u', cmds, hloop, hlog, hsect, -⟩ :=
      lhdLoop_spec (d := { d with calls := d.calls + 1 })
        (b := u.offset / lhdSectsize % wordSize) hmul (by omega) hres
    have hcall : lhdIo d u = .ok (e, d', u') := by
      unfold lhdIo
      exact ((if_neg hal).trans (if_neg hcheck)).trans hloop
    rcases (hcond.resolve_left hal).resolve_left hcheck with hzero | hsmall
    · rw [hzero] at hloop
      cases hloop
      exact sectorsOk_of_none hcall rfl
    · have hmod : u.offset / lhdSectsize % wordSize = u.offset / lhdSectsize :=
        Nat.mod_eq_of_lt (Nat.lt_of_le_of_lt (Nat.le_add_right _ _) hsmall)
      rw [hmod] at hsect hcheck
      rw [wadd_of_lt hsmall] at hcheck
      refine ⟨e, d', u', cmds, hcall, hlog, fun i c hc => ?_⟩
      obtain ⟨hi, hs⟩ := hsect hsmall i c hc
      exact ⟨hs, by omega⟩

/-- A sector at `2 TB` is taken for the first one of the disk. -/
theorem lhd_io_sectors_wraps :
    ¬ ∀ d u, u.offset < 2 ^ 63 → u.resid < wordSize → u.resid ≤ u.iov.sum → SectorsOk d u := by
  intro hall
  obtain ⟨e, d', u', cmds, hcall, hlog, hcmds⟩ :=
    hall (flawless 8 (by decide)) (kernelUio (2 ^ 41) 512) (by decide) (by decide) (by decide)
  have hfirst : (lhdIo (flawless 8 (by decide)) (kernelUio (2 ^ 41) 512)).toOption.map
      (fun r => r.2.1.log.map LhdCommand.sector) = some [0] := by decide +kernel
  rw [hcall] at hfirst
  have hsector : d'.log.map LhdCommand.sector = [0] := Option.some.inj hfirst
  rw [hlog] at hsector
  obtain ⟨c, hc, h₀⟩ := List.map_eq_singleton_iff.mp hsector
  rw [(hcmds 0 c (by rw [show cmds = [c] from hc]; rfl)).1] at h₀
  exact absurd h₀ (by decide)

/-- The last sector of a disk of eight. -/
theorem lhd_io_sectors_last : SectorsOk (flawless 8 (by decide)) (kernelUio 3584 512) :=
  (lhd_io_sectors_iff (by decide) (by decide)).mpr (.inr (.inr (.inr (by decide)))) _ _ rfl rfl rfl
    (by decide)

end Call

end Os161
