import Os161.Sfs.Calls

set_option autoImplicit false

/-!
# Volumes on the device

The memory of SFS with the driver's device. What is proved about the disk is true of the device as long
as its commands succeed.

* `Lhd.sectors`: the disk of a device; `SfsMount.vol`: the volume of a mount.
* **`exec_of_works`**: on a device that works, a program does what it does on the disk.
* **`exec_of_good`**: so it does as long as no command has failed.
* `SfsMount.step`: the calls of a mount; **`run_sound`**: runs of calls on a sound volume.
-/

namespace Os161

open Buffer SfsFs Transition

/-- The disk of a device. -/
def Lhd.sectors (l : Lhd) : Disk := ⟨l.nsect, l.nsect_lt, fun b => clip (l.disk b)⟩

/-- The sectors have nothing beyond their ends. -/
def Disk.Clipped (d : Disk) : Prop := ∀ b, clip (d.sector b) = d.sector b

section Sectors

variable {l l' : Lhd} {d d' : Disk} {q : SectorIo} {r : SectorReply}

theorem Lhd.sectors_holds (l : Lhd) : l.Holds l.sectors :=
  ⟨rfl, fun _ _ ho => (clip_apply ho).symm⟩

theorem Lhd.sectors_clipped (l : Lhd) : l.sectors.Clipped := fun _ => clip_clip _

theorem Lhd.Holds.sectors_eq (h : l.Holds d) (hc : d.Clipped) : d = l.sectors := by
  have hsector : d.sector = fun b => clip (l.disk b) := by
    funext b o
    rw [← hc b]
    by_cases ho : o < lhdSectsize
    · rw [clip_apply ho, clip_apply ho, h.sector b o ho]
    · rw [clip_eq_zero (by omega), clip_eq_zero (by omega)]
  unfold Lhd.sectors
  cases d
  simp only [Disk.mk.injEq]
  exact ⟨h.nsect.symm, hsector⟩

/-- What a transfer of a sector writes is a sector. -/
theorem clip_of_uiomove {u u' : Uio} {data : Buffer} (hrw : u.rw = .write)
    (hres : u.resid = lhdSectsize)
    (h : uiomove (fun _ => 0) 0 lhdSectsize u = .ok (none, u', data)) : clip data = data := by
  have hlt : u.resid < wordSize := by
    rw [hres]
    decide
  have hiov : lhdSectsize ≤ u.iov.sum := by
    by_contra hi
    exact uiomoveLoop_short u.iov (Nat.lt_of_not_le hi) (le_of_eq hres.symm) hlt h
  by_cases ha : u.Accessible lhdSectsize
  · obtain ⟨v, b, he, -, hc⟩ :=
      uiomove_ok ⟨le_of_eq hres.symm, hiov, hlt, ha⟩ (fun _ => 0) 0
    obtain ⟨-, rfl⟩ : v = u' ∧ b = data := by simpa using he.symm.trans h
    rw [(hc.write hrw).2]
    funext o
    by_cases ho : o < lhdSectsize
    · rw [clip_apply ho]
    · rw [clip_eq_zero (by omega), blit_of_not_mem (by omega)]
  · obtain ⟨v, b, he⟩ := uiomove_fault (le_of_eq hres.symm) hiov hlt ha (fun _ => 0) 0
    rw [h] at he
    cases he

theorem Disk.Clipped.serve (hc : d.Clipped) (h : diskDevice d q = .ok (r, d')) : d'.Clipped := by
  unfold diskDevice diskSector at h
  split_ifs at h
  cases hrw : q.uio.rw with
  | read =>
    rw [hrw] at h
    obtain ⟨x, -, h⟩ := bind_eq_ok.mp h
    cases h
    exact hc
  | write =>
    rw [hrw] at h
    obtain ⟨⟨e, u, data⟩, hm, h⟩ := bind_eq_ok.mp h
    cases h
    split_ifs with he
    · exact hc
    · have hnone : e = none := by simpa using he
      rw [hnone] at hm
      intro b
      change clip (Function.update d.sector q.sector data b) = Function.update d.sector q.sector data b
      by_cases hb : b = q.sector
      · rw [hb, Function.update_self]
        exact clip_of_uiomove hrw q.resid hm
      · rw [Function.update_of_ne hb]
        exact hc b

/-- **A device that works** serves the requests as its disk does. -/
theorem lhdDevice_sectors (l : Lhd) (d : Disk) (q : SectorIo) (h : d = l.sectors ∧ l.Works) :
    Program.Match (fun l d => d = l.sectors ∧ l.Works) (lhdDevice l q) (diskDevice d q) := by
  obtain ⟨rfl, hw⟩ := h
  have hm := lhdDevice_match ⟨l.sectors_holds, hw⟩ q
  cases hl : lhdDevice l q <;> cases hd : diskDevice l.sectors q <;> rw [hl, hd] at hm
  case error.error => exact hm
  case error.ok => exact hm.elim
  case ok.error => exact hm.elim
  case ok.ok r r' =>
    obtain ⟨he, hh, hw'⟩ := hm
    exact ⟨he, hh.sectors_eq (l.sectors_clipped.serve hd), hw'⟩

end Sectors

/-- A mounted volume with its device. -/
structure SfsMount where
  fs : SfsFs
  dev : Lhd

namespace SfsMount

variable {α : Type} {s t : SfsMount} {x : SfsM α} {Q : Except FsErr α → Vol → Prop}
  {r : Except FsErr α}

/-- The volume of a mount. -/
def vol (s : SfsMount) : Vol := ⟨s.fs, s.dev.sectors⟩

/-- The run of a program that nobody interrupts, on the device. -/
def exec (x : SfsM α) (s : SfsMount) : Except FsPanic (Except FsErr α × SfsMount) :=
  (Program.run lhdDevice x.run s.fs s.dev).map fun r => (r.1, ⟨r.2.1, r.2.2⟩)

/-- **On a device that works** a program does what it does on the disk. -/
theorem exec_of_works (hw : s.dev.Works) (h : Returns x s.vol Q) :
    ∃ r t, exec x s = .ok (r, t) ∧ t.dev.Works ∧ Q r t.vol := by
  obtain ⟨r, w, he, hq⟩ := h
  have hm := Program.run_match lhdDevice_sectors (x.run s.fs) s.dev s.dev.sectors ⟨rfl, hw⟩
  unfold SfsFs.exec at he
  obtain ⟨⟨a, m, d⟩, hd, he⟩ := Transition.map_eq_ok he
  change (x.run s.fs).run diskDevice s.dev.sectors = _ at hd
  rw [hd] at hm
  cases hl : (x.run s.fs).run lhdDevice s.dev with
  | error p =>
    rw [hl] at hm
    exact hm.elim
  | ok r' =>
    rw [hl] at hm
    obtain ⟨hr, hdisk, hw'⟩ := hm
    cases he
    refine ⟨r'.1, ⟨r'.2.1, r'.2.2⟩, ?_, hw', ?_⟩
    · unfold exec Program.run
      rw [hl]
      rfl
    · have h₁ : r'.1 = a := congrArg Prod.fst hr
      have h₂ : r'.2.1 = m := congrArg Prod.snd hr
      unfold vol
      rw [h₁, h₂, ← hdisk]
      exact hq

/-- **As long as no command has failed** a program does what it does on the disk. -/
theorem exec_of_good (h : exec x s = .ok (r, t)) (hgood : t.dev.Good) :
    SfsFs.exec x s.vol = .ok (r, t.vol) := by
  unfold exec at h
  obtain ⟨⟨a, m, l⟩, hl, h⟩ := Transition.map_eq_ok h
  cases h
  have hlater : ∀ l q r l', lhdDevice l q = .ok (r, l') → l'.Good → l.Good :=
    fun _ _ _ _ he hg => hg.of_later (lhdDevice_later he)
  obtain ⟨d, hd, hS⟩ := Program.run_follow (S := fun l d => d = l.sectors) hlater
    (fun l d q r l' hS he hg => by
      subst hS
      obtain ⟨d', hd', hh⟩ := lhdDevice_follow l.sectors_holds he hg
      exact ⟨d', hd', hh.sectors_eq (l.sectors_clipped.serve hd')⟩)
    (x.run s.fs) s.dev s.dev.sectors a m l rfl hl hgood
  subst hS
  unfold SfsFs.exec Program.run
  change ((x.run s.fs).run diskDevice s.dev.sectors).map _ = _
  rw [hd]
  rfl

/-- The state after a call. -/
def step (s : SfsMount) (op : SfsOp) : Except FsPanic SfsMount := (exec op.prog s).map Prod.snd

/-- The callers keep their promises, and no whole block is beyond the positions of 32 bits. -/
def Proper (s : SfsMount) (op : SfsOp) : Prop := op.Valid s.vol ∧ op.Low s.vol

/-- **Runs of calls on a sound volume**, on a device that works. -/
theorem run_sound (hw : s.dev.Works) (h : s.vol.Sound) (ops : List SfsOp)
    (hops : Along step Proper s ops) :
    ∃ t, run step s ops = .ok t ∧ t.dev.Works ∧ t.vol.Sound := by
  induction ops generalizing s with
  | nil => exact ⟨s, rfl, hw, h⟩
  | cons op ops ih =>
    obtain ⟨hop, hrest⟩ := hops
    obtain ⟨r, u, he, hwu, hu⟩ := exec_of_works hw (returns_op h hop.1 hop.2)
    have hstep : step s op = .ok u := by
      unfold step
      rw [he]
      rfl
    obtain ⟨t, ht, hwt, hsound⟩ := ih hwu hu.1.1 (hrest u hstep)
    refine ⟨t, ?_, hwt, hsound⟩
    rw [run_cons, hstep]
    exact ht

end SfsMount

end Os161
