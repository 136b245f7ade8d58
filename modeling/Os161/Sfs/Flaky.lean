import Os161.Sfs.Layout
import Os161.Sfs.Offsets
import Os161.Sfs.Shrink

set_option autoImplicit false

/-!
# Truncation on a device that fails

A disk some of whose transfers fail, whatever the retries of `sfs_rwblock`.

* `FlakyDisk`, `flakyDevice`: the disk. A transfer that fails leaves the sector and the uio as they
  are; EINVAL is no failure but a panic.
* `runOn_itrunc`: `sfs_itrunc` on it, part by part.
* **`itrunc_errors_iff`**: after an error, no block that the file still refers to is free, but for a
  failure of the write of the indirect block.
-/

namespace Os161

open Buffer Vol

/-- A disk and the errors of the transfers to come. -/
structure FlakyDisk where
  disk : Disk
  fails : ℕ → Option FsErr
  fails_ne : ∀ n, fails n ≠ some .einval

/-- The disk after a transfer. -/
def FlakyDisk.next (d : FlakyDisk) (disk : Disk) : FlakyDisk :=
  ⟨disk, fun n => d.fails (n + 1), fun n => d.fails_ne (n + 1)⟩

/-- The disk serves a request, or fails to. -/
def flakyDevice (d : FlakyDisk) (q : SectorIo) : Except FsPanic (SectorReply × FlakyDisk) :=
  match d.fails 0 with
  | some e => .ok ((some e, q.uio), d.next d.disk)
  | none => (diskDevice d.disk q).map fun r => (r.1, d.next r.2)

namespace SfsFs

section Quiet

variable {α β : Type}

/-- The program sends no requests. -/
def Quiet (x : SfsM α) : Prop :=
  ∀ (D : Type) (dev : Device D) (m : SfsFs) (d : D), requests dev x m d = []

variable {x : SfsM α} {f : α → SfsM β}

theorem Quiet.bind (hx : Quiet x) (hf : ∀ a, Quiet (f a)) : Quiet (x >>= f) := by
  intro D dev m d
  refine List.eq_nil_iff_forall_not_mem.mpr fun q h => ?_
  rcases mem_requests_bind h with h | ⟨a, m', d', h⟩
  · rw [hx] at h
    cases h
  · rw [hf a] at h
    cases h

theorem quiet_pure (a : α) : Quiet (pure a : SfsM α) := fun _ _ _ _ => rfl

theorem quiet_get : Quiet getFs := fun _ _ _ _ => rfl

theorem quiet_modify (g : SfsFs → SfsFs) : Quiet (modifyFs g) := fun _ _ _ _ => rfl

theorem quiet_kassert {p : Prop} [Decidable p] : Quiet (kassert p) := by
  unfold kassert
  split_ifs
  · exact quiet_pure ()
  · exact fun _ _ _ _ => rfl

theorem quiet_loop {body : ℕ → β → SfsM β} (h : ∀ i b, Quiet (body i b)) :
    ∀ left i b, Quiet (loop body left i b)
  | 0, _, b => quiet_pure b
  | left + 1, i, b => (h i b).bind fun b' => quiet_loop h left (i + 1) b'

theorem quiet_bfree (b : ℕ) : Quiet (sfsBfree b) :=
  (quiet_get.bind fun _ => quiet_kassert.bind fun _ => quiet_kassert.bind fun _ =>
    quiet_modify _).bind fun _ => quiet_modify _

theorem quiet_truncDirect (ino blocklen k : ℕ) : Quiet (truncDirect ino blocklen k) := by
  refine quiet_get.bind fun m => ?_
  simp only
  split_ifs
  · exact (quiet_bfree _).bind fun _ => quiet_modify _
  · exact quiet_pure ()

theorem quiet_truncEntry (blocklen k : ℕ) (flags : Bool × Bool) :
    Quiet (truncEntry blocklen k flags) := by
  refine quiet_get.bind fun m => ?_
  simp only
  split_ifs
  · exact (quiet_bfree _).bind fun _ => (quiet_modify _).bind fun _ => quiet_pure _
  · exact quiet_pure _

/-- **A part without requests** does the same on every device. -/
theorem Quiet.runOn (hx : Quiet x) {v w : Vol} {r : Except FsErr α} (h : exec x v = .ok (r, w)) :
    w.disk = v.disk ∧ ∀ {D : Type} (dev : Device D) (d : D),
      SfsFs.runOn dev x v.fs d = .ok (r, w.fs, d) := by
  have hrun := exec_eq_ok.mp h
  have hsent := hx Disk diskDevice v.fs v.disk
  have hany : ∀ {D : Type} (dev : Device D), w.disk = v.disk ∧
      ∀ d, Prog.run dev (x.run v.fs) d = .ok (r, w.fs, d) := fun _ =>
    Program.run_of_sent_nil _ _ hsent hrun
  exact ⟨(hany diskDevice).1, fun dev d => (hany dev).2 d⟩

end Quiet

section Runs

variable {α β D : Type} {dev : Device D} {x : SfsM α} {f : α → SfsM β} {m m' : SfsFs} {d d' : D}
  {b : ℕ}

theorem runOn_bind_error {e : FsErr} (h : runOn dev x m d = .ok (.error e, m', d')) :
    runOn dev (x >>= f) m d = .ok (.error e, m', d') := by
  unfold runOn at h ⊢
  change Program.run dev (x.run >>= ExceptT.bindCont f) m d = _
  rw [Program.run_bind, h]
  rfl

/-- A transfer that fails. -/
theorem runOn_readblock_fails {d : FlakyDisk} {e : FsErr} (h : d.fails 0 = some e) :
    runOn flakyDevice (sfsReadblock b) m d = .ok (.error e, m, d.next d.disk) := by
  change (flakyDevice d ⟨sfsuio (fun _ => 0) b .read, rfl⟩ >>= fun r => _) = _
  rw [flakyDevice, h]
  rfl

theorem runOn_writeblock_fails {d : FlakyDisk} {data : SfsFs → Buffer} {e : FsErr}
    (h : d.fails 0 = some e) :
    runOn flakyDevice (sfsWriteblock b data) m d = .ok (.error e, m, d.next d.disk) := by
  change (flakyDevice d ⟨sfsuio (data m) b .write, rfl⟩ >>= fun r => _) = _
  rw [flakyDevice, h]
  rfl

/-- A transfer that succeeds is one of the disk. -/
theorem runOn_served {q : SfsFs → SectorIo} {g : SectorReply → SfsM α} {d : FlakyDisk} {disk : Disk}
    {r : Except FsErr α} (hg : ∀ a, Quiet (g a)) (hf : d.fails 0 = none)
    (h : exec (sfsRwblock q >>= g) ⟨m, d.disk⟩ = .ok (r, ⟨m', disk⟩)) :
    runOn flakyDevice (sfsRwblock q >>= g) m d = .ok (r, m', d.next disk) := by
  obtain ⟨⟨a, d₁⟩, hd, hk⟩ := Transition.bind_eq_ok.mp (exec_eq_ok.mp h)
  have hd₁ : diskDevice d.disk (q m) = .ok (a, d₁) := hd
  obtain ⟨rfl, hrun⟩ := (hg a).runOn (v := ⟨m, d₁⟩) (w := ⟨m', disk⟩) (exec_eq_ok.mpr hk)
  change (flakyDevice d (q m) >>= fun r => _) = _
  rw [flakyDevice, hf]
  simp only [hd₁]
  exact hrun flakyDevice (d.next disk)

theorem runOn_readblock {d : FlakyDisk} (hb : b < d.disk.nsect) (hf : d.fails 0 = none) :
    runOn flakyDevice (sfsReadblock b) m d =
      .ok (.ok (clip (d.disk.sector b)), m, d.next d.disk) := by
  refine runOn_served (fun a => ?_) hf ?_
  · obtain ⟨e, u⟩ := a
    cases e with
    | none => exact quiet_pure _
    | some e => exact fun _ _ _ _ => rfl
  · obtain ⟨r, w, he, rfl, rfl⟩ := (returns_readblock (v := ⟨m, d.disk⟩) hb (f := pure)
      (R := fun r w => r = .ok (clip (d.disk.sector b)) ∧ w = ⟨m, d.disk⟩)).mpr
      (returns_pure.mpr ⟨rfl, rfl⟩)
    rw [bind_pure] at he
    exact he

theorem runOn_writeblock {d : FlakyDisk} {data : SfsFs → Buffer} (hb : b < d.disk.nsect)
    (hf : d.fails 0 = none) : runOn flakyDevice (sfsWriteblock b data) m d =
      .ok (.ok (), m, d.next (d.disk.write b (clip (data m)))) := by
  refine runOn_served (fun a => ?_) hf ?_
  · obtain ⟨e, u⟩ := a
    cases e with
    | none => exact quiet_pure _
    | some e => exact fun _ _ _ _ => rfl
  · have hwrite : Returns (sfsWriteblock b data) ⟨m, d.disk⟩ fun r w =>
        r = .ok () ∧ w = ⟨m, d.disk.write b (clip (data m))⟩ :=
      (returns_writeblock_last (v := ⟨m, d.disk⟩) hb).mpr ⟨rfl, rfl⟩
    obtain ⟨r, w, he, rfl, rfl⟩ := hwrite
    exact he

end Runs

section Itrunc

variable {I : ℕ → Prop} {ino : ℕ} {len : ℤ} {v w w' : Vol} {d : FlakyDisk}

/-- `sfs_itrunc` looks at the indirect block. -/
def LooksAtIndirect (v : Vol) (ino : ℕ) (len : ℤ) : Prop :=
  truncBlocklen len < sfsNdirect + sfsDbperidb - 1 ∧ v.indirect ino ≠ 0

/-- `sfi_size` is set. -/
def setSize (m : SfsFs) (ino : ℕ) (len : ℤ) : SfsFs :=
  m.setInode ino (setWord (m.inode ino) 0 (len % wordSize).toNat)

/-- The volume after the loop over the direct blocks. -/
structure DirectDone (I : ℕ → Prop) (ino : ℕ) (len : ℤ) (v w : Vol) : Prop where
  truncating : Truncating I ino (truncBlocklen len) sfsNdirect v w
  cut : DirectCut ino (truncBlocklen len) sfsNdirect v w

/-- **The ends of `sfs_itrunc`** on the disk `d`. -/
inductive ItruncRun (I : ℕ → Prop) (ino : ℕ) (len : ℤ) (v : Vol) (d : FlakyDisk) :
    Except FsErr Unit → SfsFs → FlakyDisk → Prop
  | skipped {w : Vol} (direct : DirectDone I ino len v w) (hno : ¬ LooksAtIndirect v ino len) :
    ItruncRun I ino len v d (.ok ()) (setSize w.fs ino len) d
  | readFails {w : Vol} {e : FsErr} (direct : DirectDone I ino len v w)
    (look : LooksAtIndirect v ino len) (read : d.fails 0 = some e) :
    ItruncRun I ino len v d (.error e) w.fs (d.next d.disk)
  | writeFails {w w' : Vol} {e : FsErr} (direct : DirectDone I ino len v w)
    (look : LooksAtIndirect v ino len) (read : d.fails 0 = none)
    (entries : Cutting w ino (truncBlocklen len) sfsDbperidb (true, true) w')
    (write : d.fails 1 = some e) :
    ItruncRun I ino len v d (.error e) w'.fs ((d.next d.disk).next d.disk)
  | done {w w' : Vol} {d' : FlakyDisk} {flags : Bool × Bool} (direct : DirectDone I ino len v w)
    (look : LooksAtIndirect v ino len) (read : d.fails 0 = none)
    (entries : Cutting w ino (truncBlocklen len) sfsDbperidb flags w')
    (write : flags = (true, true) → d.fails 1 = none)
    (disk : d'.disk = (cutResult ino (w.indirect ino) flags w').disk) :
    ItruncRun I ino len v d (.ok ())
      (setSize (cutResult ino (w.indirect ino) flags w').fs ino len) d'

/-- The direct blocks. -/
theorem runOn_truncDirect (h : v.Physical I) (hino : I ino) (hload : ino ∈ v.fs.vnodes) (len : ℤ) :
    ∃ w, DirectDone I ino len v w ∧ w.disk = v.disk ∧ ∀ d : FlakyDisk,
      runOn flakyDevice (loop (fun k _ => truncDirect ino (truncBlocklen len) k) sfsNdirect 0 ()) v.fs
        d = .ok (.ok (), w.fs, d) := by
  obtain ⟨r, w, he, hw⟩ := returns_truncDirect_cut h hino hload (truncBlocklen len)
  cases r with
  | error e => exact hw.elim
  | ok _ =>
    have hquiet : Quiet (loop (fun k _ => truncDirect ino (truncBlocklen len) k) sfsNdirect 0 ()) :=
      quiet_loop (fun k _ => quiet_truncDirect ino (truncBlocklen len) k) _ _ _
    obtain ⟨hdisk, hrun⟩ := hquiet.runOn he
    exact ⟨w, ⟨hw.1, hw.2⟩, hdisk, fun d => hrun flakyDevice d⟩

/-- The entries of the indirect block. -/
theorem runOn_truncEntries (h : w.Physical I) (hino : I ino) (h0 : w.indirect ino ≠ 0)
    (blocklen : ℕ) : ∃ flags w', Cutting w ino blocklen sfsDbperidb flags w' ∧ ∀ d : FlakyDisk,
      runOn flakyDevice (loop (truncEntry blocklen) sfsDbperidb 0 (false, false))
        { w.fs with truncbuf := clip (w.disk.sector (w.indirect ino)) } d =
          .ok (.ok flags, w'.fs, d) := by
  obtain ⟨r, w', he, hw⟩ : Returns (loop (truncEntry blocklen) sfsDbperidb 0 (false, false)) _ _ :=
    returns_truncEntries h hino h0
  cases r with
  | error e => exact hw.elim
  | ok flags =>
    have hquiet : Quiet (loop (truncEntry blocklen) sfsDbperidb 0 (false, false)) :=
      quiet_loop (fun k flags => quiet_truncEntry blocklen k flags) _ _ _
    exact ⟨flags, w', hw, fun d => (hquiet.runOn he).2 flakyDevice d⟩

/-- The end of `truncIndirect`, after the loop over the entries. -/
theorem runOn_cutEnd (h : w.Physical I) (hino : I ino) (h0 : w.indirect ino ≠ 0) {blocklen : ℕ}
    {flags : Bool × Bool} (hc : Cutting w ino blocklen sfsDbperidb flags w')
    (hd : d.disk = w.disk) (hwrite : flags = (true, true) → d.fails 0 = none) :
    ∃ d', runOn flakyDevice (if flags.1 = false then do
        sfsBfree (w.indirect ino)
        modifyFs fun m => m.setInode ino (setWord (m.inode ino) 17 0)
      else if flags.2 then sfsWriteblock (w.indirect ino) fun m => m.truncbuf
      else pure ()) w'.fs d = .ok (.ok (), (cutResult ino (w.indirect ino) flags w').fs, d') ∧
      d'.disk = (cutResult ino (w.indirect ino) flags w').disk := by
  have hown : w.Owns I (.indirect ino) (w.indirect ino) := ⟨hino, rfl, h0⟩
  have hdisk : w'.disk = w.disk := by
    obtain ⟨tb, fm, fd, rfl⟩ := hc.fs
    rfl
  unfold cutResult
  split_ifs with hnz hdirty
  · have hmark : w'.fs.freemap (w.indirect ino) = true := by
      refine (hc.freemap _).mpr ⟨(h.exact.marked _ _ hown).2, ?_⟩
      rintro ⟨k, -, -, hk, hk0⟩
      exact h.ne_of_ne hown (entry_owns hino hk hk0) (by simp) rfl
    have hbits : w.indirect ino < w'.fs.freemapBits := by
      obtain ⟨tb, fm, fd, rfl⟩ := hc.fs
      exact h.lt_bits hown
    obtain ⟨r, u, he, rfl, rfl⟩ := (returns_bfree hbits hmark
      (f := fun _ => modifyFs fun m => m.setInode ino (setWord (m.inode ino) 17 0))
      (R := fun r u => r = .ok () ∧ u = (w'.release (w.indirect ino)).setInode ino
        (setWord (w'.fs.inode ino) 17 0))).mpr (returns_modify_last.mpr ⟨rfl, rfl⟩)
    exact ⟨d, (((quiet_bfree _).bind fun _ => quiet_modify _).runOn he).2 flakyDevice d,
      hd.trans hdisk.symm⟩
  · have hflags : flags = (true, true) := Prod.ext (by simpa using hnz) hdirty
    have hlt : w.indirect ino < d.disk.nsect := by
      rw [hd]
      exact h.lt_nsect hown
    refine ⟨_, runOn_writeblock hlt (hwrite hflags), ?_⟩
    change d.disk.write _ _ = w'.disk.write _ _
    rw [hd, hdisk]
  · exact ⟨d, rfl, hd.trans hdisk.symm⟩

/-- **A run of `sfs_itrunc`** on a disk that may fail. -/
theorem runOn_itrunc (h : v.Physical I) (hino : I ino) (hload : ino ∈ v.fs.vnodes) (len : ℤ)
    (hd : d.disk = v.disk) : ∃ r m d', runOn flakyDevice (sfsItrunc ino len) v.fs d = .ok (r, m, d') ∧
      ItruncRun I ino len v d r m d' := by
  obtain ⟨w, hw, hdisk, hrun⟩ := runOn_truncDirect h hino hload len
  have hp := hw.truncating.physical
  have hloadw : ino ∈ w.fs.vnodes := hw.truncating.touch.vnodes ▸ hload
  have hind : w.indirect ino = v.indirect ino := hw.cut.indirect
  have hblock : sfiIndirect (w.fs.inode ino) = w.indirect ino := by
    rw [Vol.indirect, inodeWords_loaded hloadw]
    exact (words_of_lt (by decide)).symm
  unfold sfsItrunc
  rw [runOn_bind (hrun d), runOn_get, hblock]
  dsimp only
  by_cases hlook : LooksAtIndirect v ino len
  · have h0 : w.indirect ino ≠ 0 := by
      rw [hind]
      exact hlook.2
    have hdw : d.disk = w.disk := hd.trans hdisk.symm
    rw [if_pos (by rw [hind]; exact hlook)]
    cases hread : d.fails 0 with
    | some e =>
      refine ⟨_, _, _, runOn_bind_error (runOn_bind_error (runOn_readblock_fails hread)),
        .readFails hw hlook hread⟩
    | none =>
      obtain ⟨flags, w', hc, hloop⟩ := runOn_truncEntries hp hino h0 (truncBlocklen len)
      have hlt : w.indirect ino < d.disk.nsect := by
        rw [hdw]
        exact hp.lt_nsect (s := .indirect ino) ⟨hino, rfl, h0⟩
      have hbuf : runOn flakyDevice
          (modifyFs fun m => { m with truncbuf := clip (w.disk.sector (w.indirect ino)) }) w.fs
            (d.next w.disk) = .ok (.ok (), { w.fs with
              truncbuf := clip (w.disk.sector (w.indirect ino)) }, d.next w.disk) := rfl
      have hstart : ∀ {f : Unit → SfsM Unit}, runOn flakyDevice (truncIndirect ino (truncBlocklen len)
          (w.indirect ino) >>= f) w.fs d = runOn flakyDevice ((if flags.1 = false then do
            sfsBfree (w.indirect ino)
            modifyFs fun m => m.setInode ino (setWord (m.inode ino) 17 0)
          else if flags.2 then sfsWriteblock (w.indirect ino) fun m => m.truncbuf
          else pure ()) >>= f) w'.fs (d.next d.disk) := fun {f} => by
        unfold truncIndirect
        rw [bind_assoc, runOn_bind (runOn_readblock hlt hread), hdw, bind_assoc]
        refine (runOn_bind hbuf).trans ?_
        rw [bind_assoc]
        exact (runOn_bind (hloop _)).trans rfl
      rw [hstart]
      by_cases hwrite : flags = (true, true) ∧ d.fails 1 ≠ none
      · obtain ⟨rfl, hwrite⟩ := hwrite
        obtain ⟨e, he⟩ := Option.ne_none_iff_exists'.mp hwrite
        exact ⟨_, _, _, runOn_bind_error (runOn_writeblock_fails he),
          .writeFails hw hlook hread hc he⟩
      · have hok : flags = (true, true) → d.fails 1 = none := fun hf => by
          by_contra hne
          exact hwrite ⟨hf, hne⟩
        obtain ⟨d', hend, hd'⟩ := runOn_cutEnd (d := d.next d.disk) hp hino h0 hc hdw hok
        exact ⟨_, _, _, (runOn_bind hend).trans rfl, .done hw hlook hread hc hok hd'⟩
  · rw [if_neg (by rw [hind]; exact hlook)]
    exact ⟨_, _, _, rfl, .skipped hw hlook⟩

/-- The file refers to a block, from its inode or from the indirect block on the disk. -/
def Refers (v : Vol) (ino b : ℕ) : Prop := v.indirect ino = b ∨ ∃ fb, v.blockOf ino fb = b

/-- **The write of the indirect block fails**: some entries are cut, others are not, the block is read
and cannot be written. -/
structure WriteBackFails (v : Vol) (ino : ℕ) (len : ℤ) (d : FlakyDisk) : Prop where
  look : LooksAtIndirect v ino len
  read : d.fails 0 = none
  write : ∃ e, d.fails 1 = some e
  kept : ∃ j, ¬ truncBlocklen len < sfsNdirect + j ∧ v.entries ino j ≠ 0
  cut : ∃ j, truncBlocklen len < sfsNdirect + j ∧ v.entries ino j ≠ 0

theorem entries_lt {j : ℕ} (h : v.entries ino j ≠ 0) : j < sfsDbperidb := by
  by_contra hge
  exact h (entries_of_le j (Nat.not_lt.mp hge))

/-- Both flags are set exactly if some entries are cut and others are not. -/
theorem Cutting.flags_iff {blocklen : ℕ} {flags : Bool × Bool}
    (hc : Cutting w ino blocklen sfsDbperidb flags w') : flags = (true, true) ↔
      (∃ j, ¬ blocklen < sfsNdirect + j ∧ w.entries ino j ≠ 0) ∧
        ∃ j, blocklen < sfsNdirect + j ∧ w.entries ino j ≠ 0 := by
  rw [Prod.ext_iff, hc.nonzero, hc.dirty]
  refine and_congr ⟨fun ⟨j, _, hj⟩ => ⟨j, hj⟩, fun ⟨j, hj⟩ => ⟨j, entries_lt hj.2, hj⟩⟩ ⟨?_, ?_⟩
  · rintro ⟨c, j, -, hlt, rfl, h0⟩
    exact ⟨j, hlt, h0⟩
  · rintro ⟨j, hlt, h0⟩
    exact ⟨_, j, entries_lt h0, hlt, rfl, h0⟩

/-- Every block that a file refers to is marked. -/
theorem Refers.marked {b : ℕ} (hr : Refers w ino b) (h : w.Physical I) (hino : I ino) (h0 : b ≠ 0) :
    w.fs.freemap b = true := by
  rcases hr with rfl | ⟨fb, rfl⟩
  · exact (h.exact.marked (.indirect ino) _ ⟨hino, rfl, h0⟩).2
  · exact (h.exact.marked (.block ino fb) _ ⟨hino, rfl, h0⟩).2

/-- A block is free and the file still refers to it. -/
theorem Cutting.free_refers {blocklen j : ℕ} {flags : Bool × Bool}
    (hc : Cutting w ino blocklen sfsDbperidb flags w') (hj : blocklen < sfsNdirect + j)
    (h0 : w.entries ino j ≠ 0) : Refers ⟨w'.fs, w.disk⟩ ino (w.entries ino j) ∧
      w'.fs.freemap (w.entries ino j) = false := by
  refine ⟨.inr ⟨sfsNdirect + j, ?_⟩, ?_⟩
  · obtain ⟨tb, fm, fd, rfl⟩ := hc.fs
    rw [blockOf_entry (by omega), Nat.add_sub_cancel_left]
    rfl
  · refine Bool.eq_false_iff.mpr fun hm => ((hc.freemap _).mp hm).2 ?_
    exact ⟨j, entries_lt h0, hj, rfl, h0⟩

/-- A run whose write of the indirect block fails. -/
theorem runOn_writeBackFails (h : v.Physical I) (hino : I ino) (hload : ino ∈ v.fs.vnodes)
    (hd : d.disk = v.disk) (hf : WriteBackFails v ino len d) :
    ∃ e m d' b, runOn flakyDevice (sfsItrunc ino len) v.fs d = .ok (.error e, m, d') ∧ b ≠ 0 ∧
      Refers ⟨m, d'.disk⟩ ino b ∧ m.freemap b = false := by
  obtain ⟨r, m, d', hrun, hres⟩ := runOn_itrunc h hino hload len hd
  obtain ⟨hlook, hread, ⟨e, hwrite⟩, hkept, j, hj, h0⟩ := hf
  cases hres with
  | skipped _ hno => exact absurd hlook hno
  | readFails _ _ hfail =>
    rw [hread] at hfail
    cases hfail
  | @done w w' _ flags direct _ _ entries hok _ =>
    have hflags : flags = (true, true) := by
      rw [entries.flags_iff, direct.cut.entries]
      exact ⟨hkept, j, hj, h0⟩
    rw [hok hflags] at hwrite
    cases hwrite
  | @writeFails w w' _ direct _ _ entries _ =>
    rw [← direct.cut.entries] at h0
    obtain ⟨hrefers, hfree⟩ := entries.free_refers hj h0
    have hdisk : ((d.next d.disk).next d.disk).disk = w.disk := hd.trans direct.cut.disk.symm
    rw [← hdisk] at hrefers
    exact ⟨_, _, _, _, hrun, h0, hrefers, hfree⟩

/-- **`sfs_itrunc` after an error**: no block that the file refers to is free, except exactly if the
write of the indirect block fails after some of its entries were freed. -/
theorem itrunc_errors_iff (h : v.Physical I) (hino : I ino) (hload : ino ∈ v.fs.vnodes) (len : ℤ)
    (d : FlakyDisk) (hd : d.disk = v.disk) :
    (∀ e m d', runOn flakyDevice (sfsItrunc ino len) v.fs d = .ok (.error e, m, d') →
      ∀ b ≠ 0, Refers ⟨m, d'.disk⟩ ino b → m.freemap b = true) ↔ ¬ WriteBackFails v ino len d := by
  constructor
  · intro hfree hf
    obtain ⟨e, m, d', b, hrun, h0, hrefers, hb⟩ := runOn_writeBackFails h hino hload hd hf
    rw [hfree e m d' hrun b h0 hrefers] at hb
    cases hb
  · intro hno e m₁ d₁ he b h0 hrefers
    obtain ⟨r, m, d', hrun, hres⟩ := runOn_itrunc h hino hload len hd
    cases hrun.symm.trans he
    cases hres with
    | @readFails w _ direct _ _ =>
      have hdisk : (d.next d.disk).disk = w.disk := hd.trans direct.cut.disk.symm
      rw [hdisk] at hrefers
      exact hrefers.marked direct.truncating.physical hino h0
    | @writeFails w w' _ direct hlook hread entries hwrite =>
      obtain ⟨hkept, hcut⟩ := entries.flags_iff.mp rfl
      rw [direct.cut.entries] at hkept hcut
      exact absurd ⟨hlook, hread, ⟨e, hwrite⟩, hkept, hcut⟩ hno

/-- Only the transfer number `k` fails. -/
def failsOnce (disk : Disk) (k : ℕ) : FlakyDisk :=
  ⟨disk, fun n => if n = k then some .eio else none, fun n => by split_ifs <;> simp⟩

theorem itrunc_errors_iff_twoEntries : ¬ ∃ e m d' b,
    runOn flakyDevice (sfsItrunc layoutIno 7680) twoEntries.vol.fs
        (failsOnce twoEntries.vol.disk 0) = .ok (.error e, m, d') ∧
      b ≠ 0 ∧ Refers ⟨m, d'.disk⟩ layoutIno b ∧ m.freemap b = false := by
  rintro ⟨e, m, d', b, he, h0, hrefers, hfree⟩
  have hno : ¬ WriteBackFails twoEntries.vol layoutIno 7680 (failsOnce twoEntries.vol.disk 0) :=
    fun hf => by cases hf.read
  have hused := (itrunc_errors_iff Layout.physical (.inr rfl) Layout.mem_vnodes 7680 _ rfl).mpr hno
    e m d' he b h0 hrefers
  rw [hfree] at hused
  cases hused

/-- **A truncation whose second transfer fails** leaves a block of the file free. -/
theorem itrunc_frees_referred : ∃ e m d' b,
    runOn flakyDevice (sfsItrunc layoutIno 7680) twoEntries.vol.fs (failsOnce twoEntries.vol.disk 1) =
      .ok (.error e, m, d') ∧ b ≠ 0 ∧ Refers ⟨m, d'.disk⟩ layoutIno b ∧ m.freemap b = false := by
  refine runOn_writeBackFails Layout.physical (.inr rfl) Layout.mem_vnodes rfl
    ⟨⟨by decide, ?_⟩, rfl, ⟨_, rfl⟩, ⟨0, by decide, ?_⟩, ⟨1, by decide, ?_⟩⟩
  · rw [Layout.vol_indirect]
    decide
  · rw [Layout.vol_entries]
    decide
  · rw [Layout.vol_entries]
    decide

end Itrunc

end SfsFs

end Os161
