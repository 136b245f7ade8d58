import Os161.Sfs.Mount
import Os161.Sfs.Ops

set_option autoImplicit false

/-!
# The calls of a volume

All that the rest of the kernel asks of a mounted volume.

* `SfsOp`: the calls; `SfsOp.Valid`: what is promised by the callers.
* `SfsOp.Low`: no whole block that is transferred is beyond the positions of 32 bits.
* `SfsOp.Post`, **`returns_op`**: a call on a sound volume leaves it sound, and does to the names what it
  does to a finite map.
-/

namespace Os161

open Buffer SfsFs

/-- The calls. -/
inductive SfsOp
  | names (dir : ℕ) (op : NameOp)
  | getroot
  | read (ino : ℕ) (u : Uio)
  | write (ino : ℕ) (u : Uio)
  | truncate (ino : ℕ) (len : ℤ)
  | incref (ino : ℕ)
  | decref (ino : ℕ)
  | fsync (ino : ℕ)
  | sync

namespace SfsOp

/-- The program of a call. -/
def prog : SfsOp → SfsM Reply
  | names dir op => op.prog dir
  | getroot => do return .inode (← sfsGetroot)
  | read ino u => do
    let (e, u) ← vopRead ino u
    return .io e u
  | write ino u => do
    let (e, u) ← vopWrite ino u
    return .io e u
  | truncate ino len => do
    vopTruncate ino len
    return .done
  | incref ino => do
    vnodeIncref ino
    return .done
  | decref ino => do
    vnodeDecref ino
    return .done
  | fsync ino => do
    sfsSyncInode ino
    return .done
  | sync => do
    sfsSync
    return .done

/-- The vnodes that are passed are loaded, and a uio has memory for its request and the direction of
the call. -/
def Valid (v : Vol) : SfsOp → Prop
  | names dir op => dir ∈ v.fs.vnodes ∧ op.Valid v
  | getroot => True
  | read ino u => ino ∈ v.fs.vnodes ∧ SfsFs.Valid u ∧ u.rw = .read
  | write ino u => ino ∈ v.fs.vnodes ∧ SfsFs.Valid u ∧ u.rw = .write
  | truncate ino _ => ino ∈ v.fs.vnodes
  | incref ino => ino ∈ v.fs.vnodes
  | decref ino => ino ∈ v.fs.vnodes
  | fsync ino => ino ∈ v.fs.vnodes
  | sync => True

instance (v : Vol) : (op : NameOp) → Decidable (op.Valid v)
  | .creat .. => inferInstanceAs (Decidable True)
  | .link _ file => inferInstanceAs (Decidable (file ∈ v.fs.vnodes))
  | .remove .. => inferInstanceAs (Decidable True)
  | .rename .. => inferInstanceAs (Decidable True)
  | .lookup .. => inferInstanceAs (Decidable True)

instance (u : Uio) : Decidable (SfsFs.Valid u) :=
  decidable_of_iff (u.resid ≤ u.iov.sum ∧ u.resid < wordSize)
    ⟨fun h => ⟨h.1, h.2⟩, fun h => ⟨h.iov, h.lt⟩⟩

instance (v : Vol) : (op : SfsOp) → Decidable (op.Valid v)
  | names dir op => inferInstanceAs (Decidable (dir ∈ v.fs.vnodes ∧ op.Valid v))
  | getroot => inferInstanceAs (Decidable True)
  | read ino u => inferInstanceAs (Decidable (ino ∈ v.fs.vnodes ∧ SfsFs.Valid u ∧ u.rw = .read))
  | write ino u => inferInstanceAs (Decidable (ino ∈ v.fs.vnodes ∧ SfsFs.Valid u ∧ u.rw = .write))
  | truncate ino _ => inferInstanceAs (Decidable (ino ∈ v.fs.vnodes))
  | incref ino => inferInstanceAs (Decidable (ino ∈ v.fs.vnodes))
  | decref ino => inferInstanceAs (Decidable (ino ∈ v.fs.vnodes))
  | fsync ino => inferInstanceAs (Decidable (ino ∈ v.fs.vnodes))
  | sync => inferInstanceAs (Decidable True)

/-- The call transfers no contents of a file. -/
def Quiet : SfsOp → Prop
  | read .. => False
  | write .. => False
  | _ => True

instance : (op : SfsOp) → Decidable op.Quiet
  | read .. => inferInstanceAs (Decidable False)
  | write .. => inferInstanceAs (Decidable False)
  | names .. => inferInstanceAs (Decidable True)
  | getroot => inferInstanceAs (Decidable True)
  | truncate .. => inferInstanceAs (Decidable True)
  | incref .. => inferInstanceAs (Decidable True)
  | decref .. => inferInstanceAs (Decidable True)
  | fsync .. => inferInstanceAs (Decidable True)
  | sync => inferInstanceAs (Decidable True)

/-- **No whole block** that a call transfers is block 2^23 or one beyond it. -/
def Low (v : Vol) : SfsOp → Prop
  | read ino u => (v.file ino).type = sfsTypeFile → SfsFs.Low ino v u
  | write ino u => (v.file ino).type = sfsTypeFile → SfsFs.Low ino v u
  | _ => True

/-- **What a call does to the names**: the operations on names do what they do to a finite map, and the
others change no name. -/
def Post (op : SfsOp) (v : Vol) (r : Except FsErr Reply) (w : Vol) : Prop :=
  w.Sound ∧ match op with
    | names dir op => op.CallPost dir v r w
    | _ => w.names = v.names

/-- A call that transfers no contents transfers no whole block. -/
theorem Quiet.low {op : SfsOp} (h : op.Quiet) (v : Vol) : op.Low v := by
  cases op with
  | read ino u => exact h.elim
  | write ino u => exact h.elim
  | _ => trivial

end SfsOp

namespace Vol

section Files

variable {v w : Vol} {ino : ℕ}

/-- A file is changed, but neither its type nor its links. -/
theorem Sound.rewritten (h : v.Sound) (hr : Rewritten v.IsInode ino v w)
    (hne : ino ≠ sfsRootdirIno) :
    w.Sound ∧ w.names = v.names ∧ w.IsInode = v.IsInode := by
  have hdir : w.file sfsRootdirIno = v.file sfsRootdirIno :=
    hr.touch.file (isInode_root v) hne.symm
  have hnames := names_congr hdir
  have hI : w.IsInode = v.IsInode := isInode_congr hnames fun j => by rw [hr.touch.vnodes]
  have htype : ∀ j, v.IsInode j → (w.file j).type = (v.file j).type := fun j hj => by
    by_cases hji : j = ino
    · rw [hji]
      exact hr.type
    · rw [hr.touch.file hj hji]
  have hlink : ∀ j, v.IsInode j → (w.file j).linkcount = (v.file j).linkcount := fun j hj => by
    by_cases hji : j = ino
    · rw [hji]
      exact hr.linkcount
    · rw [hr.touch.file hj hji]
  refine ⟨⟨by rw [hI]; exact hr.physical, h.listed.congr hdir, fun name j hn => ?_,
    by rw [hdir]; exact h.root, fun j hj hd => ?_, fun j hj hroot => ?_⟩, hnames, hI⟩
  · rw [hnames] at hn
    rw [htype j (isInode_of_name hn)]
    exact h.file name j hn
  · rw [hI] at hj
    rw [htype j hj] at hd
    exact h.only j hj hd
  · rw [hI] at hj
    rw [hlink j hj, links_congr hdir]
    exact h.linkcount j hj hroot

end Files

end Vol

namespace SfsFs

open Vol

section Calls

variable {v w : Vol} {ino : ℕ} {u : Uio}

theorem Resized.rewritten {len : ℤ} {I : ℕ → Prop} (h : Resized I ino len v w) :
    Rewritten I ino v w :=
  ⟨h.physical, h.touch, congrArg (· / 2 ^ 16) h.link, congrArg (· % 2 ^ 16) h.link⟩

/-- **`sfs_getroot`.** -/
theorem returns_getroot (h : v.Sound) : Returns sfsGetroot v (Ends
    (fun ino w => w.Sound ∧ Same v w ∧ ino = sfsRootdirIno ∧ ino ∈ w.fs.vnodes)
    fun e w => w.Sound ∧ Same v w ∧ NoMemory v e) := by
  unfold sfsGetroot
  refine (returns_load h (isInode_root v)).bind ?_
  rintro (e | _) w hw
  · exact hw
  · obtain ⟨hw, hs, hload, -⟩ := hw
    refine returns_get.mpr ?_
    rw [if_neg (by rw [type_inode hload, hw.listed.dir]; simp)]
    exact returns_pure.mpr ⟨hw, hs, rfl, hload⟩

/-- A transfer of a file, or of a directory, which is an error. -/
theorem returns_transfer (h : v.Sound) (hload : ino ∈ v.fs.vnodes) (hu : SfsFs.Valid u)
    (hlow : (v.file ino).type = sfsTypeFile → Low ino v u) {rw : UioRw} (hrw : u.rw = rw) :
    Returns (do
      let m ← getFs
      if sfiType (m.inode ino) = sfsTypeDir then return (some FsErr.eisdir, u)
      else do
        kassert (u.rw = rw)
        sfsIo ino u) v (Ends (fun _ w => (w.Sound ∧ w.names = v.names) ∧ (v.Ended → w.Ended))
        fun _ _ => False) := by
  have hino := isInode_of_mem hload
  rw [returns_get, type_inode hload]
  split_ifs with hdir
  · exact returns_pure.mpr ⟨⟨h, rfl⟩, id⟩
  · have hroot : ino ≠ sfsRootdirIno := by
      rintro rfl
      exact hdir h.listed.dir
    rw [returns_kassert hrw]
    refine (returns_io h.physical hino hload hu (hlow (h.type hino hroot))).mono ?_
    rintro (e | _) w hw
    · exact hw
    · obtain ⟨hsound, hnames, -⟩ := h.rewritten hw hroot
      exact ⟨⟨hsound, hnames⟩, hw.touch.ended⟩

/-- **`VOP_TRUNCATE`.** -/
theorem returns_truncate (h : v.Sound) (hload : ino ∈ v.fs.vnodes) (len : ℤ) :
    Returns (vopTruncate ino len) v
      (Ends (fun _ w => (w.Sound ∧ w.names = v.names) ∧ (v.Ended → w.Ended))
        fun e w => e = .eisdir ∧ w = v) := by
  unfold vopTruncate
  rw [returns_get, type_inode hload]
  split_ifs with hdir
  · exact returns_throw.mpr ⟨rfl, rfl⟩
  · have hroot : ino ≠ sfsRootdirIno := by
      rintro rfl
      exact hdir h.listed.dir
    refine (returns_itrunc h.physical (isInode_of_mem hload) hload len).mono ?_
    rintro (e | _) w hw
    · exact hw.elim
    · replace hw : Resized v.IsInode ino len v w := hw
      obtain ⟨hsound, hnames, -⟩ := h.rewritten hw.rewritten hroot
      exact ⟨⟨hsound, hnames⟩, hw.touch.ended⟩

/-- **A reference is given up** on a sound volume. -/
theorem returns_drop (h : v.Sound) (hload : ino ∈ v.fs.vnodes) : Returns (vnodeDecref ino) v
    (Ends (fun _ w => (w.Sound ∧ w.names = v.names) ∧ (v.Ended → w.Ended)) fun _ _ => False) := by
  refine (returns_decref h.physical hload fun he => by rw [he]; exact h.root).mono ?_
  rintro (e | _) w hw
  · exact hw
  · obtain ⟨hs, hnames, -⟩ := h.released hload hw
    exact ⟨⟨hs, hnames⟩, hw.ended⟩

/-- **A call on a sound volume** returns, leaves it sound, and does to the names what it should; the
name of the volume ends where it ended. -/
theorem returns_op (h : v.Sound) {op : SfsOp} (hvalid : op.Valid v) (hlow : op.Low v) :
    Returns op.prog v fun r w => op.Post v r w ∧ (v.Ended → w.Ended) := by
  cases op with
  | names dir op =>
    refine (returns_nameOp h hvalid.1 hvalid.2).mono fun r w hw => ⟨⟨?_, hw.1⟩, hw.2⟩
    replace hw := hw.1
    unfold NameOp.CallPost at hw
    split_ifs at hw
    · exact hw.sound
    · rw [hw.2]
      exact h
  | getroot =>
    refine (returns_getroot h).bind ?_
    rintro (e | ino) w hw
    · exact ⟨⟨hw.1, hw.2.1.names⟩, hw.2.1.ended⟩
    · exact returns_pure.mpr ⟨⟨hw.1, hw.2.1.names⟩, hw.2.1.ended⟩
  | read ino u =>
    refine (returns_transfer h hvalid.1 hvalid.2.1 hlow hvalid.2.2).bind ?_
    rintro (e | r) w hw
    · exact hw.elim
    · exact returns_pure.mpr hw
  | write ino u =>
    refine (returns_transfer h hvalid.1 hvalid.2.1 hlow hvalid.2.2).bind ?_
    rintro (e | r) w hw
    · exact hw.elim
    · exact returns_pure.mpr hw
  | truncate ino len =>
    refine (returns_truncate h hvalid len).bind ?_
    rintro (e | _) w hw
    · rw [hw.2]
      exact ⟨⟨h, rfl⟩, id⟩
    · exact returns_pure.mpr hw
  | incref ino =>
    have hs := h.physical.set_refcount ((v.fs.sv ino).refcount + 1) (Nat.succ_pos _)
      (rfl : (⟨v.fs.setSv ino _, v.disk⟩ : Vol) = _)
    have hsame := Same.of_steady hs rfl
    exact returns_incref.mpr
      (returns_pure.mpr ⟨⟨h.same hsame hs.physical, hsame.names⟩, hsame.ended⟩)
  | decref ino =>
    refine (returns_drop h hvalid).bind ?_
    rintro (e | _) w hw
    · exact hw.elim
    · exact returns_pure.mpr hw
  | fsync ino =>
    obtain ⟨hs, -, hvn⟩ := synced_clean h.physical hvalid
    have hsame := Same.of_steady hs hvn
    exact (returns_syncInode h.physical hvalid).mpr
      (returns_pure.mpr ⟨⟨h.same hsame hs.physical, hsame.names⟩, hsame.ended⟩)
  | sync =>
    refine (returns_sync h.physical).bind ?_
    rintro (e | _) w hw
    · exact hw.elim
    · obtain ⟨hs, hvn, -⟩ := hw
      have hsame := Same.of_steady hs hvn
      exact returns_pure.mpr ⟨⟨h.same hsame hs.physical, hsame.names⟩, hsame.ended⟩

end Calls

end SfsFs

end Os161
