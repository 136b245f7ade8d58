import Os161.Sfs.Image

set_option autoImplicit false

/-!
# The directory is a finite map

In all runs of calls that transfer no file contents, each operation on names does what it does to a
finite map, unless the volume or the memory is exhausted.

* **`run_names`**: the calls of such runs.
* `not_run_names`: a volume without free blocks is no finite map.
-/

namespace Os161

open Buffer SfsFs Vol Transition

namespace SfsMount

variable {s : SfsMount}

/-- **The directory is a finite map.** No run of calls stops, and in the state that is reached each
operation on names has the result of the operation on the finite map, unless it runs short of memory or
space; each file has as many links as there are entries that name it. -/
theorem run_names (s : SfsMount) (hw : s.dev.Works) (h : s.vol.Sound) (ops : List SfsOp)
    (hops : Along step (fun s op => op.Valid s.vol ∧ op.Quiet) s ops) :
    ∃ t, run step s ops = .ok t ∧ SlotMap.Distinct t.vol.slot t.vol.nslots ∧
      (∀ ino, t.vol.IsInode ino → ino ≠ sfsRootdirIno →
        (t.vol.file ino).linkcount = t.vol.links ino) ∧
      ∀ op : SfsOp, op.Valid t.vol → op.Quiet →
        ∃ r u, exec op.prog t = .ok (r, u) ∧ op.Post t.vol r u.vol := by
  obtain ⟨t, ht, hwt, hsound⟩ :=
    run_sound hw h ops (hops.mono step fun s op hop => ⟨hop.1, hop.2.low s.vol⟩)
  refine ⟨t, ht, hsound.listed.distinct, hsound.linkcount, fun op hv hq => ?_⟩
  obtain ⟨r, u, he, -, hpost⟩ := exec_of_works hwt (returns_op hsound hv (hq.low t.vol))
  exact ⟨r, u, he, hpost.1⟩

/-- A volume of six blocks, all of which are in use. -/
def fullMount : SfsMount := imageMount 6 5 (by decide) fun _ => (.ok, fun _ => 0)

/-- A name that is not in the directory. -/
def otherName : CString := ⟨[98], by decide⟩

/-- On a volume without free blocks `sfs_creat` returns `ENOSPC`, where a finite map takes a name. -/
theorem not_run_names : fullMount.dev.Works ∧ fullMount.vol.Sound ∧
    ¬ ∀ op : NameOp, op.Valid fullMount.vol → ∃ fresh r u,
      exec (op.prog sfsRootdirIno) fullMount = .ok (r, u) ∧
        nameStep fullMount.vol.names fresh op = (r, u.vol.names) := by
  refine ⟨fun _ => rfl, image_sound ⟨by decide, by decide, by decide⟩ rfl, fun hall => ?_⟩
  obtain ⟨fresh, r, u, he, hstep⟩ := hall (.creat otherName false) trivial
  have hcode : (exec ((NameOp.creat otherName false).prog sfsRootdirIno) fullMount).toOption.map
      (fun r => SfsFs.code r.1) = some (some .enospc) := by
    decide +kernel
  have hnone : fullMount.vol.names otherName.bytes = none := by
    decide +kernel
  rw [he] at hcode
  have hlink : linkError fullMount.vol.names otherName.bytes = none := by
    rw [linkError, if_neg (not_not.mpr hnone), if_neg (by decide)]
  rw [nameStep, hnone] at hstep
  simp only [hlink] at hstep
  rw [← (Prod.mk.inj hstep).1] at hcode
  cases hcode

/-- A file is made on a volume of eight blocks, and its reference is given up. -/
theorem run_names_creat : ∃ t, run step (imageMount 8 5 (by decide) fun _ => (.ok, fun _ => 0))
      [.names sfsRootdirIno (.creat otherName false), .sync] = .ok t ∧
      SlotMap.Distinct t.vol.slot t.vol.nslots ∧
      (∀ ino, t.vol.IsInode ino → ino ≠ sfsRootdirIno →
        (t.vol.file ino).linkcount = t.vol.links ino) ∧
      ∀ op : SfsOp, op.Valid t.vol → op.Quiet →
        ∃ r u, exec op.prog t = .ok (r, u) ∧ op.Post t.vol r u.vol :=
  run_names _ (fun _ => rfl) (image_sound ⟨by decide, by decide, by decide⟩ rfl) _
    ⟨⟨⟨by decide, trivial⟩, trivial⟩, fun _ _ => ⟨⟨trivial, trivial⟩, fun _ _ => trivial⟩⟩

end SfsMount

end Os161
