import Os161.Sfs.Ownership

set_option autoImplicit false

/-!
# Volumes that are mounted again

When a volume has been unmounted, a mount of its device finds what it was.

* `Vol.Restored`: the same names, inodes, files and freemap.
* **`run_persists`**: this holds after all runs in which no whole block beyond the positions of 32 bits
  is transferred.
* `not_run_persists`: without this condition it does not.
-/

namespace Os161

open Buffer SfsFs Vol Transition

/-- **The same abstract file system**: the names, the inodes, their sizes, types, link counts and
contents, and the freemap; and the blocks in use are those of the superblock, the freemap, the directory
and the files that have names. -/
structure Vol.Restored (v w : Vol) : Prop where
  names : w.names = v.names
  inode : ∀ j, w.IsInode j ↔ j = sfsRootdirIno ∨ ∃ name, v.names name = some j
  file : ∀ j, w.IsInode j → w.file j = v.file j
  freemap : ∀ b < v.fs.freemapBits, w.fs.freemap b = v.fs.freemap b
  nblocks : w.fs.nblocks = v.fs.nblocks
  owned : Exact (w.Owns w.IsInode) w.Marked

namespace SfsFs

variable {v : Vol}

/-- **A mount** of a volume whose memory was written to the disk. -/
theorem returns_mount (h : v.Sound) (hnil : v.fs.vnodes = []) (hclean : v.Clean) (m : SfsFs) :
    Returns sfsDomount ⟨m, v.disk⟩ (Ends (fun _ w => v.Restored w ∧ w.Sound)
      fun e _ => e = .enomem ∧ (m.memory 0 = false ∨ m.memory 1 = false)) := by
  by_cases hmem : m.memory 0 = true ∧ m.memory 1 = true
  · refine (returns_domount h.physical hnil hclean hmem).mono ?_
    rintro (e | _) w hw
    · exact hw.elim
    · obtain ⟨hs, hvn, hsb, hfm⟩ := hw
      have hsame := Same.of_steady hs (hvn.trans hnil.symm)
      have hsound := h.same hsame hs.physical
      refine ⟨⟨hsame.names, fun j => ?_, fun j hj => hsame.file j (hsame.isInode ▸ hj), hfm, ?_,
        hsound.physical.exact⟩, hsound⟩
      · unfold IsInode
        rw [hvn, hsame.names, or_iff_right (List.not_mem_nil (a := j))]
      · unfold SfsFs.nblocks sbNblocks
        rw [hsb]
        exact (mountedSb_word h.physical (by decide)).2
  · unfold sfsDomount
    rw [returns_kmalloc]
    change Returns (if m.memory 0 = false then _ else _) _ _
    by_cases h0 : m.memory 0 = false
    · rw [if_pos h0]
      exact returns_throw.mpr ⟨rfl, .inl h0⟩
    · have h1 : m.memory 1 = false := by
        refine eq_false_of_ne_true fun h1 => hmem ⟨?_, h1⟩
        simpa using h0
      have hmagic : sbMagic (clip (v.disk.sector sfsSuperBlock)) = sfsMagic :=
        (mountedSb_word h.physical (by decide)).1.trans h.physical.magic
      rw [if_neg h0, returns_modify]
      refine (returns_readblock ?_).mpr (returns_modify.mpr ?_)
      · exact h.physical.lt_nsect h.physical.zero_owns
      change Returns (if sbMagic (clip (v.disk.sector sfsSuperBlock)) ≠ sfsMagic then _ else _) _ _
      rw [if_neg (not_not.mpr hmagic), returns_modify, returns_kmalloc]
      change Returns (if m.memory 1 = false then _ else _) _ _
      rw [if_pos h1]
      exact returns_throw.mpr ⟨rfl, .inr h1⟩

end SfsFs

namespace SfsMount

/-- **What is unmounted is mounted again as it was.** After every run of calls, if `vfs_unmount`
succeeds, then a mount of the device finds the same file system, unless there is no memory for it. -/
theorem run_persists (s : SfsMount) (hw : s.dev.Works) (h : s.vol.Sound) (ops : List SfsOp)
    (hops : Along step Proper s ops) (t u : SfsMount) (ht : run step s ops = .ok t)
    (hu : exec vfsUnmount t = .ok (.ok (), u)) (m : SfsFs) :
    ∃ r w, exec sfsDomount ⟨m, u.dev⟩ = .ok (r, w) ∧
      (r = .ok () ∧ t.vol.Restored w.vol ∨
        r = .error .enomem ∧ (m.memory 0 = false ∨ m.memory 1 = false)) := by
  obtain ⟨t', ht', hwt, hsound⟩ := run_sound hw h ops hops
  obtain rfl : t' = t := Except.ok.inj (ht'.symm.trans ht)
  obtain ⟨r, u', he, hwu, hpost⟩ := exec_of_works hwt (returns_unmount hsound.physical)
  obtain ⟨rfl, rfl⟩ : r = .ok () ∧ u' = u := by simpa using he.symm.trans hu
  obtain ⟨hs, hmaps, hclean, hnil, hnilu⟩ := hpost
  have hsame := Same.of_steady hs (hnilu.trans hnil.symm)
  obtain ⟨r, w, hm, -, hr⟩ := exec_of_works (s := ⟨m, u'.dev⟩) hwu
    (returns_mount (hsound.same hsame hs.physical) hnilu hclean m)
  refine ⟨r, w, hm, ?_⟩
  cases r with
  | error e =>
    obtain ⟨rfl, hmem⟩ := hr
    exact .inr ⟨rfl, hmem⟩
  | ok _ =>
    obtain ⟨hr, -⟩ := hr
    have hnb : u'.vol.fs.nblocks = t'.vol.fs.nblocks := by
      unfold SfsFs.nblocks
      rw [hmaps.sb]
    have hbits : u'.vol.fs.freemapBits = t'.vol.fs.freemapBits := by
      unfold SfsFs.freemapBits
      rw [hnb]
    have hI : ∀ j, w.vol.IsInode j → t'.vol.IsInode j := fun j hj => by
      rw [hr.inode, hsame.names] at hj
      exact hj.imp_right .inr
    refine .inl ⟨rfl, hr.names.trans hsame.names, fun j => ?_, fun j hj => ?_, fun b hb => ?_,
      hr.nblocks.trans hnb, hr.owned⟩
    · rw [hr.inode, hsame.names]
    · exact (hr.file j hj).trans (hsame.file j (hI j hj))
    · rw [← hbits] at hb
      exact (hr.freemap b hb).trans (congrFun hmaps.freemap b)

/-- The block of the file is block 2^23, and its write overwrites the superblock: when the references are
given up and the volume is unmounted, it cannot be mounted again. -/
theorem not_run_persists : (farMount (2 ^ 23)).dev.Works ∧ (farMount (2 ^ 23)).vol.Sound ∧
    ¬ ∀ ops, Along step (fun s op => op.Valid s.vol) (farMount (2 ^ 23)) ops → ∀ t u,
      run step (farMount (2 ^ 23)) ops = .ok t → exec vfsUnmount t = .ok (.ok (), u) → ∀ m : SfsFs,
      m.memory 0 = true → m.memory 1 = true →
      ∃ w, exec sfsDomount ⟨m, u.dev⟩ = .ok (.ok (), w) ∧ t.vol.Restored w.vol := by
  refine ⟨fun _ => rfl, farMount_sound 0 (by decide), fun hall => ?_⟩
  have hvalid : Along step (fun s op => op.Valid s.vol) (farMount (2 ^ 23))
      [.write 2052 (writeUio 512 fun _ => 0), .decref 2052, .decref 1] := by
    decide +kernel
  have hrun : (run step (farMount (2 ^ 23))
      [.write 2052 (writeUio 512 fun _ => 0), .decref 2052, .decref 1] >>=
        exec vfsUnmount).toOption.map (fun r => (SfsFs.code r.1,
          (exec sfsDomount ⟨(farMount (2 ^ 23)).fs, r.2.dev⟩).toOption.map
            fun q => SfsFs.code q.1)) = some (none, some (some .einval)) := by
    decide +kernel
  obtain ⟨⟨r, u⟩, he, hobs⟩ := exists_ok_of_toOption hrun
  obtain ⟨t, ht, hu⟩ := bind_eq_ok.mp he
  obtain ⟨hr, hmount⟩ := Prod.mk.inj hobs
  cases r with
  | error e => cases hr
  | ok _ =>
    obtain ⟨w, hw, -⟩ := hall _ hvalid t u ht hu (farMount (2 ^ 23)).fs rfl rfl
    rw [hw] at hmount
    cases hmount

/-- The name of the file is removed, the references are given up, and the volume is unmounted. -/
theorem run_persists_remove : ∃ t u r w,
    run step (imageMount 8 5 (by decide) fun _ => (.ok, fun _ => 0))
      [.names 1 (.remove imageName), .decref 3, .decref 1] = .ok t ∧
    exec vfsUnmount t = .ok (.ok (), u) ∧ exec sfsDomount ⟨t.fs, u.dev⟩ = .ok (r, w) ∧
    (r = .ok () ∧ t.vol.Restored w.vol ∨
      r = .error .enomem ∧ (t.fs.memory 0 = false ∨ t.fs.memory 1 = false)) := by
  have hops : Along step (fun s op => op.Valid s.vol ∧ op.Quiet)
      (imageMount 8 5 (by decide) fun _ => (.ok, fun _ => 0))
      [.names 1 (.remove imageName), .decref 3, .decref 1] := by
    decide +kernel
  have hrun : (run step (imageMount 8 5 (by decide) fun _ => (.ok, fun _ => 0))
      [.names 1 (.remove imageName), .decref 3, .decref 1] >>=
        exec vfsUnmount).toOption.map (fun r => SfsFs.code r.1) = some none := by
    decide +kernel
  obtain ⟨⟨r, u⟩, he, hobs⟩ := exists_ok_of_toOption hrun
  obtain ⟨t, ht, hu⟩ := bind_eq_ok.mp he
  cases r with
  | error e => cases hobs
  | ok _ =>
    obtain ⟨r, w, hm, hr⟩ := run_persists _ (fun _ => rfl)
      (image_sound ⟨by decide, by decide, by decide⟩ rfl) _
      (hops.mono step fun s op hop => ⟨hop.1, hop.2.low s.vol⟩) t u ht hu t.fs
    exact ⟨t, u, r, w, ht, hu, hm, hr⟩

end SfsMount

end Os161
