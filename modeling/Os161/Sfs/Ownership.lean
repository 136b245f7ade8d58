import Os161.Sfs.Image

set_option autoImplicit false

/-!
# The owners of the blocks

In all runs of calls on a sound volume every block that is in use has its bit set and one owner, and no
other block has its bit set. So no call stops at a block that is not marked.

* **`run_blocks_owned`**: this holds in all runs in which no whole block beyond the positions of 32 bits
  is transferred.
* `not_run_blocks_owned`: without this condition it does not.
-/

namespace Os161

open Buffer SfsFs Vol Transition

namespace SfsMount

/-- **In every run of calls** the blocks have their owners. -/
theorem run_blocks_owned (s : SfsMount) (hw : s.dev.Works) (h : s.vol.Sound) (ops : List SfsOp)
    (hops : Along step Proper s ops) : ∃ t, run step s ops = .ok t ∧
      Exact (t.vol.Owns t.vol.IsInode) t.vol.Marked ∧
      ∀ b, t.vol.fs.nblocks ≤ b → b < t.vol.fs.freemapBits → t.vol.fs.freemap b = true := by
  obtain ⟨t, ht, -, hsound⟩ := run_sound hw h ops hops
  exact ⟨t, ht, hsound.physical.exact, hsound.physical.tail⟩

/-- A volume of 2^23 + 8192 blocks, whose directory is in block 2053. -/
def farMount (b : ℕ) : SfsMount := imageMount (2 ^ 23 + 8192) b (by decide) fun _ => (.ok, fun _ => 0)

theorem farMount_fits (c : ℕ) (hc : c < 8192) : ImageFits (2 ^ 23 + 8192) (2 ^ 23 + c) where
  lt := by decide
  file := lt_of_lt_of_le (show imageIno (2 ^ 23 + 8192) + 1 < 2 ^ 23 by decide) (Nat.le_add_right ..)
  le := by omega

theorem farMount_sound (c : ℕ) (hc : c < 8192) : (farMount (2 ^ 23 + c)).vol.Sound :=
  image_sound (farMount_fits c hc) rfl

/-- The block of the file is block 2^23 + 2053, and its write overwrites the directory: there is a name
for block 3000, which is not marked. -/
theorem not_run_blocks_owned : (farMount (2 ^ 23 + 2053)).dev.Works ∧
    (farMount (2 ^ 23 + 2053)).vol.Sound ∧
    ¬ ∀ ops, Along step (fun s op => op.Valid s.vol) (farMount (2 ^ 23 + 2053)) ops →
      ∃ t, run step (farMount (2 ^ 23 + 2053)) ops = .ok t ∧
        Exact (t.vol.Owns t.vol.IsInode) t.vol.Marked := by
  refine ⟨fun _ => rfl, farMount_sound 2053 (by decide), fun hall => ?_⟩
  obtain ⟨t, ht, hexact⟩ := hall [.write 2052 (writeUio 512 (direntry 3000 [120]))]
    ⟨⟨List.mem_cons_of_mem _ (List.mem_singleton_self _), writeUio_valid (by decide) _, rfl⟩,
      fun _ _ => trivial⟩
  have hrun : (run step (farMount (2 ^ 23 + 2053))
      [.write 2052 (writeUio 512 (direntry 3000 [120]))]).toOption.map
        (fun t => (t.vol.names [120], t.vol.fs.freemap 3000)) = some (some 3000, false) := by
    decide +kernel
  rw [ht] at hrun
  obtain ⟨hname, hfree⟩ := Prod.mk.inj (Option.some.inj hrun)
  have hmark := hexact.marked (.inode 3000) 3000 ⟨rfl, isInode_of_name hname⟩
  rw [hmark.2] at hfree
  cases hfree

/-- A whole block of a file whose block is block 5 is written, and the file is truncated. -/
theorem run_blocks_owned_near : ∃ t,
    run step (imageMount 8 5 (by decide) fun _ => (.ok, fun _ => 0))
      [.write 3 (writeUio 512 (direntry 3000 [120])), .truncate 3 0] = .ok t ∧
      Exact (t.vol.Owns t.vol.IsInode) t.vol.Marked ∧
      ∀ b, t.vol.fs.nblocks ≤ b → b < t.vol.fs.freemapBits → t.vol.fs.freemap b = true := by
  have hfits : ImageFits 8 5 := ⟨by decide, by decide, by decide⟩
  refine run_blocks_owned _ (fun _ => rfl) (image_sound hfits rfl) _
    ⟨⟨⟨by decide, writeUio_valid (by decide) _, rfl⟩, fun _ => writeUio_low (le_refl _) _ ?_⟩,
      fun t ht => ⟨⟨?_, trivial⟩, fun _ _ => trivial⟩⟩
  · intro b w he
    have hb : (SfsFs.exec (SfsFs.sfsBmap 3 (0 / sfsBlocksize % wordSize) true)
        (imageMount 8 5 (by decide) fun _ => (.ok, fun _ => 0)).vol).toOption.map
        (fun r => r.1.toOption) = some (some 5) := by
      decide +kernel
    change SfsFs.exec (SfsFs.sfsBmap 3 (0 / sfsBlocksize % wordSize) true) _ = _ at he
    rw [he] at hb
    obtain rfl : b = 5 := Option.some.inj (Option.some.inj hb)
    decide
  · have hload : (step (imageMount 8 5 (by decide) fun _ => (.ok, fun _ => 0))
        (.write 3 (writeUio 512 (direntry 3000 [120])))).toOption.map
        (fun t => decide (3 ∈ t.fs.vnodes)) = some true := by
      decide +kernel
    rw [ht] at hload
    have hmem : 3 ∈ t.fs.vnodes := of_decide_eq_true (Option.some.inj hload)
    exact hmem

end SfsMount

end Os161
