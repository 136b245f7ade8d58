import Mathlib.Data.Nat.Bits
import Os161.Sfs.Table

set_option autoImplicit false

/-!
# Sync and mount

`sfs_fsops.c` on a volume that is in order.

* `testBit_freemapData`: the bits of the freemap on the disk.
* **`returns_sync`**: after `sfs_sync` everything is on the disk.
* **`returns_domount`**: a volume that is mounted again has the files and the freemap that it had.
-/

namespace Os161

open Buffer SfsFs

section Freemap

variable {freemap : ℕ → Bool} {b j k : ℕ}

/-- A bit of the freemap is on the disk. -/
theorem testBit_freemapData (hb : b / sfsBitsperblock = j) :
    (freemapData freemap j (b % sfsBitsperblock / 8)).toNat.testBit (b % 8) = freemap b := by
  have hlt : b % 8 < 8 := Nat.mod_lt _ (by decide)
  have hbits := Nat.ofBits_lt_two_pow fun i : Fin 8 =>
    freemap (j * sfsBitsperblock + b % sfsBitsperblock / 8 * 8 + i)
  unfold freemapData
  rw [UInt8.toNat_ofNat_of_lt' hbits, Nat.testBit_ofBits_lt _ _ hlt]
  have hmod : b % sfsBitsperblock % 8 = b % 8 := Nat.mod_mod_of_dvd b (by decide)
  refine congrArg freemap ?_
  calc j * sfsBitsperblock + b % sfsBitsperblock / 8 * 8 + b % 8
    _ = b / sfsBitsperblock * sfsBitsperblock + b % sfsBitsperblock := by
      rw [hb, Nat.add_assoc, ← hmod, Nat.div_add_mod']
    _ = b := Nat.div_add_mod' ..

end Freemap

namespace Vol

/-- **Everything is on the disk.** -/
structure Clean (v : Vol) : Prop where
  inode : ∀ j ∈ v.fs.vnodes, (v.fs.sv j).dirty = false
  freemap : v.fs.freemapdirty = false
  super : v.fs.superdirty = false

/-- The freemap and the superblock in memory are what they were. -/
structure SameMaps (v w : Vol) : Prop where
  freemap : w.fs.freemap = v.fs.freemap
  sb : w.fs.sb = v.fs.sb

theorem SameMaps.refl (v : Vol) : SameMaps v v := ⟨rfl, rfl⟩

theorem SameMaps.trans {u v w : Vol} (h : SameMaps u v) (h' : SameMaps v w) : SameMaps u w :=
  ⟨h'.freemap.trans h.freemap, h'.sb.trans h.sb⟩

/-- The disk after the blocks of the freemap before `k` were written. -/
structure FreemapWritten (v : Vol) (k : ℕ) (w : Vol) : Prop where
  fs : w.fs = v.fs
  nsect : w.disk.nsect = v.disk.nsect
  sector : ∀ c, w.disk.sector c = if sfsFreemapStart ≤ c ∧ c < sfsFreemapStart + k then
    clip (freemapData v.fs.freemap (c - sfsFreemapStart)) else v.disk.sector c

section Lemmas

variable {v w : Vol} {I : ℕ → Prop} {b : ℕ}

theorem bit_lt : b % sfsBitsperblock / 8 < lhdSectsize := by
  unfold sfsBitsperblock lhdSectsize
  omega

theorem freemapBlocks_mul (m : SfsFs) : m.freemapBlocks * sfsBitsperblock = m.freemapBits :=
  Nat.div_mul_cancel (Nat.dvd_mul_left ..)

theorem div_lt_freemapBlocks {m : SfsFs} (hb : b < m.freemapBits) :
    b / sfsBitsperblock < m.freemapBlocks := by
  rw [← freemapBlocks_mul] at hb
  exact Nat.div_lt_of_lt_mul (by rwa [Nat.mul_comm])

/-- **The freemap on the disk** is that in memory, after it was written. -/
theorem FreemapWritten.steady (h : v.Physical I) (hw : FreemapWritten v v.fs.freemapBlocks w) :
    Steady I v ⟨{ w.fs with freemapdirty := false }, w.disk⟩ := by
  have hfs := hw.fs
  have hmeta : ∀ c, ¬ v.IsMeta c → w.disk.sector c = v.disk.sector c := fun c hc => by
    rw [hw.sector, if_neg fun hin => hc (.inr hin)]
  have hinode : ∀ j, I j → w.disk.sector j = v.disk.sector j := fun j hj =>
    hmeta j fun hc => h.isMeta_ne_inode hj hc rfl
  refine h.steady hw.nsect (fun _ _ => by rw [hfs]) (fun _ _ => by rw [hfs]) (fun j hj => ?_)
    (fun s c hs hd => hmeta c fun hc => ?_) (by rw [hfs]; exact h.loaded) (by rw [hfs]; exact h.nodup)
    (by rw [hfs]; exact h.refs) (fun j hj hd => ?_) (fun _ b hb => ?_) ⟨?_, ?_⟩
    (fun he => ⟨?_, ?_⟩)
  · unfold inodeWords
    rw [hfs, hinode j hj]
    rfl
  · refine h.ne_of_ne (s := .metadata c) ⟨rfl, hc⟩ hs ?_ rfl
    rintro rfl
    exact hd
  · rw [hfs] at hj hd ⊢
    rw [hinode j (h.loaded j hj)]
    exact h.clean j hj hd
  · have hdiv := div_lt_freemapBlocks hb
    unfold diskFreemap
    rw [hw.sector, if_pos ⟨Nat.le_add_right .., Nat.add_lt_add_left hdiv _⟩, clip_apply bit_lt,
      Nat.add_sub_cancel_left]
    exact testBit_freemapData rfl
  · rw [hfs]
    exact h.super_clean.1
  · rw [hw.sector, if_neg fun hin => absurd hin.1 (by decide), hfs]
    exact h.super_clean.2
  · rw [hfs]
    exact he.1
  · rw [hw.sector, if_neg fun hin => absurd hin.1 (by decide)]
    exact he.2

end Lemmas

end Vol

namespace SfsFs

open Vol

section Sync

variable {β : Type} {v w : Vol} {I : ℕ → Prop} {R : Except FsErr β → Vol → Prop}

/-- **`sfs_freemapio`** writes the freemap. -/
theorem returns_freemapio_write (h : v.Physical I) : Returns (sfsFreemapio .write) v
    (Ends (fun _ w => FreemapWritten v v.fs.freemapBlocks w) fun _ _ => False) := by
  unfold sfsFreemapio
  rw [returns_get]
  refine returns_loop (fun k _ w => FreemapWritten v k w) (fun _ _ => False) v.fs.freemapBlocks 0
    (Nat.zero_add _) (fun k _ w hk hw => ?_) () ⟨rfl, rfl, fun c => by rw [if_neg (by omega)]⟩
  have hmeta : v.Owns I (.metadata (sfsFreemapStart + k)) (sfsFreemapStart + k) :=
    ⟨rfl, .inr ⟨Nat.le_add_right .., Nat.add_lt_add_left hk _⟩⟩
  refine (returns_writeblock_last ?_).mpr ?_
  · rw [hw.nsect]
    exact h.lt_nsect hmeta
  refine ⟨hw.fs, hw.nsect, fun c => ?_⟩
  change Function.update w.disk.sector (sfsFreemapStart + k) _ c = _
  by_cases hc : c = sfsFreemapStart + k
  · rw [hc, Function.update_self, if_pos ⟨Nat.le_add_right .., Nat.lt_succ_self _⟩,
      Nat.add_sub_cancel_left, hw.fs]
  · rw [Function.update_of_ne hc, hw.sector]
    exact if_congr (by omega) rfl rfl

/-- **The loop of `sfs_sync_vnodes`.** -/
theorem returns_syncVnodes (h : v.Physical I) (vnodes : List ℕ) (hl : ∀ j ∈ vnodes, j ∈ v.fs.vnodes) :
    Returns (syncVnodes vnodes) v (Ends (fun _ w => Steady I v w ∧ w.fs.vnodes = v.fs.vnodes ∧
      SameMaps v w ∧ ∀ j, j ∈ vnodes ∨ (v.fs.sv j).dirty = false → (w.fs.sv j).dirty = false) fun _ _ => False) := by
  induction vnodes generalizing v with
  | nil =>
    refine returns_pure.mpr ⟨Steady.refl h, rfl, .refl v, fun j hj => ?_⟩
    exact hj.resolve_left List.not_mem_nil
  | cons i vnodes ih =>
    have hload := hl i (List.mem_cons_self ..)
    rw [syncVnodes, returns_bind, returns_status]
    have hsync := returns_syncInode h hload (f := pure)
      (R := Ends (fun _ w => Steady I v w ∧ w.fs.vnodes = v.fs.vnodes ∧ SameMaps v w ∧
        (w.fs.sv i).dirty = false ∧ ∀ j, (v.fs.sv j).dirty = false → (w.fs.sv j).dirty = false) fun _ _ => False)
    rw [bind_pure] at hsync
    refine (hsync.mpr (returns_pure.mpr ?_)).mono ?_
    · obtain ⟨hs, hd, hvn⟩ := synced_clean h hload
      refine ⟨hs, hvn, ?_, hd, fun j hj => ?_⟩
      · split_ifs
        · exact ⟨rfl, rfl⟩
        · exact .refl v
      by_cases hji : j = i
      · rw [hji]
        exact hd
      · split_ifs
        · exact (congrArg SfsVnode.dirty (sv_setSv_of_ne v.fs _ hji)).trans hj
        · exact hj
    · rintro (e | _) u hu
      · exact hu.elim
      · obtain ⟨hs, hvn, hmaps, hd, hkeep⟩ := hu
        refine (ih hs.physical fun j hj => hvn ▸ hl j (List.mem_cons_of_mem i hj)).mono ?_
        rintro (e | _) w hw
        · exact hw
        · obtain ⟨hs', hvn', hmaps', hd'⟩ := hw
          refine ⟨hs.trans hs', hvn'.trans hvn, hmaps.trans hmaps', fun j hj => ?_⟩
          rcases hj with hj | hj
          · rcases List.mem_cons.mp hj with rfl | hj
            · exact hd' j (.inr hd)
            · exact hd' j (.inl hj)
          · exact hd' j (.inr (hkeep j hj))

/-- **`sfs_sync`** writes everything to the disk. -/
theorem returns_sync (h : v.Physical I) : Returns sfsSync v
    (Ends (fun _ w => Steady I v w ∧ w.fs.vnodes = v.fs.vnodes ∧ SameMaps v w ∧ w.Clean)
      fun _ _ => False) := by
  unfold sfsSync sfsSyncVnodes
  rw [returns_bind, returns_get]
  refine (returns_syncVnodes h v.fs.vnodes fun _ hj => hj).mono ?_
  rintro (e | _) u hu
  · exact hu.elim
  obtain ⟨hs, hvn, hmaps, hd⟩ := hu
  have hinode : ∀ j ∈ u.fs.vnodes, (u.fs.sv j).dirty = false := fun j hj => hd j (.inl (hvn ▸ hj))
  have hfreemap : Returns sfsSyncFreemap u (Ends (fun _ w => Steady I u w ∧
      w.fs.vnodes = u.fs.vnodes ∧ SameMaps u w ∧ w.fs.sv = u.fs.sv ∧ w.fs.freemapdirty = false)
      fun _ _ => False) := by
    unfold sfsSyncFreemap
    rw [returns_get]
    split_ifs with hdirty
    · refine (returns_freemapio_write hs.physical).bind ?_
      rintro (e | _) w hw
      · exact hw.elim
      · replace hw : FreemapWritten u u.fs.freemapBlocks w := hw
        refine returns_modify_last.mpr ⟨hw.steady hs.physical, ?_, ⟨?_, ?_⟩, ?_, rfl⟩
        · change w.fs.vnodes = _
          rw [hw.fs]
        · change w.fs.freemap = _
          rw [hw.fs]
        · change w.fs.sb = _
          rw [hw.fs]
        · change w.fs.sv = _
          rw [hw.fs]
    · exact returns_pure.mpr
        ⟨Steady.refl hs.physical, rfl, .refl u, rfl, eq_false_of_ne_true hdirty⟩
  refine hfreemap.bind ?_
  rintro (e | _) w hw
  · exact hw.elim
  obtain ⟨hs', hvn', hmaps', hsv, hclean⟩ := hw
  have hsuper := hs'.physical.super_clean.1
  change Returns sfsSyncSuperblock w _
  unfold sfsSyncSuperblock
  rw [returns_get, hsuper]
  refine returns_pure.mpr
    ⟨hs.trans hs', hvn'.trans hvn, hmaps.trans hmaps', fun j hj => ?_, hclean, hsuper⟩
  rw [hsv]
  exact hinode j (hvn' ▸ hj)

/-- **`vfs_unmount`** succeeds if and only if no vnode is left, and then everything is on the disk. -/
theorem returns_unmount (h : v.Physical I) : Returns vfsUnmount v (Ends
    (fun _ w => Steady I v w ∧ SameMaps v w ∧ w.Clean ∧ v.fs.vnodes = [] ∧ w.fs.vnodes = [])
    fun e w => Steady I v w ∧ e = .ebusy ∧ v.fs.vnodes ≠ [] ∧ w.fs.vnodes = v.fs.vnodes) := by
  unfold vfsUnmount
  refine (returns_sync h).bind ?_
  rintro (e | _) w hw
  · exact hw.elim
  obtain ⟨hs, hvn, hmaps, hclean⟩ := hw
  change Returns sfsUnmount w _
  unfold sfsUnmount
  rw [returns_get]
  split_ifs with hbusy
  · refine returns_throw.mpr ⟨hs, rfl, ?_, hvn⟩
    rw [← hvn]
    exact List.ne_nil_of_length_pos hbusy
  · have hnil : w.fs.vnodes = [] := List.length_eq_zero_iff.mp (by omega)
    have hk := returns_kassert (v := w) hclean.super (f := fun _ => kassert (w.fs.freemapdirty = false))
      (R := Ends (fun _ w => Steady I v w ∧ SameMaps v w ∧ w.Clean ∧ v.fs.vnodes = [] ∧
          w.fs.vnodes = [])
        fun e w => Steady I v w ∧ e = .ebusy ∧ v.fs.vnodes ≠ [] ∧ w.fs.vnodes = v.fs.vnodes)
    refine hk.mpr ?_
    rw [kassert, if_pos hclean.freemap]
    exact returns_pure.mpr ⟨hs, hmaps, hclean, hvn ▸ hnil, hnil⟩

/-- The freemap after its blocks before `k` were read. -/
structure FreemapRead (v : Vol) (k : ℕ) (w : Vol) : Prop where
  disk : w.disk = v.disk
  fs : ∃ freemap, w.fs = { v.fs with freemap := freemap }
  bit : ∀ b, w.fs.freemap b = if b / sfsBitsperblock < k then v.diskFreemap b else v.fs.freemap b

/-- **`sfs_freemapio`** reads the freemap. -/
theorem returns_freemapio_read (hfits : sfsFreemapStart + v.fs.freemapBlocks ≤ v.disk.nsect) :
    Returns (sfsFreemapio .read) v
      (Ends (fun _ w => FreemapRead v v.fs.freemapBlocks w) fun _ _ => False) := by
  unfold sfsFreemapio
  rw [returns_get]
  refine returns_loop (fun k _ w => FreemapRead v k w) (fun _ _ => False) v.fs.freemapBlocks 0
    (Nat.zero_add _) (fun k _ w hk hw => ?_) () ⟨rfl, ⟨_, rfl⟩, fun b => by
      rw [if_neg (Nat.not_lt_zero _)]⟩
  refine (returns_readblock ?_).mpr (returns_modify_last.mpr ⟨hw.disk, ?_, fun b => ?_⟩)
  · rw [hw.disk]
    omega
  · obtain ⟨freemap, hfs⟩ := hw.fs
    rw [hfs]
    exact ⟨_, rfl⟩
  · change setFreemapData w.fs.freemap k (clip (w.disk.sector (sfsFreemapStart + k))) b = _
    unfold setFreemapData
    by_cases hb : b / sfsBitsperblock = k
    · rw [if_pos hb, if_pos (by omega), hw.disk, clip_apply bit_lt, diskFreemap, hb]
    · rw [if_neg hb, hw.bit]
      exact if_congr (by omega) rfl rfl

/-- The superblock in memory after `sfs_domount`. -/
def mountedSb (d : Disk) : Buffer := Function.update (clip (d.sector sfsSuperBlock)) 39 0

section Mount

variable (h : v.Physical I)
include h

/-- The words of the superblock that are used are on the disk. -/
theorem mountedSb_word {i : ℕ} (hi : i < 2) :
    word (clip (v.disk.sector sfsSuperBlock)) i = word v.fs.sb i ∧
      word (mountedSb v.disk) i = word v.fs.sb i := by
  have hclip : word (clip (v.disk.sector sfsSuperBlock)) i = word v.fs.sb i := by
    refine word_congr (n := 8) (fun o ho => ?_) (by omega)
    rw [clip_apply (by unfold lhdSectsize; omega)]
    exact (h.super_clean.2 o (by unfold sfsBlocksize; omega) (by omega)).symm
  refine ⟨hclip, (word_congr (n := 8) (fun o ho => ?_) (by omega)).trans hclip⟩
  exact Function.update_of_ne (by omega) ..

/-- The freemap is on the disk. -/
theorem freemap_fits : sfsFreemapStart + v.fs.freemapBlocks ≤ v.disk.nsect := by
  have hpos : 0 < v.fs.freemapBlocks := lt_of_le_of_lt (Nat.zero_le _)
    (div_lt_freemapBlocks (h.lt_bits h.zero_owns))
  have hlast : v.Owns I (.metadata (sfsFreemapStart + (v.fs.freemapBlocks - 1)))
      (sfsFreemapStart + (v.fs.freemapBlocks - 1)) := ⟨rfl, .inr ⟨Nat.le_add_right .., by omega⟩⟩
  have := h.lt_nsect hlast
  omega

/-- The freemap of a volume whose superblock was read. -/
theorem returns_mountFreemap (hnil : v.fs.vnodes = []) (hclean : v.Clean) {m : SfsFs}
    (hsb : m.sb = mountedSb v.disk) (hsuper : m.superdirty = false) (hvn : m.vnodes = []) :
    Returns (sfsFreemapio .read) ⟨m, v.disk⟩ (Ends (fun _ w => Steady I v w ∧ w.fs.vnodes = [] ∧
      w.fs.sb = mountedSb v.disk ∧ ∀ b < v.fs.freemapBits, w.fs.freemap b = v.fs.freemap b)
      fun _ _ => False) := by
  have hblocks : m.freemapBlocks = v.fs.freemapBlocks := by
    have hnb : m.nblocks = v.fs.nblocks := by
      rw [SfsFs.nblocks, hsb]
      exact (mountedSb_word h (by decide)).2
    unfold SfsFs.freemapBlocks SfsFs.freemapBits
    rw [hnb]
  refine (returns_freemapio_read (v := ⟨m, v.disk⟩) (by rw [hblocks]; exact freemap_fits h)).mono ?_
  rintro (e | _) w hw
  · exact hw
  obtain ⟨hdisk, ⟨freemap, hfs⟩, hbit⟩ := hw
  have hsbw : w.fs.sb = mountedSb v.disk := (congrArg SfsFs.sb hfs).trans hsb
  have hsbw' : ∀ i < 2, word w.fs.sb i = word v.fs.sb i := fun i hi => by
    rw [hsbw]
    exact (mountedSb_word h hi).2
  have hvnw : w.fs.vnodes = [] := (congrArg SfsFs.vnodes hfs).trans hvn
  have hbits : ∀ b < v.fs.freemapBits, w.fs.freemap b = v.fs.freemap b := fun b hb => by
    have hlt : b / sfsBitsperblock < m.freemapBlocks := by
      rw [hblocks]
      exact div_lt_freemapBlocks hb
    rw [hbit, if_pos hlt]
    exact h.freemap_clean hclean.freemap b hb
  refine ⟨h.steady (by rw [hdisk]) hsbw' hbits (fun j _ => ?_) (fun _ _ _ _ => by rw [hdisk])
    ?_ ?_ ?_ ?_ (fun _ b hb => ?_)
    ⟨(congrArg SfsFs.superdirty hfs).trans hsuper, fun o ho hne => ?_⟩ (fun he => ⟨?_, ?_⟩), hvnw,
    hsbw, hbits⟩
  · rw [inodeWords_unloaded (by rw [hvnw]; exact List.not_mem_nil),
      inodeWords_unloaded (by rw [hnil]; exact List.not_mem_nil), hdisk]
  · simp [hvnw]
  · simp [hvnw]
  · simp [hvnw]
  · simp [hvnw]
  · rw [← h.freemap_clean hclean.freemap b hb]
    unfold diskFreemap
    rw [hdisk]
  · rw [hsbw, hdisk, mountedSb, Function.update_of_ne hne]
    exact clip_apply ho
  · rw [hsbw, mountedSb, Function.update_self]
  · rw [hdisk]
    exact he.2

/-- **`sfs_domount`** of a volume whose memory was written to the disk: the files and the freemap are
what they were. -/
theorem returns_domount (hnil : v.fs.vnodes = []) (hclean : v.Clean) {m : SfsFs} (hmem : m.memory 0 = true ∧ m.memory 1 = true) :
    Returns sfsDomount ⟨m, v.disk⟩ (Ends (fun _ w => Steady I v w ∧ w.fs.vnodes = [] ∧
      w.fs.sb = mountedSb v.disk ∧ ∀ b < v.fs.freemapBits, w.fs.freemap b = v.fs.freemap b)
      fun _ _ => False) := by
  have hmagic' : sbMagic (clip (v.disk.sector sfsSuperBlock)) = sfsMagic :=
    (mountedSb_word h (by decide)).1.trans h.magic
  unfold sfsDomount
  rw [returns_kmalloc]
  change Returns (if m.memory 0 = false then _ else _) _ _
  rw [hmem.1, if_neg (by decide), returns_modify]
  refine (returns_readblock ?_).mpr (returns_modify.mpr ?_)
  · exact h.lt_nsect h.zero_owns
  change Returns (if sbMagic (clip (v.disk.sector sfsSuperBlock)) ≠ sfsMagic then _ else _) _ _
  rw [if_neg (not_not.mpr hmagic'), returns_modify, returns_kmalloc]
  change Returns (if m.memory 1 = false then _ else _) _ _
  rw [hmem.2, if_neg (by decide), returns_modify]
  exact returns_mountFreemap h hnil hclean rfl rfl rfl

end Mount

end Sync

end SfsFs

end Os161
