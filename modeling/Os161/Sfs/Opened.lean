import Os161.Sfs.Bytes
import Os161.Sfs.Calls

set_option autoImplicit false

/-!
# Open files

What the calls do to the references of the vnodes, and what they leave of the files that are in use.

* `Vol.refs`: the references to the vnode of an inode.
* `Carried`: a step that changes no file but the directory, and makes none.
* `refs_loadvnode`, `refs_makeobj`, `refs_decref`, `refs_sync`: the references to a vnode.
* **`opened_nameOp`**: the operations on names.
-/

namespace Os161

open Buffer SfsFs

namespace Vol

/-- The references to the vnode of an inode; there are none if it is not loaded. -/
def refs (v : Vol) (j : ℕ) : ℕ := if j ∈ v.fs.vnodes then (v.fs.sv j).refcount else 0

/-- **No file but the directory changes**, and none is made. -/
structure Carried (v w : Vol) : Prop where
  used : ∀ j, w.IsInode j → v.IsInode j
  array : ∀ j, j ≠ sfsRootdirIno → w.IsInode j → w.array j = v.array j

section Refs

variable {v w u : Vol} {I : ℕ → Prop} {ino n k : ℕ} {e : Option (List UInt8 × ℕ)}

theorem refs_congr (hvn : w.fs.vnodes = v.fs.vnodes)
    (h : ∀ j ∈ v.fs.vnodes, (w.fs.sv j).refcount = (v.fs.sv j).refcount) : w.refs = v.refs := by
  funext j
  unfold refs
  rw [hvn]
  split_ifs with hj
  · exact h j hj
  · rfl

theorem refs_loaded (h : ino ∈ v.fs.vnodes) : v.refs ino = (v.fs.sv ino).refcount := if_pos h

theorem refs_unloaded (h : ino ∉ v.fs.vnodes) : v.refs ino = 0 := if_neg h

/-- An inode is loaded if there are references to it. -/
theorem refs_pos (h : v.Physical I) : 0 < v.refs ino ↔ ino ∈ v.fs.vnodes := by
  by_cases hload : ino ∈ v.fs.vnodes
  · rw [refs_loaded hload]
    exact iff_of_true (h.refs ino hload) hload
  · rw [refs_unloaded hload]
    exact iff_of_false (lt_irrefl 0) hload

theorem Touch.refs (h : Touch I ino v w) : w.refs = v.refs := by
  refine refs_congr h.vnodes fun j hj => ?_
  by_cases hji : j = ino
  · rw [hji] at hj ⊢
    exact h.refcount hj
  · rw [h.sv j hji]

theorem refs_setInode (i : Buffer) : (v.setInode ino i).refs = v.refs := by
  refine refs_congr rfl fun j _ => ?_
  by_cases hji : j = ino
  · rw [hji]
    exact refcount_setInode ..
  · exact congrArg SfsVnode.refcount (sv_setInode_of_ne _ _ hji)

/-- The number of references is set. -/
theorem refs_setSv (hload : ino ∈ v.fs.vnodes) (s : SfsVnode) :
    (⟨v.fs.setSv ino s, v.disk⟩ : Vol).refs = Function.update v.refs ino s.refcount := by
  funext j
  by_cases hji : j = ino
  · subst hji
    rw [Function.update_self]
    exact (if_pos hload).trans (congrArg SfsVnode.refcount (sv_setSv ..))
  · rw [Function.update_of_ne hji]
    unfold refs
    exact if_congr Iff.rfl (congrArg SfsVnode.refcount (sv_setSv_of_ne _ _ hji)) rfl

/-- A vnode comes into the table. -/
theorem refs_append (hload : ino ∉ v.fs.vnodes) {m : SfsFs} {d : Disk} {s : SfsVnode}
    (hvn : m.vnodes = v.fs.vnodes ++ [ino]) (hsv : m.sv = Function.update v.fs.sv ino s) :
    (⟨m, d⟩ : Vol).refs = Function.update v.refs ino s.refcount := by
  funext j
  have hmem : ino ∈ m.vnodes := by
    rw [hvn]
    exact List.mem_append_right _ (List.mem_singleton_self ino)
  by_cases hji : j = ino
  · subst hji
    rw [Function.update_self]
    refine (if_pos hmem).trans ?_
    change (m.sv j).refcount = _
    rw [hsv, Function.update_self]
  · rw [Function.update_of_ne hji]
    unfold refs
    change (if j ∈ m.vnodes then (m.sv j).refcount else 0) = _
    rw [hvn, hsv, Function.update_of_ne hji]
    refine if_congr ?_ rfl rfl
    rw [List.mem_append, or_iff_left fun he => hji (List.mem_singleton.mp he)]

/-- A vnode leaves the table. -/
theorem refs_erase (hnd : v.fs.vnodes.Nodup) {m : SfsFs} {d : Disk}
    (hvn : m.vnodes = v.fs.vnodes.erase ino) (hsv : m.sv = v.fs.sv) :
    (⟨m, d⟩ : Vol).refs = Function.update v.refs ino 0 := by
  funext j
  unfold refs
  change (if j ∈ m.vnodes then (m.sv j).refcount else 0) = _
  rw [hvn, hsv]
  by_cases hji : j = ino
  · subst hji
    rw [Function.update_self, if_neg hnd.not_mem_erase]
  · rw [Function.update_of_ne hji]
    exact if_congr (List.mem_erase_of_ne hji) rfl rfl

/-! ### Files -/

theorem array_congr (h : w.file ino = v.file ino) : w.array ino = v.array ino :=
  SparseFile.mk.injEq .. ▸ ⟨congrArg FileView.byte h, congrArg FileView.size h⟩

theorem Carried.of_same (h : Same v w) : Carried v w :=
  ⟨fun _ hj => h.isInode ▸ hj, fun j _ hj => array_congr (h.file j (h.isInode ▸ hj))⟩

theorem Carried.trans (h : Carried v u) (h' : Carried u w) : Carried v w :=
  ⟨fun _ hj => h.used _ (h'.used _ hj), fun j hne hj =>
    (h'.array j hne hj).trans (h.array j hne (h'.used j hj))⟩

/-- A reference is given up. -/
theorem Carried.of_released (h : v.Sound) (hload : ino ∈ v.fs.vnodes)
    (hr : Released v.IsInode ino v w) : Carried v w := by
  obtain ⟨-, -, hI⟩ := h.released hload hr
  exact ⟨fun _ hj => (hI ▸ hj : Remains v.IsInode ino v w _).1,
    fun j _ hj => array_congr (hr.file j (hI ▸ hj))⟩

/-- A link count is changed. -/
theorem array_relinked (h : v.Physical I) (hload : ino ∈ v.fs.vnodes) {j : ℕ}
    (hj : I j) : (v.relinked ino n).array j = v.array j := by
  have hword : sfiType (v.fs.inode ino) * 2 ^ 16 + n % 2 ^ 16 < wordSize := by
    have hlt : word (v.fs.inode ino) 1 < wordSize := word_lt
    unfold sfiType wordSize at *
    omega
  obtain ⟨-, ht, hwords, -, hbyte⟩ := h.set_word hload (i := 1) (by decide) hword
    (fun _ => by
      rw [← type_inode hload]
      omega) (rfl : v.relinked ino n = _)
  by_cases hji : j = ino
  · subst hji
    refine SparseFile.mk.injEq .. ▸ ⟨hbyte, ?_⟩
    change (v.relinked j n).inodeWords j 0 = _
    rw [hwords, Function.update_of_ne (by decide)]
    rfl
  · exact array_congr (ht.file hj hji)

/-- A slot of the directory is changed, and a link count. -/
theorem Carried.of_slotSet (hs : SlotSet v.IsInode k e v w) (hload : ino ∈ v.fs.vnodes)
    (hI : (w.relinked ino n).IsInode = v.IsInode) : Carried v (w.relinked ino n) := by
  refine ⟨fun _ hj => hI ▸ hj, fun j hne hj => ?_⟩
  replace hj : v.IsInode j := hI ▸ hj
  exact (array_relinked hs.rewritten.physical (hs.rewritten.touch.vnodes ▸ hload) hj).trans
    (array_congr (hs.rewritten.touch.file hj hne))

end Refs

/-! ### Calls -/

/-- The references after a call: a reply that hands out an inode adds one to it. -/
def refsAfter (refs : ℕ → ℕ) : Except FsErr Reply → ℕ → ℕ
  | .ok (.inode j) => Function.update refs j (refs j + 1)
  | _ => refs

/-- **What an operation on names does to the files**: those in use stay as they are, and a new one is
empty. -/
structure Opened (v : Vol) (r : Except FsErr Reply) (w : Vol) : Prop where
  refs : w.refs = refsAfter v.refs r
  kept : ∀ j, j ≠ sfsRootdirIno → v.IsInode j → w.IsInode j → w.array j = v.array j
  fresh : ∀ j, ¬ v.IsInode j → w.IsInode j → w.array j = .empty

theorem Carried.opened {v w : Vol} {r : Except FsErr Reply} (h : Carried v w)
    (hr : w.refs = refsAfter v.refs r) : Opened v r w where
  refs := hr
  kept j hne _ hj := h.array j hne hj
  fresh j hno hj := absurd (h.used j hj) hno

end Vol

namespace SfsFs

open Vol

section Table

variable {v w : Vol} {I : ℕ → Prop} {ino : ℕ}

theorem refcount_loadedVnode (data : Buffer) (forcetype : ℕ) :
    (loadedVnode data forcetype).refcount = 1 := by
  unfold loadedVnode
  split_ifs <;> rfl

/-- A file without blocks is empty. -/
theorem array_empty {n : ℕ} (h : v.inodeWords ino = Function.update (fun _ => 0) 1 n) :
    v.array ino = .empty := by
  have hind : v.indirect ino = 0 := by rw [Vol.indirect, h, Function.update_of_ne (by decide)]
  have hmap : ∀ fb, v.blockOf ino fb = 0 := fun fb => by
    by_cases hfb : fb < sfsNdirect
    · rw [blockOf_direct hfb, h, Function.update_of_ne (by omega)]
    · rw [blockOf_entry hfb, entries_zero hind]
  refine SparseFile.mk.injEq .. ▸ ⟨funext fun x => if_pos (hmap _), ?_⟩
  change v.inodeWords ino 0 = 0
  rw [h, Function.update_of_ne (by decide)]

/-- **A reference is taken** by `sfs_loadvnode`. -/
theorem refs_loadvnode (h : v.Physical I) (hino : I ino) : Returns (sfsLoadvnode ino sfsTypeInval) v
    (Ends (fun _ w => w.refs = Function.update v.refs ino (v.refs ino + 1))
      fun _ w => w.refs = v.refs) := by
  unfold sfsLoadvnode
  rw [returns_get, returns_findVnode _ (fun i hi => h.marked_inode (h.loaded i hi)) (.inl rfl)]
  by_cases hload : ino ∈ v.fs.vnodes
  · rw [if_pos hload]
    refine returns_pure.mpr ?_
    rw [refs_loaded hload]
    exact refs_setSv hload _
  rw [if_neg hload]
  change Returns (loadInode ino sfsTypeInval) v _
  -- the type is that of the inode on the disk
  have htype : sfiType (clip (v.disk.sector ino)) = (v.file ino).type := by
    change _ = v.inodeWords ino 1 / 2 ^ 16
    rw [inodeWords_unloaded hload, ← words_clip, words_of_lt (by decide)]
    rfl
  refine (returns_loadInode (h.marked_inode hino) (h.lt_nsect (s := .inode ino) ⟨rfl, hino⟩) (.inl rfl)
    (by rw [loadedVnode, if_pos rfl, htype]; exact h.type ino hino)).mono ?_
  rintro (e | _) w hw
  · obtain ⟨-, -, s, memory, rfl⟩ := hw
    refine refs_congr rfl fun j hj => congrArg SfsVnode.refcount (sv_setSv_of_ne _ _ ?_)
    rintro rfl
    exact hload hj
  · obtain ⟨memory, rfl⟩ := hw
    rw [refs_unloaded hload]
    exact (refs_append (s := loadedVnode _ sfsTypeInval) hload rfl rfl).trans
      (by rw [refcount_loadedVnode])

/-- **A new inode** has one reference, and its file is empty. -/
theorem refs_makeobj (h : v.Physical I) : Returns (sfsMakeobj sfsTypeFile) v (Ends
    (fun b w => w.refs = Function.update v.refs b 1 ∧ w.array b = .empty)
    fun _ w => w.refs = v.refs) := by
  unfold sfsMakeobj
  refine (returns_balloc h).bind ?_
  rintro r w (⟨rfl, rfl, -⟩ | ⟨b, rfl, hb, rfl⟩)
  · exact rfl
  have hnew := h.not_inode_of_free hb
  have hload : b ∉ v.fs.vnodes := fun hl => hnew (h.loaded b hl)
  have hzero : clip ((v.alloc b).disk.sector b) = fun _ => 0 := by
    rw [show (v.alloc b).disk.sector b = fun _ => 0 from Function.update_self .., clip_zero]
  have hmark : (v.alloc b).fs.freemap b = true := Function.update_self ..
  have hvnodes : ∀ i ∈ (v.alloc b).fs.vnodes, (v.alloc b).Marked i := fun i hi => by
    have hm := h.marked_inode (h.loaded i hi)
    exact ⟨hm.1, (Function.update_of_ne (fun he => hload (by rw [← he]; exact hi)) ..).trans hm.2⟩
  change Returns (status (sfsLoadvnode b sfsTypeFile) >>= _) (v.alloc b) _
  rw [returns_bind, returns_status]
  unfold sfsLoadvnode
  rw [returns_get, returns_findVnode _ hvnodes (.inr hload),
    if_neg (show b ∉ (v.alloc b).fs.vnodes from hload)]
  change Returns (loadInode b sfsTypeFile) (v.alloc b) _
  refine (returns_loadInode (v := v.alloc b) ⟨hb.1, hmark⟩ (lt_of_lt_of_le hb.1 h.fits) (.inr ?_)
    (.inl ?_)).mono ?_
  · rw [hzero, sfiType, word_zero]
    rfl
  · rw [hzero]
    decide
  rintro (e | _) w hw
  · -- the block is given back
    obtain ⟨-, -, s, memory, rfl⟩ := hw
    change Returns (sfsBfree b >>= _) _ _
    refine (returns_bfree ?_ ?_).mpr (returns_throw.mpr ?_)
    · exact lt_of_lt_of_le hb.1 h.nblocks_le
    · exact hmark
    refine refs_congr rfl fun j hj => congrArg SfsVnode.refcount (sv_setSv_of_ne _ _ ?_)
    rintro rfl
    exact hload hj
  · obtain ⟨memory, rfl⟩ := hw
    rw [hzero]
    refine returns_pure.mpr ⟨(refs_append (v := v) (s := loadedVnode _ sfsTypeFile) hload rfl rfl).trans
      (by rw [refcount_loadedVnode]), array_empty (n := 2 ^ 16) ?_⟩
    rw [inodeWords_loaded (List.mem_append_right _ (List.mem_singleton_self b)), SfsFs.inode]
    change words ((v.alloc b).fs.setSv b (loadedVnode (fun _ => 0) sfsTypeFile) |>.sv b).inode = _
    rw [sv_setSv]
    change words (setType (fun _ => 0) sfsTypeFile) = _
    rw [setType, words_setWord (by decide) (by decide), words_zero]
    exact congrArg _ (by simp [sfiLinkcount, word_zero, sfsTypeFile])

theorem refs_synced : (if (v.fs.sv ino).dirty then v.synced ino else v).refs = v.refs := by
  split_ifs
  · have hself : (v.synced ino).fs.sv ino = { v.fs.sv ino with dirty := false } := sv_setSv ..
    refine refs_congr rfl fun j _ => ?_
    by_cases hji : j = ino
    · rw [hji, hself]
    · exact congrArg SfsVnode.refcount (sv_setSv_of_ne _ _ hji)
  · rfl

/-- The vnode is given up by `sfs_reclaim`. -/
theorem refs_reclaim (h : v.Physical I) (hload : ino ∈ v.fs.vnodes) :
    Returns (reclaimLast ino) v
      (Ends (fun _ w => w.refs = Function.update v.refs ino 0) fun _ _ => False) := by
  have hino := h.loaded ino hload
  -- from `sfs_sync_inode` on
  have hrest : ∀ u : Vol, u.Physical I → u.fs.vnodes = v.fs.vnodes → u.refs = v.refs →
      Returns (do
        sfsSyncInode ino
        let m ← getFs
        (if sfiLinkcount (m.inode ino) = 0 then sfsBfree ino else pure ())
        removeVnode ino) u
        (Ends (fun _ w => w.refs = Function.update v.refs ino 0) fun _ _ => False) := by
    intro u hu hvn hr
    have hloadu : ino ∈ u.fs.vnodes := hvn ▸ hload
    refine (returns_syncInode hu hloadu).mpr (returns_get.mpr ?_)
    obtain ⟨hs, -, hvnx⟩ := synced_clean hu hloadu
    have hrx : (if (u.fs.sv ino).dirty then u.synced ino else u).refs = v.refs := refs_synced.trans hr
    generalize (if (u.fs.sv ino).dirty then u.synced ino else u) = x at hs hvnx hrx
    have hloadx : ino ∈ x.fs.vnodes := hvnx ▸ hloadu
    have hown : x.Owns I (.inode ino) ino := ⟨rfl, hino⟩
    rw [← hrx]
    split_ifs
    · rw [returns_bfree (hs.physical.lt_bits hown) (hs.physical.exact.marked _ _ hown).2]
      exact (returns_removeVnode (v := x.release ino) hloadx).mpr
        (refs_erase (v := x) hs.physical.nodup rfl rfl)
    · rw [returns_bind, returns_pure]
      exact (returns_removeVnode hloadx).mpr (refs_erase hs.physical.nodup rfl rfl)
  unfold reclaimLast
  rw [returns_get]
  split_ifs
  · refine (returns_itrunc h hino hload 0).bind ?_
    rintro (e | _) u hu
    · exact hu.elim
    · exact hrest u hu.physical hu.touch.vnodes hu.touch.refs
  · rw [returns_bind, returns_pure]
    exact hrest v h rfl rfl

/-- **A reference is given up** by `VOP_DECREF`. -/
theorem refs_decref (h : v.Physical I) (hload : ino ∈ v.fs.vnodes) :
    Returns (vnodeDecref ino) v
      (Ends (fun _ w => w.refs = Function.update v.refs ino (v.refs ino - 1)) fun _ _ => False) := by
  have hrefs := h.refs ino hload
  unfold vnodeDecref
  rw [returns_get, returns_kassert hrefs]
  split_ifs with hmore
  · refine returns_modify_last.mpr ?_
    rw [refs_loaded hload]
    exact refs_setSv hload _
  · have hlast : (v.fs.sv ino).refcount = 1 := by omega
    rw [returns_bind, returns_status, refs_loaded hload, hlast]
    unfold sfsReclaim
    rw [returns_get, if_neg (not_not.mpr hlast)]
    refine (refs_reclaim h hload).mono ?_
    rintro (e | _) w hw
    · exact hw.elim
    · exact returns_pure.mpr hw

theorem refs_syncVnodes (h : v.Physical I) (vnodes : List ℕ) (hl : ∀ j ∈ vnodes, j ∈ v.fs.vnodes) :
    Returns (syncVnodes vnodes) v
      (Ends (fun _ w => w.Physical I ∧ w.refs = v.refs) fun _ _ => False) := by
  induction vnodes generalizing v with
  | nil => exact returns_pure.mpr ⟨h, rfl⟩
  | cons i vnodes ih =>
    have hload := hl i (List.mem_cons_self ..)
    obtain ⟨hs, -, hvn⟩ := synced_clean h hload
    have hsync := returns_syncInode h hload (f := pure) (R := fun r w =>
      r = .ok () ∧ w = if (v.fs.sv i).dirty then v.synced i else v)
    rw [bind_pure] at hsync
    rw [syncVnodes, returns_bind, returns_status]
    refine (hsync.mpr (returns_pure.mpr ⟨rfl, rfl⟩)).mono ?_
    rintro r u ⟨rfl, rfl⟩
    refine (ih hs.physical fun j hj => hvn ▸ hl j (List.mem_cons_of_mem i hj)).mono ?_
    rintro (e | _) w hw
    · exact hw
    · exact ⟨hw.1, hw.2.trans refs_synced⟩

/-- **`sfs_sync`** takes and gives up no references. -/
theorem refs_sync (h : v.Physical I) :
    Returns sfsSync v (Ends (fun _ w => w.refs = v.refs) fun _ _ => False) := by
  -- the superblock is not dirty
  have hsuper : ∀ u : Vol, u.Physical I → u.refs = v.refs →
      Returns sfsSyncSuperblock u (Ends (fun _ w => w.refs = v.refs) fun _ _ => False) := by
    intro u hu hr
    unfold sfsSyncSuperblock
    rw [returns_get, hu.super_clean.1]
    exact returns_pure.mpr hr
  unfold sfsSync sfsSyncVnodes
  rw [returns_bind, returns_get]
  refine (refs_syncVnodes h v.fs.vnodes fun _ hj => hj).mono ?_
  rintro (e | _) u hu
  · exact hu.elim
  obtain ⟨hu, hr⟩ := hu
  change Returns (sfsSyncFreemap >>= fun _ => sfsSyncSuperblock) u _
  unfold sfsSyncFreemap
  rw [returns_bind, returns_get]
  split_ifs
  · refine (returns_freemapio_write hu).bind ?_
    rintro (e | _) w hw
    · exact hw.elim
    replace hw : FreemapWritten u u.fs.freemapBlocks w := hw
    refine returns_modify_last.mpr (hsuper _ (hw.steady hu).physical (Eq.trans ?_ hr))
    refine refs_congr ?_ fun j _ => ?_
    · change w.fs.vnodes = _
      rw [hw.fs]
    · change (w.fs.sv j).refcount = _
      rw [hw.fs]
  · exact returns_pure.mpr (hsuper u hu hr)

end Table

section Names

variable {u v w : Vol} {ino : ℕ} {name n1 n2 : CString} {r : Except FsErr Reply}

/-- A reference that was taken is given up. -/
theorem update_pred (refs : ℕ → ℕ) (ino : ℕ) :
    Function.update (Function.update refs ino (refs ino + 1)) ino
      (Function.update refs ino (refs ino + 1) ino - 1) = refs := by
  rw [Function.update_self, Nat.add_sub_cancel, Function.update_idem, Function.update_eq_self]

/-- The search takes no references. -/
theorem refs_findname (h : v.Sound) (hload : sfsRootdirIno ∈ v.fs.vnodes) (name : CString) :
    Returns (sfsDirFindname sfsRootdirIno name) v
      (Ends (fun _ w => w.refs = v.refs) fun _ _ => False) := by
  refine (returns_dirFindname h.physical h.listed hload name).mono ?_
  rintro (e | scan) w hw
  · exact hw
  · exact hw.1.touch.refs

/-- `sfs_lookonce` takes one to the inode that it found. -/
theorem refs_lookonce (h : v.Sound) (hload : sfsRootdirIno ∈ v.fs.vnodes) (name : CString) :
    Returns (sfsLookonce sfsRootdirIno name) v (Ends
      (fun p w => w.refs = Function.update v.refs p.1 (v.refs p.1 + 1)) fun _ w => w.refs = v.refs) := by
  unfold sfsLookonce
  refine ((returns_findname h hload name).and (refs_findname h hload name)).bind ?_
  rintro (e | scan) u ⟨hu, hru⟩
  · exact hu.elim
  obtain ⟨hsound, hs, -, -, -, hscan⟩ := hu
  have hnames := hscan.names h.listed
  replace hru : u.refs = v.refs := hru
  change Returns _ u _
  beta_reduce
  cases hf : scan.found with
  | none => exact returns_throw.mpr hru
  | some p =>
    obtain ⟨k, ino⟩ := p
    rw [hf] at hnames
    replace hnames : v.names name.bytes = some ino := hnames
    have hino : u.IsInode ino := by
      rw [hs.isInode]
      exact isInode_of_name hnames
    refine ((returns_load hsound hino).and (refs_loadvnode hsound.physical hino)).bind ?_
    rintro (e | _) w ⟨hw, hrw⟩
    · exact Eq.trans hrw hru
    · obtain ⟨hsound', hs', hloadw, -⟩ := hw
      have hlink : sfiLinkcount (w.fs.inode ino) ≠ 0 := by
        rw [linkcount_inode hloadw, hsound'.linkcount ino (isInode_of_mem hloadw) (h.name_ne_root hnames),
          (hs.trans hs').links]
        exact Nat.pos_iff_ne_zero.mp (h.links_pos.mpr ⟨_, hnames⟩)
      refine returns_get.mpr ?_
      rw [if_neg hlink]
      refine returns_pure.mpr (Eq.trans hrw ?_)
      rw [hru]

/-- `sfs_dir_link`, before the link is counted. -/
theorem opened_dirLink (h : v.Sound) (hload : sfsRootdirIno ∈ v.fs.vnodes) (hino : ino ∈ v.fs.vnodes)
    (hroot : ino ≠ sfsRootdirIno) (name : CString) : Returns (sfsDirLink sfsRootdirIno name ino) v (Ends
      (fun _ w => (w.relinked ino (sfiLinkcount (w.fs.inode ino) + 1)).refs = v.refs ∧
        Carried v (w.relinked ino (sfiLinkcount (w.fs.inode ino) + 1)))
      fun _ w => w.refs = v.refs) := by
  refine (returns_dirLink h.physical h.listed hload (isInode_of_mem hino) name).mono ?_
  rintro (e | k) w hw
  · exact hw.1.touch.refs
  · obtain ⟨hnone, -, hs, hempty, -⟩ := hw
    obtain ⟨-, -, hI, -⟩ := Sound.put h hs hempty hnone hino hroot rfl
    exact ⟨(refs_setInode _).trans hs.rewritten.touch.refs, .of_slotSet hs hino hI⟩

/-- **`sfs_lookup`.** -/
theorem opened_lookup (h : v.Sound) (hload : sfsRootdirIno ∈ v.fs.vnodes) {path : CString} :
    Returns (do return Reply.inode (← sfsLookup sfsRootdirIno path)) v (Opened v) := by
  unfold sfsLookup
  rw [returns_bind, returns_get, if_neg (by rw [type_inode hload, h.listed.dir]; decide)]
  refine ((returns_lookonce h hload path).and (refs_lookonce h hload path)).bind ?_
  rintro (e | ⟨ino, k⟩) w ⟨hw, hr⟩
  · exact (Carried.of_same hw.2.1).opened hr
  · exact returns_pure.mpr (returns_pure.mpr ((Carried.of_same hw.2.1).opened hr))

/-- **`sfs_link`.** -/
theorem opened_link (h : v.Sound) (hload : sfsRootdirIno ∈ v.fs.vnodes) (hino : ino ∈ v.fs.vnodes) :
    Returns (do sfsLink sfsRootdirIno name ino; return Reply.done) v (Opened v) := by
  unfold sfsLink
  rw [returns_bind, returns_get, type_inode hino]
  by_cases hroot : ino = sfsRootdirIno
  · rw [if_pos (by rw [hroot]; exact h.listed.dir)]
    exact returns_throw.mpr ((Carried.of_same (.refl v)).opened rfl)
  · rw [if_neg fun ht => hroot (h.only ino (isInode_of_mem hino) ht)]
    refine ((returns_linkName h hload hino hroot name).and
      (opened_dirLink h hload hino hroot name)).bind ?_
    rintro (e | k) w ⟨hw, hd⟩
    · exact (Carried.of_same hw.2.1).opened hd
    · exact returns_modify_last.mpr (returns_pure.mpr (hd.2.opened hd.1))

/-- **`sfs_remove`.** -/
theorem opened_remove (h : v.Sound) (hload : sfsRootdirIno ∈ v.fs.vnodes) :
    Returns (do sfsRemove sfsRootdirIno name; return Reply.done) v (Opened v) := by
  unfold sfsRemove
  rw [returns_bind]
  refine ((returns_lookonce h hload name).and (refs_lookonce h hload name)).bind ?_
  rintro (e | ⟨ino, k⟩) w ⟨hw, hr⟩
  · exact (Carried.of_same hw.2.1).opened hr
  replace hr : w.refs = Function.update v.refs ino (v.refs ino + 1) := hr
  obtain ⟨hw, hs, -, hname, hino, hloadw, hk, hslot⟩ := hw
  obtain ⟨hslots, hn⟩ := slot_congr hs.rootdir
  rw [← hn] at hk
  rw [← hslots] at hslot
  change Returns (status (sfsDirUnlink sfsRootdirIno k) >>= _) w _
  rw [returns_bind, returns_status]
  refine (returns_dirUnlink hw.physical hw.listed hloadw hk hslot).mono ?_
  rintro (e | _) x hx
  · exact hx.elim
  replace hx : SlotSet w.IsInode k none w x := hx
  obtain ⟨hpos, hy, -, hI, hvn, -⟩ := Sound.clear hw hx hk hslot hino rfl
  refine returns_get.mpr ((returns_kassert ?_).mpr (returns_changeLinkcount.mpr ?_))
  · exact hpos
  have hcarried : Carried w (x.relinked ino (sfiLinkcount (x.fs.inode ino) - 1)) :=
    .of_slotSet hx hino hI
  have hry : (x.relinked ino (sfiLinkcount (x.fs.inode ino) - 1)).refs = w.refs :=
    (refs_setInode _).trans hx.rewritten.touch.refs
  generalize x.relinked ino (sfiLinkcount (x.fs.inode ino) - 1) = y at hy hvn hcarried hry
  have hinoy : ino ∈ y.fs.vnodes := hvn ▸ hino
  refine ((returns_decref hy.physical hinoy fun he => absurd he (h.name_ne_root hname)).and
    (refs_decref hy.physical hinoy)).mono ?_
  rintro (e | _) z ⟨hz, hrz⟩
  · exact hz.elim
  refine returns_pure.mpr (Carried.opened ((Carried.of_same hs).trans
    (hcarried.trans (.of_released hy hinoy hz))) (Eq.trans hrz ?_))
  rw [hry, hr]
  exact update_pred ..

/-- A reference is given up, to an inode that has names. -/
theorem opened_drop (h : v.Sound) (hload : ino ∈ v.fs.vnodes) {bytes : List UInt8}
    (hname : v.names bytes = some ino) : Returns (vnodeDecref ino) v (Ends
      (fun _ w => Same v w ∧ w.refs = Function.update v.refs ino (v.refs ino - 1)) fun _ _ => False) := by
  refine ((returns_drop_named h hload hname).and (refs_decref h.physical hload)).mono ?_
  rintro (e | _) w ⟨hw, hr⟩
  · exact hw
  · exact ⟨hw.2, hr⟩

/-- The end of `sfs_rename`. -/
theorem opened_renameUnlink {v' x : Vol} {k k' : ℕ} (hv : v'.Sound)
    (hload : sfsRootdirIno ∈ v'.fs.vnodes) (hino : ino ∈ v'.fs.vnodes) (hk : k < v'.nslots)
    (hslot : v'.slot k = some (n1.bytes, ino))
    (hl : Linked v' n2 ino k' (x.relinked ino (sfiLinkcount (x.fs.inode ino) + 1))) :
    Returns (renameUnlink sfsRootdirIno ino k k') x (Ends (fun _ w =>
      Carried (x.relinked ino (sfiLinkcount (x.fs.inode ino) + 1)) w ∧
        w.refs = Function.update x.refs ino (x.refs ino - 1)) fun _ _ => False) := by
  have hroot : ino ≠ sfsRootdirIno :=
    hv.name_ne_root ((SlotMap.lookup_eq_some hv.listed.distinct).mpr ⟨k, hk, hslot⟩)
  have hne : k ≠ k' := by
    rintro rfl
    rw [hl.empty hk] at hslot
    cases hslot
  have hrx : (x.relinked ino (sfiLinkcount (x.fs.inode ino) + 1)).refs = x.refs := refs_setInode _
  unfold renameUnlink
  rw [returns_changeLinkcount]
  generalize x.relinked ino (sfiLinkcount (x.fs.inode ino) + 1) = u at hl hrx
  have hku : k < u.nslots := by
    rcases hl.slots with hs | hs
    · rwa [hs]
    · rw [hs.1]
      omega
  have hslotu : u.slot k = some (n1.bytes, ino) := (hl.other k hne hk).trans hslot
  have hinou : ino ∈ u.fs.vnodes := by
    rw [hl.vnodes]
    exact hino
  rw [returns_bind, returns_status]
  refine (returns_dirUnlink hl.sound.physical hl.sound.listed (by rw [hl.vnodes]; exact hload) hku
    hslotu).mono ?_
  rintro (e | _) y hy
  · exact hy.elim
  replace hy : SlotSet u.IsInode k none u y := hy
  obtain ⟨hpos, hz, hnames, hI, hvn, -⟩ := Sound.clear hl.sound hy hku hslotu hinou rfl
  refine returns_get.mpr ((returns_kassert ?_).mpr (returns_changeLinkcount.mpr ?_))
  · exact hpos
  have hcarried : Carried u (y.relinked ino (sfiLinkcount (y.fs.inode ino) - 1)) :=
    .of_slotSet hy hinou hI
  have hrz : (y.relinked ino (sfiLinkcount (y.fs.inode ino) - 1)).refs = x.refs :=
    (refs_setInode _).trans (hy.rewritten.touch.refs.trans hrx)
  generalize y.relinked ino (sfiLinkcount (y.fs.inode ino) - 1) = z at hz hnames hvn hcarried hrz
  have hname : z.names n2.bytes = some ino := by
    have hn : n2.bytes ≠ n1.bytes := fun he => by
      have h₁ : u.names n1.bytes = some ino :=
        (SlotMap.lookup_eq_some hl.sound.listed.distinct).mpr ⟨k, hku, hslotu⟩
      have hslot' := hl.slot
      rw [he] at hslot'
      exact hne (hl.sound.listed.distinct k k' _ _ _ hku hl.lt hslotu hslot')
    rw [hnames, Function.update_of_ne hn, hl.names, Function.update_self]
  refine (opened_drop hz (by rw [hvn]; exact hinou) hname).mono ?_
  rintro (e | _) w hw
  · exact hw
  · refine ⟨hcarried.trans (.of_same hw.1), hw.2.trans ?_⟩
    rw [hrz]

/-- **`sfs_rename`.** -/
theorem opened_rename (h : v.Sound) (hload : sfsRootdirIno ∈ v.fs.vnodes) :
    Returns (do sfsRename sfsRootdirIno n1 n2; return Reply.done) v (Opened v) := by
  unfold sfsRename
  rw [returns_bind, returns_kassert rfl]
  refine ((returns_lookonce h hload n1).and (refs_lookonce h hload n1)).bind ?_
  rintro (e | ⟨ino, k⟩) w ⟨hw, hr⟩
  · exact (Carried.of_same hw.2.1).opened hr
  replace hr : w.refs = Function.update v.refs ino (v.refs ino + 1) := hr
  obtain ⟨hw, hs, -, hname, hino, hloadw, hk, hslot⟩ := hw
  obtain ⟨hslots, hn⟩ := slot_congr hs.rootdir
  have hroot := h.name_ne_root hname
  refine returns_get.mpr ((returns_kassert ?_).mpr ?_)
  · exact (type_inode hino).trans (hw.type (isInode_of_mem hino) hroot)
  rw [returns_bind, returns_attempt]
  refine ((returns_linkName hw hloadw hino hroot n2).and (opened_dirLink hw hloadw hino hroot n2)).mono ?_
  rintro (e | k') x ⟨hx, hd⟩
  · -- the reference is given up
    obtain ⟨hx, hs', hvn, -⟩ := hx
    replace hd : x.refs = w.refs := hd
    have hnamex : x.names n1.bytes = some ino := by rw [hs'.names, hs.names, hname]
    change Returns (vnodeDecref ino >>= fun _ => throw e) x _
    refine (opened_drop hx (by rw [hvn]; exact hino) hnamex).bind ?_
    rintro (e | _) z hz
    · exact hz.elim
    obtain ⟨hs'', hrz⟩ := hz
    refine returns_throw.mpr ((Carried.of_same ((hs.trans hs').trans hs'')).opened (hrz.trans ?_))
    rw [hd, hr]
    exact update_pred ..
  · obtain ⟨-, hl⟩ := hx
    obtain ⟨hrx, hcarried⟩ := hd
    refine (opened_renameUnlink hw hloadw hino (by rw [hn]; exact hk) (by rw [hslots]; exact hslot)
      hl).mono ?_
    rintro (e | _) z hz
    · exact hz.elim
    obtain ⟨hc, hrz⟩ := hz
    have hrx' : x.refs = w.refs := (refs_setInode _).symm.trans hrx
    refine returns_pure.mpr (Carried.opened ((Carried.of_same hs).trans (hcarried.trans hc))
      (hrz.trans ?_))
    rw [hrx', hr]
    exact update_pred ..

/-- The only reference is given up, to an inode that has no link: it is not in use any more. -/
theorem opened_dropNew (h : v.Sound) (hload : ino ∈ v.fs.vnodes) (hroot : ino ≠ sfsRootdirIno)
    (hone : v.refs ino = 1) (hlink : (v.file ino).linkcount = 0) :
    Returns (vnodeDecref ino) v (Ends
      (fun _ w => w.refs = Function.update v.refs ino 0 ∧ Carried v w ∧ ¬ w.IsInode ino)
      fun _ _ => False) := by
  refine ((returns_decref h.physical hload fun he => absurd he hroot).and
    (refs_decref h.physical hload)).mono ?_
  rintro (e | _) w ⟨hw, hr⟩
  · exact hw.elim
  replace hw : Released v.IsInode ino v w := hw
  replace hr : w.refs = Function.update v.refs ino (v.refs ino - 1) := hr
  rw [hone] at hr
  obtain ⟨hs, -, hI⟩ := h.released hload hw
  refine ⟨hr, .of_released h hload hw, fun hj => ?_⟩
  rw [hI] at hj
  refine hj.2 ⟨rfl, hlink, fun hl => ?_⟩
  have hpos := (refs_pos hs.physical).mpr hl
  rw [hr, Function.update_self] at hpos
  exact lt_irrefl 0 hpos

/-- `sfs_creat` for a name that does not exist. -/
theorem opened_creatNew (h : v.Sound) (hload : sfsRootdirIno ∈ v.fs.vnodes) :
    Returns (do return Reply.inode (← creatNew sfsRootdirIno name)) v (Opened v) := by
  unfold creatNew
  rw [returns_bind]
  refine ((returns_makeobj h.physical).and (refs_makeobj h.physical)).bind ?_
  rintro (e | b) w ⟨hw, hd⟩
  · obtain ⟨hs, hvn, -⟩ := hw
    exact (Carried.of_same (.of_steady hs hvn)).opened hd
  obtain ⟨hnew, hp, hfile, htype, hlink, hvn, -⟩ := hw
  obtain ⟨hr, hempty⟩ := hd
  obtain ⟨hw, hnames, hI⟩ := h.made hnew hp hfile htype hlink hvn
  have hloadw : sfsRootdirIno ∈ w.fs.vnodes := by
    rw [hvn]
    exact List.mem_append_left _ hload
  have hb : b ∈ w.fs.vnodes := by
    rw [hvn]
    exact List.mem_append_right _ (List.mem_singleton_self b)
  have hroot : b ≠ sfsRootdirIno := fun he => hnew (he ▸ isInode_root v)
  have hzero : v.refs b = 0 := refs_unloaded fun hl => hnew (isInode_of_mem hl)
  change Returns (attempt (sfsDirLink sfsRootdirIno name b) >>= _) w _
  rw [returns_bind, returns_attempt]
  refine ((returns_linkName hw hloadw hb hroot name).and (opened_dirLink hw hloadw hb hroot name)).mono ?_
  rintro (e | k) x ⟨hx, hd⟩
  · -- the new file has no name, and is given up
    obtain ⟨hx, hs, hvnx, -⟩ := hx
    replace hd : x.refs = w.refs := hd
    have hbx : b ∈ x.fs.vnodes := by
      rw [hvnx]
      exact hb
    have hbnew : w.IsInode b := (hI b).mpr (.inr rfl)
    have hone : x.refs b = 1 := by rw [hd, hr, Function.update_self]
    change Returns (vnodeDecref b >>= fun _ => throw e) x _
    refine (opened_dropNew hx hbx hroot hone
      ((congrArg FileView.linkcount (hs.file b hbnew)).trans hlink)).bind ?_
    rintro (e | _) z hz
    · exact hz.elim
    obtain ⟨hrz, hc, hgone⟩ := hz
    have hkeep : ∀ j, z.IsInode j → v.IsInode j := fun j hj => by
      refine ((hI j).mp (hs.isInode ▸ hc.used j hj)).resolve_right ?_
      rintro rfl
      exact hgone hj
    refine returns_throw.mpr (Carried.opened ⟨hkeep, fun j hne hj => ?_⟩ ?_)
    · have hjv := hkeep j hj
      exact (hc.array j hne hj).trans
        (array_congr ((hs.file j ((hI j).mpr (.inl hjv))).trans (hfile j hjv)))
    · change z.refs = v.refs
      rw [hrz, hd, hr, Function.update_idem, ← hzero, Function.update_eq_self]
  · obtain ⟨-, hl⟩ := hx
    obtain ⟨hrx, hc⟩ := hd
    refine returns_changeLinkcount.mpr (returns_pure.mpr (returns_pure.mpr
      ⟨hrx.trans ?_, fun j hne hj hj' => ?_, fun j hnj hj => ?_⟩))
    · rw [hr]
      change _ = Function.update v.refs b (v.refs b + 1)
      rw [hzero]
    · exact (hc.array j hne hj').trans (array_congr (hfile j hj))
    · obtain rfl := ((hI j).mp (hc.used j hj)).resolve_left hnj
      exact (hc.array j hroot hj).trans hempty

/-- **`sfs_creat`.** -/
theorem opened_creat (h : v.Sound) (hload : sfsRootdirIno ∈ v.fs.vnodes) (excl : Bool) :
    Returns (do return Reply.inode (← sfsCreat sfsRootdirIno name excl)) v (Opened v) := by
  unfold sfsCreat
  rw [returns_bind]
  refine ((returns_findname h hload name).and (refs_findname h hload name)).bind ?_
  rintro (e | scan) u ⟨hu, hru⟩
  · exact hu.elim
  replace hru : u.refs = v.refs := hru
  obtain ⟨hu, hs, -, -, hvn, hscan⟩ := hu
  have hnames := hscan.names h.listed
  change Returns _ u _
  beta_reduce
  cases hf : scan.found with
  | some p =>
    obtain ⟨k, ino⟩ := p
    rw [hf] at hnames
    change Returns (if excl then throw FsErr.eexist else _) u _
    split_ifs with hexcl
    · exact returns_throw.mpr ((Carried.of_same hs).opened hru)
    · have hino : u.IsInode ino := by
        rw [hs.isInode]
        exact isInode_of_name hnames
      refine ((returns_load hu hino).and (refs_loadvnode hu.physical hino)).bind ?_
      rintro (e | _) w ⟨hw, hr⟩
      · exact (Carried.of_same (hs.trans hw.2.1)).opened (Eq.trans hr hru)
      · refine returns_pure.mpr (returns_pure.mpr ((Carried.of_same (hs.trans hw.2.1)).opened
          (Eq.trans hr ?_)))
        rw [hru]
        rfl
  | none =>
    have hnew : Returns (do return Reply.inode (← creatNew sfsRootdirIno name)) u (Opened u) :=
      opened_creatNew hu (by rw [hvn]; exact hload)
    rw [returns_bind] at hnew
    refine hnew.mono ?_
    have hstart : ∀ {r : Except FsErr Reply} {w : Vol}, Opened u r w → Opened v r w := by
      intro r w hw
      refine ⟨by rw [← hru]; exact hw.refs, fun j hne hj hj' => ?_, fun j hno hj => ?_⟩
      · exact (hw.kept j hne (by rw [hs.isInode]; exact hj) hj').trans (array_congr (hs.file j hj))
      · exact hw.fresh j (by rw [hs.isInode]; exact hno) hj
    intro r w hw
    cases r with
    | error e => exact hstart hw
    | ok ino => exact returns_pure.mpr (hstart (returns_pure.mp hw))

theorem opened_call (h : v.Sound) {dir : ℕ} (hload : dir ∈ v.fs.vnodes) {α : Type} {x : SfsM α}
    {f : α → SfsM Reply} (hx : dir = sfsRootdirIno → Returns (x >>= f) v (Opened v)) :
    Returns (dirop dir x >>= f) v (Opened v) := by
  rw [returns_bind, returns_dirop h hload]
  split_ifs with hdir
  · exact returns_bind.mp (hx hdir)
  · exact (Carried.of_same (.refl v)).opened rfl

/-- **The operations on names** take a reference for each inode that they hand out, and change no file. -/
theorem opened_nameOp (h : v.Sound) {dir : ℕ} (hload : dir ∈ v.fs.vnodes) {op : NameOp}
    (hvalid : op.Valid v) : Returns (op.prog dir) v (Opened v) := by
  cases op with
  | creat name excl =>
    refine opened_call h hload fun hdir => ?_
    subst hdir
    exact opened_creat h hload excl
  | link name file =>
    refine opened_call h hload fun hdir => ?_
    subst hdir
    exact opened_link h hload hvalid
  | remove name =>
    refine opened_call h hload fun hdir => ?_
    subst hdir
    exact opened_remove h hload
  | rename n1 n2 =>
    refine opened_call h hload fun hdir => ?_
    subst hdir
    exact opened_rename h hload
  | lookup path =>
    refine opened_call h hload fun hdir => ?_
    subst hdir
    exact opened_lookup h hload

end Names

end SfsFs

end Os161
