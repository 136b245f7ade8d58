import Mathlib.Data.Finset.Card
import Mathlib.Data.Finset.Range
import Os161.Sfs.View

set_option autoImplicit false

/-!
# Allocation of blocks

`sfs_balloc` and `sfs_bmap` on a volume that is in order.

* `Vol.Kept`: a step that keeps the volume in order and all files as they are.
* `Physical.attach`: a free block becomes the block of a pointer.
* **`returns_bmap`**: `sfs_bmap` returns the block map of the file, or there is no space.
-/

namespace Os161

open Buffer SfsFs

namespace Vol

/-- A block that is not in use. -/
def Free (v : Vol) (b : ℕ) : Prop := b < v.fs.nblocks ∧ v.fs.freemap b = false

/-- The volume after `sfs_balloc`. -/
def alloc (v : Vol) (b : ℕ) : Vol :=
  ⟨{ v.fs.setFreemap b true with freemapdirty := true }, v.disk.write b fun _ => 0⟩

/-- The volume after `sfs_bfree`. -/
def release (v : Vol) (b : ℕ) : Vol := ⟨{ v.fs.setFreemap b false with freemapdirty := true }, v.disk⟩

/-- The volume with another in-memory inode. -/
def setInode (v : Vol) (ino : ℕ) (i : Buffer) : Vol := ⟨v.fs.setInode ino i, v.disk⟩

/-- The blocks that are not in use. -/
def freeBlocks (v : Vol) : Finset ℕ := (Finset.range v.fs.nblocks).filter fun b => v.fs.freemap b = false

/-- **A step on a file that keeps the volume in order and the file as it is.** -/
structure Kept (I : ℕ → Prop) (ino : ℕ) (v v' : Vol) : Prop where
  physical : v'.Physical I
  touch : Touch I ino v v'
  file : v'.file ino = v.file ino

section Lemmas

variable {v v' v'' : Vol} {I : ℕ → Prop} {ino fb b c : ℕ} {s : Slot}

theorem Kept.trans (h : Kept I ino v v') (h' : Kept I ino v' v'') : Kept I ino v v'' :=
  ⟨h'.physical, h.touch.trans h'.touch, h'.file.trans h.file⟩

/-- The static buffers do not matter. -/
theorem Physical.kept (h : v.Physical I) (ino : ℕ) {iobuf idbuf truncbuf metaiobuf : Buffer}
    (hw : v' = ⟨{ v.fs with
      iobuf := iobuf, idbuf := idbuf, truncbuf := truncbuf, metaiobuf := metaiobuf }, v.disk⟩) :
    Kept I ino v v' := by
  subst hw
  exact ⟨⟨h.magic, h.exact, h.tail, h.nblocks_le, h.fits, h.root, h.type, h.loaded, h.nodup, h.refs, h.clean,
    h.freemap_clean, h.super_clean⟩, ⟨rfl, rfl, rfl, rfl, rfl, fun _ => rfl, fun _ _ => rfl, fun _ _ _ _ => rfl⟩, rfl⟩

theorem Physical.lt_nsect (h : v.Physical I) (hs : v.Owns I s b) : b < v.disk.nsect :=
  lt_of_lt_of_le (h.exact.marked s b hs).1 h.fits

theorem Physical.lt_bits (h : v.Physical I) (hs : v.Owns I s b) : b < v.fs.freemapBits :=
  lt_of_lt_of_le (h.exact.marked s b hs).1 h.nblocks_le

theorem Physical.word_lt (h : v.Physical I) (hb : b < v.fs.nblocks) : b < wordSize :=
  lt_trans (lt_of_lt_of_le hb h.fits) v.disk.nsect_lt

/-- A free block has no owner. -/
theorem Physical.ne_of_free (h : v.Physical I) (hb : v.Free b) (hs : v.Owns I s c) : c ≠ b := by
  rintro rfl
  have := (h.exact.marked s c hs).2
  rw [hb.2] at this
  cases this

/-- Different slots own different blocks. -/
theorem Physical.ne_of_ne (h : v.Physical I) {t : Slot} (hs : v.Owns I s b) (ht : v.Owns I t c)
    (hne : s ≠ t) : b ≠ c := by
  rintro rfl
  exact hne (h.exact.unique s t b hs ht)

theorem Physical.zero_owns (_ : v.Physical I) : v.Owns I (.metadata 0) 0 := ⟨rfl, .inl rfl⟩

theorem Physical.free_ne_zero (h : v.Physical I) (hb : v.Free b) : b ≠ 0 :=
  fun h0 => h.ne_of_free hb h.zero_owns h0.symm

theorem sv_setInode (m : SfsFs) (ino : ℕ) (i : Buffer) :
    (m.setInode ino i).sv ino = ⟨i, true, (m.sv ino).refcount⟩ := Function.update_self ..

theorem sv_setInode_of_ne (m : SfsFs) (i : Buffer) (hne : c ≠ ino) :
    (m.setInode ino i).sv c = m.sv c := Function.update_of_ne hne ..

theorem inode_setInode (m : SfsFs) (ino : ℕ) (i : Buffer) : (m.setInode ino i).inode ino = i := by
  rw [SfsFs.inode, sv_setInode]

theorem refcount_setInode (m : SfsFs) (ino : ℕ) (i : Buffer) :
    ((m.setInode ino i).sv ino).refcount = (m.sv ino).refcount := by rw [sv_setInode]

theorem dirty_setInode (m : SfsFs) (ino : ℕ) (i : Buffer) :
    ((m.setInode ino i).sv ino).dirty = true := by rw [sv_setInode]

theorem inodeWords_setInode (h : ino ∈ v.fs.vnodes) (i : Buffer) :
    (v.setInode ino i).inodeWords ino = words i :=
  (inodeWords_loaded (v := v.setInode ino i) h).trans (congrArg words (inode_setInode ..))

/-- The contents of a file that gets a new block of zeros. -/
theorem byte_attach (hb : v'.blockOf ino = Function.update (v.blockOf ino) fb b)
    (hhole : v.blockOf ino fb = 0) (hzero : EqOn sfsBlocksize (v'.disk.sector b) fun _ => 0)
    (hs : ∀ fb, v.blockOf ino fb ≠ 0 →
      EqOn sfsBlocksize (v'.disk.sector (v.blockOf ino fb)) (v.disk.sector (v.blockOf ino fb))) :
    v'.byte ino = v.byte ino := by
  funext x
  have ho : x % sfsBlocksize < sfsBlocksize := Nat.mod_lt _ (by decide)
  unfold byte
  rw [hb]
  by_cases hx : x / sfsBlocksize = fb
  · rw [hx, Function.update_self, hhole, if_pos rfl]
    split_ifs
    · rfl
    · exact hzero _ ho
  · rw [Function.update_of_ne hx]
    split_ifs with h0
    · rfl
    · exact hs _ h0 _ ho

theorem file_congr (h0 : v'.inodeWords ino 0 = v.inodeWords ino 0)
    (h1 : v'.inodeWords ino 1 = v.inodeWords ino 1) (hbyte : v'.byte ino = v.byte ino) :
    v'.file ino = v.file ino := by
  unfold file
  rw [h0, h1, hbyte]

/-- **A free block gets the owner `s`**, which is a pointer of the file. -/
theorem Physical.attach (h : v.Physical I) (ht : Touch I ino v v') (hb : v.Free b)
    (hs : s.file = some ino)
    (howns : ∀ t c, t.file = some ino → (v'.Owns I t c ↔ v.Owns I t c ∨ t = s ∧ c = b))
    (hfreemap : v'.fs.freemap = Function.update v.fs.freemap b true)
    (hdirty : v'.fs.freemapdirty = true)
    (hclean : ino ∈ v.fs.vnodes → (v'.fs.sv ino).dirty = false →
      words (v'.fs.inode ino) = words (v'.disk.sector ino))
    (htype : I ino → (v'.file ino).type = (v.file ino).type) : v'.Physical I := by
  have hmark : ∀ c, v'.Marked c ↔ v.Marked c ∨ c = b := by
    intro c
    unfold Marked
    rw [ht.nblocks, hfreemap]
    by_cases hc : c = b
    · rw [hc, Function.update_self]
      exact ⟨fun _ => .inr rfl, fun _ => ⟨hb.1, rfl⟩⟩
    · rw [Function.update_of_ne hc, or_iff_left hc]
  refine h.touch ht (h.exact.attach s ?_ ?_ hmark) ?_ ?_ hclean htype
  · rintro ⟨-, hm⟩
    rw [hb.2] at hm
    cases hm
  · intro t c
    by_cases htf : t.file = some ino
    · exact howns t c htf
    · rw [ht.owns htf]
      exact (or_iff_left fun hc => htf (by rw [hc.1, hs])).symm
  · intro c hc
    rw [hfreemap, Function.update_of_ne]
    rintro rfl
    exact absurd hb.1 (Nat.not_lt.mpr hc)
  · rw [hdirty]
    intro hf
    cases hf

/-- The owners of the blocks of a file, when only a block pointer is new. -/
theorem owns_attach_block (hi : v'.indirect ino = v.indirect ino) (hino : I ino) (hb : b ≠ 0)
    (hhole : v.blockOf ino fb = 0) (hmap : v'.blockOf ino = Function.update (v.blockOf ino) fb b)
    (t : Slot) (c : ℕ) (ht : t.file = some ino) :
    v'.Owns I t c ↔ v.Owns I t c ∨ t = .block ino fb ∧ c = b := by
  cases t with
  | metadata k => cases ht
  | inode j => exact (or_iff_left fun h => by cases h.1).symm
  | indirect j =>
    obtain rfl := Option.some.inj ht
    refine (and_congr_right fun _ => ?_).trans (or_iff_left fun h => by cases h.1).symm
    rw [hi]
  | block j k =>
    obtain rfl := Option.some.inj ht
    change I j ∧ v'.blockOf j k = c ∧ c ≠ 0 ↔ (I j ∧ v.blockOf j k = c ∧ c ≠ 0) ∨ _
    rw [hmap]
    by_cases hk : k = fb
    · subst hk
      rw [Function.update_self, hhole]
      constructor
      · rintro ⟨-, rfl, -⟩
        exact .inr ⟨rfl, rfl⟩
      · rintro (⟨-, rfl, h0⟩ | ⟨-, rfl⟩)
        · exact absurd rfl h0
        · exact ⟨hino, rfl, hb⟩
    · rw [Function.update_of_ne hk]
      exact (or_iff_left fun h => hk (by injection h.1)).symm

/-- A step that writes to a new block, and to the indirect block of the file. -/
theorem Physical.touch_alloc (h : v.Physical I) (hino : I ino) (hb : v.Free b) {i : Buffer}
    (idbuf : Buffer) {d : Disk} (hn : d.nsect = v.disk.nsect)
    (hd : ∀ c, c ≠ b → (v.indirect ino = 0 ∨ c ≠ v.indirect ino) → d.sector c = v.disk.sector c)
    {fs : SfsFs} (hfs : fs = { (v.alloc b).fs with idbuf := idbuf } ∨
      fs = { (v.alloc b).fs.setInode ino i with idbuf := idbuf }) : Touch I ino v ⟨fs, d⟩ := by
  have hsector : ∀ s c, v.Owns I s c → s.file ≠ some ino → d.sector c = v.disk.sector c := by
    intro s c hs hne
    refine hd c (h.ne_of_free hb hs) ?_
    by_cases h0 : v.indirect ino = 0
    · exact .inl h0
    · exact .inr (h.ne_of_ne (t := .indirect ino) hs ⟨hino, rfl, h0⟩ fun he => hne (by rw [he]; rfl))
  rcases hfs with rfl | rfl
  · exact ⟨hn, rfl, rfl, rfl, rfl, fun _ => rfl, fun _ _ => rfl, hsector⟩
  · exact ⟨hn, rfl, rfl, rfl, rfl, fun _ => refcount_setInode .., fun j hj => sv_setInode_of_ne _ _ hj, hsector⟩

/-- The pointer to a direct block is set. -/
theorem Physical.attach_direct (h : v.Physical I) (hino : I ino) (hload : ino ∈ v.fs.vnodes)
    (hb : v.Free b) (hfb : fb < sfsNdirect) (hhole : v.blockOf ino fb = 0)
    (hv : v' = (v.alloc b).setInode ino (setWord (v.fs.inode ino) (2 + fb) b)) :
    Kept I ino v v' ∧ v'.blockOf ino fb = b := by
  subst hv
  have hnd : sfsNdirect = 15 := rfl
  have hid : sfsDbperidb = 128 := rfl
  have ht := h.touch_alloc hino hb (i := setWord (v.fs.inode ino) (2 + fb) b) v.fs.idbuf
    (d := (v.alloc b).disk) rfl (fun c hc _ => Function.update_of_ne hc ..) (.inr rfl)
  have hwords : ((v.alloc b).setInode ino (setWord (v.fs.inode ino) (2 + fb) b)).inodeWords ino =
      Function.update (v.inodeWords ino) (2 + fb) b := by
    rw [inodeWords_loaded (v := v) hload, ← words_setWord (by omega) (h.word_lt hb.1)]
    exact inodeWords_setInode (v := v.alloc b) hload _
  have hother : ∀ i, i ≠ 2 + fb →
      ((v.alloc b).setInode ino (setWord (v.fs.inode ino) (2 + fb) b)).inodeWords ino i =
        v.inodeWords ino i := fun i hi => by rw [hwords, Function.update_of_ne hi]
  have hsector : ∀ s c, v.Owns I s c → (v.alloc b).disk.sector c = v.disk.sector c :=
    fun s c hs => Function.update_of_ne (h.ne_of_free hb hs) ..
  have hzero : (v.alloc b).disk.sector b = fun _ => 0 := Function.update_self ..
  have hentries := entries_congr (hother 17 (by omega)) fun h0 =>
    congrArg words (hsector (.indirect ino) _ ⟨hino, rfl, h0⟩)
  have hmap : ((v.alloc b).setInode ino (setWord (v.fs.inode ino) (2 + fb) b)).blockOf ino =
      Function.update (v.blockOf ino) fb b := by
    funext c
    unfold Vol.blockOf
    rw [hentries]
    by_cases hc : c = fb
    · rw [hc, Function.update_self, if_pos hfb, hwords, Function.update_self]
    · rw [Function.update_of_ne hc, hother _ (by omega)]
  have hself := congrFun hmap fb
  rw [Function.update_self] at hself
  have hfile := file_congr (hother 0 (by omega)) (hother 1 (by omega))
    (byte_attach hmap hhole (fun o _ => congrFun hzero o) fun c h0 o _ =>
      congrFun (hsector (.block ino c) _ ⟨hino, rfl, h0⟩) o)
  refine ⟨⟨h.attach ht hb rfl (owns_attach_block (hother 17 (by omega)) hino (h.free_ne_zero hb) hhole
    hmap) rfl rfl (fun _ hd => ?_) fun _ => congrArg FileView.type hfile, ht, hfile⟩, hself⟩
  exact absurd ((dirty_setInode (v.alloc b).fs ino _).symm.trans hd) (by decide)

/-- The pointer to the indirect block is set. -/
theorem Physical.attach_indirect (h : v.Physical I) (hino : I ino) (hload : ino ∈ v.fs.vnodes)
    (hb : v.Free b) (hnone : v.indirect ino = 0)
    (hv : v' = ⟨{ (v.alloc b).fs.setInode ino (setWord (v.fs.inode ino) 17 b) with
      idbuf := fun _ => 0 }, (v.alloc b).disk⟩) :
    Kept I ino v v' ∧ v'.indirect ino = b ∧ words v'.fs.idbuf = v'.entries ino ∧
      v'.blockOf ino = v.blockOf ino := by
  have hid : sfsDbperidb = 128 := rfl
  have ht : Touch I ino v v' := by
    rw [hv]
    exact h.touch_alloc hino hb _ (d := (v.alloc b).disk) rfl
      (fun c hc _ => Function.update_of_ne hc ..) (.inr rfl)
  have hwords : v'.inodeWords ino = Function.update (v.inodeWords ino) 17 b := by
    rw [inodeWords_loaded (v := v) hload, ← words_setWord (by omega) (h.word_lt hb.1), hv]
    exact inodeWords_setInode (v := v.alloc b) hload _
  have hother : ∀ i, i ≠ 17 → v'.inodeWords ino i = v.inodeWords ino i := fun i hi => by
    rw [hwords, Function.update_of_ne hi]
  have hind : v'.indirect ino = b := (congrFun hwords 17).trans (Function.update_self ..)
  have hzero : v'.disk.sector b = fun _ => 0 := by
    rw [hv]
    exact Function.update_self ..
  have hsector : ∀ s c, v.Owns I s c → v'.disk.sector c = v.disk.sector c := fun s c hs => by
    rw [hv]
    exact Function.update_of_ne (h.ne_of_free hb hs) ..
  have hentries : v'.entries ino = fun _ => 0 := by
    rw [entries_ne (by rw [hind]; exact h.free_ne_zero hb), hind, hzero, words_zero]
  have hmap : v'.blockOf ino = v.blockOf ino := by
    funext c
    unfold Vol.blockOf
    rw [hentries, entries_zero hnone]
    split_ifs with hc
    · exact hother _ (by unfold sfsNdirect at hc; omega)
    · rfl
  have hfile := file_congr (hother 0 (by decide)) (hother 1 (by decide))
    (byte_congr hmap fun c h0 o _ => congrFun (hsector (.block ino c) _ ⟨hino, rfl, h0⟩) o)
  have howns : ∀ t c, t.file = some ino →
      (v'.Owns I t c ↔ v.Owns I t c ∨ t = .indirect ino ∧ c = b) := by
    intro t c htf
    cases t with
    | metadata k => cases htf
    | inode j => exact (or_iff_left fun h => by cases h.1).symm
    | block j k =>
      obtain rfl := Option.some.inj htf
      refine (and_congr_right fun _ => ?_).trans (or_iff_left fun h => by cases h.1).symm
      rw [hmap]
    | indirect j =>
      obtain rfl := Option.some.inj htf
      change I j ∧ v'.indirect j = c ∧ c ≠ 0 ↔ (I j ∧ v.indirect j = c ∧ c ≠ 0) ∨ _
      rw [hind, hnone]
      constructor
      · rintro ⟨-, rfl, -⟩
        exact .inr ⟨rfl, rfl⟩
      · rintro (⟨-, rfl, h0⟩ | ⟨-, rfl⟩)
        · exact absurd rfl h0
        · exact ⟨hino, rfl, h.free_ne_zero hb⟩
  have hdirty : (v'.fs.sv ino).dirty = true := by
    rw [hv]
    exact dirty_setInode (v.alloc b).fs ino _
  refine ⟨⟨h.attach ht hb rfl howns (by rw [hv]; rfl) (by rw [hv]; rfl) (fun _ hd => ?_) fun _ =>
    congrArg FileView.type hfile, ht, hfile⟩, hind, ?_, hmap⟩
  · exact absurd (hdirty.symm.trans hd) (by decide)
  · rw [hentries, hv]
    exact words_zero

/-- An entry of the indirect block is set. -/
theorem Physical.attach_entry (h : v.Physical I) (hino : I ino) (hb : v.Free b)
    (hfb : ¬ fb < sfsNdirect) (hmax : fb < sfsMaxblocks) (hhole : v.blockOf ino fb = 0)
    (hind : v.indirect ino ≠ 0) (hbuf : words v.fs.idbuf = v.entries ino)
    (hv : v' = ⟨{ (v.alloc b).fs with idbuf := setWord v.fs.idbuf (fb - sfsNdirect) b },
      (v.alloc b).disk.write (v.indirect ino) (clip (setWord v.fs.idbuf (fb - sfsNdirect) b))⟩) :
    Kept I ino v v' ∧ v'.blockOf ino fb = b := by
  have hmaxb : sfsMaxblocks = sfsNdirect + sfsDbperidb := rfl
  have hown : v.Owns I (.indirect ino) (v.indirect ino) := ⟨hino, rfl, hind⟩
  have ht : Touch I ino v v' := by
    rw [hv]
    refine h.touch_alloc (i := v.fs.inode ino) hino hb _ (d := (v.alloc b).disk.write (v.indirect ino)
      (clip (setWord v.fs.idbuf (fb - sfsNdirect) b))) rfl (fun c hc hc' => ?_) (.inl rfl)
    exact (Function.update_of_ne (hc'.resolve_left hind) ..).trans (Function.update_of_ne hc ..)
  have hinode : v'.disk.sector ino = v.disk.sector ino := by
    rw [hv]
    have hself : v.Owns I (.inode ino) ino := ⟨rfl, hino⟩
    exact (Function.update_of_ne (h.ne_of_ne hself hown (by simp)) ..).trans
      (Function.update_of_ne (h.ne_of_free hb hself) ..)
  have hsv : v'.fs.sv = v.fs.sv := by rw [hv]; rfl
  have hwords : v'.inodeWords ino = v.inodeWords ino := by
    unfold Vol.inodeWords SfsFs.inode
    rw [hinode, hsv, ht.vnodes]
  have hind' : v'.indirect ino = v.indirect ino := congrFun hwords 17
  have hsector : ∀ c, v.blockOf ino c ≠ 0 →
      v'.disk.sector (v.blockOf ino c) = v.disk.sector (v.blockOf ino c) := fun c h0 => by
    have hc : v.Owns I (.block ino c) _ := ⟨hino, rfl, h0⟩
    rw [hv]
    exact (Function.update_of_ne (h.ne_of_ne hc hown (by simp)) ..).trans
      (Function.update_of_ne (h.ne_of_free hb hc) ..)
  have hzero : v'.disk.sector b = fun _ => 0 := by
    rw [hv]
    exact (Function.update_of_ne (h.ne_of_free hb hown).symm ..).trans (Function.update_self ..)
  have hentries : v'.entries ino = Function.update (v.entries ino) (fb - sfsNdirect) b := by
    have hsec : v'.disk.sector (v.indirect ino) =
        clip (setWord v.fs.idbuf (fb - sfsNdirect) b) := by
      rw [hv]
      exact Function.update_self ..
    rw [entries_ne (by rw [hind']; exact hind), hind', hsec, words_clip,
      words_setWord (by omega) (h.word_lt hb.1), hbuf]
  have hmap : v'.blockOf ino = Function.update (v.blockOf ino) fb b := by
    funext c
    unfold Vol.blockOf
    rw [hentries, hwords]
    by_cases hc : c = fb
    · rw [hc, Function.update_self, if_neg hfb, Function.update_self]
    · rw [Function.update_of_ne hc]
      split_ifs with hd
      · rfl
      · exact Function.update_of_ne (by omega) ..
  have hself := congrFun hmap fb
  rw [Function.update_self] at hself
  have hfile := file_congr (congrFun hwords 0) (congrFun hwords 1)
    (byte_attach hmap hhole (fun o _ => congrFun hzero o) fun c h0 o _ => congrFun (hsector c h0) o)
  refine ⟨⟨h.attach ht hb rfl (owns_attach_block hind' hino (h.free_ne_zero hb) hhole hmap)
    (by rw [hv]; rfl) (by rw [hv]; rfl) (fun hload hd => ?_) fun _ => congrArg FileView.type hfile,
      ht, hfile⟩, hself⟩
  rw [SfsFs.inode, hsv, hinode]
  exact h.clean ino hload (hsv ▸ hd)

/-- One block less is free. -/
theorem card_freeBlocks_alloc (hb : v.Free b) :
    (v.alloc b).freeBlocks.card + 1 = v.freeBlocks.card := by
  have hmem : b ∈ v.freeBlocks := Finset.mem_filter.mpr ⟨Finset.mem_range.mpr hb.1, hb.2⟩
  rw [← Finset.card_erase_add_one hmem]
  congr 2
  ext c
  unfold freeBlocks
  rw [Finset.mem_erase, Finset.mem_filter, Finset.mem_filter]
  change c ∈ Finset.range v.fs.nblocks ∧ Function.update v.fs.freemap b true c = false ↔ _
  by_cases hc : c = b
  · rw [hc, Function.update_self]
    simp
  · rw [Function.update_of_ne hc]
    exact (and_iff_right hc).symm

end Lemmas

end Vol

namespace SfsFs

open Vol

section Blocks

variable {β : Type} {v : Vol} {I : ℕ → Prop} {ino fb b : ℕ} {R : Except FsErr β → Vol → Prop}

/-- **`sfs_balloc`** finds a free block and clears it, or there is none. -/
theorem returns_balloc (h : v.Physical I) : Returns sfsBalloc v fun r w =>
    (r = .error .enospc ∧ w = v ∧ v.freeBlocks.card = 0) ∨
      ∃ b, r = .ok b ∧ v.Free b ∧ w = v.alloc b := by
  unfold sfsBalloc
  rw [returns_get]
  cases halloc : v.fs.bitmapAlloc with
  | none =>
    refine returns_throw.mpr (.inl ⟨rfl, rfl, Finset.card_eq_zero.mpr ?_⟩)
    refine Finset.filter_eq_empty_iff.mpr fun b hb => ?_
    have hlt := lt_of_lt_of_le (Finset.mem_range.mp hb) h.nblocks_le
    simpa using List.find?_eq_none.mp halloc b (List.mem_range.mpr hlt)
  | some b =>
    have hfree : v.fs.freemap b = false := by simpa using List.find?_some halloc
    have hlt : b < v.fs.nblocks := by
      by_contra hge
      have := h.tail b (Nat.not_lt.mp hge) (List.mem_range.mp (List.mem_of_find?_eq_some halloc))
      rw [hfree] at this
      cases this
    refine returns_modify.mpr ?_
    rw [if_neg (Nat.not_le.mpr hlt), ballocClear, returns_bind, returns_status]
    refine (returns_writeblock_last ?_).mpr ?_
    · exact lt_of_lt_of_le hlt h.fits
    change Returns (pure b) _ _
    rw [returns_pure, clip_zero]
    exact .inr ⟨b, rfl, ⟨hlt, hfree⟩, rfl⟩

theorem returns_bused {f : Bool → SfsM β} (hb : b < v.fs.nblocks) :
    Returns (sfsBused b >>= f) v R ↔ Returns (f (v.fs.freemap b)) v R := by
  unfold sfsBused
  rw [returns_bind, returns_get, if_neg (Nat.not_le.mpr hb), returns_pure]
  rfl

theorem returns_handBack {Q : Except FsErr ℕ → Vol → Prop} (hb : b ≠ 0 → v.Marked b) :
    Returns (handBack b) v Q ↔ Q (.ok b) v := by
  unfold handBack
  split_ifs with h0
  · rw [h0, returns_pure]
  · rw [returns_bused (hb h0).1, (hb h0).2, if_pos rfl, returns_pure]

/-- **`sfs_bfree`** of a block that is marked. -/
theorem returns_bfree {f : Unit → SfsM β} (hb : b < v.fs.freemapBits) (hm : v.fs.freemap b = true) :
    Returns (sfsBfree b >>= f) v R ↔ Returns (f ()) (v.release b) R := by
  unfold sfsBfree bitmapUnmark
  simp only [bind_assoc]
  rw [returns_get, returns_kassert hb, returns_kassert hm, returns_modify, returns_modify]
  rfl

/-- What `sfs_bmap` returns: the block of the file, which is there if it was to be allocated, or that
there is no space for it. -/
def BmapPost (v : Vol) (I : ℕ → Prop) (ino fb : ℕ) (doalloc : Bool) (r : Except FsErr ℕ) (w : Vol) :
    Prop :=
  Kept I ino v w ∧ (doalloc = false → w.fs.freemap = v.fs.freemap) ∧ match r with
    | .ok b => w.blockOf ino fb = b ∧ (doalloc = true → b ≠ 0)
    | .error e => e = .enospc ∧ doalloc = true ∧ v.blockOf ino fb = 0 ∧ v.freeBlocks.card ≤ 1

/-- The block of a pointer is handed back. -/
theorem returns_handBack_kept {w : Vol} {doalloc : Bool} (hk : Kept I ino v w) (hino : I ino)
    (hfm : doalloc = false → w.fs.freemap = v.fs.freemap) (hb : w.blockOf ino fb = b) (hne : doalloc = true → b ≠ 0) :
    Returns (handBack b) w (BmapPost v I ino fb doalloc) := by
  rw [returns_handBack fun h0 => hk.physical.exact.marked (.block ino fb) b ⟨hino, hb, h0⟩]
  exact ⟨hk, hfm, hb, hne⟩

theorem Kept.refl (h : v.Physical I) (ino : ℕ) : Kept I ino v v := ⟨h, Touch.refl I ino v, rfl⟩

theorem returns_bmapDirect (h : v.Physical I) (hino : I ino) (hload : ino ∈ v.fs.vnodes)
    (hfb : fb < sfsNdirect) (doalloc : Bool) :
    Returns (bmapDirect ino fb doalloc) v (BmapPost v I ino fb doalloc) := by
  have hblock : sfiDirect (v.fs.inode ino) fb = v.blockOf ino fb := by
    rw [blockOf_direct hfb, inodeWords_loaded hload]
    exact (words_of_lt (by unfold sfsNdirect at hfb; unfold sfsDbperidb; omega)).symm
  unfold bmapDirect
  rw [returns_get]
  simp only [hblock]
  split_ifs with halloc
  · refine (returns_balloc h).bind ?_
    rintro r w (⟨rfl, rfl, hfull⟩ | ⟨b, rfl, hb, rfl⟩)
    · exact ⟨Kept.refl h ino, fun _ => rfl, rfl, halloc.2, halloc.1, by omega⟩
    · refine returns_modify.mpr ?_
      obtain ⟨hk, hself⟩ := h.attach_direct hino hload hb hfb halloc.1 rfl
      refine returns_handBack_kept hk hino (fun hd => ?_) hself fun _ => h.free_ne_zero hb
      exact absurd (halloc.2.symm.trans hd) (by decide)
  · exact returns_handBack_kept (Kept.refl h ino) hino (fun _ => rfl) rfl fun hd h0 => halloc ⟨h0, hd⟩

/-- The indirect block is in `idbuf`, and the file has one. -/
theorem returns_bmapIndirect (h : v.Physical I) (hino : I ino) (hload : ino ∈ v.fs.vnodes) :
    Returns (bmapIndirect ino) v fun r w => Kept I ino v w ∧
      (v.indirect ino ≠ 0 → w.fs.freemap = v.fs.freemap) ∧ match r with
        | .ok b => w.indirect ino = b ∧ b ≠ 0 ∧ words w.fs.idbuf = w.entries ino ∧
          w.blockOf ino = v.blockOf ino ∧ v.freeBlocks.card ≤ w.freeBlocks.card + 1
        | .error e => e = .enospc ∧ v.indirect ino = 0 ∧ v.freeBlocks.card ≤ 1 := by
  have hblock : sfiIndirect (v.fs.inode ino) = v.indirect ino := by
    rw [Vol.indirect, inodeWords_loaded hload]
    exact (words_of_lt (by decide)).symm
  unfold bmapIndirect
  rw [returns_get]
  simp only [hblock]
  split_ifs with h0
  · refine (returns_balloc h).bind ?_
    rintro r w (⟨rfl, rfl, hfull⟩ | ⟨b, rfl, hb, rfl⟩)
    · exact ⟨Kept.refl h ino, fun _ => rfl, rfl, h0, by omega⟩
    · refine returns_modify.mpr (returns_modify.mpr (returns_pure.mpr ?_))
      obtain ⟨hk, hind, hbuf, hmap⟩ := h.attach_indirect hino hload hb h0 rfl
      exact ⟨hk, fun hne => absurd h0 hne, hind, h.free_ne_zero hb, hbuf, hmap,
        le_of_eq (card_freeBlocks_alloc hb).symm⟩
  · have hown : v.Owns I (.indirect ino) (v.indirect ino) := ⟨hino, rfl, h0⟩
    rw [returns_readblock (h.lt_nsect hown), returns_modify, returns_pure]
    refine ⟨h.kept ino rfl, fun _ => rfl, rfl, h0, ?_, rfl, Nat.le_succ _⟩
    exact words_clip.trans (entries_ne h0).symm

/-- The entry of the indirect block for block `fb` of the file. -/
theorem returns_bmapEntry {w : Vol} (hk : Kept I ino v w) (hino : I ino) (hfb : ¬ fb < sfsNdirect)
    (hmax : fb < sfsMaxblocks) (hind : w.indirect ino ≠ 0)
    (hhole : w.blockOf ino fb = 0 → v.blockOf ino fb = 0)
    (hcard : v.freeBlocks.card ≤ w.freeBlocks.card + 1)
    (hbuf : words w.fs.idbuf = w.entries ino) (doalloc : Bool)
    (hfm : doalloc = false → w.fs.freemap = v.fs.freemap) :
    Returns (bmapEntry (w.indirect ino) (fb - sfsNdirect) doalloc) w
      (BmapPost v I ino fb doalloc) := by
  have hmaxb : sfsMaxblocks = sfsNdirect + sfsDbperidb := rfl
  have hblock : word w.fs.idbuf (fb - sfsNdirect) = w.blockOf ino fb := by
    rw [blockOf_entry hfb, ← hbuf]
    exact (words_of_lt (by omega)).symm
  have hown : w.Owns I (.indirect ino) (w.indirect ino) := ⟨hino, rfl, hind⟩
  unfold bmapEntry
  rw [returns_get]
  simp only [hblock]
  split_ifs with halloc
  · refine (returns_balloc hk.physical).bind ?_
    rintro r u (⟨rfl, rfl, hfull⟩ | ⟨b, rfl, hb, rfl⟩)
    · exact ⟨hk, hfm, rfl, halloc.2, hhole halloc.1, by omega⟩
    · refine returns_modify.mpr ((returns_writeblock ?_).mpr ?_)
      · exact hk.physical.lt_nsect hown
      obtain ⟨hk', hself⟩ := hk.physical.attach_entry hino hb hfb hmax halloc.1 hind hbuf rfl
      refine returns_handBack_kept (hk.trans hk') hino (fun hd => ?_) hself fun _ =>
        hk.physical.free_ne_zero hb
      exact absurd (halloc.2.symm.trans hd) (by decide)
  · exact returns_handBack_kept hk hino hfm rfl fun hd h0 => halloc ⟨h0, hd⟩

/-- **`sfs_bmap`** returns the block map of the file, or there is no space for a block, or the block is
beyond what a file can have. -/
theorem returns_bmap (h : v.Physical I) (hino : I ino) (hload : ino ∈ v.fs.vnodes) (doalloc : Bool) :
    Returns (sfsBmap ino fb doalloc) v fun r w =>
      fb < sfsMaxblocks ∧ BmapPost v I ino fb doalloc r w ∨
      sfsMaxblocks ≤ fb ∧ r = .error .efbig ∧ w = v := by
  have hmaxb : sfsMaxblocks = sfsNdirect + sfsDbperidb := rfl
  have hblock : sfiIndirect (v.fs.inode ino) = v.indirect ino := by
    rw [Vol.indirect, inodeWords_loaded hload]
    exact (words_of_lt (by decide)).symm
  unfold sfsBmap
  by_cases hfb : fb < sfsNdirect
  · rw [if_pos hfb]
    exact (returns_bmapDirect h hino hload hfb doalloc).mono fun r w hw => .inl ⟨by omega, hw⟩
  rw [if_neg hfb]
  by_cases hmax : fb < sfsMaxblocks
  · have hidnum : (fb - sfsNdirect) / sfsDbperidb = 0 := Nat.div_eq_of_lt (by omega)
    have hidoff : (fb - sfsNdirect) % sfsDbperidb = fb - sfsNdirect := Nat.mod_eq_of_lt (by omega)
    simp only [hidnum, hidoff]
    rw [if_neg (by decide), returns_get, hblock]
    refine Returns.mono (Q := BmapPost v I ino fb doalloc) ?_ fun r w hw => .inl ⟨hmax, hw⟩
    split_ifs with hhole
    · refine returns_pure.mpr ⟨Kept.refl h ino, fun _ => rfl, ?_, fun hd => ?_⟩
      · rw [blockOf_entry hfb, entries_zero hhole.1]
      · rw [hhole.2] at hd
        cases hd
    · refine (returns_bmapIndirect h hino hload).bind ?_
      rintro (e | b) w ⟨hk, hfm, hr⟩
      · obtain ⟨rfl, h0, hcard⟩ := hr
        have hd : doalloc = true := by simpa [h0] using hhole
        refine ⟨hk, fun hf => absurd (hd.symm.trans hf) (by decide), rfl, hd, ?_, hcard⟩
        rw [blockOf_entry hfb, entries_zero h0]
      · obtain ⟨rfl, h0, hbuf, hsame, hcard⟩ := hr
        refine returns_bmapEntry hk hino hfb hmax h0 (fun h0 => hsame ▸ h0) hcard hbuf doalloc
          fun hf => hfm fun h0 => hhole ⟨h0, hf⟩
  · have hidnum : sfsNindirect ≤ (fb - sfsNdirect) / sfsDbperidb :=
      (Nat.le_div_iff_mul_le (by decide)).mpr (by unfold sfsNindirect; omega)
    simp only
    rw [if_pos hidnum, returns_throw]
    exact .inr ⟨Nat.not_lt.mp hmax, rfl, rfl⟩

end Blocks

end SfsFs

end Os161
