import Os161.Sfs.Mounted

set_option autoImplicit false

/-!
# A volume with one file

A volume of `n` blocks whose directory has one entry, for a file of one block, which is block `q`. The
directory and the file are loaded, and all that is in memory is on the disk.

* `imageMount`: the volume on a device that works.
* **`image_sound`**: it is sound, wherever the block of the file is.
-/

namespace Os161

open Buffer SfsFs Vol

section Image

variable (n q : ℕ)

/-- The block behind the freemap, which is the inode of the file. -/
def imageIno : ℕ := sfsFreemapStart + (n + (sfsBitsperblock - 1)) / sfsBitsperblock

/-- The superblock. -/
def imageSb : Buffer := setWord (setWord (fun _ => 0) 0 sfsMagic) 1 n

/-- An inode with one link and one block. -/
def imageInode (size type block : ℕ) : Buffer :=
  setWord (setWord (setWord (fun _ => 0) 0 size) 1 (type * 2 ^ 16 + 1)) 2 block

/-- The freemap. -/
def imageFreemap (b : ℕ) : Bool := decide (b < imageIno n + 2 ∨ b = q ∨ n ≤ b)

/-- The name of the file. -/
def imageName : CString := ⟨[97], by decide⟩

/-- The sectors: the superblock, the inode of the directory, the freemap, the inode of the file and the
block of the directory. -/
def imageSector (b : ℕ) : Buffer :=
  if b = sfsSuperBlock then imageSb n
  else if b = sfsRootdirIno then imageInode sfsDirentrySize sfsTypeDir (imageIno n + 1)
  else if b < imageIno n then freemapData (imageFreemap n q) (b - sfsFreemapStart)
  else if b = imageIno n then imageInode sfsBlocksize sfsTypeFile q
  else if b = imageIno n + 1 then direntry (imageIno n) imageName.bytes
  else fun _ => 0

/-- The memory. -/
def imageFs : SfsFs where
  sb := imageSb n
  superdirty := false
  vnodes := [sfsRootdirIno, imageIno n]
  sv ino := ⟨imageSector n q ino, false, 1⟩
  freemap := imageFreemap n q
  freemapdirty := false
  iobuf := fun _ => 0
  idbuf := fun _ => 0
  truncbuf := fun _ => 0
  metaiobuf := fun _ => 0
  memory := fun _ => true

/-- The device, whose commands end as `answer` says. -/
def imageDev (hn : n < wordSize) (answer : ℕ → LhdStatus × Buffer) : Lhd where
  nsect := n
  nsect_lt := hn
  disk := imageSector n q
  buf := fun _ => 0
  answer := answer
  log := []
  calls := 0

/-- The volume on its device. -/
def imageMount (hn : n < wordSize) (answer : ℕ → LhdStatus × Buffer) : SfsMount :=
  ⟨imageFs n q, imageDev n q hn answer⟩

/-- A request of the kernel to write `len` bytes at the beginning of a file. -/
def writeUio (len : ℕ) (data : Buffer) : Uio where
  iov := [len]
  area := data
  pos := 0
  user := false
  valid := 0
  offset := 0
  resid := len
  rw := .write

/-- The blocks fit. -/
structure ImageFits : Prop where
  lt : n + (sfsBitsperblock - 1) < wordSize
  file : imageIno n + 1 < q
  le : q < n

end Image

section Sound

variable {n q : ℕ} {hn : n < wordSize} {answer : ℕ → LhdStatus × Buffer} {size type block : ℕ}

theorem words_imageInode (hs : size < wordSize) (ht : type < 2 ^ 15) (hb : block < wordSize) :
    words (imageInode size type block) =
      Function.update (Function.update (Function.update (fun _ => 0) 0 size) 1 (type * 2 ^ 16 + 1)) 2
        block := by
  have hword : type * 2 ^ 16 + 1 < wordSize := by
    unfold wordSize
    omega
  unfold imageInode
  rw [words_setWord (by decide) hb, words_setWord (by decide) hword, words_setWord (by decide) hs,
    words_zero]

theorem two_lt_imageIno (h : ImageFits n q) : 2 < imageIno n := by
  have hpos : 0 < (n + (sfsBitsperblock - 1)) / sfsBitsperblock :=
    Nat.div_pos (by have := h.file; have := h.le; omega) (by decide)
  unfold imageIno sfsFreemapStart
  omega

theorem imageSector_root : imageSector n q sfsRootdirIno =
    imageInode sfsDirentrySize sfsTypeDir (imageIno n + 1) := by
  unfold imageSector
  rw [if_neg (by decide), if_pos rfl]

theorem imageSector_file (h : ImageFits n q) :
    imageSector n q (imageIno n) = imageInode sfsBlocksize sfsTypeFile q := by
  have h2 := two_lt_imageIno h
  unfold imageSector
  rw [if_neg (by unfold sfsSuperBlock; omega), if_neg (by unfold sfsRootdirIno; omega),
    if_neg (Nat.lt_irrefl _), if_pos rfl]

theorem imageSector_dir (h : ImageFits n q) :
    imageSector n q (imageIno n + 1) = direntry (imageIno n) imageName.bytes := by
  have h2 := two_lt_imageIno h
  unfold imageSector
  rw [if_neg (by unfold sfsSuperBlock; omega), if_neg (by unfold sfsRootdirIno; omega),
    if_neg (by omega), if_neg (by omega), if_pos rfl]

/-- The file of an inode with one block. -/
theorem image_file {v : Vol} (ino size type block : ℕ) (hw : v.inodeWords ino = words (imageInode size type block))
    (hs : size < wordSize) (ht : type < 2 ^ 15) (hb : block < wordSize) :
    (v.file ino).size = size ∧ (v.file ino).type = type ∧ (v.file ino).linkcount = 1 ∧
      v.indirect ino = 0 ∧ ∀ fb, v.blockOf ino fb = if fb = 0 then block else 0 := by
  rw [words_imageInode hs ht hb] at hw
  have h1 : v.inodeWords ino 1 = type * 2 ^ 16 + 1 := by
    rw [hw, Function.update_of_ne (by decide), Function.update_self]
  have hind : v.indirect ino = 0 := by
    unfold indirect
    rw [hw, Function.update_of_ne (by decide), Function.update_of_ne (by decide),
      Function.update_of_ne (by decide)]
  refine ⟨?_, ?_, ?_, hind, fun fb => ?_⟩
  · change v.inodeWords ino 0 = size
    rw [hw, Function.update_of_ne (by decide), Function.update_of_ne (by decide),
      Function.update_self]
  · change v.inodeWords ino 1 / 2 ^ 16 = type
    rw [h1]
    omega
  · change v.inodeWords ino 1 % 2 ^ 16 = 1
    rw [h1]
    omega
  · by_cases hfb : fb < sfsNdirect
    · rw [blockOf_direct hfb, hw]
      by_cases h0 : fb = 0
      · rw [h0, if_pos rfl]
        exact Function.update_self ..
      · rw [if_neg h0, Function.update_of_ne (by omega), Function.update_of_ne (by omega),
          Function.update_of_ne (by omega)]
    · rw [blockOf_entry hfb, entries_zero hind, if_neg]
      rintro rfl
      exact hfb (by decide)

variable {v : Vol}

/-- The inodes in memory are those of the sectors. -/
theorem image_words (hv : v = (imageMount n q hn answer).vol) {ino : ℕ} (hino : ino ∈ v.fs.vnodes) :
    v.inodeWords ino = words (imageSector n q ino) := by
  rw [inodeWords_loaded hino, hv]
  rfl

/-- What the volume consists of. -/
structure ImageView (n q : ℕ) (v : Vol) : Prop where
  nblocks : v.fs.nblocks = n
  blocks : sfsFreemapStart + v.fs.freemapBlocks = imageIno n
  freemap : ∀ b, v.fs.freemap b = true ↔ b < imageIno n + 2 ∨ b = q ∨ n ≤ b
  root : (v.file sfsRootdirIno).size = sfsDirentrySize ∧
    (v.file sfsRootdirIno).type = sfsTypeDir ∧ (v.file sfsRootdirIno).linkcount = 1 ∧
    v.indirect sfsRootdirIno = 0 ∧
    ∀ fb, v.blockOf sfsRootdirIno fb = if fb = 0 then imageIno n + 1 else 0
  file : (v.file (imageIno n)).size = sfsBlocksize ∧ (v.file (imageIno n)).type = sfsTypeFile ∧
    (v.file (imageIno n)).linkcount = 1 ∧ v.indirect (imageIno n) = 0 ∧
    ∀ fb, v.blockOf (imageIno n) fb = if fb = 0 then q else 0
  nslots : v.nslots = 1
  slot : v.slot 0 = some (imageName.bytes, imageIno n)
  isInode : ∀ j, v.IsInode j ↔ j = sfsRootdirIno ∨ j = imageIno n

theorem image_view (h : ImageFits n q) (hv : v = (imageMount n q hn answer).vol) :
    ImageView n q v := by
  have hlt := h.lt
  have hfile := h.file
  have hq := h.le
  have h2 := two_lt_imageIno h
  have hvnodes : v.fs.vnodes = [sfsRootdirIno, imageIno n] := by
    rw [hv]
    rfl
  have hnb : v.fs.nblocks = n := by
    rw [hv]
    change word (imageSb n) 1 = n
    unfold imageSb
    rw [word_setWord hn, if_pos rfl]
  have hblocks : sfsFreemapStart + v.fs.freemapBlocks = imageIno n := by
    unfold SfsFs.freemapBlocks SfsFs.freemapBits imageIno
    rw [hnb, wadd_of_lt (by omega), Nat.mul_div_cancel _ (by decide)]
  have hroot := image_file (v := v) sfsRootdirIno sfsDirentrySize sfsTypeDir (imageIno n + 1)
    (by rw [image_words hv (by rw [hvnodes]; simp), imageSector_root])
    (by decide) (by decide) (by unfold wordSize at *; omega)
  have hino := image_file (v := v) (imageIno n) sfsBlocksize sfsTypeFile q
    (by rw [image_words hv (by rw [hvnodes]; simp), imageSector_file h])
    (by decide) (by decide) (by omega)
  have hn1 : v.nslots = 1 := by
    unfold nslots
    rw [hroot.1]
    rfl
  have hslot : v.slot 0 = some (imageName.bytes, imageIno n) := by
    have hdirent : EqOn sfsDirentrySize (v.dirent 0) (direntry (imageIno n) imageName.bytes) := by
      intro o ho
      have hblk : o / sfsBlocksize = 0 := Nat.div_eq_of_lt (lt_trans ho (by decide))
      have hoff : o % sfsBlocksize = o := Nat.mod_eq_of_lt (lt_trans ho (by decide))
      have hb := hroot.2.2.2.2 0
      rw [if_pos rfl] at hb
      unfold dirent byte
      rw [Nat.zero_mul, Nat.zero_add, hblk, hoff, hb, if_neg (by omega), ← imageSector_dir h, hv]
      exact clip_apply (lt_trans ho (by decide))
    unfold slot
    rw [entry_congr hdirent]
    exact entry_direntry (by omega) (by unfold sfsNoino; omega) (by decide)
  have hnames : ∀ name j, v.names name = some j → j = imageIno n := by
    intro name j hj
    have hd : SlotMap.Distinct v.slot v.nslots := by
      rw [hn1]
      intro i j _ _ _ hi hj _ _
      omega
    obtain ⟨k, hk, hs⟩ := (SlotMap.lookup_eq_some hd).mp hj
    rw [hn1] at hk
    obtain rfl : k = 0 := by omega
    rw [hslot] at hs
    cases hs
    rfl
  refine ⟨hnb, hblocks, fun b => ?_, hroot, hino, hn1, hslot, fun j => ?_⟩
  · rw [hv]
    exact decide_eq_true_iff
  · unfold IsInode
    rw [hvnodes, List.mem_cons, List.mem_singleton]
    constructor
    · rintro (rfl | hj | ⟨name, hj⟩)
      · exact .inl rfl
      · exact hj
      · exact .inr (hnames name j hj)
    · exact fun hj => .inr (.inl hj)

/-- The block of the directory and the one of the file are owned by their inodes. -/
theorem ImageView.owns (hw : ImageView n q v) (h : ImageFits n q) (s : Slot) (b : ℕ) :
    v.Owns v.IsInode s b ↔ s = .metadata b ∧ (b = 0 ∨ 2 ≤ b ∧ b < imageIno n) ∨
      s = .inode b ∧ (b = 1 ∨ b = imageIno n) ∨
      s = .block sfsRootdirIno 0 ∧ b = imageIno n + 1 ∨ s = .block (imageIno n) 0 ∧ b = q := by
  have hq := h.file
  have h2 := two_lt_imageIno h
  cases s with
  | metadata c =>
    have hmeta : v.IsMeta b ↔ b = 0 ∨ 2 ≤ b ∧ b < imageIno n := by
      unfold IsMeta
      rw [hw.blocks]
      exact Iff.rfl
    change c = b ∧ v.IsMeta b ↔ _
    rw [hmeta]
    simp
  | inode j =>
    change j = b ∧ v.IsInode j ↔ _
    rw [hw.isInode]
    simp only [reduceCtorEq, false_and, false_or, or_false, Slot.inode.injEq]
    exact and_congr_right fun hj => by rw [hj]; exact Iff.rfl
  | indirect j =>
    refine iff_of_false ?_ (by simp)
    rintro ⟨hj, hi, h0⟩
    rcases (hw.isInode j).mp hj with rfl | rfl
    · exact h0 (hi.symm.trans hw.root.2.2.2.1)
    · exact h0 (hi.symm.trans hw.file.2.2.2.1)
  | block j fb =>
    simp only [reduceCtorEq, false_and, false_or, Slot.block.injEq]
    constructor
    · rintro ⟨hj, hb, h0⟩
      rcases (hw.isInode j).mp hj with rfl | rfl
      · rw [hw.root.2.2.2.2] at hb
        split_ifs at hb with hfb
        · exact .inl ⟨⟨rfl, hfb⟩, hb.symm⟩
        · exact absurd hb.symm h0
      · rw [hw.file.2.2.2.2] at hb
        split_ifs at hb with hfb
        · exact .inr ⟨⟨rfl, hfb⟩, hb.symm⟩
        · exact absurd hb.symm h0
    · rintro (⟨⟨rfl, rfl⟩, rfl⟩ | ⟨⟨rfl, rfl⟩, rfl⟩)
      · exact ⟨isInode_root v, (hw.root.2.2.2.2 0).trans (if_pos rfl), Nat.succ_ne_zero _⟩
      · exact ⟨(hw.isInode _).mpr (.inr rfl), (hw.file.2.2.2.2 0).trans (if_pos rfl), by omega⟩

/-- **Every block has one owner.** -/
theorem ImageView.exact (hw : ImageView n q v) (h : ImageFits n q) :
    Exact (v.Owns v.IsInode) v.Marked := by
  have hq := h.file
  have hle := h.le
  have h2 := two_lt_imageIno h
  have hmark : ∀ b, v.Marked b ↔ b < imageIno n + 2 ∨ b = q := fun b => by
    unfold Marked
    rw [hw.nblocks, hw.freemap]
    omega
  refine ⟨fun s b hs => ?_, fun b hb => ?_, fun s t b hs ht => ?_⟩
  · rw [hmark]
    have := (hw.owns h s b).mp hs
    omega
  · rw [hmark] at hb
    by_cases hq' : b = q
    · exact ⟨_, (hw.owns h _ b).mpr (.inr (.inr (.inr ⟨rfl, hq'⟩)))⟩
    by_cases hd : b = imageIno n + 1
    · exact ⟨_, (hw.owns h _ b).mpr (.inr (.inr (.inl ⟨rfl, hd⟩)))⟩
    by_cases hi : b = 1 ∨ b = imageIno n
    · exact ⟨_, (hw.owns h _ b).mpr (.inr (.inl ⟨rfl, hi⟩))⟩
    · exact ⟨_, (hw.owns h _ b).mpr (.inl ⟨rfl, by omega⟩)⟩
  · rcases (hw.owns h s b).mp hs with ⟨rfl, hs⟩ | ⟨rfl, hs⟩ | ⟨rfl, hs⟩ | ⟨rfl, hs⟩ <;>
      rcases (hw.owns h t b).mp ht with ⟨rfl, ht⟩ | ⟨rfl, ht⟩ | ⟨rfl, ht⟩ | ⟨rfl, ht⟩ <;>
      first | rfl | omega

/-- **The volume is sound.** -/
theorem image_sound (h : ImageFits n q) (hv : v = (imageMount n q hn answer).vol) : v.Sound := by
  have hw := image_view h hv
  have hlt := h.lt
  have hq := h.file
  have hle := h.le
  have h2 := two_lt_imageIno h
  have hbits : v.fs.freemapBits = (n + (sfsBitsperblock - 1)) / sfsBitsperblock * sfsBitsperblock := by
    unfold SfsFs.freemapBits
    rw [hw.nblocks, wadd_of_lt hlt]
  have hvnodes : v.fs.vnodes = [sfsRootdirIno, imageIno n] := by
    rw [hv]
    rfl
  have hsectors : ∀ b, EqOn lhdSectsize (v.disk.sector b) (imageSector n q b) := fun b o ho => by
    rw [hv]
    exact clip_apply ho
  have hd : SlotMap.Distinct v.slot v.nslots := by
    rw [hw.nslots]
    intro i j _ _ _ hi hj _ _
    omega
  have hnames : ∀ name ino, v.names name = some ino → ino = imageIno n := by
    intro name ino hname
    obtain ⟨k, hk, hs⟩ := (SlotMap.lookup_eq_some hd).mp hname
    rw [hw.nslots] at hk
    obtain rfl : k = 0 := by omega
    rw [hw.slot] at hs
    cases hs
    rfl
  refine ⟨⟨?_, hw.exact h, fun b hb _ => ?_, ?_, ?_, isInode_root v, fun ino hi => ?_,
    fun ino hi => isInode_of_mem hi, ?_, fun ino hi => ?_, fun ino hi _ => ?_, fun _ b hb => ?_,
    ?_, fun o ho _ => ?_⟩, ⟨hw.root.2.1, ?_, ?_, hd⟩, fun name ino hname => ?_, ?_,
    fun ino hi ht => ?_, fun ino hi hne => ?_⟩
  · rw [hv]
    change word (imageSb n) 0 = sfsMagic
    unfold imageSb
    rw [word_setWord hn, if_neg (by decide), word_setWord (by decide), if_pos rfl]
  · rw [hw.nblocks] at hb
    exact (hw.freemap b).mpr (.inr (.inr hb))
  · rw [hbits, hw.nblocks]
    unfold sfsBitsperblock
    omega
  · rw [hw.nblocks, hv]
    exact le_refl n
  · rcases (hw.isInode ino).mp hi with rfl | rfl
    · exact .inr hw.root.2.1
    · exact .inl hw.file.2.1
  · rw [hvnodes]
    have hne : sfsRootdirIno ≠ imageIno n := by
      unfold sfsRootdirIno
      omega
    simp [hne]
  · rw [hv]
    exact Nat.one_pos
  · have hinode : v.fs.inode ino = imageSector n q ino := by
      rw [hv]
      rfl
    rw [hinode]
    exact (words_congr (hsectors ino)).symm
  · -- the freemap on the disk
    have hblocks : b / sfsBitsperblock < imageIno n - sfsFreemapStart := by
      rw [← hw.blocks, Nat.add_sub_cancel_left]
      exact div_lt_freemapBlocks hb
    have hsector : imageSector n q (sfsFreemapStart + b / sfsBitsperblock) =
        freemapData (imageFreemap n q) (b / sfsBitsperblock) := by
      generalize b / sfsBitsperblock = j at hblocks ⊢
      have hstart : sfsFreemapStart = 2 := rfl
      have hsuper : sfsSuperBlock = 0 := rfl
      have hroot : sfsRootdirIno = 1 := rfl
      unfold imageSector
      rw [if_neg (by omega), if_neg (by omega), if_pos (by omega), Nat.add_sub_cancel_left]
    unfold diskFreemap
    rw [hsectors _ _ bit_lt, hsector, testBit_freemapData rfl, hv]
    rfl
  · rw [hv]
    rfl
  · rw [hsectors sfsSuperBlock o ho, hv]
    unfold imageSector
    rw [if_pos rfl]
    rfl
  · rw [hw.root.1, hw.nslots]
    rfl
  · rw [hw.root.1]
    decide
  · rw [hnames name ino hname]
    exact hw.file.2.1
  · rw [hw.root.2.2.1]
    decide
  · rcases (hw.isInode ino).mp hi with rfl | rfl
    · rfl
    · rw [hw.file.2.1] at ht
      cases ht
  · obtain rfl := ((hw.isInode ino).mp hi).resolve_left hne
    rw [hw.file.2.2.1]
    have hlink : SlotMap.holders v.slot v.nslots (imageIno n) = {0} := by
      ext k
      rw [SlotMap.mem_holders, Finset.mem_singleton, hw.nslots]
      constructor
      · rintro ⟨hk, -⟩
        omega
      · rintro rfl
        exact ⟨Nat.one_pos, _, hw.slot⟩
    unfold links SlotMap.count
    rw [hlink]
    rfl

theorem writeUio_valid {len : ℕ} (hlen : len < wordSize) (data : Buffer) :
    SfsFs.Valid (writeUio len data) := ⟨le_of_eq (Nat.add_zero len).symm, hlen⟩

/-- A request within the first block of a file is low if that block is. -/
theorem writeUio_low {ino len : ℕ} (hlen : len ≤ sfsBlocksize) (data : Buffer)
    (hlow : SfsFs.LowBlock ino v (writeUio len data)) : SfsFs.Low ino v (writeUio len data) := by
  intro u' w he
  obtain ⟨rfl, rfl⟩ : writeUio len data = u' ∧ v = w := by
    have hpure : exec (SfsFs.ioLead ino (cut (v.file ino).size (writeUio len data))) v =
        .ok (.ok (none, writeUio len data), v) := rfl
    simpa using hpure.symm.trans he
  have hresid : (writeUio len data).resid = len := rfl
  by_cases hfull : len = sfsBlocksize
  · rw [hresid, hfull, Nat.div_self (by decide), ← hfull]
    exact ⟨hlow, fun _ _ _ => trivial⟩
  · rw [hresid, Nat.div_eq_of_lt (lt_of_le_of_ne hlen hfull)]
    trivial

end Sound

end Os161
