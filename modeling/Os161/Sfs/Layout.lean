import Os161.Sfs.Image

set_option autoImplicit false

/-!
# A volume with one file of any layout

A small volume whose only file has the blocks that a layout says. The file is loaded and has no name,
and all that is in memory is on the disk.

* `Layout`: where the blocks of the file are, and what is in them; `Layout.vol`: the volume.
* **`Layout.physical`**: it is in order.
-/

namespace Os161

open Buffer SfsFs Vol

/-- A block of words. -/
def ofWords (f : ℕ → ℕ) : Buffer := fun o => UInt8.ofNat (f (o / 4) / 256 ^ (3 - o % 4))

theorem word_ofWords {f : ℕ → ℕ} {i : ℕ} (h : f i < wordSize) : word (ofWords f) i = f i := by
  have hset : ∀ c < 4, ofWords f (4 * i + c) = setWord (fun _ => 0) i (f i) (4 * i + c) :=
    fun c hc => by
      have hdiv : (4 * i + c) / 4 = i := by omega
      unfold ofWords setWord
      rw [hdiv, if_pos rfl]
  have h0 := hset 0 (by decide)
  rw [Nat.add_zero] at h0
  have hword : word (ofWords f) i = word (setWord (fun _ => 0) i (f i)) i := by
    unfold word
    rw [h0, hset 1 (by decide), hset 2 (by decide), hset 3 (by decide)]
  rw [hword, word_setWord h, if_pos rfl]

theorem words_ofWords {f : ℕ → ℕ} (h : ∀ i, f i < wordSize) (h0 : ∀ i, sfsDbperidb ≤ i → f i = 0) :
    words (ofWords f) = f := by
  funext i
  unfold words
  split_ifs with hi
  · exact word_ofWords (h i)
  · exact (h0 i (Nat.not_lt.mp hi)).symm

/-- The inode of the file. -/
def layoutIno : ℕ := 3

/-- A file: its size, its indirect block, its blocks, and what the sectors of a volume of `n` blocks
hold. -/
structure Layout where
  n : ℕ
  size : ℕ
  indirect : ℕ
  block : ℕ → ℕ
  data : ℕ → Buffer
  le : layoutIno < n ∧ n ≤ sfsBitsperblock
  size_lt : size < wordSize
  indirect_bound : indirect = 0 ∨ layoutIno < indirect ∧ indirect < n
  bound : ∀ fb, block fb = 0 ∨ layoutIno < block fb ∧ block fb < n
  max : ∀ fb, sfsNdirect + sfsDbperidb ≤ fb → block fb = 0
  hole : indirect = 0 → ∀ fb, sfsNdirect ≤ fb → block fb = 0
  inj : ∀ fb fb', block fb ≠ 0 → block fb = block fb' → fb = fb'
  indirect_ne : indirect ≠ 0 → ∀ fb, block fb ≠ indirect

namespace Layout

variable (l : Layout)

/-- The words of the inode of the file. -/
def inodeWords (i : ℕ) : ℕ :=
  if i = 0 then l.size
  else if i = 1 then sfsTypeFile * 2 ^ 16 + 1
  else if i < 2 + sfsNdirect then l.block (i - 2)
  else if i = 17 then l.indirect
  else 0

/-- The freemap. -/
def freemap (b : ℕ) : Bool :=
  decide (b ≤ layoutIno ∨ l.n ≤ b ∨ b = l.indirect ∨ ∃ fb < sfsNdirect + sfsDbperidb, l.block fb = b)

/-- The sectors. -/
def sector (b : ℕ) : Buffer :=
  if b = sfsSuperBlock then imageSb l.n
  else if b = sfsRootdirIno then imageInode 0 sfsTypeDir 0
  else if b = sfsFreemapStart then freemapData l.freemap 0
  else if b = layoutIno then ofWords l.inodeWords
  else if b = l.indirect then ofWords fun j => l.block (sfsNdirect + j)
  else l.data b

/-- The memory. -/
def fs : SfsFs where
  sb := imageSb l.n
  superdirty := false
  vnodes := [sfsRootdirIno, layoutIno]
  sv ino := ⟨l.sector ino, false, 1⟩
  freemap := l.freemap
  freemapdirty := false
  iobuf := fun _ => 0
  idbuf := fun _ => 0
  truncbuf := fun _ => 0
  metaiobuf := fun _ => 0
  memory := fun _ => true

theorem n_lt : l.n < wordSize := lt_of_le_of_lt l.le.2 (by decide)

/-- **The volume.** -/
def vol : Vol := ⟨l.fs, ⟨l.n, l.n_lt, l.sector⟩⟩

/-- The inodes. -/
def Inode (j : ℕ) : Prop := j = sfsRootdirIno ∨ j = layoutIno

section Lemmas

variable {l}

theorem block_lt (fb : ℕ) : l.block fb < wordSize := by
  rcases l.bound fb with h | h
  · rw [h]
    decide
  · exact lt_trans h.2 l.n_lt

theorem indirect_lt : l.indirect < wordSize := by
  rcases l.indirect_bound with h | h
  · rw [h]
    decide
  · exact lt_trans h.2 l.n_lt

theorem words_root : l.vol.inodeWords sfsRootdirIno = words (imageInode 0 sfsTypeDir 0) := rfl

theorem words_file : l.vol.inodeWords layoutIno = l.inodeWords := by
  refine words_ofWords (fun i => ?_) fun i hi => ?_
  · unfold inodeWords
    split_ifs
    · exact l.size_lt
    · decide
    · exact block_lt _
    · exact indirect_lt
    · decide
  · have hid : sfsDbperidb = 128 := rfl
    have hnd : sfsNdirect = 15 := rfl
    unfold inodeWords
    rw [if_neg (by omega), if_neg (by omega), if_neg (by omega), if_neg (by omega)]

@[simp] theorem vol_indirect : l.vol.indirect layoutIno = l.indirect := by
  rw [Vol.indirect, words_file]
  rfl

theorem sector_indirect (h : l.indirect ≠ 0) :
    l.sector l.indirect = ofWords fun j => l.block (sfsNdirect + j) := by
  have hb := l.indirect_bound.resolve_left h
  have hl : layoutIno = 3 := rfl
  unfold sector
  rw [if_neg (by unfold sfsSuperBlock; omega), if_neg (by unfold sfsRootdirIno; omega),
    if_neg (by unfold sfsFreemapStart; omega), if_neg (by omega), if_pos rfl]

@[simp] theorem vol_entries (j : ℕ) : l.vol.entries layoutIno j = l.block (sfsNdirect + j) := by
  by_cases h : l.indirect = 0
  · rw [entries_zero (by rw [vol_indirect, h])]
    exact (l.hole h _ (Nat.le_add_right ..)).symm
  · rw [entries_ne (by rw [vol_indirect]; exact h), vol_indirect]
    change words (l.sector l.indirect) j = _
    rw [sector_indirect h, words_ofWords (fun _ => block_lt _) fun j hj => l.max _ (by omega)]

@[simp] theorem vol_blockOf (fb : ℕ) : l.vol.blockOf layoutIno fb = l.block fb := by
  by_cases hfb : fb < sfsNdirect
  · have hnd : sfsNdirect = 15 := rfl
    rw [blockOf_direct hfb, words_file, inodeWords, if_neg (by omega), if_neg (by omega),
      if_pos (by omega), Nat.add_sub_cancel_left]
  · rw [blockOf_entry hfb, vol_entries, Nat.add_sub_cancel' (Nat.not_lt.mp hfb)]

theorem root : (l.vol.file sfsRootdirIno).type = sfsTypeDir ∧ l.vol.indirect sfsRootdirIno = 0 ∧
    ∀ fb, l.vol.blockOf sfsRootdirIno fb = 0 := by
  obtain ⟨-, ht, -, hi, hb⟩ := image_file (v := l.vol) sfsRootdirIno 0 sfsTypeDir 0 words_root
    (by decide) (by decide) (by decide)
  exact ⟨ht, hi, fun fb => by rw [hb, ite_self]⟩

theorem file_type : (l.vol.file layoutIno).type = sfsTypeFile := by
  change l.vol.inodeWords layoutIno 1 / 2 ^ 16 = _
  rw [words_file, inodeWords, if_neg (by decide), if_pos rfl]
  decide

theorem nblocks : l.vol.fs.nblocks = l.n := by
  change word (imageSb l.n) 1 = l.n
  unfold imageSb
  rw [word_setWord l.n_lt, if_pos rfl]

theorem freemapBits : l.vol.fs.freemapBits = sfsBitsperblock := by
  have hle := l.le
  have hl : layoutIno = 3 := rfl
  have hbits : sfsBitsperblock = 4096 := rfl
  unfold SfsFs.freemapBits
  rw [nblocks, wadd_of_lt (by unfold wordSize; omega)]
  have hdiv : (l.n + (sfsBitsperblock - 1)) / sfsBitsperblock = 1 := by
    rw [hbits] at hle ⊢
    omega
  rw [hdiv, Nat.one_mul]

theorem isMeta (b : ℕ) : l.vol.IsMeta b ↔ b = 0 ∨ b = 2 := by
  have hblocks : l.vol.fs.freemapBlocks = 1 := by
    unfold SfsFs.freemapBlocks
    rw [freemapBits, Nat.div_self (by decide)]
  have hstart : sfsFreemapStart = 2 := rfl
  have hsuper : sfsSuperBlock = 0 := rfl
  unfold IsMeta
  rw [hblocks]
  omega

/-- The blocks of the file are owned by it. -/
theorem owns (s : Slot) (b : ℕ) : l.vol.Owns Inode s b ↔
    s = .metadata b ∧ (b = 0 ∨ b = 2) ∨ s = .inode b ∧ (b = 1 ∨ b = 3) ∨
      s = .indirect layoutIno ∧ b = l.indirect ∧ b ≠ 0 ∨
      ∃ fb, s = .block layoutIno fb ∧ b = l.block fb ∧ b ≠ 0 := by
  cases s with
  | metadata c =>
    change c = b ∧ l.vol.IsMeta b ↔ _
    rw [isMeta]
    simp
  | inode j =>
    change j = b ∧ Inode j ↔ _
    simp only [reduceCtorEq, false_and, false_or, or_false, exists_false, Slot.inode.injEq]
    exact and_congr_right fun hj => by rw [hj]; exact Iff.rfl
  | indirect j =>
    change Inode j ∧ l.vol.indirect j = b ∧ b ≠ 0 ↔ _
    simp only [reduceCtorEq, false_and, false_or, or_false, exists_false, Slot.indirect.injEq]
    constructor
    · rintro ⟨rfl | rfl, hb, h0⟩
      · exact absurd (hb.symm.trans root.2.1) h0
      · exact ⟨rfl, hb.symm.trans vol_indirect, h0⟩
    · rintro ⟨rfl, rfl, h0⟩
      exact ⟨.inr rfl, vol_indirect, h0⟩
  | block j fb =>
    change Inode j ∧ l.vol.blockOf j fb = b ∧ b ≠ 0 ↔ _
    simp only [reduceCtorEq, false_and, false_or, Slot.block.injEq]
    constructor
    · rintro ⟨rfl | rfl, hb, h0⟩
      · exact absurd (hb.symm.trans (root.2.2 fb)) h0
      · exact ⟨fb, ⟨rfl, rfl⟩, hb.symm.trans (vol_blockOf fb), h0⟩
    · rintro ⟨fb', ⟨rfl, rfl⟩, rfl, h0⟩
      exact ⟨.inr rfl, vol_blockOf fb, h0⟩

/-- **Every block has one owner.** -/
theorem exact : Exact (l.vol.Owns Inode) l.vol.Marked := by
  have hn := l.le.1
  have hl : layoutIno = 3 := rfl
  have hmark : ∀ b, l.vol.Marked b ↔ b < l.n ∧ (b ≤ 3 ∨ b = l.indirect ∨
      ∃ fb < sfsNdirect + sfsDbperidb, l.block fb = b) := fun b => by
    unfold Marked
    rw [nblocks]
    change _ ∧ decide _ = true ↔ _
    rw [decide_eq_true_iff]
    refine and_congr_right fun hb => or_congr_right (or_iff_right (Nat.not_le.mpr hb))
  refine ⟨fun s b hs => ?_, fun b hb => ?_, fun s t b hs ht => ?_⟩
  · rw [hmark]
    rcases (owns s b).mp hs with ⟨-, hb⟩ | ⟨-, hb⟩ | ⟨-, rfl, h0⟩ | ⟨fb, -, rfl, h0⟩
    · omega
    · omega
    · exact ⟨(l.indirect_bound.resolve_left h0).2, .inr (.inl rfl)⟩
    · refine ⟨((l.bound fb).resolve_left h0).2, .inr (.inr ⟨fb, ?_, rfl⟩)⟩
      by_contra hge
      exact h0 (l.max fb (Nat.not_lt.mp hge))
  · obtain ⟨-, hb⟩ := (hmark b).mp hb
    by_cases hle : b ≤ 3
    · by_cases hmeta : b = 0 ∨ b = 2
      · exact ⟨_, (owns _ b).mpr (.inl ⟨rfl, hmeta⟩)⟩
      · exact ⟨_, (owns _ b).mpr (.inr (.inl ⟨rfl, by omega⟩))⟩
    · rcases hb.resolve_left hle with rfl | ⟨fb, -, rfl⟩
      · exact ⟨_, (owns _ _).mpr (.inr (.inr (.inl ⟨rfl, rfl, by omega⟩)))⟩
      · exact ⟨_, (owns _ _).mpr (.inr (.inr (.inr ⟨fb, rfl, rfl, by omega⟩)))⟩
  · have hi : l.indirect ≠ 0 → 3 < l.indirect := fun h0 => (l.indirect_bound.resolve_left h0).1
    have hf : ∀ fb, l.block fb ≠ 0 → 3 < l.block fb := fun fb h0 =>
      ((l.bound fb).resolve_left h0).1
    rcases (owns s b).mp hs with ⟨rfl, hs⟩ | ⟨rfl, hs⟩ | ⟨rfl, hs, h0⟩ | ⟨fb, rfl, hs, h0⟩ <;>
      rcases (owns t b).mp ht with ⟨rfl, ht⟩ | ⟨rfl, ht⟩ | ⟨rfl, ht, h1⟩ | ⟨fb', rfl, ht, h1⟩
    case inr.inr.inl.inr.inr.inr => exact absurd (ht.symm.trans hs) (l.indirect_ne (hs ▸ h0) fb')
    case inr.inr.inr.inr.inr.inl => exact absurd (hs.symm.trans ht) (l.indirect_ne (ht ▸ h0) fb)
    case inr.inr.inr.inr.inr.inr =>
      exact congrArg _ (l.inj fb fb' (hs ▸ h0) (hs.symm.trans ht))
    all_goals
      first
      | rfl
      | omega
      | exact absurd (hf fb (hs ▸ h0)) (by omega)
      | exact absurd (hf fb' (ht ▸ h1)) (by omega)

/-- **The volume is in order.** -/
theorem physical : l.vol.Physical Inode := by
  have hle := l.le
  have hl : layoutIno = 3 := rfl
  refine ⟨?_, exact, fun b hb _ => ?_, ?_, ?_, .inl rfl, fun ino hi => ?_, fun ino hi => ?_, ?_,
    fun _ _ => Nat.one_pos, fun _ _ _ => rfl, fun _ b hb => ?_, rfl, fun _ _ _ => rfl⟩
  · change word (imageSb l.n) 0 = sfsMagic
    unfold imageSb
    rw [word_setWord l.n_lt, if_neg (by decide), word_setWord (by decide), if_pos rfl]
  · rw [nblocks] at hb
    exact decide_eq_true (.inr (.inl hb))
  · rw [nblocks, freemapBits]
    exact l.le.2
  · rw [nblocks]
    exact le_refl l.n
  · rcases hi with rfl | rfl
    · exact .inr root.1
    · exact .inl file_type
  · change ino ∈ [sfsRootdirIno, layoutIno] at hi
    simpa [Inode] using hi
  · change [sfsRootdirIno, layoutIno].Nodup
    decide
  · rw [freemapBits] at hb
    have hdiv : b / sfsBitsperblock = 0 := Nat.div_eq_of_lt hb
    unfold diskFreemap
    rw [hdiv]
    change (freemapData l.freemap 0 _).toNat.testBit _ = l.freemap b
    exact testBit_freemapData hdiv

theorem mem_vnodes : layoutIno ∈ l.vol.fs.vnodes := by
  change layoutIno ∈ [sfsRootdirIno, layoutIno]
  decide

end Lemmas

end Layout

/-- A file with the blocks 15 and 16. -/
def twoEntries : Layout where
  n := 16
  size := 17 * sfsBlocksize
  indirect := 4
  block fb := if fb = 15 then 5 else if fb = 16 then 6 else 0
  data _ _ := 0
  le := by decide
  size_lt := by decide
  indirect_bound := by decide
  bound fb := by
    split_ifs <;> decide
  max fb hfb := by
    unfold sfsNdirect sfsDbperidb at hfb
    rw [if_neg (by omega), if_neg (by omega)]
  hole h := by cases h
  inj fb fb' h0 he := by
    split_ifs at h0 he <;> omega
  indirect_ne _ fb := by
    split_ifs <;> decide

end Os161
