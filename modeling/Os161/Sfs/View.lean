import Os161.Lib.Owner
import Os161.Sfs.Spec

set_option autoImplicit false

/-!
# The files and blocks of a volume

What the in-memory inodes and the sectors mean: the files, and the owners of the blocks.

* `Vol.file`: a file; `Vol.Owns`: the owners of the blocks.
* `Vol.Physical`: every marked block has one owner, and what is not dirty is on the disk.
* `Vol.Touch`: what a step on one file leaves alone; **`Physical.touch`**: when such a step keeps the
  volume physical.
-/

namespace Os161

open Buffer

/-- The words of a block. -/
def words (b : Buffer) (i : ℕ) : ℕ := if i < sfsDbperidb then word b i else 0

section Words

variable {b b' : Buffer} {i w : ℕ}

theorem words_of_lt (hi : i < sfsDbperidb) : words b i = word b i := if_pos hi

theorem words_congr (h : EqOn lhdSectsize b b') : words b = words b' := by
  funext i
  unfold words
  split_ifs with hi
  · exact word_congr h (by unfold sfsDbperidb at hi; unfold lhdSectsize; omega)
  · rfl

@[simp] theorem words_clip : words (SfsFs.clip b) = words b :=
  words_congr fun _ ho => SfsFs.clip_apply ho

@[simp] theorem words_zero : words (fun _ => 0) = fun _ => 0 := by
  funext i
  unfold words
  split_ifs
  · exact word_zero
  · rfl

theorem words_setWord (hi : i < sfsDbperidb) (hw : w < wordSize) :
    words (setWord b i w) = Function.update (words b) i w := by
  funext j
  unfold words
  by_cases hj : j = i
  · rw [hj, Function.update_self, if_pos hi, word_setWord hw, if_pos rfl]
  · rw [Function.update_of_ne hj]
    split_ifs
    · rw [word_setWord hw, if_neg hj]
    · rfl

theorem word_lt : word b i < wordSize := by
  have h0 := (b (4 * i)).toNat_lt
  have h1 := (b (4 * i + 1)).toNat_lt
  have h2 := (b (4 * i + 2)).toNat_lt
  have h3 := (b (4 * i + 3)).toNat_lt
  unfold word wordSize
  omega

theorem words_lt : words b i < wordSize := by
  unfold words
  split_ifs
  · exact word_lt
  · decide

end Words

/-- A file: `sfi_size`, `sfi_type`, `sfi_linkcount` and its bytes. -/
structure FileView where
  size : ℕ
  type : ℕ
  linkcount : ℕ
  byte : Buffer

/-- What can own a block: the superblock and the freemap, an inode, the pointer to an indirect block,
and the pointer to block `fb` of a file. -/
inductive Slot
  | metadata (b : ℕ)
  | inode (ino : ℕ)
  | indirect (ino : ℕ)
  | block (ino fb : ℕ)
  deriving DecidableEq

/-- The file of a slot. -/
def Slot.file : Slot → Option ℕ
  | .metadata _ => none
  | .inode ino => some ino
  | .indirect ino => some ino
  | .block ino _ => some ino

namespace Vol

variable (v : Vol)

/-- The words of an inode, in memory or on the disk. -/
def inodeWords (ino : ℕ) : ℕ → ℕ :=
  words (if ino ∈ v.fs.vnodes then v.fs.inode ino else v.disk.sector ino)

/-- The indirect block of a file. -/
def indirect (ino : ℕ) : ℕ := v.inodeWords ino 17

/-- The entries of the indirect block of a file. -/
def entries (ino : ℕ) : ℕ → ℕ :=
  if v.indirect ino = 0 then fun _ => 0 else words (v.disk.sector (v.indirect ino))

/-- Block `fb` of a file. -/
def blockOf (ino fb : ℕ) : ℕ :=
  if fb < sfsNdirect then v.inodeWords ino (2 + fb) else v.entries ino (fb - sfsNdirect)

/-- The bytes of a file. -/
def byte (ino : ℕ) : Buffer := fun x =>
  if v.blockOf ino (x / sfsBlocksize) = 0 then 0
  else v.disk.sector (v.blockOf ino (x / sfsBlocksize)) (x % sfsBlocksize)

/-- A file. -/
def file (ino : ℕ) : FileView where
  size := v.inodeWords ino 0
  type := v.inodeWords ino 1 / 2 ^ 16
  linkcount := v.inodeWords ino 1 % 2 ^ 16
  byte := v.byte ino

/-- The superblock and the freemap. -/
def IsMeta (b : ℕ) : Prop :=
  b = sfsSuperBlock ∨ sfsFreemapStart ≤ b ∧ b < sfsFreemapStart + v.fs.freemapBlocks

/-- **Slot `s` owns block `b`**, if the inodes are those of `I`. -/
def Owns (I : ℕ → Prop) : Slot → ℕ → Prop
  | .metadata c, b => c = b ∧ v.IsMeta b
  | .inode ino, b => ino = b ∧ I ino
  | .indirect ino, b => I ino ∧ v.indirect ino = b ∧ b ≠ 0
  | .block ino fb, b => I ino ∧ v.blockOf ino fb = b ∧ b ≠ 0

/-- The block is marked in the freemap. -/
def Marked (b : ℕ) : Prop := b < v.fs.nblocks ∧ v.fs.freemap b = true

/-- The bit of a block in the freemap on the disk. -/
def diskFreemap (b : ℕ) : Bool :=
  (v.disk.sector (sfsFreemapStart + b / sfsBitsperblock) (b % sfsBitsperblock / 8)).toNat.testBit
    (b % 8)

/-- **The volume is in order**: every marked block has one owner, the inodes are loaded at most once,
and what is not dirty is on the disk, apart from the end of the name of the volume. -/
structure Physical (I : ℕ → Prop) : Prop where
  magic : sbMagic v.fs.sb = sfsMagic
  exact : Exact (v.Owns I) v.Marked
  tail : ∀ b, v.fs.nblocks ≤ b → b < v.fs.freemapBits → v.fs.freemap b = true
  nblocks_le : v.fs.nblocks ≤ v.fs.freemapBits
  fits : v.fs.nblocks ≤ v.disk.nsect
  root : I sfsRootdirIno
  type : ∀ ino, I ino → (v.file ino).type = sfsTypeFile ∨ (v.file ino).type = sfsTypeDir
  loaded : ∀ ino ∈ v.fs.vnodes, I ino
  nodup : v.fs.vnodes.Nodup
  refs : ∀ ino ∈ v.fs.vnodes, 0 < (v.fs.sv ino).refcount
  clean : ∀ ino ∈ v.fs.vnodes, (v.fs.sv ino).dirty = false →
    words (v.fs.inode ino) = words (v.disk.sector ino)
  freemap_clean : v.fs.freemapdirty = false → ∀ b < v.fs.freemapBits,
    v.diskFreemap b = v.fs.freemap b
  super_clean : v.fs.superdirty = false ∧
    ∀ o < sfsBlocksize, o ≠ 39 → v.fs.sb o = v.disk.sector sfsSuperBlock o

/-- The name of the volume ends with a NUL, in the memory and on the disk. -/
def Ended : Prop := v.fs.sb 39 = 0 ∧ v.disk.sector sfsSuperBlock 39 = 0

/-- **A step on the file `ino`** leaves the other files, the superblock and the table alone. -/
structure Touch (I : ℕ → Prop) (ino : ℕ) (v v' : Vol) : Prop where
  nsect : v'.disk.nsect = v.disk.nsect
  sb : v'.fs.sb = v.fs.sb
  superdirty : v'.fs.superdirty = v.fs.superdirty
  vnodes : v'.fs.vnodes = v.fs.vnodes
  memory : v'.fs.memory = v.fs.memory
  refcount : ino ∈ v.fs.vnodes → (v'.fs.sv ino).refcount = (v.fs.sv ino).refcount
  sv : ∀ j, j ≠ ino → v'.fs.sv j = v.fs.sv j
  sector : ∀ s b, v.Owns I s b → s.file ≠ some ino → v'.disk.sector b = v.disk.sector b

section Lemmas

variable {v} {v' v'' : Vol} {I : ℕ → Prop} {ino j fb b : ℕ} {s : Slot}

/-- The view of an inode that is loaded. -/
theorem inodeWords_loaded (h : ino ∈ v.fs.vnodes) : v.inodeWords ino = words (v.fs.inode ino) := by
  rw [inodeWords, if_pos h]

theorem inodeWords_unloaded (h : ino ∉ v.fs.vnodes) : v.inodeWords ino = words (v.disk.sector ino) := by
  rw [inodeWords, if_neg h]

theorem inodeWords_lt (i : ℕ) : v.inodeWords ino i < wordSize := words_lt

theorem blockOf_direct (h : fb < sfsNdirect) : v.blockOf ino fb = v.inodeWords ino (2 + fb) := if_pos h

theorem blockOf_entry (h : ¬ fb < sfsNdirect) : v.blockOf ino fb = v.entries ino (fb - sfsNdirect) :=
  if_neg h

theorem entries_zero (h : v.indirect ino = 0) : v.entries ino = fun _ => 0 := by rw [entries, if_pos h]

theorem entries_ne (h : v.indirect ino ≠ 0) : v.entries ino = words (v.disk.sector (v.indirect ino)) := by
  rw [entries, if_neg h]

theorem entries_of_le (k : ℕ) (hk : sfsDbperidb ≤ k) : v.entries ino k = 0 := by
  by_cases h : v.indirect ino = 0
  · rw [entries_zero h]
  · rw [entries_ne h, words, if_neg (Nat.not_lt.mpr hk)]

theorem blockOf_of_le (h : sfsMaxblocks ≤ fb) : v.blockOf ino fb = 0 := by
  have hmax : sfsMaxblocks = sfsNdirect + sfsDbperidb := rfl
  rw [blockOf_entry (by omega)]
  exact entries_of_le _ (by omega)

/-- The pointers of a file depend on its inode and on its indirect block. -/
theorem entries_congr (hw : v'.inodeWords ino 17 = v.inodeWords ino 17)
    (hs : v.indirect ino ≠ 0 →
      words (v'.disk.sector (v.indirect ino)) = words (v.disk.sector (v.indirect ino))) :
    v'.entries ino = v.entries ino := by
  have hi : v'.indirect ino = v.indirect ino := hw
  unfold entries
  rw [hi]
  split_ifs with h0
  · rfl
  · exact hs h0

theorem blockOf_congr (hw : v'.inodeWords ino = v.inodeWords ino)
    (hs : v.indirect ino ≠ 0 →
      words (v'.disk.sector (v.indirect ino)) = words (v.disk.sector (v.indirect ino))) :
    v'.blockOf ino = v.blockOf ino := by
  funext fb
  unfold blockOf
  rw [hw, entries_congr (by rw [hw]) hs]

theorem byte_congr (hb : v'.blockOf ino = v.blockOf ino)
    (hs : ∀ fb, v.blockOf ino fb ≠ 0 →
      EqOn sfsBlocksize (v'.disk.sector (v.blockOf ino fb)) (v.disk.sector (v.blockOf ino fb))) :
    v'.byte ino = v.byte ino := by
  funext x
  unfold byte
  rw [hb]
  split_ifs with h0
  · rfl
  · exact hs _ h0 _ (Nat.mod_lt _ (by decide))

/-! ### Touch -/

theorem Touch.refl (I : ℕ → Prop) (ino : ℕ) (v : Vol) : Touch I ino v v :=
  ⟨rfl, rfl, rfl, rfl, rfl, fun _ => rfl, fun _ _ => rfl, fun _ _ _ _ => rfl⟩

theorem Touch.inodeWords (h : Touch I ino v v') (hj : I j) (hne : j ≠ ino) :
    v'.inodeWords j = v.inodeWords j := by
  unfold Vol.inodeWords SfsFs.inode
  rw [h.vnodes, h.sv j hne, h.sector (.inode j) j ⟨rfl, hj⟩ fun he => hne (Option.some.inj he)]

theorem Touch.indirect_sector (h : Touch I ino v v') (hj : I j) (hne : j ≠ ino)
    (h0 : v.indirect j ≠ 0) : v'.disk.sector (v.indirect j) = v.disk.sector (v.indirect j) :=
  h.sector (.indirect j) _ ⟨hj, rfl, h0⟩ fun he => hne (Option.some.inj he)

theorem Touch.indirect (h : Touch I ino v v') (hj : I j) (hne : j ≠ ino) :
    v'.indirect j = v.indirect j := congrFun (h.inodeWords hj hne) 17

theorem Touch.blockOf (h : Touch I ino v v') (hj : I j) (hne : j ≠ ino) :
    v'.blockOf j = v.blockOf j :=
  blockOf_congr (h.inodeWords hj hne) fun h0 => by rw [h.indirect_sector hj hne h0]

/-- **The other files are the same.** -/
theorem Touch.file (h : Touch I ino v v') (hj : I j) (hne : j ≠ ino) : v'.file j = v.file j := by
  have hbyte : v'.byte j = v.byte j := byte_congr (h.blockOf hj hne) fun fb h0 o _ => by
    rw [h.sector (.block j fb) _ ⟨hj, rfl, h0⟩ fun he => hne (Option.some.inj he)]
  unfold Vol.file
  rw [h.inodeWords hj hne, hbyte]

theorem Touch.isMeta (h : Touch I ino v v') : v'.IsMeta b ↔ v.IsMeta b := by
  unfold IsMeta SfsFs.freemapBlocks SfsFs.freemapBits SfsFs.nblocks
  rw [h.sb]

/-- The other owners are the same. -/
theorem Touch.owns (h : Touch I ino v v') (hs : s.file ≠ some ino) :
    v'.Owns I s b ↔ v.Owns I s b := by
  cases s with
  | metadata c => exact and_congr_right fun _ => h.isMeta
  | inode j => exact Iff.rfl
  | indirect j =>
    refine and_congr_right fun hj => ?_
    rw [h.indirect hj fun he => hs (congrArg some he)]
  | block j fb =>
    refine and_congr_right fun hj => ?_
    rw [h.blockOf hj fun he => hs (congrArg some he)]

theorem Touch.trans (h : Touch I ino v v') (h' : Touch I ino v' v'') : Touch I ino v v'' where
  nsect := h'.nsect.trans h.nsect
  sb := h'.sb.trans h.sb
  superdirty := h'.superdirty.trans h.superdirty
  vnodes := h'.vnodes.trans h.vnodes
  memory := h'.memory.trans h.memory
  refcount hl := (h'.refcount (h.vnodes ▸ hl)).trans (h.refcount hl)
  sv j hj := (h'.sv j hj).trans (h.sv j hj)
  sector s b hs hne := (h'.sector s b ((h.owns hne).mpr hs) hne).trans (h.sector s b hs hne)

theorem Touch.nblocks (h : Touch I ino v v') : v'.fs.nblocks = v.fs.nblocks := by
  unfold SfsFs.nblocks
  rw [h.sb]

theorem Touch.freemapBits (h : Touch I ino v v') : v'.fs.freemapBits = v.fs.freemapBits := by
  unfold SfsFs.freemapBits SfsFs.nblocks
  rw [h.sb]

theorem Touch.ended (h : Touch I ino v v') (he : v.Ended) : v'.Ended := by
  unfold Ended
  rw [h.sb, h.sector (.metadata sfsSuperBlock) _ ⟨rfl, .inl rfl⟩ fun he => by cases he]
  exact he

/-- A bit of the freemap is in one of the blocks of the freemap. -/
theorem isMeta_freemap (hb : b < v.fs.freemapBits) :
    v.IsMeta (sfsFreemapStart + b / sfsBitsperblock) := by
  refine .inr ⟨Nat.le_add_right .., Nat.add_lt_add_left ?_ _⟩
  unfold SfsFs.freemapBlocks
  have hdvd : v.fs.freemapBits / sfsBitsperblock * sfsBitsperblock = v.fs.freemapBits :=
    Nat.div_mul_cancel (Nat.dvd_mul_left ..)
  exact Nat.div_lt_of_lt_mul (by rw [Nat.mul_comm]; omega)

/-- **When a step on a file keeps the volume in order**: the owners are exact again, and what it
changes is dirty. -/
theorem Physical.touch (h : v.Physical I) (ht : Touch I ino v v')
    (hexact : Exact (v'.Owns I) v'.Marked)
    (htail : ∀ b, v.fs.nblocks ≤ b → v'.fs.freemap b = v.fs.freemap b)
    (hfreemap : v'.fs.freemapdirty = false → v.fs.freemapdirty = false ∧ v'.fs.freemap = v.fs.freemap)
    (hclean : ino ∈ v.fs.vnodes → (v'.fs.sv ino).dirty = false →
      words (v'.fs.inode ino) = words (v'.disk.sector ino))
    (htype : I ino → (v'.file ino).type = (v.file ino).type) : v'.Physical I where
  magic := by
    rw [ht.sb]
    exact h.magic
  exact := hexact
  tail b hb hlt := by
    rw [ht.nblocks] at hb
    rw [ht.freemapBits] at hlt
    rw [htail b hb]
    exact h.tail b hb hlt
  nblocks_le := by
    rw [ht.nblocks, ht.freemapBits]
    exact h.nblocks_le
  fits := by
    rw [ht.nblocks, ht.nsect]
    exact h.fits
  root := h.root
  type j hj := by
    by_cases hne : j = ino
    · rw [hne] at hj ⊢
      rw [htype hj]
      exact h.type ino hj
    · rw [ht.file hj hne]
      exact h.type j hj
  loaded j hj := h.loaded j (ht.vnodes ▸ hj)
  nodup := ht.vnodes ▸ h.nodup
  refs j hj := by
    rw [ht.vnodes] at hj
    by_cases hne : j = ino
    · rw [hne] at hj ⊢
      rw [ht.refcount hj]
      exact h.refs ino hj
    · rw [ht.sv j hne]
      exact h.refs j hj
  clean j hj hd := by
    rw [ht.vnodes] at hj
    by_cases hne : j = ino
    · rw [hne] at hj hd ⊢
      exact hclean hj hd
    · rw [ht.sv j hne] at hd
      have := h.clean j hj hd
      rw [SfsFs.inode, ht.sv j hne,
        ht.sector (.inode j) j ⟨rfl, h.loaded j hj⟩ fun he => hne (Option.some.inj he)]
      exact this
  freemap_clean hd b hb := by
    rw [ht.freemapBits] at hb
    obtain ⟨hd, hf⟩ := hfreemap hd
    have hmeta : v.Owns I (.metadata (sfsFreemapStart + b / sfsBitsperblock)) _ :=
      ⟨rfl, isMeta_freemap hb⟩
    rw [hf, ← h.freemap_clean hd b hb]
    unfold diskFreemap
    rw [ht.sector _ _ hmeta (by simp [Slot.file])]
  super_clean := by
    have hmeta : v.Owns I (.metadata sfsSuperBlock) sfsSuperBlock := ⟨rfl, .inl rfl⟩
    rw [ht.superdirty, ht.sb, ht.sector _ _ hmeta (by simp [Slot.file])]
    exact h.super_clean

end Lemmas

end Vol

end Os161
