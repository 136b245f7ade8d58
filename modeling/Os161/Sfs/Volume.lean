import Os161.Sfs.Bmap

set_option autoImplicit false

/-!
# Sound volumes

What the block map of a file means on a sound volume whose device works: different blocks of the
file are different blocks of the volume, all of them in use, and free blocks belong to nothing.

* `Sfs.blockOf`, `Sfs.file`: the block map and the contents of the file as functions.
* **`sfsBmap_ok`**: `sfs_bmap` returns the block map, or there is no space. The volume stays sound and
  the file keeps its contents: a hole and a block that was just allocated both read as zeros.
-/

namespace Os161

open Buffer Transition

/-- No command fails. -/
def Lhd.Works (d : Lhd) : Prop := ∀ n, (d.answer n).1 = .ok

/-- The device `d'` is `d` with the sectors `disk`. -/
structure Lhd.Became (d d' : Lhd) (disk : ℕ → Buffer) : Prop where
  disk : d'.disk = disk
  nsect : d'.nsect = d.nsect
  answer : d'.answer = d.answer

/-- The number of blocks that a file can have. -/
def sfsMaxblocks : ℕ := sfsNdirect + sfsNindirect * sfsDbperidb

namespace Sfs

/-- The block of the volume that holds block `fb` of the file, or 0. -/
def blockOf (s : Sfs) (fb : ℕ) : ℕ :=
  if fb < sfsNdirect then s.direct fb
  else if sfsMaxblocks ≤ fb ∨ s.indirect = 0 then 0
  else word (s.dev.disk s.indirect) (fb - sfsNdirect)

/-- Byte `o` of block `fb` of the file. -/
def content (s : Sfs) (fb o : ℕ) : UInt8 :=
  if s.blockOf fb = 0 then 0 else s.dev.disk (s.blockOf fb) o

/-- The bytes of the file. -/
def file (s : Sfs) : Buffer := fun x => s.content (x / sfsBlocksize) (x % sfsBlocksize)

/-- A block of the volume that is marked in the freemap. -/
structure InUse (s : Sfs) (b : ℕ) : Prop where
  lt : b < s.nblocks
  mark : s.freemap b = true

/-- The device works and holds the volume, and the freemap knows what is not a free block. -/
structure Mounted (s : Sfs) : Prop where
  works : s.dev.Works
  nblocks_le : s.nblocks ≤ s.dev.nsect
  zero_mark : s.freemap 0 = true
  free_lt : ∀ b < s.nbits, s.freemap b = false → b < s.nblocks

/-- **The file is sound** on a volume that is mounted. -/
structure Sound (s : Sfs) : Prop extends s.Mounted where
  inUse : ∀ fb, s.blockOf fb ≠ 0 → s.InUse (s.blockOf fb)
  indirect_inUse : s.indirect ≠ 0 → s.InUse s.indirect
  inj : ∀ fb fb', s.blockOf fb ≠ 0 → s.blockOf fb = s.blockOf fb' → fb = fb'
  indirect_ne : ∀ fb, s.blockOf fb ≠ 0 → s.blockOf fb ≠ s.indirect

/-- What no transfer and no allocation changes; marks are only added. -/
structure Frame (s s' : Sfs) : Prop where
  answer : s'.dev.answer = s.dev.answer
  nsect : s'.dev.nsect = s.dev.nsect
  nblocks : s'.nblocks = s.nblocks
  nbits : s'.nbits = s.nbits
  size : s'.size = s.size
  mark : ∀ b, s.freemap b = true → s'.freemap b = true

/-- The volume is still sound and the file is the same. -/
structure Keeps (s s' : Sfs) : Prop where
  sound : s'.Sound
  file : s'.file = s.file
  size : s'.size = s.size

/-- Block `b` is in use but neither holds a block of the file nor its block map, and it is clear. -/
structure Spare (s : Sfs) (b : ℕ) : Prop where
  ne_zero : b ≠ 0
  inUse : s.InUse b
  ne_blockOf : ∀ fb, s.blockOf fb ≠ b
  ne_indirect : s.indirect ≠ b
  clear : EqOn sfsBlocksize (s.dev.disk b) fun _ => 0

end Sfs

section Lemmas

variable {d d' : Lhd} {s s' s'' : Sfs} {b fb : ℕ}

theorem Lhd.Works.status (h : d.Works) (n : ℕ) : d.status n = .ok := h _

theorem Lhd.Became.works {disk : ℕ → Buffer} (h : d.Became d' disk) (hw : d.Works) : d'.Works := by
  unfold Lhd.Works
  rw [h.answer]
  exact hw

/-- **A transfer of a sector** on a device that works. -/
theorem sfsRwblock_works {u : Uio} (h : d.Works) (hs : u.ForSector b) (hb : b < d.nsect)
    (ha : u.Accessible lhdSectsize) :
    ∃ d' u', sfsRwblock d u = .ok (none, d', u') ∧ u.Moved u' lhdSectsize ∧
      (u.rw = .read → d.Became d' d.disk ∧
        u'.area = blit u.area u.pos lhdSectsize (d.disk b) 0) ∧
      (u.rw = .write → u'.area = u.area ∧ ∃ w, d.Became d' (Function.update d.disk b w) ∧
        ∀ o < lhdSectsize, w o = u.area (u.pos + o)) := by
  have hok : d.next = .ok := h.status 0
  cases hrw : u.rw with
  | read =>
    rcases rwLoop_read hs hb hrw 10 with
      ⟨hall, -⟩ | ⟨j, -, he, -⟩ | ⟨j, -, -, -, d', u', hr, hd, hm, harea⟩ | ⟨j, -, -, hno, -⟩
    · exact absurd ((h.status 0).symm.trans (hall 0 (Nat.zero_le _))) (by decide)
    · exact absurd ((h.status j).symm.trans he.2) (by decide)
    · exact ⟨d', u', hr, hm, fun _ => ⟨⟨hd.disk, hd.nsect, hd.answer⟩, harea⟩,
        fun hw => absurd hw (by decide)⟩
    · exact absurd ha hno
  | write =>
    rcases rwLoop_write hs hb hrw ha 10 (by decide) with
      ⟨hs, -⟩ | ⟨u', hm, harea, ⟨-, hr⟩ | ⟨hs, -⟩⟩
    · exact absurd (hok.symm.trans hs) (by decide)
    · refine ⟨_, u', hr, hm, fun hw => absurd hw (by decide), fun _ => ⟨harea, _,
        ⟨Lhd.sent_disk hok .., Lhd.sent_nsect .., Lhd.sent_answer ..⟩, fun o ho => ?_⟩⟩
      rw [blit_of_mem (Nat.zero_le o) (by omega), Nat.sub_zero]
    · exact absurd (hok.symm.trans hs) (by decide)

theorem sfsReadblock_works (h : d.Works) (hb : b < d.nsect) (data : Buffer) :
    ∃ d', d.Became d' d.disk ∧
      sfsReadblock d b data = .ok (none, d', blit data 0 lhdSectsize (d.disk b) 0) := by
  obtain ⟨d', u', he, -, hr, -⟩ := sfsRwblock_works h (sfsuio_forSector data .read) hb (.inl rfl)
  refine ⟨d', (hr rfl).1, ?_⟩
  rw [sfsReadblock, he]
  change Except.ok (none, d', u'.area) = _
  rw [(hr rfl).2]
  rfl

theorem sfsWriteblock_works (h : d.Works) (hb : b < d.nsect) (data : Buffer) :
    ∃ d' w, d.Became d' (Function.update d.disk b w) ∧ EqOn sfsBlocksize w data ∧
      sfsWriteblock d b data = .ok (none, d') := by
  obtain ⟨d', u', he, -, -, hw⟩ := sfsRwblock_works h (sfsuio_forSector data .write) hb (.inl rfl)
  obtain ⟨-, w, hd, hdata⟩ := hw rfl
  refine ⟨d', w, hd, fun o ho => (hdata o ho).trans ?_, by rw [sfsWriteblock, he]; rfl⟩
  exact congrArg data (Nat.zero_add o)

theorem entry_lt (hfb : ¬ fb < sfsNdirect) (hmax : fb < sfsMaxblocks) :
    fb - sfsNdirect < sfsDbperidb := by
  unfold sfsMaxblocks sfsNindirect at hmax
  omega

/-- An entry of the indirect block is one of its words. -/
theorem entry_le (hfb : ¬ fb < sfsNdirect) (hmax : fb < sfsMaxblocks) :
    4 * (fb - sfsNdirect) + 4 ≤ sfsBlocksize := by
  have := entry_lt hfb hmax
  unfold sfsDbperidb at this
  unfold sfsBlocksize
  omega

theorem Sfs.Keeps.refl (h : s.Sound) : s.Keeps s := ⟨h, rfl, rfl⟩

theorem Sfs.Keeps.trans (h : s.Keeps s') (h' : s'.Keeps s'') : s.Keeps s'' :=
  ⟨h'.sound, h'.file.trans h.file, h'.size.trans h.size⟩

theorem Sfs.file_congr (h : ∀ fb, ∀ o < sfsBlocksize, s'.content fb o = s.content fb o) :
    s'.file = s.file := funext fun x => h _ _ (Nat.mod_lt x (by decide))

theorem Sfs.blockOf_direct (hfb : fb < sfsNdirect) : s.blockOf fb = s.direct fb := if_pos hfb

theorem Sfs.blockOf_hole (hfb : ¬ fb < sfsNdirect) (h : s.indirect = 0) : s.blockOf fb = 0 := by
  rw [Sfs.blockOf, if_neg hfb, if_pos (.inr h)]

theorem Sfs.blockOf_indirect (hfb : ¬ fb < sfsNdirect) (hmax : fb < sfsMaxblocks)
    (h : s.indirect ≠ 0) : s.blockOf fb = word (s.dev.disk s.indirect) (fb - sfsNdirect) := by
  rw [Sfs.blockOf, if_neg hfb, if_neg (by omega)]

/-- The block map depends on the pointers and the indirect block only. -/
theorem Sfs.blockOf_congr (hd : s'.direct = s.direct) (hi : s'.indirect = s.indirect)
    (hdisk : s.indirect ≠ 0 → EqOn sfsBlocksize (s'.dev.disk s.indirect) (s.dev.disk s.indirect)) :
    s'.blockOf = s.blockOf := by
  funext fb
  unfold Sfs.blockOf
  rw [hd, hi]
  split_ifs with hfb hhole
  · rfl
  · rfl
  · refine word_congr (hdisk fun h => hhole (.inr h)) ?_
    have hmax : sfsMaxblocks = 143 := rfl
    have hnd : sfsNdirect = 15 := rfl
    have hbs : sfsBlocksize = 512 := rfl
    omega

/-- A direct pointer is set. -/
theorem Sfs.blockOf_setDirect (hfb : fb < sfsNdirect) (hd : s'.direct = Function.update s.direct fb b)
    (hi : s'.indirect = s.indirect) (hdisk : s'.dev.disk = s.dev.disk) :
    s'.blockOf = Function.update s.blockOf fb b := by
  funext c
  by_cases hc : c = fb
  · rw [hc, Function.update_self, Sfs.blockOf_direct hfb, hd, Function.update_self]
  · rw [Function.update_of_ne hc]
    unfold Sfs.blockOf
    rw [hd, hi, hdisk, Function.update_of_ne hc]

/-- An entry of the indirect block is set. -/
theorem Sfs.blockOf_setWord (buf : Buffer) (hfb : ¬ fb < sfsNdirect) (hi : s.indirect ≠ 0)
    (hbuf : EqOn sfsBlocksize buf (s.dev.disk s.indirect)) (hb : b < 2 ^ 32)
    (hmax : fb < sfsMaxblocks) (hd : s'.direct = s.direct) (hi' : s'.indirect = s.indirect)
    (hw : EqOn sfsBlocksize (s'.dev.disk s.indirect) (setWord buf (fb - sfsNdirect) b)) :
    s'.blockOf = Function.update s.blockOf fb b := by
  funext c
  by_cases hc : c < sfsNdirect
  · rw [Function.update_of_ne (by omega), Sfs.blockOf_direct hc, Sfs.blockOf_direct hc, hd]
  by_cases hcmax : c < sfsMaxblocks
  · rw [Sfs.blockOf_indirect hc hcmax (by rw [hi']; exact hi), hi', word_congr hw (entry_le hc hcmax),
      word_setWord hb]
    by_cases hcfb : c = fb
    · rw [if_pos (by rw [hcfb]), hcfb, Function.update_self]
    · rw [if_neg (by omega), Function.update_of_ne hcfb, Sfs.blockOf_indirect hc hcmax hi,
        word_congr hbuf (entry_le hc hcmax)]
  · rw [Function.update_of_ne (by omega), Sfs.blockOf, if_neg hc, if_pos (.inl (by omega)),
      Sfs.blockOf, if_neg hc, if_pos (.inl (by omega))]

theorem Sfs.Frame.refl (s : Sfs) : s.Frame s := ⟨rfl, rfl, rfl, rfl, rfl, fun _ h => h⟩

theorem Sfs.Frame.inUse (h : s.Frame s') (hb : s.InUse b) : s'.InUse b :=
  ⟨by rw [h.nblocks]; exact hb.lt, h.mark b hb.mark⟩

theorem Lhd.Became.frame {disk : ℕ → Buffer} (h : s.dev.Became d' disk) (idbuf iobuf : Buffer) :
    s.Frame { s with dev := d', idbuf := idbuf, iobuf := iobuf } :=
  ⟨h.answer, h.nsect, rfl, rfl, rfl, fun _ h => h⟩

theorem Sfs.Frame.mounted (h : s.Frame s') (hm : s.Mounted) : s'.Mounted where
  works := by
    unfold Lhd.Works
    rw [h.answer]
    exact hm.works
  nblocks_le := by
    rw [h.nblocks, h.nsect]
    exact hm.nblocks_le
  zero_mark := h.mark 0 hm.zero_mark
  free_lt := by
    intro b hlt hfree
    rw [h.nbits] at hlt
    rw [h.nblocks]
    refine hm.free_lt b hlt (Bool.eq_false_iff.mpr fun hmark => ?_)
    rw [h.mark b hmark] at hfree
    cases hfree

/-- A state with the same block map is sound, too. -/
theorem Sfs.Sound.congr (h : s.Sound) (hf : s.Frame s') (hb : s'.blockOf = s.blockOf)
    (hi : s'.indirect = s.indirect) : s'.Sound where
  toMounted := hf.mounted h.toMounted
  inUse := by
    rw [hb]
    exact fun fb hne => hf.inUse (h.inUse fb hne)
  indirect_inUse := by
    rw [hi]
    exact fun hne => hf.inUse (h.indirect_inUse hne)
  inj := by
    rw [hb]
    exact h.inj
  indirect_ne := by
    rw [hb, hi]
    exact h.indirect_ne

/-- A transfer that leaves the sectors of the file alone. -/
theorem Sfs.Sound.keeps (h : s.Sound) (hf : s.Frame s') (hd : s'.direct = s.direct)
    (hi : s'.indirect = s.indirect)
    (hdisk : ∀ b, s.InUse b → EqOn sfsBlocksize (s'.dev.disk b) (s.dev.disk b)) :
    s'.blockOf = s.blockOf ∧ s.Keeps s' := by
  have hb := Sfs.blockOf_congr hd hi fun hne => hdisk _ (h.indirect_inUse hne)
  refine ⟨hb, h.congr hf hb hi, Sfs.file_congr fun fb o ho => ?_, hf.size⟩
  unfold Sfs.content
  rw [hb]
  split_ifs with hne
  · rfl
  · exact hdisk _ (h.inUse fb hne) o ho

/-- **A spare block becomes block `fb` of the file**, which was a hole. -/
theorem Sfs.Sound.attach (h : s.Sound) (hf : s.Frame s') (hs : s.Spare b) (hfb : s.blockOf fb = 0)
    (hb : s'.blockOf = Function.update s.blockOf fb b) (hi : s'.indirect = s.indirect)
    (hdisk : ∀ c ≠ s.indirect, s'.dev.disk c = s.dev.disk c) : s.Keeps s' := by
  have hself : s'.blockOf fb = b := by rw [hb, Function.update_self]
  have hother : ∀ c ≠ fb, s'.blockOf c = s.blockOf c := fun c hc => by
    rw [hb, Function.update_of_ne hc]
  refine ⟨⟨hf.mounted h.toMounted, ?_, ?_, ?_, ?_⟩, ?_, hf.size⟩
  · intro c hne
    by_cases hc : c = fb
    · rw [hc, hself]
      exact hf.inUse hs.inUse
    · rw [hother c hc] at hne ⊢
      exact hf.inUse (h.inUse c hne)
  · rw [hi]
    exact fun hne => hf.inUse (h.indirect_inUse hne)
  · intro c c' hne heq
    by_cases hc : c = fb <;> by_cases hc' : c' = fb
    · rw [hc, hc']
    · rw [hc, hself, hother c' hc'] at heq
      exact absurd heq.symm (hs.ne_blockOf c')
    · rw [hc', hself, hother c hc] at heq
      exact absurd heq (hs.ne_blockOf c)
    · rw [hother c hc] at hne heq
      rw [hother c' hc'] at heq
      exact h.inj c c' hne heq
  · intro c hne
    rw [hi]
    by_cases hc : c = fb
    · rw [hc, hself]
      exact hs.ne_indirect.symm
    · rw [hother c hc] at hne ⊢
      exact h.indirect_ne c hne
  · refine Sfs.file_congr fun c o ho => ?_
    unfold Sfs.content
    by_cases hc : c = fb
    · rw [hc, hself, hfb, if_neg hs.ne_zero, if_pos rfl, hdisk b hs.ne_indirect.symm]
      exact hs.clear o ho
    · rw [hother c hc]
      split_ifs with hne
      · rfl
      · rw [hdisk _ (h.indirect_ne c hne)]

/-- **A spare block becomes the indirect block** of a file that has none. -/
theorem Sfs.Sound.attach_indirect (h : s.Sound) (hs : s.Spare b) (hi : s.indirect = 0)
    (idbuf : Buffer) :
    ({ s with indirect := b, idbuf := idbuf } : Sfs).blockOf = s.blockOf ∧
      s.Keeps { s with indirect := b, idbuf := idbuf } := by
  have hb : ({ s with indirect := b, idbuf := idbuf } : Sfs).blockOf = s.blockOf := by
    funext c
    by_cases hc : c < sfsNdirect
    · rw [Sfs.blockOf_direct hc, Sfs.blockOf_direct hc]
    · rw [Sfs.blockOf_hole hc hi]
      by_cases hmax : c < sfsMaxblocks
      · rw [Sfs.blockOf_indirect hc hmax hs.ne_zero, ← word_zero]
        exact word_congr hs.clear (entry_le hc hmax)
      · rw [Sfs.blockOf, if_neg hc, if_pos (.inl (by omega))]
  have hf : s.Frame { s with indirect := b, idbuf := idbuf } := ⟨rfl, rfl, rfl, rfl, rfl, fun _ h => h⟩
  refine ⟨hb, ⟨hf.mounted h.toMounted, ?_, fun _ => hf.inUse hs.inUse, ?_, ?_⟩, ?_, rfl⟩
  · rw [hb]
    exact fun c hne => hf.inUse (h.inUse c hne)
  · rw [hb]
    exact h.inj
  · rw [hb]
    exact fun c _ => hs.ne_blockOf c
  · refine Sfs.file_congr fun c o _ => ?_
    unfold Sfs.content
    rw [hb]

/-- The sector of a block in use can be written and read. -/
theorem Sfs.InUse.lt_nsect (hb : s.InUse b) (h : s.Mounted) : b < s.dev.nsect :=
  lt_of_lt_of_le hb.lt h.nblocks_le

/-- **`sfs_balloc`**: there is no space, or a spare block is marked and cleared. -/
theorem sfsBalloc_ok (h : s.Sound) :
    sfsBalloc s = .ok (.error .enospc, s) ∨
    ∃ b d', sfsBalloc s =
        .ok (.ok b, { s with freemap := Function.update s.freemap b true, dev := d' }) ∧
      (∀ c, s.InUse c → d'.disk c = s.dev.disk c) ∧
      s.Keeps { s with freemap := Function.update s.freemap b true, dev := d' } ∧
      ({ s with freemap := Function.update s.freemap b true, dev := d' } : Sfs).blockOf = s.blockOf ∧
      ({ s with freemap := Function.update s.freemap b true, dev := d' } : Sfs).Spare b := by
  cases halloc : bitmapAlloc s with
  | none =>
    refine .inl ?_
    rw [sfsBalloc, halloc]
  | some b =>
    have hfree : s.freemap b = false := by simpa using List.find?_some halloc
    have hlt : b < s.nblocks :=
      h.free_lt b (List.mem_range.mp (List.mem_of_find?_eq_some halloc)) hfree
    obtain ⟨d', w, hd, hw, he⟩ := sfsWriteblock_works h.works (lt_of_lt_of_le hlt h.nblocks_le)
      fun _ => 0
    have hunused : ∀ c, s.InUse c → c ≠ b := by
      rintro c hc rfl
      rw [hc.mark] at hfree
      cases hfree
    have hdisk : ∀ c, s.InUse c → d'.disk c = s.dev.disk c := fun c hc => by
      rw [hd.disk, Function.update_of_ne (hunused c hc)]
    have hf : s.Frame { s with freemap := Function.update s.freemap b true, dev := d' } := by
      refine ⟨hd.answer, hd.nsect, rfl, rfl, rfl, fun c hc => ?_⟩
      by_cases hcb : c = b
      · rw [hcb]
        exact Function.update_self ..
      · exact (Function.update_of_ne hcb ..).trans hc
    obtain ⟨hb, hk⟩ := h.keeps hf rfl rfl fun c hc => by
      rw [show ({ s with freemap := _, dev := d' } : Sfs).dev.disk c = _ from hdisk c hc]
      exact fun o _ => rfl
    have hzero : b ≠ 0 := by
      rintro rfl
      rw [h.zero_mark] at hfree
      cases hfree
    refine .inr ⟨b, d', ?_, hdisk, hk, hb, hzero, ⟨hlt, Function.update_self ..⟩, ?_, ?_, ?_⟩
    · rw [sfsBalloc, halloc]
      simp only
      rw [if_neg (by omega), he]
      rfl
    · rw [hb]
      exact fun c hc => hunused b (hc ▸ h.inUse c (by rw [hc]; exact hzero)) rfl
    · exact fun hc => hunused b (hc ▸ h.indirect_inUse (by rw [hc]; exact hzero)) rfl
    · simp only [hd.disk, Function.update_self]
      exact hw

theorem handBack_ok (h : b ≠ 0 → s.InUse b) : handBack s b = .ok (.ok b, s) := by
  unfold handBack
  split_ifs with hb
  · rw [hb]
  · rw [sfsBused, if_neg (by have := (h hb).lt; omega), (h hb).mark]
    rfl

/-- The indirect block is in `idbuf`, and the file has one. -/
theorem loadIndirect_ok (h : s.Sound) :
    (∃ s', loadIndirect s = .ok (.error .enospc, s') ∧ s.indirect = 0 ∧ s.Keeps s') ∨
    ∃ s', loadIndirect s = .ok (.ok s'.indirect, s') ∧ s.Keeps s' ∧ s'.blockOf = s.blockOf ∧
      s'.indirect ≠ 0 ∧ EqOn sfsBlocksize s'.idbuf (s'.dev.disk s'.indirect) := by
  unfold loadIndirect
  by_cases hi : s.indirect = 0
  · rw [if_pos hi]
    rcases sfsBalloc_ok h with he | ⟨b, d', he, -, hk, hb, hs⟩
    · exact .inl ⟨s, by rw [he]; rfl, hi, .refl h⟩
    · obtain ⟨hb', hk'⟩ := hk.sound.attach_indirect hs hi fun _ => 0
      exact .inr ⟨_, by rw [he]; rfl, hk.trans hk', hb'.trans hb, hs.ne_zero, hs.clear.symm⟩
  · rw [if_neg hi]
    obtain ⟨d', hd, he⟩ := sfsReadblock_works h.works ((h.indirect_inUse hi).lt_nsect h.toMounted)
      s.idbuf
    have hdisk : d'.disk = s.dev.disk := hd.disk
    obtain ⟨hb, hk⟩ := h.keeps (hd.frame (blit s.idbuf 0 lhdSectsize (s.dev.disk s.indirect) 0)
      s.iobuf) rfl rfl fun b _ o _ => by rw [hdisk]
    refine .inr ⟨_, by rw [he]; rfl, hk, hb, hi, ?_⟩
    simp only [hdisk]
    exact blit_eqOn

/-- The entry of the indirect block for block `fb` of the file. -/
theorem indirectEntry_ok (h : s.Sound) (hfb : ¬ fb < sfsNdirect) (hmax : fb < sfsMaxblocks)
    (hi : s.indirect ≠ 0) (hbuf : EqOn sfsBlocksize s.idbuf (s.dev.disk s.indirect))
    (doalloc : Bool) :
    (∃ s', indirectEntry s s.indirect (fb - sfsNdirect) doalloc = .ok (.error .enospc, s') ∧
      doalloc = true ∧ s.Keeps s') ∨
    ∃ s', indirectEntry s s.indirect (fb - sfsNdirect) doalloc = .ok (.ok (s'.blockOf fb), s') ∧
      s.Keeps s' ∧ (doalloc = true → s'.blockOf fb ≠ 0) := by
  have hword : word s.idbuf (fb - sfsNdirect) = s.blockOf fb := by
    rw [Sfs.blockOf_indirect hfb hmax hi]
    exact word_congr hbuf (entry_le hfb hmax)
  unfold indirectEntry
  simp only [hword]
  by_cases halloc : s.blockOf fb = 0 ∧ doalloc = true
  · rw [if_pos halloc]
    rcases sfsBalloc_ok h with he | ⟨b, d₁, he, hdisk, hk, hb, hs⟩
    · exact .inl ⟨s, by rw [he]; rfl, halloc.2, .refl h⟩
    · obtain ⟨d₂, w, hd, hw, he'⟩ := sfsWriteblock_works hk.sound.works
        ((hk.sound.indirect_inUse hi).lt_nsect hk.sound.toMounted)
        (setWord s.idbuf (fb - sfsNdirect) b)
      have hlt : b < 2 ^ 32 := lt_trans (hs.inUse.lt_nsect hk.sound.toMounted) d₁.nsect_lt
      have hdisk₂ : d₂.disk = Function.update d₁.disk s.indirect w := hd.disk
      -- the state after the write of the indirect block
      have hf : ({ s with freemap := Function.update s.freemap b true, dev := d₁ } : Sfs).Frame
          { s with
            freemap := Function.update s.freemap b true, dev := d₂,
            idbuf := setWord s.idbuf (fb - sfsNdirect) b } :=
        ⟨hd.answer, hd.nsect, rfl, rfl, rfl, fun _ h => h⟩
      have hmap : ({ s with
          freemap := Function.update s.freemap b true, dev := d₂,
          idbuf := setWord s.idbuf (fb - sfsNdirect) b } : Sfs).blockOf =
            Function.update s.blockOf fb b := by
        rw [← hb]
        refine Sfs.blockOf_setWord s.idbuf hfb hi ?_ hlt hmax rfl rfl ?_
        · simp only [hdisk _ (h.indirect_inUse hi)]
          exact hbuf
        · simp only [hdisk₂, Function.update_self]
          exact hw
      have hself := congrFun hmap fb
      rw [Function.update_self] at hself
      have hk' := hk.sound.attach hf hs (by rw [hb]; exact halloc.1) (by rw [hmap, hb]) rfl
        fun c hc => by
          simp only [hdisk₂]
          exact Function.update_of_ne hc ..
      refine .inr ⟨_, ?_, hk.trans hk', fun _ => by rw [hself]; exact hs.ne_zero⟩
      rw [hself, he]
      change (sfsWriteblock d₁ s.indirect (setWord s.idbuf (fb - sfsNdirect) b) >>= _) = _
      rw [he']
      exact handBack_ok fun _ => hf.inUse hs.inUse
  · rw [if_neg halloc, handBack_ok (h.inUse fb)]
    exact .inr ⟨s, rfl, .refl h, fun hd hzero => halloc ⟨hzero, hd⟩⟩

/-- **`sfs_bmap`** returns the block map of the file, or there is no space for a block. -/
theorem sfsBmap_ok (h : s.Sound) (hmax : fb < sfsMaxblocks) (doalloc : Bool) :
    (∃ s', sfsBmap s fb doalloc = .ok (.error .enospc, s') ∧ doalloc = true ∧ s.Keeps s') ∨
    ∃ s', sfsBmap s fb doalloc = .ok (.ok (s'.blockOf fb), s') ∧ s.Keeps s' ∧
      (doalloc = true → s'.blockOf fb ≠ 0) := by
  unfold sfsBmap
  by_cases hfb : fb < sfsNdirect
  · rw [if_pos hfb]
    simp only
    rw [← Sfs.blockOf_direct hfb]
    by_cases halloc : s.blockOf fb = 0 ∧ doalloc = true
    · rw [if_pos halloc]
      rcases sfsBalloc_ok h with he | ⟨b, d', he, hdisk, hk, hb, hs⟩
      · exact .inl ⟨s, by rw [he]; rfl, halloc.2, .refl h⟩
      · have hf : ({ s with freemap := Function.update s.freemap b true, dev := d' } : Sfs).Frame
            { s with
              freemap := Function.update s.freemap b true, dev := d',
              direct := Function.update s.direct fb b } :=
          ⟨rfl, rfl, rfl, rfl, rfl, fun _ h => h⟩
        have hmap : ({ s with
            freemap := Function.update s.freemap b true, dev := d',
            direct := Function.update s.direct fb b } : Sfs).blockOf =
              Function.update s.blockOf fb b := by
          rw [← hb]
          exact Sfs.blockOf_setDirect hfb rfl rfl rfl
        have hself := congrFun hmap fb
        rw [Function.update_self] at hself
        have hk' := hk.sound.attach hf hs (by rw [hb]; exact halloc.1) (by rw [hmap, hb]) rfl
          fun c _ => rfl
        refine .inr ⟨_, ?_, hk.trans hk', fun _ => by rw [hself]; exact hs.ne_zero⟩
        rw [hself, he]
        exact handBack_ok fun _ => hf.inUse hs.inUse
    · rw [if_neg halloc, handBack_ok (h.inUse fb)]
      exact .inr ⟨s, rfl, .refl h, fun hd hzero => halloc ⟨hzero, hd⟩⟩
  · have hidnum := Nat.div_eq_of_lt (entry_lt hfb hmax)
    have hidoff := Nat.mod_eq_of_lt (entry_lt hfb hmax)
    rw [if_neg hfb]
    simp only [hidnum, hidoff]
    rw [if_neg (by decide)]
    by_cases hhole : s.indirect = 0 ∧ doalloc = false
    · rw [if_pos hhole]
      refine .inr ⟨s, by rw [Sfs.blockOf_hole hfb hhole.1], .refl h, fun hd => ?_⟩
      rw [hhole.2] at hd
      cases hd
    · rw [if_neg hhole]
      rcases loadIndirect_ok h with ⟨s₁, he, hi, hk⟩ | ⟨s₁, he, hk, -, hi, hbuf⟩
      · exact .inl ⟨s₁, by rw [he]; rfl, by simpa [hi] using hhole, hk⟩
      · rw [he]
        exact (indirectEntry_ok hk.sound hfb hmax hi hbuf doalloc).imp
          (fun ⟨s', he', hd, hk'⟩ => ⟨s', he', hd, hk.trans hk'⟩)
          fun ⟨s', he', hk', hne⟩ => ⟨s', he', hk.trans hk', hne⟩

end Lemmas

end Os161
