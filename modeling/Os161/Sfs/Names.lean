import Os161.Lib.SlotMap
import Os161.Sfs.Table

set_option autoImplicit false

/-!
# The directory

`sfs_dir.c` on a volume that is in order. The root directory keeps a finite map from names to inodes
in its slots.

* `Vol.slot`, `Vol.names`: the slots and the map; `Vol.Listed`: the directory is in order.
* **`returns_dirFindname`**: the search for a name.
* **`returns_dirLink`**, **`returns_dirUnlink`**: a slot gets a name, or becomes empty.
-/

namespace Os161

open Buffer SfsFs

section Entries

variable {f g : Buffer} {k n ino : ℕ} {l : List UInt8}

theorem cstr_congr (h : ∀ o, k ≤ o → o < k + n → f o = g o) : cstr f k n = cstr g k n := by
  induction n generalizing k with
  | zero => rfl
  | succ n ih =>
    rw [cstr, cstr, h k (le_refl k) (by omega), ih fun o h₁ h₂ => h o (by omega) (by omega)]

/-- A string reads back as it was written. -/
theorem cstr_eq (hl : l.length < n) (hbytes : ∀ j (hj : j < l.length), f (k + j) = l[j])
    (hend : f (k + l.length) = 0) (h0 : 0 ∉ l) : cstr f k n = l := by
  induction l generalizing k n with
  | nil =>
    cases n with
    | zero => rfl
    | succ n =>
      rw [cstr, if_pos]
      exact hend
  | cons a l ih =>
    cases n with
    | zero => exact absurd hl (Nat.not_lt_zero _)
    | succ n =>
      have ha : f k = a := hbytes 0 (Nat.succ_pos _)
      have hne : a ≠ 0 := fun hz => h0 (by rw [hz]; exact List.mem_cons_self ..)
      rw [cstr, ha, if_neg hne]
      refine congrArg (a :: ·) (ih (by simpa using hl) (fun j hj => ?_) ?_ fun hm =>
        h0 (List.mem_cons_of_mem a hm))
      · have := hbytes (j + 1) (by simpa using hj)
        rw [Nat.add_assoc, Nat.add_comm 1 j]
        exact this
      · rw [Nat.add_assoc, Nat.add_comm 1]
        exact hend

theorem sfdName_congr (h : EqOn sfsDirentrySize f g) : sfdName f = sfdName g := by
  refine cstr_congr fun o h₁ h₂ => ?_
  by_cases ho : o = sfsDirentrySize - 1
  · rw [ho, Function.update_self, Function.update_self]
  · rw [Function.update_of_ne ho, Function.update_of_ne ho]
    exact h o (by unfold sfsNamelen at h₂; unfold sfsDirentrySize; omega)

theorem sfdIno_congr (h : EqOn sfsDirentrySize f g) : sfdIno f = sfdIno g :=
  word_congr h (by decide)

/-- The entry of a directory buffer: nothing, or a name with its inode. -/
def entry (sd : Buffer) : Option (List UInt8 × ℕ) :=
  if sfdIno sd = sfsNoino then none else some (sfdName sd, sfdIno sd)

theorem entry_congr (h : EqOn sfsDirentrySize f g) : entry f = entry g := by
  unfold entry
  rw [sfdName_congr h, sfdIno_congr h]

theorem sfdIno_direntry (hino : ino < wordSize) (l : List UInt8) : sfdIno (direntry ino l) = ino :=
  (word_setWord hino).trans (if_pos rfl)

/-- **An entry reads back as it was written.** -/
theorem entry_direntry (hino : ino < wordSize) (h0 : ino ≠ sfsNoino) {name : CString}
    (hl : name.bytes.length < sfsNamelen) :
    entry (direntry ino name.bytes) = some (name.bytes, ino) := by
  have hbyte : ∀ j < sfsNamelen - 1, Function.update (direntry ino name.bytes) (sfsDirentrySize - 1) 0
      (4 + j) = name.bytes.getD j 0 := fun j hj => by
    have hnl : sfsNamelen = 60 := rfl
    have hds : sfsDirentrySize = 64 := rfl
    rw [Function.update_of_ne (by omega), direntry, setWord, if_neg (by omega),
      Nat.add_sub_cancel_left]
  have hname : sfdName (direntry ino name.bytes) = name.bytes := by
    refine cstr_eq hl (fun j hj => ?_) ?_ name.ne_zero
    · rw [hbyte j (by omega), List.getD_eq_getElem _ _ hj]
    · by_cases hlast : name.bytes.length = sfsNamelen - 1
      · rw [hlast]
        exact Function.update_self ..
      · rw [hbyte _ (by omega), List.getD_eq_default _ _ (le_refl _)]
  unfold entry
  rw [sfdIno_direntry hino, if_neg h0, hname]

theorem entry_empty : entry (direntry sfsNoino []) = none := by
  rw [entry, sfdIno_direntry (by decide), if_pos rfl]

end Entries

/-- How many slots fit in a file. -/
def maxSlots : ℕ := sfsMaxblocks * sfsBlocksize / sfsDirentrySize

namespace Vol

/-- The bytes of a slot. -/
def dirent (v : Vol) (k : ℕ) : Buffer := fun o => v.byte sfsRootdirIno (k * sfsDirentrySize + o)

/-- A slot of the directory. -/
def slot (v : Vol) (k : ℕ) : Option (List UInt8 × ℕ) := entry (v.dirent k)

/-- The number of slots. -/
def nslots (v : Vol) : ℕ := (v.file sfsRootdirIno).size / sfsDirentrySize

/-- **The names**: the finite map that the directory keeps. -/
def names (v : Vol) : List UInt8 → Option ℕ := SlotMap.lookup v.slot v.nslots

/-- The number of entries that name an inode. -/
def links (v : Vol) (ino : ℕ) : ℕ := SlotMap.count v.slot v.nslots ino

/-- **The directory is in order**: it has whole slots, and no name is in two of them. -/
structure Listed (v : Vol) : Prop where
  dir : (v.file sfsRootdirIno).type = sfsTypeDir
  size : (v.file sfsRootdirIno).size = v.nslots * sfsDirentrySize
  fits : (v.file sfsRootdirIno).size ≤ sfsMaxblocks * sfsBlocksize
  distinct : SlotMap.Distinct v.slot v.nslots

/-- **Slot `k` is changed to `e`.** -/
structure SlotSet (I : ℕ → Prop) (k : ℕ) (e : Option (List UInt8 × ℕ)) (v w : Vol) : Prop where
  rewritten : Rewritten I sfsRootdirIno v w
  change : SlotMap.Change v.slot w.slot v.nslots w.nslots k
  self : w.slot k = e
  size : (w.file sfsRootdirIno).size = w.nslots * sfsDirentrySize
  fits : (w.file sfsRootdirIno).size ≤ sfsMaxblocks * sfsBlocksize

section Lemmas

variable {v w : Vol} {I : ℕ → Prop} {k ino : ℕ} {data : Buffer}

/-- The directory is that of the file. -/
theorem slot_congr (h : w.file sfsRootdirIno = v.file sfsRootdirIno) :
    w.slot = v.slot ∧ w.nslots = v.nslots := by
  refine ⟨funext fun k => ?_, congrArg (fun f => f.size / sfsDirentrySize) h⟩
  unfold slot dirent
  rw [show w.byte sfsRootdirIno = v.byte sfsRootdirIno from congrArg FileView.byte h]

theorem names_congr (h : w.file sfsRootdirIno = v.file sfsRootdirIno) : w.names = v.names := by
  obtain ⟨hs, hn⟩ := slot_congr h
  unfold names
  rw [hs, hn]

theorem links_congr (h : w.file sfsRootdirIno = v.file sfsRootdirIno) : w.links = v.links := by
  obtain ⟨hs, hn⟩ := slot_congr h
  unfold links
  rw [hs, hn]

theorem Listed.congr (hl : v.Listed) (h : w.file sfsRootdirIno = v.file sfsRootdirIno) : w.Listed := by
  obtain ⟨hs, hn⟩ := slot_congr h
  refine ⟨?_, ?_, ?_, ?_⟩
  · rw [h]
    exact hl.dir
  · rw [h, hn]
    exact hl.size
  · rw [h]
    exact hl.fits
  · rw [hs, hn]
    exact hl.distinct

/-- A slot is within a block. -/
theorem slot_fit (k : ℕ) :
    k * sfsDirentrySize % sfsBlocksize + sfsDirentrySize ≤ sfsBlocksize := by
  unfold sfsDirentrySize sfsBlocksize
  omega

theorem Listed.slot_lt (h : v.Listed) (hk : k ≤ v.nslots) :
    k * sfsDirentrySize ≤ sfsMaxblocks * sfsBlocksize ∧
      k * sfsDirentrySize % wordSize = k * sfsDirentrySize := by
  have hle : k * sfsDirentrySize ≤ sfsMaxblocks * sfsBlocksize := by
    refine le_trans (Nat.mul_le_mul_right _ hk) ?_
    rw [← h.size]
    exact h.fits
  exact ⟨hle, Nat.mod_eq_of_lt (lt_of_le_of_lt hle (by decide))⟩

theorem Listed.slot_block (h : v.Listed) (hk : k < v.nslots) :
    k * sfsDirentrySize / sfsBlocksize < sfsMaxblocks := by
  have hlt : k * sfsDirentrySize < sfsMaxblocks * sfsBlocksize := by
    refine lt_of_lt_of_le (Nat.mul_lt_mul_of_pos_right hk (by decide)) ?_
    rw [← h.size]
    exact h.fits
  exact (Nat.div_lt_iff_lt_mul (by decide)).mpr hlt

/-- A slot that is in use is on the disk. -/
theorem slot_block_ne_zero {p : List UInt8 × ℕ} (h : v.slot k = some p) :
    v.blockOf sfsRootdirIno (k * sfsDirentrySize / sfsBlocksize) ≠ 0 := by
  intro h0
  have hzero : EqOn sfsDirentrySize (v.dirent k) fun _ => 0 := fun o ho =>
    (byte_within (slot_fit k) ho).trans (if_pos h0)
  have hino : sfdIno (v.dirent k) = sfsNoino := (sfdIno_congr hzero).trans word_zero
  rw [slot, entry, if_pos hino] at h
  cases h

/-- **The slots after the bytes of one slot were written.** -/
theorem SlotSet.of_write (hl : v.Listed) (hk : k ≤ v.nslots)
    (hmax : k * sfsDirentrySize / sfsBlocksize < sfsMaxblocks) (hw : Rewritten I sfsRootdirIno v w)
    (hbyte : w.byte sfsRootdirIno =
      blit (v.byte sfsRootdirIno) (k * sfsDirentrySize) sfsDirentrySize data 0)
    (hsize : (w.file sfsRootdirIno).size =
      if (v.file sfsRootdirIno).size < k * sfsDirentrySize + sfsDirentrySize then
        (k * sfsDirentrySize + sfsDirentrySize) % wordSize else (v.file sfsRootdirIno).size) :
    SlotSet I k (entry data) v w := by
  have hds : sfsDirentrySize = 64 := rfl
  have hfit := slot_fit k
  have hlt : k * sfsDirentrySize + sfsDirentrySize ≤ sfsMaxblocks * sfsBlocksize := by
    unfold sfsMaxblocks sfsNdirect sfsNindirect sfsDbperidb sfsBlocksize at *
    omega
  have hself : w.slot k = entry data := by
    refine entry_congr fun o ho => ?_
    rw [dirent, hbyte, blit_of_mem (Nat.le_add_right ..) (by omega), Nat.zero_add,
      Nat.add_sub_cancel_left]
  have hother : ∀ j, j ≠ k → w.slot j = v.slot j := fun j hj => by
    refine entry_congr fun o ho => ?_
    rw [dirent, dirent, hbyte, blit_of_not_mem]
    rw [hds] at ho ⊢
    omega
  have hslots : w.nslots = if k < v.nslots then v.nslots else v.nslots + 1 := by
    have hmod : (k * sfsDirentrySize + sfsDirentrySize) % wordSize =
        k * sfsDirentrySize + sfsDirentrySize := Nat.mod_eq_of_lt (lt_of_le_of_lt hlt (by decide))
    rw [nslots, hsize, hmod, hl.size]
    generalize v.nslots = n at hk ⊢
    rw [hds]
    split_ifs <;> omega
  have hwsize : (w.file sfsRootdirIno).size = w.nslots * sfsDirentrySize := by
    have hmod : (k * sfsDirentrySize + sfsDirentrySize) % wordSize =
        k * sfsDirentrySize + sfsDirentrySize := Nat.mod_eq_of_lt (lt_of_le_of_lt hlt (by decide))
    rw [hsize, hslots, hmod, hl.size]
    generalize v.nslots = n at hk ⊢
    rw [hds]
    split_ifs <;> omega
  refine ⟨hw, ⟨?_, fun j hj => ?_, fun j hj _ => hother j hj⟩, hself, hwsize, ?_⟩
  · rw [hslots]
    split_ifs <;> omega
  · rw [hslots]
    split_ifs <;> omega
  · rw [hsize]
    split_ifs with hgrow
    · exact (Nat.mod_le _ _).trans hlt
    · exact hl.fits

end Lemmas

end Vol

namespace SfsFs

open Vol

/-- What `sfs_dir_findname` has found in the slots before `i`. -/
structure Scanned (v : Vol) (name : List UInt8) (i : ℕ) (scan : DirScan) : Prop where
  found : ∀ k ino, scan.found = some (k, ino) ↔ k < i ∧ v.slot k = some (name, ino)
  empty : ∀ k, scan.emptyslot = some k → k < i ∧ v.slot k = none
  full : scan.emptyslot = none → ∀ k < i, v.slot k ≠ none

section Directory

variable {β : Type} {v w : Vol} {I : ℕ → Prop} {i k ino : ℕ} {name : CString} {scan : DirScan}
  {R : Except FsErr β → Vol → Prop}

/-- **`sfs_readdir`** reads a slot. -/
theorem returns_readdir (h : v.Physical I) (hl : v.Listed) (hload : sfsRootdirIno ∈ v.fs.vnodes)
    (hk : k < v.nslots) : Returns (sfsReaddir sfsRootdirIno k) v (Ends
      (fun tsd w => Kept I sfsRootdirIno v w ∧ w.fs.freemap = v.fs.freemap ∧
        EqOn sfsDirentrySize tsd (v.dirent k)) fun _ _ => False) := by
  have hpos := (hl.slot_lt (le_of_lt hk)).2
  unfold sfsReaddir
  rw [hpos]
  refine (returns_metaio_read h h.root hload (hl.slot_block hk) (slot_fit k)).mono ?_
  rintro (e | tsd) w hw
  · exact hw
  · obtain ⟨hk, hfm, rfl⟩ := hw
    exact ⟨hk, hfm, blit_eqOn⟩

theorem returns_dirNentries (hl : v.Listed) (hload : sfsRootdirIno ∈ v.fs.vnodes)
    {f : ℕ → SfsM β} :
    Returns (sfsDirNentries sfsRootdirIno >>= f) v R ↔ Returns (f v.nslots) v R := by
  have hsize : sfiSize (v.fs.inode sfsRootdirIno) % sfsDirentrySize = 0 := by
    rw [size_inode hload, hl.size, Nat.mul_mod_left]
  unfold sfsDirNentries
  rw [returns_bind, returns_get, returns_kassert (by rw [type_inode hload]; exact hl.dir),
    if_neg (not_not.mpr hsize), returns_pure, size_inode hload]
  rfl

/-- The slot that was found is the next one. -/
theorem Scanned.found_next (h : Scanned v name.bytes i scan) (hno : scan.found = none)
    (hs : v.slot i = some (name.bytes, ino)) :
    Scanned v name.bytes (i + 1) { scan with found := some (i, ino) } where
  found k j := by
    constructor
    · intro he
      cases he
      exact ⟨Nat.lt_succ_self i, hs⟩
    · rintro ⟨hk, hj⟩
      rcases Nat.lt_succ_iff_lt_or_eq.mp hk with hlt | rfl
      · have := (h.found k j).mpr ⟨hlt, hj⟩
        rw [hno] at this
        cases this
      · rw [hs] at hj
        cases hj
        rfl
  empty k he := by
    obtain ⟨hk, hn⟩ := h.empty k he
    exact ⟨by omega, hn⟩
  full he k hk := by
    rcases Nat.lt_succ_iff_lt_or_eq.mp hk with hlt | rfl
    · exact h.full he k hlt
    · rw [hs]
      simp

/-- The next slot is empty. -/
theorem Scanned.empty_next (h : Scanned v name.bytes i scan) (hs : v.slot i = none) :
    Scanned v name.bytes (i + 1) { scan with emptyslot := some i } where
  found k j := by
    refine (h.found k j).trans ⟨fun hk => ⟨by omega, hk.2⟩, ?_⟩
    rintro ⟨hk, hj⟩
    refine ⟨?_, hj⟩
    by_contra hge
    obtain rfl : k = i := by omega
    rw [hs] at hj
    cases hj
  empty k he := by
    cases he
    exact ⟨Nat.lt_succ_self i, hs⟩
  full he := by cases he

/-- The next slot has another name. -/
theorem Scanned.other_next (h : Scanned v name.bytes i scan) {p : List UInt8 × ℕ}
    (hs : v.slot i = some p) (hne : p.1 ≠ name.bytes) : Scanned v name.bytes (i + 1) scan where
  found k j := by
    refine (h.found k j).trans ⟨fun hk => ⟨by omega, hk.2⟩, ?_⟩
    rintro ⟨hk, hj⟩
    refine ⟨?_, hj⟩
    by_contra hge
    obtain rfl : k = i := by omega
    rw [hs] at hj
    cases hj
    exact hne rfl
  empty k he := by
    obtain ⟨hk, hn⟩ := h.empty k he
    exact ⟨by omega, hn⟩
  full he k hk := by
    rcases Nat.lt_succ_iff_lt_or_eq.mp hk with hlt | rfl
    · exact h.full he k hlt
    · rw [hs]
      simp

/-- **One slot in `sfs_dir_findname`.** -/
theorem returns_scanSlot (h : w.Physical I) (hl : w.Listed) (hload : sfsRootdirIno ∈ w.fs.vnodes)
    (hi : i < w.nslots) (hs : Scanned w name.bytes i scan) :
    Returns (scanSlot sfsRootdirIno name i scan) w (Ends
      (fun scan u => Kept I sfsRootdirIno w u ∧ u.fs.freemap = w.fs.freemap ∧
        Scanned w name.bytes (i + 1) scan) fun _ _ => False) := by
  unfold scanSlot
  refine (returns_readdir h hl hload hi).bind ?_
  rintro (e | tsd) u hu
  · exact hu.elim
  obtain ⟨hk, hfm, htsd⟩ := hu
  have hslot : w.slot i = entry tsd := (entry_congr htsd).symm
  unfold entry at hslot
  change Returns (if sfdIno tsd = sfsNoino then _ else _) u _
  by_cases h0 : sfdIno tsd = sfsNoino
  · rw [if_pos h0] at hslot ⊢
    exact returns_pure.mpr ⟨hk, hfm, hs.empty_next hslot⟩
  · rw [if_neg h0] at hslot ⊢
    by_cases hname : sfdName tsd = name.bytes
    · have hno : scan.found = none := by
        cases hf : scan.found with
        | none => rfl
        | some p =>
          -- the name would be in two slots
          obtain ⟨hlt, hp⟩ := (hs.found p.1 p.2).mp hf
          rw [hname] at hslot
          have := hl.distinct p.1 i _ _ _ (by omega) hi hp hslot
          omega
      rw [if_pos hname, returns_kassert hno]
      rw [hname] at hslot
      exact returns_pure.mpr ⟨hk, hfm, hs.found_next hno hslot⟩
    · rw [if_neg hname]
      exact returns_pure.mpr ⟨hk, hfm, hs.other_next hslot hname⟩

/-- The names of the slots before the end are the names. -/
theorem Scanned.names (hl : v.Listed) (h : Scanned v name.bytes v.nslots scan) :
    v.names name.bytes = scan.found.map Prod.snd := by
  unfold Vol.names
  cases hf : scan.found with
  | none =>
    refine SlotMap.lookup_eq_none.mpr fun k hk ino hs => ?_
    have := (h.found k ino).mpr ⟨hk, hs⟩
    rw [hf] at this
    cases this
  | some p =>
    obtain ⟨hk, hs⟩ := (h.found p.1 p.2).mp hf
    exact (SlotMap.lookup_eq_some hl.distinct).mpr ⟨p.1, hk, hs⟩

/-- **`sfs_dir_findname`** finds the name. -/
theorem returns_dirFindname (h : v.Physical I) (hl : v.Listed)
    (hload : sfsRootdirIno ∈ v.fs.vnodes) (name : CString) :
    Returns (sfsDirFindname sfsRootdirIno name) v (Ends
      (fun scan w => Kept I sfsRootdirIno v w ∧ w.fs.freemap = v.fs.freemap ∧
        Scanned v name.bytes v.nslots scan) fun _ _ => False) := by
  unfold sfsDirFindname
  rw [returns_dirNentries hl hload]
  refine returns_loop (fun i scan w => Kept I sfsRootdirIno v w ∧ w.fs.freemap = v.fs.freemap ∧
      Scanned v name.bytes i scan) (fun _ _ => False) v.nslots 0 (Nat.zero_add _) (fun i scan w hi hw => ?_) ⟨none, none⟩
    ⟨Kept.refl h _, rfl, fun k ino => ?_, fun k he => absurd he (by simp), fun _ k hk => by omega⟩
  · obtain ⟨hk, hfm, hs⟩ := hw
    obtain ⟨hslot, hn⟩ := slot_congr hk.file
    have hs' : Scanned w name.bytes i scan := by
      refine ⟨?_, ?_, ?_⟩
      · rw [hslot]
        exact hs.found
      · rw [hslot]
        exact hs.empty
      · rw [hslot]
        exact hs.full
    have hloadw : sfsRootdirIno ∈ w.fs.vnodes := hk.touch.vnodes ▸ hload
    refine (returns_scanSlot hk.physical (hl.congr hk.file) hloadw (by rw [hn]; exact hi) hs').mono ?_
    rintro (e | scan') u hu
    · exact hu
    · obtain ⟨hk', hfm', hf, he, hfull⟩ := hu
      rw [hslot] at hf he hfull
      exact ⟨hk.trans hk', hfm'.trans hfm, hf, he, hfull⟩
  · exact iff_of_false (fun he => by cases he) fun hk => absurd hk.1 (Nat.not_lt_zero k)

/-- **`sfs_writedir`** changes a slot, or there is no space for it. -/
theorem returns_writedir (h : v.Physical I) (hl : v.Listed) (hload : sfsRootdirIno ∈ v.fs.vnodes)
    (hk : k ≤ v.nslots) {sd : Buffer} : Returns (sfsWritedir sfsRootdirIno k sd) v (Ends
      (fun _ w => SlotSet I k (entry sd) v w)
      fun e w => Kept I sfsRootdirIno v w ∧ (k < v.nslots → v.slot k = none) ∧
        (e = .enospc ∧ v.freeBlocks.card ≤ 1 ∨ e = .efbig ∧ k = v.nslots ∧ v.nslots = maxSlots)) := by
  obtain ⟨hle, hpos⟩ := hl.slot_lt hk
  unfold sfsWritedir
  rw [hpos]
  refine (returns_metaio_write h h.root hload (lt_of_le_of_lt hle (by decide)) (slot_fit k)).bind ?_
  rintro (e | _) w hw
  · obtain ⟨hkept, he⟩ := hw
    refine ⟨hkept, fun hlt => ?_, he.imp (fun he => ⟨he.1, he.2.2⟩) fun ⟨he, hge⟩ => ?_⟩
    · by_contra hs
      obtain ⟨p, hp⟩ := Option.ne_none_iff_exists'.mp hs
      rcases he with ⟨-, h0, -⟩ | ⟨-, hge⟩
      · exact slot_block_ne_zero hp h0
      · exact absurd (hl.slot_block hlt) (Nat.not_lt.mpr hge)
    · have hn : k = v.nslots := by
        by_contra hne
        exact absurd (hl.slot_block (lt_of_le_of_ne hk hne)) (Nat.not_lt.mpr hge)
      have hfull := (Nat.le_div_iff_mul_le (by decide)).mp hge
      refine ⟨he, hn, ?_⟩
      rw [← hn]
      unfold maxSlots sfsDirentrySize at *
      omega
  · obtain ⟨hmax, hr, hbyte, hsize⟩ := hw
    exact returns_pure.mpr (SlotSet.of_write hl hk hmax hr hbyte hsize)

/-- **`sfs_dir_unlink`** of a slot that is in use. -/
theorem returns_dirUnlink (h : v.Physical I) (hl : v.Listed) (hload : sfsRootdirIno ∈ v.fs.vnodes)
    (hk : k < v.nslots) {p : List UInt8 × ℕ} (hs : v.slot k = some p) :
    Returns (sfsDirUnlink sfsRootdirIno k) v (Ends
      (fun _ w => SlotSet I k none v w) fun _ _ => False) := by
  unfold sfsDirUnlink
  refine (returns_writedir h hl hload (le_of_lt hk)).mono ?_
  rintro (e | _) w hw
  · have := hw.2.1 hk
    rw [hs] at this
    cases this
  · exact entry_empty ▸ hw

/-- What `sfs_dir_link` returns: the slot that got the name, which is an empty one if there is one,
or why there is none. -/
def LinkPost (I : ℕ → Prop) (name : CString) (ino : ℕ) (v : Vol) : Except FsErr ℕ → Vol → Prop :=
  Ends (fun k w => v.names name.bytes = none ∧ name.bytes.length < sfsNamelen ∧
      SlotSet I k (some (name.bytes, ino)) v w ∧ (k < v.nslots → v.slot k = none) ∧
      k ≤ v.nslots ∧ (k = v.nslots → ∀ j < v.nslots, v.slot j ≠ none))
    fun e w => Kept I sfsRootdirIno v w ∧ if v.names name.bytes ≠ none then e = .eexist
      else if sfsNamelen < name.bytes.length + 1 then e = .enametoolong
      else e = .enospc ∧ v.freeBlocks.card ≤ 1 ∨
        e = .efbig ∧ v.nslots = maxSlots ∧ ∀ j < v.nslots, v.slot j ≠ none

/-- **`sfs_dir_link`.** -/
theorem returns_dirLink (h : v.Physical I) (hl : v.Listed) (hload : sfsRootdirIno ∈ v.fs.vnodes)
    (hino : I ino) (name : CString) : Returns (sfsDirLink sfsRootdirIno name ino) v (LinkPost I name ino v) := by
  have hlt : ino < wordSize := h.word_lt (h.marked_inode hino).1
  have h0 : ino ≠ sfsNoino := fun he => h.isMeta_ne_inode hino (.inl rfl : v.IsMeta 0) he.symm
  unfold sfsDirLink
  refine (returns_dirFindname h hl hload name).bind ?_
  rintro (e | scan) w hw
  · exact hw.elim
  obtain ⟨hk, hfm, hs⟩ := hw
  have hnames := hs.names hl
  change Returns (if scan.found.isSome then _ else _) w _
  cases hf : scan.found with
  | some p =>
    rw [hf] at hnames
    rw [if_pos (show (some p).isSome = true from rfl)]
    refine returns_throw.mpr ⟨hk, ?_⟩
    rw [if_pos (by rw [hnames]; simp)]
  | none =>
    rw [hf] at hnames
    rw [if_neg (by simp)]
    by_cases hlong : sfsNamelen < name.bytes.length + 1
    · rw [if_pos hlong]
      refine returns_throw.mpr ⟨hk, ?_⟩
      rw [if_neg (by rw [hnames]; simp), if_pos hlong]
    · rw [if_neg hlong]
      obtain ⟨hslot, hn⟩ := slot_congr hk.file
      have hlw := hl.congr hk.file
      have hloadw : sfsRootdirIno ∈ w.fs.vnodes := hk.touch.vnodes ▸ hload
      -- the slot is an empty one, or the one behind the last
      have hwrite : ∀ k, k ≤ v.nslots → (k < v.nslots → v.slot k = none) →
          (k = v.nslots → ∀ j < v.nslots, v.slot j ≠ none) →
          Returns (sfsWritedir sfsRootdirIno k (direntry ino name.bytes) >>= fun _ => pure k) w
            (LinkPost I name ino v) := by
        intro k hkn hempty hfull
        refine (returns_writedir hk.physical hlw hloadw (by rw [hn]; exact hkn)).bind ?_
        rintro (e | _) u hu
        · refine ⟨hk.trans hu.1, ?_⟩
          rw [if_neg (by rw [hnames]; simp), if_neg hlong]
          rcases hu.2.2 with ⟨he, hcard⟩ | ⟨he, hkw, hmax⟩
          · refine .inl ⟨he, ?_⟩
            unfold freeBlocks at hcard ⊢
            rwa [hfm, hk.touch.nblocks] at hcard
          · rw [hn] at hkw hmax
            exact .inr ⟨he, hmax, hfull hkw⟩
        · have hu' : SlotSet I k (entry (direntry ino name.bytes)) w u := hu
          rw [entry_direntry hlt h0 (by omega)] at hu'
          have hchange := hu'.change
          rw [hslot, hn] at hchange
          exact returns_pure.mpr ⟨hnames, by omega, ⟨hk.rewritten.trans hu'.rewritten, hchange,
            hu'.self, hu'.size, hu'.fits⟩, hempty, hkn, hfull⟩
      cases hes : scan.emptyslot with
      | some k =>
        obtain ⟨hkn, hnone⟩ := hs.empty k hes
        exact (returns_bind.mpr (returns_pure.mpr (hwrite k (le_of_lt hkn) (fun _ => hnone)
          fun he => by omega)))
      | none =>
        refine (returns_dirNentries hlw hloadw).mpr ?_
        rw [hn]
        exact hwrite v.nslots (le_refl _) (fun hlt => by omega) fun _ => hs.full hes

end Directory

end SfsFs

end Os161
