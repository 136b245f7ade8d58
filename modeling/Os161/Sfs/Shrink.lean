import Os161.Sfs.Truncate

set_option autoImplicit false

/-!
# The blocks after a truncation

Which blocks of a file `sfs_itrunc` frees and which pointers it clears. The direct blocks are cut from
block `blocklen` on; the indirect block is looked at below `blocklen` 142 only, and its entries are
cut from block `blocklen + 1` on.

* `DirectCut`, `IndirectCut`: the two parts.
* **`returns_itrunc_cut`**: what `sfs_itrunc` leaves of the file.
-/

namespace Os161

open Buffer Vol

namespace SfsFs

/-- **The loop over the direct blocks** before its iteration `k`. -/
structure DirectCut (ino blocklen k : ℕ) (v w : Vol) : Prop where
  words : ∀ i, w.inodeWords ino i =
    if 2 ≤ i ∧ i < 2 + k ∧ blocklen ≤ i - 2 then 0 else v.inodeWords ino i
  disk : w.disk = v.disk
  freemap : ∀ c, w.fs.freemap c = true ↔ v.fs.freemap c = true ∧
    ¬ ∃ j < k, blocklen ≤ j ∧ v.blockOf ino j = c ∧ c ≠ 0

/-- **The indirect block** is freed if it maps nothing any more. -/
structure IndirectCut (ino blocklen : ℕ) (w v : Vol) : Prop where
  words : ∀ i ≠ 17, v.inodeWords ino i = w.inodeWords ino i
  entries : ∀ j, v.entries ino j = if blocklen < sfsNdirect + j then 0 else w.entries ino j
  indirect : v.indirect ino = w.indirect ino ∧ (∃ j, v.entries ino j ≠ 0) ∨
    v.indirect ino = 0 ∧ ∀ j, v.entries ino j = 0
  freemap : ∀ c, v.fs.freemap c = true ↔ w.fs.freemap c = true ∧
    ¬ Cut w ino blocklen sfsDbperidb c ∧ (v.indirect ino = 0 → c ≠ w.indirect ino)
  sector : ∀ b ≠ w.indirect ino, v.disk.sector b = w.disk.sector b

section Cuts

variable {v w w' : Vol} {I : ℕ → Prop} {ino blocklen k : ℕ}

theorem directCut_zero : DirectCut ino blocklen 0 v v where
  words i := by rw [if_neg (by omega)]
  disk := rfl
  freemap c := (and_iff_left fun ⟨j, hj, _⟩ => absurd hj (Nat.not_lt_zero j)).symm

/-- The iteration has not come to the pointer yet. -/
theorem DirectCut.blockOf (h : DirectCut ino blocklen k v w) (hk : k < sfsNdirect) :
    w.blockOf ino k = v.blockOf ino k := by
  rw [blockOf_direct hk, blockOf_direct hk, h.words, if_neg (by omega)]

/-- A block that stays. -/
theorem DirectCut.keep (h : DirectCut ino blocklen k v w) (hk : k < sfsNdirect)
    (hkeep : ¬ (blocklen ≤ k ∧ v.blockOf ino k ≠ 0)) : DirectCut ino blocklen (k + 1) v w where
  words i := by
    rw [h.words]
    by_cases hi : i = 2 + k
    · subst hi
      rw [if_neg (by omega)]
      split_ifs with hc
      · rw [← blockOf_direct (v := v) hk]
        by_contra hne
        exact hkeep ⟨by omega, hne⟩
      · rfl
    · exact if_congr (by omega) rfl rfl
  disk := h.disk
  freemap c := by
    refine (h.freemap c).trans (and_congr_right fun _ => not_congr ⟨?_, ?_⟩)
    · rintro ⟨j, hj, hc⟩
      exact ⟨j, by omega, hc⟩
    · rintro ⟨j, hj, hle, rfl, h0⟩
      refine ⟨j, ?_, hle, rfl, h0⟩
      by_contra hge
      obtain rfl : j = k := by omega
      exact hkeep ⟨hle, h0⟩

/-- A block that is freed. -/
theorem DirectCut.drop (h : DirectCut ino blocklen k v w) (hload : ino ∈ w.fs.vnodes)
    (hk : k < sfsNdirect) (hle : blocklen ≤ k) (h0 : v.blockOf ino k ≠ 0)
    (hw : w' = (w.release (w.blockOf ino k)).setInode ino (setWord (w.fs.inode ino) (2 + k) 0)) :
    DirectCut ino blocklen (k + 1) v w' where
  words i := by
    have hid : sfsDbperidb = 128 := rfl
    have hnd : sfsNdirect = 15 := rfl
    have hwords : w'.inodeWords ino = Function.update (w.inodeWords ino) (2 + k) 0 := by
      rw [inodeWords_loaded (v := w) hload, ← words_setWord (by omega) (by decide), hw]
      exact inodeWords_setInode (v := w.release (w.blockOf ino k)) hload _
    rw [hwords]
    by_cases hi : i = 2 + k
    · subst hi
      rw [Function.update_self, if_pos (by omega)]
    · rw [Function.update_of_ne hi, h.words]
      exact if_congr (by omega) rfl rfl
  disk := by
    rw [hw]
    exact h.disk
  freemap c := by
    have hblock := h.blockOf hk
    rw [hw]
    change Function.update w.fs.freemap (w.blockOf ino k) false c = true ↔ _
    rw [hblock]
    by_cases hc : c = v.blockOf ino k
    · subst hc
      rw [Function.update_self]
      exact iff_of_false Bool.false_ne_true
        fun hn => hn.2 ⟨k, Nat.lt_succ_self k, hle, rfl, h0⟩
    · rw [Function.update_of_ne hc, h.freemap]
      refine and_congr_right fun _ => not_congr ⟨?_, ?_⟩
      · rintro ⟨j, hj, hn⟩
        exact ⟨j, by omega, hn⟩
      · rintro ⟨j, hj, hn⟩
        refine ⟨j, ?_, hn⟩
        by_contra hge
        obtain rfl : j = k := by omega
        exact hc hn.2.1.symm

/-- **The loop over the direct blocks.** -/
theorem returns_truncDirect_cut (h : v.Physical I) (hino : I ino) (hload : ino ∈ v.fs.vnodes)
    (blocklen : ℕ) :
    Returns (loop (fun k _ => truncDirect ino blocklen k) sfsNdirect 0 ()) v
      (Ends (fun _ w => Truncating I ino blocklen sfsNdirect v w ∧
        DirectCut ino blocklen sfsNdirect v w) fun _ _ => False) := by
  refine returns_loop (fun k _ w => Truncating I ino blocklen k v w ∧ DirectCut ino blocklen k v w)
    (fun _ _ => False) sfsNdirect 0 (Nat.zero_add _) (fun k _ w hk hw => ?_) ()
    ⟨⟨h, .refl I ino v, rfl, rfl, fun j hj => absurd hj (Nat.not_lt_zero j)⟩, directCut_zero⟩
  obtain ⟨ht, hd⟩ := hw
  have hloadw : ino ∈ w.fs.vnodes := ht.touch.vnodes ▸ hload
  have hblock : sfiDirect (w.fs.inode ino) k = w.blockOf ino k := by
    rw [blockOf_direct hk, inodeWords_loaded hloadw]
    exact (words_of_lt (by unfold sfsNdirect at hk; unfold sfsDbperidb; omega)).symm
  unfold truncDirect
  rw [returns_get]
  simp only [hblock]
  split_ifs with hcut
  · have hown : w.Owns I (.block ino k) (w.blockOf ino k) := ⟨hino, rfl, hcut.2⟩
    rw [returns_bfree (ht.physical.lt_bits hown) (ht.physical.exact.marked _ _ hown).2,
      returns_modify_last]
    exact ⟨Truncating.drop_direct ht hino hloadw hk hcut.2 rfl,
      hd.drop hloadw hk hcut.1 (hd.blockOf hk ▸ hcut.2) rfl⟩
  · rw [returns_pure]
    refine ⟨⟨ht.physical, ht.touch, ht.size, ht.link, fun j hj hle => ?_⟩,
      hd.keep hk (hd.blockOf hk ▸ hcut)⟩
    by_cases hjk : j = k
    · rw [hjk]
      by_contra h0
      exact hcut ⟨hjk ▸ hle, h0⟩
    · exact ht.direct j (by omega) hle

section Indirect

variable (h : w.Physical I) (hino : I ino) (h0 : w.indirect ino ≠ 0)

/-- The entries that are not cut. -/
theorem Cutting.nonzero_iff {flags : Bool × Bool}
    (hc : Cutting w ino blocklen sfsDbperidb flags w') : flags.1 = true ↔
      ∃ j, (if blocklen < sfsNdirect + j then 0 else w.entries ino j) ≠ 0 := by
  rw [hc.nonzero]
  constructor
  · rintro ⟨j, -, hlt, hne⟩
    exact ⟨j, by rwa [if_neg hlt]⟩
  · rintro ⟨j, hne⟩
    split_ifs at hne with hlt
    · exact absurd rfl hne
    · refine ⟨j, ?_, hlt, hne⟩
      by_contra hge
      exact hne (entries_of_le j (Nat.not_lt.mp hge))

include h hino h0 in
/-- The indirect block is freed. -/
theorem Cutting.free_cut (hload : ino ∈ w.fs.vnodes) {f : Bool}
    (hc : Cutting w ino blocklen sfsDbperidb (false, f) w')
    (hv : v = (w'.release (w.indirect ino)).setInode ino (setWord (w'.fs.inode ino) 17 0)) :
    IndirectCut ino blocklen w v := by
  obtain ⟨-, -, hwords⟩ := hc.free h hino hload h0 hv
  have hind : v.indirect ino = 0 := (congrFun hwords 17).trans (Function.update_self ..)
  have hnone : ∀ j, (if blocklen < sfsNdirect + j then 0 else w.entries ino j) = 0 := fun j => by
    by_contra hne
    exact Bool.false_ne_true (hc.nonzero_iff.mpr ⟨j, hne⟩)
  have hentries : ∀ j, v.entries ino j = 0 := fun j => by rw [entries_zero hind]
  obtain ⟨tb, fm, fd, rfl⟩ := hc.fs
  refine ⟨fun i hi => ?_, fun j => (hentries j).trans (hnone j).symm, .inr ⟨hind, hentries⟩,
    fun c => ?_, fun b _ => ?_⟩
  · rw [hwords, Function.update_of_ne hi]
  · have hfree : v.fs.freemap = Function.update fm (w.indirect ino) false := by
      rw [hv]
      rfl
    rw [hfree]
    by_cases hce : c = w.indirect ino
    · rw [hce, Function.update_self]
      exact iff_of_false Bool.false_ne_true fun hn => hn.2.2 hind rfl
    · rw [Function.update_of_ne hce, ← and_assoc]
      exact (hc.freemap c).trans (and_iff_left fun _ => hce).symm
  · rw [hv]
    rfl

include h hino h0 in
/-- The indirect block is written. -/
theorem Cutting.write_cut (hc : Cutting w ino blocklen sfsDbperidb (true, true) w')
    (hv : v = ⟨w'.fs, w'.disk.write (w.indirect ino) (clip w'.fs.truncbuf)⟩) :
    IndirectCut ino blocklen w v := by
  obtain ⟨-, -, hwords⟩ := hc.write h hino h0 hv
  have hind : v.indirect ino = w.indirect ino := congrFun hwords 17
  have hnonzero := hc.nonzero_iff.mp rfl
  have hentries : ∀ j, v.entries ino j =
      if blocklen < sfsNdirect + j then 0 else w.entries ino j := fun j => by
    have hsec : v.disk.sector (w.indirect ino) = clip w'.fs.truncbuf := by
      rw [hv]
      exact Function.update_self ..
    rw [entries_ne (by rw [hind]; exact h0), hind, hsec, words_clip, hc.buf]
    by_cases hj : j < sfsDbperidb
    · exact if_congr (and_iff_right hj) rfl rfl
    · simp only [hj, false_and, entries_of_le j (Nat.not_lt.mp hj), ite_self]
  refine ⟨fun i _ => congrFun hwords i, hentries, .inl ⟨hind, ?_⟩, fun c => ?_, fun b hb => ?_⟩
  · obtain ⟨j, hj⟩ := hnonzero
    exact ⟨j, by rwa [hentries]⟩
  · have hfm : v.fs.freemap = w'.fs.freemap := by rw [hv]
    rw [hfm, hc.freemap, and_iff_left fun hz => absurd (hind.symm.trans hz) h0]
  · obtain ⟨tb, fm, fd, rfl⟩ := hc.fs
    rw [hv]
    exact Function.update_of_ne hb ..

include h0 in
/-- No entry is cut. -/
theorem Cutting.keep_cut (hc : Cutting w ino blocklen sfsDbperidb (true, false) w') :
    IndirectCut ino blocklen w w' := by
  have hcut : ∀ c, ¬ Cut w ino blocklen sfsDbperidb c := fun c hcc =>
    Bool.false_ne_true (hc.dirty.mpr ⟨c, hcc⟩)
  have hfm : ∀ c, w'.fs.freemap c = true ↔ w.fs.freemap c = true := fun c =>
    (hc.freemap c).trans (and_iff_left (hcut c))
  have hnonzero := hc.nonzero_iff.mp rfl
  obtain ⟨tb, fm, fd, rfl⟩ := hc.fs
  have hsame : ∀ j, (if blocklen < sfsNdirect + j then 0 else w.entries ino j) = w.entries ino j := by
    intro j
    split_ifs with hlt
    · by_contra hne
      have hj : j < sfsDbperidb := by
        by_contra hge
        exact hne (entries_of_le j (Nat.not_lt.mp hge)).symm
      exact hcut _ ⟨j, hj, hlt, rfl, Ne.symm hne⟩
    · rfl
  refine ⟨fun _ _ => rfl, fun j => (hsame j).symm, .inl ⟨rfl, ?_⟩, fun c => ?_, fun _ _ => rfl⟩
  · obtain ⟨j, hj⟩ := hnonzero
    exact ⟨j, by rwa [hsame] at hj⟩
  · rw [hfm c]
    exact (and_iff_left ⟨hcut c, fun hz => absurd hz h0⟩).symm

include h hino h0 in
/-- **What is left of the indirect block.** -/
theorem Cutting.result (hload : ino ∈ w.fs.vnodes) {flags : Bool × Bool}
    (hc : Cutting w ino blocklen sfsDbperidb flags w') :
    IndirectCut ino blocklen w (cutResult ino (w.indirect ino) flags w') := by
  obtain ⟨nonzero, dirty⟩ := flags
  unfold cutResult
  cases nonzero with
  | false =>
    rw [if_pos rfl]
    exact hc.free_cut h hino h0 hload rfl
  | true =>
    rw [if_neg (by simp)]
    cases dirty with
    | true =>
      rw [if_pos rfl]
      exact hc.write_cut h hino h0 rfl
    | false =>
      rw [if_neg Bool.false_ne_true]
      exact hc.keep_cut h0

end Indirect

end Cuts

/-- **What `sfs_itrunc` leaves of the file.** -/
structure ItruncCut (I : ℕ → Prop) (ino : ℕ) (len : ℤ) (v w : Vol) : Prop where
  resized : Resized I ino len v w
  direct : ∀ fb < sfsNdirect, w.blockOf ino fb =
    if truncBlocklen len ≤ fb then 0 else v.blockOf ino fb
  entries : ∀ j, w.entries ino j =
    if truncBlocklen len < sfsNdirect + sfsDbperidb - 1 ∧ truncBlocklen len < sfsNdirect + j then 0
    else v.entries ino j
  indirect : w.indirect ino = v.indirect ino ∧
      (truncBlocklen len < sfsNdirect + sfsDbperidb - 1 → v.indirect ino ≠ 0 →
        ∃ j, w.entries ino j ≠ 0) ∨
    w.indirect ino = 0 ∧ truncBlocklen len < sfsNdirect + sfsDbperidb - 1
  freemap : ∀ c, w.fs.freemap c = true ↔ v.fs.freemap c = true ∧
    ¬ ((∃ fb, v.blockOf ino fb = c ∧ c ≠ 0 ∧ w.blockOf ino fb = 0) ∨
      v.indirect ino = c ∧ c ≠ 0 ∧ w.indirect ino = 0)
  sector : ∀ fb, w.blockOf ino fb ≠ 0 →
    w.disk.sector (w.blockOf ino fb) = v.disk.sector (w.blockOf ino fb)

section Itrunc

variable {v w u : Vol} {I : ℕ → Prop} {ino blocklen : ℕ} {len : ℤ}

/-- The two parts of `sfs_itrunc`, the second of which may not be needed. -/
structure PartsCut (I : ℕ → Prop) (ino blocklen : ℕ) (v w u : Vol) : Prop where
  truncating : Truncating I ino blocklen sfsNdirect v w
  direct : DirectCut ino blocklen sfsNdirect v w
  indirect : blocklen < sfsNdirect + sfsDbperidb - 1 ∧ w.indirect ino ≠ 0 ∧
      IndirectCut ino blocklen w u ∨
    ¬ (blocklen < sfsNdirect + sfsDbperidb - 1 ∧ w.indirect ino ≠ 0) ∧ u = w

theorem DirectCut.indirect (h : DirectCut ino blocklen sfsNdirect v w) :
    w.indirect ino = v.indirect ino := by
  unfold Vol.indirect
  rw [h.words, if_neg (by unfold sfsNdirect; omega)]

theorem DirectCut.entries (h : DirectCut ino blocklen sfsNdirect v w) :
    w.entries ino = v.entries ino :=
  entries_congr h.indirect fun _ => by rw [h.disk]

/-- **The parts of a run of `sfs_itrunc`.** -/
theorem returns_itrunc_parts (h : v.Physical I) (hino : I ino) (hload : ino ∈ v.fs.vnodes) (len : ℤ) :
    Returns (sfsItrunc ino len) v (Ends (fun _ w' => ∃ w u,
      PartsCut I ino (truncBlocklen len) v w u ∧
      w' = u.setInode ino (setWord (u.fs.inode ino) 0 (len % wordSize).toNat)) fun _ _ => False) := by
  unfold sfsItrunc
  refine (returns_truncDirect_cut h hino hload (truncBlocklen len)).bind ?_
  rintro (e | _) w hw
  · exact hw.elim
  obtain ⟨ht, hd⟩ : Truncating I ino (truncBlocklen len) sfsNdirect v w ∧
    DirectCut ino (truncBlocklen len) sfsNdirect v w := hw
  have hloadw : ino ∈ w.fs.vnodes := ht.touch.vnodes ▸ hload
  have hblock : sfiIndirect (w.fs.inode ino) = w.indirect ino := by
    rw [Vol.indirect, inodeWords_loaded hloadw]
    exact (words_of_lt (by decide)).symm
  change Returns (getFs >>= _) w _
  rw [returns_get]
  simp only [hblock]
  have hpart : Returns (if truncBlocklen len < sfsNdirect + sfsDbperidb - 1 ∧ w.indirect ino ≠ 0
      then truncIndirect ino (truncBlocklen len) (w.indirect ino) else pure ()) w
      (Ends (fun _ u => PartsCut I ino (truncBlocklen len) v w u) fun _ _ => False) := by
    split_ifs with hcut
    · exact returns_truncIndirect_of ht.physical hino hcut.2 fun flags w' hc =>
        ⟨ht, hd, .inl ⟨hcut.1, hcut.2, hc.result ht.physical hino hcut.2 hloadw⟩⟩
    · exact returns_pure.mpr ⟨ht, hd, .inr ⟨hcut, rfl⟩⟩
  refine hpart.bind ?_
  rintro (e | _) u hu
  · exact hu.elim
  exact returns_modify_last.mpr ⟨w, u, hu, rfl⟩

/-- Two things that a program returns. -/
theorem Returns.and {α : Type} {x : SfsM α} {Q Q' : Except FsErr α → Vol → Prop}
    (h : Returns x v Q) (h' : Returns x v Q') : Returns x v fun r w => Q r w ∧ Q' r w := by
  obtain ⟨r, w, he, hq⟩ := h
  obtain ⟨r', w', he', hq'⟩ := h'
  cases he.symm.trans he'
  exact ⟨r, w, he, hq, hq'⟩

section Parts

variable {w' : Vol} (h : PartsCut I ino blocklen v w u)

include h

/-- The pointers before the size is set. -/
theorem PartsCut.words {i : ℕ} (hi : i ≠ 17) : u.inodeWords ino i = w.inodeWords ino i := by
  rcases h.indirect with ⟨-, -, hc⟩ | ⟨-, rfl⟩
  · exact hc.words i hi
  · rfl

theorem PartsCut.blockOf_direct {fb : ℕ} (hfb : fb < sfsNdirect) :
    u.blockOf ino fb = if blocklen ≤ fb then 0 else v.blockOf ino fb := by
  have hnd : sfsNdirect = 15 := rfl
  rw [Vol.blockOf_direct hfb, Vol.blockOf_direct hfb, h.words (by omega), h.direct.words]
  exact if_congr (by omega) rfl rfl

theorem PartsCut.entries (j : ℕ) : u.entries ino j =
    if blocklen < sfsNdirect + sfsDbperidb - 1 ∧ blocklen < sfsNdirect + j then 0
    else v.entries ino j := by
  rw [← h.direct.entries]
  rcases h.indirect with ⟨hlt, -, hc⟩ | ⟨hno, rfl⟩
  · rw [hc.entries]
    exact if_congr (and_iff_right hlt).symm rfl rfl
  · split_ifs with hcut
    · rw [entries_zero (not_not.mp fun h0 => hno ⟨hcut.1, h0⟩)]
    · rfl

theorem PartsCut.indirect_eq : u.indirect ino = v.indirect ino ∧
      (blocklen < sfsNdirect + sfsDbperidb - 1 → v.indirect ino ≠ 0 → ∃ j, u.entries ino j ≠ 0) ∨
    u.indirect ino = 0 ∧ blocklen < sfsNdirect + sfsDbperidb - 1 := by
  have hsame := h.direct.indirect
  rcases h.indirect with ⟨hlt, -, hc⟩ | ⟨hno, rfl⟩
  · rcases hc.indirect with ⟨heq, hne⟩ | ⟨heq, -⟩
    · exact .inl ⟨heq.trans hsame, fun _ _ => hne⟩
    · exact .inr ⟨heq, hlt⟩
  · rw [hsame] at hno
    exact .inl ⟨hsame, fun hlt h0 => absurd ⟨hlt, h0⟩ hno⟩

/-- The blocks that are not marked any more. -/
theorem PartsCut.freemap (c : ℕ) : u.fs.freemap c = true ↔ v.fs.freemap c = true ∧
    ¬ ((∃ fb, v.blockOf ino fb = c ∧ c ≠ 0 ∧ u.blockOf ino fb = 0) ∨
      v.indirect ino = c ∧ c ≠ 0 ∧ u.indirect ino = 0) := by
  have hdirect : (∃ j < sfsNdirect, blocklen ≤ j ∧ v.blockOf ino j = c ∧ c ≠ 0) ↔
      ∃ fb < sfsNdirect, v.blockOf ino fb = c ∧ c ≠ 0 ∧ u.blockOf ino fb = 0 := by
    refine exists_congr fun j => and_congr_right fun hj => ?_
    rw [h.blockOf_direct hj]
    constructor
    · rintro ⟨hle, hv, h0⟩
      exact ⟨hv, h0, if_pos hle⟩
    · rintro ⟨hv, h0, hz⟩
      refine ⟨?_, hv, h0⟩
      by_contra hle
      rw [if_neg hle, hv] at hz
      exact h0 hz
  have hfb : (∃ fb, v.blockOf ino fb = c ∧ c ≠ 0 ∧ u.blockOf ino fb = 0) ↔
      (∃ fb < sfsNdirect, v.blockOf ino fb = c ∧ c ≠ 0 ∧ u.blockOf ino fb = 0) ∨
        ∃ j, v.entries ino j = c ∧ c ≠ 0 ∧ u.entries ino j = 0 := by
    constructor
    · rintro ⟨fb, hc⟩
      by_cases hlt : fb < sfsNdirect
      · exact .inl ⟨fb, hlt, hc⟩
      · rw [blockOf_entry hlt, blockOf_entry hlt] at hc
        exact .inr ⟨_, hc⟩
    · rintro (⟨fb, -, hc⟩ | ⟨j, hc⟩)
      · exact ⟨fb, hc⟩
      · refine ⟨sfsNdirect + j, ?_⟩
        rw [blockOf_entry (by omega), blockOf_entry (by omega), Nat.add_sub_cancel_left]
        exact hc
  rw [hfb, ← hdirect, or_assoc, not_or, ← and_assoc, ← h.direct.freemap]
  rcases h.indirect with ⟨hlt, h0, hc⟩ | ⟨hno, rfl⟩
  · rw [hc.freemap, not_or]
    refine and_congr_right fun _ => and_congr (not_congr ?_) ?_
    · rw [← h.direct.entries]
      constructor
      · rintro ⟨j, -, hj, he, hne⟩
        exact ⟨j, he, hne, by rw [hc.entries, if_pos hj]⟩
      · rintro ⟨j, he, hne, hz⟩
        rw [hc.entries] at hz
        have hcut : blocklen < sfsNdirect + j := by
          by_contra hge
          rw [if_neg hge, he] at hz
          exact hne hz
        refine ⟨j, ?_, hcut, he, hne⟩
        by_contra hge
        rw [entries_of_le j (Nat.not_lt.mp hge)] at he
        exact hne he.symm
    · rw [← h.direct.indirect]
      constructor
      · rintro hn ⟨rfl, -, hz⟩
        exact hn hz rfl
      · rintro hn hz rfl
        exact hn ⟨rfl, h0, hz⟩
  · refine (and_iff_left ?_).symm
    rintro (⟨j, he, hne, hz⟩ | ⟨hi, hne, hz⟩)
    · rw [h.direct.entries, he] at hz
      exact hne hz
    · rw [h.direct.indirect, hi] at hz
      exact hne hz

/-- The blocks that are left are as they were. -/
theorem PartsCut.sector (hv : v.Physical I) (hino : I ino) {fb : ℕ} (h0 : u.blockOf ino fb ≠ 0) :
    u.blockOf ino fb = v.blockOf ino fb ∧
      u.disk.sector (v.blockOf ino fb) = v.disk.sector (v.blockOf ino fb) := by
  have hsame : u.blockOf ino fb = v.blockOf ino fb := by
    by_cases hfb : fb < sfsNdirect
    · rw [h.blockOf_direct hfb] at h0 ⊢
      split_ifs at h0 ⊢
      · exact absurd rfl h0
      · rfl
    · rw [blockOf_entry hfb] at h0 ⊢
      rw [blockOf_entry hfb]
      rw [h.entries] at h0 ⊢
      split_ifs at h0 ⊢
      · exact absurd rfl h0
      · rfl
  refine ⟨hsame, ?_⟩
  rw [hsame] at h0
  rcases h.indirect with ⟨-, hi, hc⟩ | ⟨-, rfl⟩
  · rw [hc.sector, h.direct.disk]
    rw [h.direct.indirect] at hi ⊢
    exact hv.ne_of_ne (s := .block ino fb) ⟨hino, rfl, h0⟩
      (t := .indirect ino) ⟨hino, rfl, hi⟩ (by simp)
  · rw [h.direct.disk]

end Parts

/-- **`sfs_itrunc`**: which blocks are left. -/
theorem returns_itrunc_cut (h : v.Physical I) (hino : I ino) (hload : ino ∈ v.fs.vnodes) (len : ℤ) :
    Returns (sfsItrunc ino len) v (Ends (fun _ => ItruncCut I ino len v) fun _ _ => False) := by
  refine ((returns_itrunc h hino hload len).and (returns_itrunc_parts h hino hload len)).mono ?_
  rintro (e | _) w' ⟨hr, hp⟩
  · exact hr
  obtain ⟨w, u, hp, rfl⟩ := hp
  have hloadu : ino ∈ u.fs.vnodes := by
    have := hr.touch.vnodes
    change u.fs.vnodes = _ at this
    exact this ▸ hload
  have hwords : ∀ i, i ≠ 0 → Vol.inodeWords
      (u.setInode ino (setWord (u.fs.inode ino) 0 (len % wordSize).toNat)) ino i =
        u.inodeWords ino i := fun i hi => by
    rw [inodeWords_setInode hloadu, inodeWords_loaded hloadu]
    unfold words
    split_ifs
    · rw [word_setWord, if_neg hi]
      have := Int.emod_lt_of_pos len (show (0 : ℤ) < wordSize by decide)
      have := Int.emod_nonneg len (show (wordSize : ℤ) ≠ 0 by decide)
      have hws : wordSize = 2 ^ 32 := rfl
      omega
    · rfl
  set w' := u.setInode ino (setWord (u.fs.inode ino) 0 (len % wordSize).toNat) with hw'
  have hind : w'.indirect ino = u.indirect ino := hwords 17 (by decide)
  have hentries : w'.entries ino = u.entries ino := entries_congr hind fun _ => rfl
  have hmap : w'.blockOf ino = u.blockOf ino := by
    funext c
    unfold Vol.blockOf
    rw [hentries]
    split_ifs
    · exact hwords _ (by omega)
    · rfl
  refine ⟨hr, fun fb hfb => ?_, fun j => ?_, ?_, fun c => ?_, fun fb h0 => ?_⟩
  · rw [hmap]
    exact hp.blockOf_direct hfb
  · rw [hentries]
    exact hp.entries j
  · rw [hind, hentries]
    exact hp.indirect_eq
  · rw [hmap, hind]
    exact hp.freemap c
  · rw [hmap] at h0 ⊢
    obtain ⟨hsame, hsec⟩ := hp.sector h hino h0
    rw [hsame]
    exact hsec

end Itrunc

end SfsFs

end Os161
