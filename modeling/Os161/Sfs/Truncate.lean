import Os161.Sfs.Pointers

set_option autoImplicit false

/-!
# Truncation

`sfs_itrunc` on a volume that is in order.

* `Physical.drop`: blocks of a file become free.
* `Physical.set_word`: a field of an inode is set.
* **`returns_itrunc`**: the file has its new size, its other fields and the other files stay, and a file
  of length zero has no block left.
-/

namespace Os161

open Buffer SfsFs

namespace Vol

section Lemmas

variable {v v' : Vol} {I : ℕ → Prop} {ino b c i x : ℕ}

/-- **Blocks of a file become free** together with the pointers to them. -/
theorem Physical.drop (h : v.Physical I) (ht : Touch I ino v v') (D : ℕ → Prop)
    (hD : ∀ c, D c → ∃ t : Slot, t.file = some ino ∧ v.Owns I t c)
    (howns : ∀ t c, t.file = some ino → (v'.Owns I t c ↔ v.Owns I t c ∧ ¬ D c))
    (hfreemap : ∀ c, v'.fs.freemap c = true ↔ v.fs.freemap c = true ∧ ¬ D c)
    (hdirty : v'.fs.freemapdirty = true)
    (hclean : ino ∈ v.fs.vnodes → (v'.fs.sv ino).dirty = false →
      words (v'.fs.inode ino) = words (v'.disk.sector ino))
    (htype : I ino → (v'.file ino).type = (v.file ino).type) : v'.Physical I := by
  refine h.touch ht (h.exact.release D ?_ ?_) ?_ ?_ hclean htype
  · intro t c
    by_cases htf : t.file = some ino
    · exact howns t c htf
    · rw [ht.owns htf]
      refine (and_iff_left_of_imp fun hs hc => ?_).symm
      obtain ⟨s, hs', hown⟩ := hD c hc
      exact htf (by rw [h.exact.unique t s c hs hown, hs'])
  · intro c
    unfold Marked
    rw [ht.nblocks, hfreemap, and_assoc]
  · intro c hc
    refine Bool.eq_iff_iff.mpr ((hfreemap c).trans (and_iff_left fun hDc => ?_))
    obtain ⟨s, -, hown⟩ := hD c hDc
    exact absurd (h.exact.marked s c hown).1 (Nat.not_lt.mpr hc)
  · rw [hdirty]
    intro hf
    cases hf

/-- The owners of the blocks of a file, when some of them are dropped. -/
theorem owns_drop (D : ℕ → Prop) (hself : ¬ D ino)
    (hind : ∀ c ≠ 0, v'.indirect ino = c ↔ v.indirect ino = c ∧ ¬ D c)
    (hmap : ∀ fb, ∀ c ≠ 0, v'.blockOf ino fb = c ↔ v.blockOf ino fb = c ∧ ¬ D c)
    (t : Slot) (c : ℕ) (ht : t.file = some ino) :
    v'.Owns I t c ↔ v.Owns I t c ∧ ¬ D c := by
  cases t with
  | metadata j => cases ht
  | inode j =>
    obtain rfl := Option.some.inj ht
    refine (and_iff_left_of_imp ?_).symm
    rintro ⟨rfl, -⟩
    exact hself
  | indirect j =>
    obtain rfl := Option.some.inj ht
    change _ ∧ _ ∧ _ ↔ (_ ∧ _ ∧ _) ∧ _
    rw [and_assoc, and_congr_right_iff]
    intro _
    rw [and_right_comm, and_congr_left_iff]
    exact hind c
  | block j fb =>
    obtain rfl := Option.some.inj ht
    change _ ∧ _ ∧ _ ↔ (_ ∧ _ ∧ _) ∧ _
    rw [and_assoc, and_congr_right_iff]
    intro _
    rw [and_right_comm, and_congr_left_iff]
    exact hmap fb c

/-- **A field of an inode in memory is set**, but not its type. -/
theorem Physical.set_word (h : v.Physical I) (hload : ino ∈ v.fs.vnodes) (hi : i < 2)
    (hx : x < wordSize) (htype : i = 1 → x / 2 ^ 16 = (v.file ino).type)
    (hv : v' = v.setInode ino (setWord (v.fs.inode ino) i x)) :
    v'.Physical I ∧ Touch I ino v v' ∧ v'.inodeWords ino = Function.update (v.inodeWords ino) i x ∧
      v'.blockOf ino = v.blockOf ino ∧ v'.byte ino = v.byte ino := by
  subst hv
  have hid : sfsDbperidb = 128 := rfl
  have ht : Touch I ino v (v.setInode ino (setWord (v.fs.inode ino) i x)) :=
    ⟨rfl, rfl, rfl, rfl, rfl, fun _ => refcount_setInode .., fun j hj => sv_setInode_of_ne _ _ hj,
      fun _ _ _ _ => rfl⟩
  have hwords : (v.setInode ino (setWord (v.fs.inode ino) i x)).inodeWords ino =
      Function.update (v.inodeWords ino) i x := by
    rw [inodeWords_setInode hload, words_setWord (by omega) hx, inodeWords_loaded hload]
  have hother : ∀ k, k ≠ i → (v.setInode ino (setWord (v.fs.inode ino) i x)).inodeWords ino k =
      v.inodeWords ino k := fun k hk => by rw [hwords, Function.update_of_ne hk]
  have hentries := entries_congr (v := v) (hother 17 (by omega)) fun _ => rfl
  have hmap : (v.setInode ino (setWord (v.fs.inode ino) i x)).blockOf ino = v.blockOf ino := by
    funext c
    unfold Vol.blockOf
    rw [hentries]
    split_ifs
    · exact hother _ (by omega)
    · rfl
  have hbyte := byte_congr (v := v) hmap fun fb _ o _ => rfl
  have htype' : ((v.setInode ino (setWord (v.fs.inode ino) i x)).file ino).type =
      (v.file ino).type := by
    change _ / 2 ^ 16 = _
    by_cases h1 : i = 1
    · subst h1
      rw [hwords, Function.update_self]
      exact htype rfl
    · rw [hother 1 (Ne.symm h1)]
      rfl
  refine ⟨h.touch ht (h.exact.congr (fun t c => ?_) fun _ => Iff.rfl) (fun _ _ => rfl)
    (fun hd => ⟨hd, rfl⟩) (fun _ hd => ?_) fun _ => htype', ht, hwords, hmap, hbyte⟩
  · by_cases htf : t.file = some ino
    · cases t with
      | metadata k => cases htf
      | inode j => exact Iff.rfl
      | indirect j =>
        obtain rfl := Option.some.inj htf
        change I j ∧ Vol.inodeWords _ j 17 = c ∧ _ ↔ _
        rw [hother 17 (by omega)]
        rfl
      | block j k =>
        obtain rfl := Option.some.inj htf
        change I j ∧ Vol.blockOf _ j k = c ∧ _ ↔ _
        rw [hmap]
        rfl
    · exact ht.owns htf
  · exact absurd ((dirty_setInode v.fs ino _).symm.trans hd) (by decide)

/-- What `sfs_itrunc` has done before the iteration `k` over the direct blocks. -/
structure Truncating (I : ℕ → Prop) (ino blocklen k : ℕ) (v w : Vol) : Prop where
  physical : w.Physical I
  touch : Touch I ino v w
  size : w.inodeWords ino 0 = v.inodeWords ino 0
  link : w.inodeWords ino 1 = v.inodeWords ino 1
  direct : ∀ j < k, blocklen ≤ j → w.blockOf ino j = 0

end Lemmas

end Vol

namespace SfsFs

open Vol

section Truncate

variable {v w : Vol} {I : ℕ → Prop} {ino blocklen k : ℕ}

/-- A direct block is freed. -/
theorem Truncating.drop_direct (h : Truncating I ino blocklen k v w) (hino : I ino)
    (hload : ino ∈ w.fs.vnodes) (hk : k < sfsNdirect) (h0 : w.blockOf ino k ≠ 0) {w' : Vol}
    (hw : w' = (w.release (w.blockOf ino k)).setInode ino (setWord (w.fs.inode ino) (2 + k) 0)) :
    Truncating I ino blocklen (k + 1) v w' := by
  have hid : sfsDbperidb = 128 := rfl
  have hnd : sfsNdirect = 15 := rfl
  have hp := h.physical
  have ht : Touch I ino w w' := by
    rw [hw]
    exact ⟨rfl, rfl, rfl, rfl, rfl, fun _ => refcount_setInode .., fun j hj => sv_setInode_of_ne _ _ hj,
      fun _ _ _ _ => rfl⟩
  have hwords : w'.inodeWords ino = Function.update (w.inodeWords ino) (2 + k) 0 := by
    rw [inodeWords_loaded (v := w) hload, ← words_setWord (by omega) (by decide), hw]
    exact inodeWords_setInode (v := w.release (w.blockOf ino k)) hload _
  have hother : ∀ i, i ≠ 2 + k → w'.inodeWords ino i = w.inodeWords ino i := fun i hi => by
    rw [hwords, Function.update_of_ne hi]
  have hdisk : w'.disk = w.disk := by rw [hw]; rfl
  have hentries := entries_congr (hother 17 (by omega)) fun _ => by rw [hdisk]
  have hmap : w'.blockOf ino = Function.update (w.blockOf ino) k 0 := by
    funext c
    unfold Vol.blockOf
    rw [hentries]
    by_cases hc : c = k
    · rw [hc, Function.update_self, if_pos hk, hwords, Function.update_self]
    · rw [Function.update_of_ne hc, hother _ (by omega)]
  have hown : w.Owns I (.block ino k) (w.blockOf ino k) := ⟨hino, rfl, h0⟩
  refine ⟨hp.drop ht (· = w.blockOf ino k) ?_ ?_ ?_ (by rw [hw]; rfl) ?_ ?_, h.touch.trans ht,
    (hother 0 (by omega)).trans h.size, (hother 1 (by omega)).trans h.link, ?_⟩
  · rintro c rfl
    exact ⟨_, rfl, hown⟩
  · refine owns_drop _ (hp.ne_of_ne (s := .inode ino) ⟨rfl, hino⟩ hown (by simp))
      (fun c hc => ?_) fun fb c hc => ?_
    · rw [show w'.indirect ino = w.indirect ino from hother 17 (by omega)]
      refine (and_iff_left_of_imp fun he => ?_).symm
      exact hp.ne_of_ne (s := .indirect ino) ⟨hino, he, hc⟩ hown (by simp)
    · rw [hmap]
      by_cases hfb : fb = k
      · rw [hfb, Function.update_self]
        exact ⟨fun he => absurd he.symm hc, fun he => absurd he.1.symm he.2⟩
      · rw [Function.update_of_ne hfb]
        refine (and_iff_left_of_imp fun he => ?_).symm
        exact hp.ne_of_ne (s := .block ino fb) ⟨hino, he, hc⟩ hown (by simpa using hfb)
  · intro c
    rw [hw]
    change Function.update w.fs.freemap (w.blockOf ino k) false c = true ↔ _
    by_cases hc : c = w.blockOf ino k
    · rw [hc, Function.update_self]
      simp
    · rw [Function.update_of_ne hc, and_iff_left hc]
  · intro _ hd
    rw [hw] at hd
    exact absurd ((dirty_setInode (w.release (w.blockOf ino k)).fs ino _).symm.trans hd) (by decide)
  · intro _
    exact congrArg (· / 2 ^ 16) (hother 1 (by omega))
  · intro j hj hle
    rw [hmap]
    by_cases hjk : j = k
    · rw [hjk, Function.update_self]
    · rw [Function.update_of_ne hjk]
      exact h.direct j (by omega) hle

/-- The loop over the direct blocks. -/
theorem returns_truncDirect (h : v.Physical I) (hino : I ino) (hload : ino ∈ v.fs.vnodes)
    (blocklen : ℕ) :
    Returns (loop (fun k _ => truncDirect ino blocklen k) sfsNdirect 0 ()) v
      (Ends (fun _ w => Truncating I ino blocklen sfsNdirect v w) fun _ _ => False) := by
  refine returns_loop (fun k _ w => Truncating I ino blocklen k v w) (fun _ _ => False) sfsNdirect 0
    (Nat.zero_add _) (fun k _ w hk hw => ?_) ()
    ⟨h, .refl I ino v, rfl, rfl, fun j hj => absurd hj (Nat.not_lt_zero j)⟩
  have hloadw : ino ∈ w.fs.vnodes := hw.touch.vnodes ▸ hload
  have hblock : sfiDirect (w.fs.inode ino) k = w.blockOf ino k := by
    rw [blockOf_direct hk, inodeWords_loaded hloadw]
    exact (words_of_lt (by unfold sfsNdirect at hk; unfold sfsDbperidb; omega)).symm
  unfold truncDirect
  rw [returns_get]
  simp only [hblock]
  split_ifs with hcut
  · have hown : w.Owns I (.block ino k) (w.blockOf ino k) := ⟨hino, rfl, hcut.2⟩
    rw [returns_bfree (hw.physical.lt_bits hown) (hw.physical.exact.marked _ _ hown).2,
      returns_modify_last]
    exact Truncating.drop_direct hw hino hloadw hk hcut.2 rfl
  · rw [returns_pure]
    refine ⟨hw.physical, hw.touch, hw.size, hw.link, fun j hj hle => ?_⟩
    by_cases hjk : j = k
    · rw [hjk]
      by_contra h0
      exact hcut ⟨hjk ▸ hle, h0⟩
    · exact hw.direct j (by omega) hle

/-! ### The indirect block -/

/-- The blocks whose entries `truncEntry` clears before the iteration `k`. -/
def Cut (w : Vol) (ino blocklen k c : ℕ) : Prop :=
  ∃ j < k, blocklen < sfsNdirect + j ∧ w.entries ino j = c ∧ c ≠ 0

/-- The volume before the iteration `k` over the entries of the indirect block. -/
structure Cutting (w : Vol) (ino blocklen k : ℕ) (flags : Bool × Bool) (w' : Vol) : Prop where
  fs : ∃ tb fm fd, w' =
    ⟨{ w.fs with truncbuf := tb, freemap := fm, freemapdirty := fd }, w.disk⟩
  buf : words w'.fs.truncbuf = fun j =>
    if j < k ∧ blocklen < sfsNdirect + j then 0 else w.entries ino j
  freemap : ∀ c, w'.fs.freemap c = true ↔ w.fs.freemap c = true ∧ ¬ Cut w ino blocklen k c
  nonzero : flags.1 = true ↔ ∃ j < k, ¬ blocklen < sfsNdirect + j ∧ w.entries ino j ≠ 0
  dirty : flags.2 = true ↔ ∃ c, Cut w ino blocklen k c
  freemapdirty : w'.fs.freemapdirty = true ↔ w.fs.freemapdirty = true ∨ flags.2 = true

theorem cut_succ {c : ℕ} : Cut w ino blocklen (k + 1) c ↔ Cut w ino blocklen k c ∨
    blocklen < sfsNdirect + k ∧ w.entries ino k = c ∧ c ≠ 0 := by
  constructor
  · rintro ⟨j, hj, hc⟩
    rcases Nat.lt_succ_iff_lt_or_eq.mp hj with hlt | rfl
    · exact .inl ⟨j, hlt, hc⟩
    · exact .inr hc
  · rintro (⟨j, hj, hc⟩ | hc)
    · exact ⟨j, by omega, hc⟩
    · exact ⟨k, Nat.lt_succ_self k, hc⟩

theorem cutting_zero (tb : Buffer) (htb : words tb = w.entries ino) :
    Cutting w ino blocklen 0 (false, false) ⟨{ w.fs with truncbuf := tb }, w.disk⟩ where
  fs := ⟨tb, _, _, rfl⟩
  buf := by
    rw [← htb]
    funext j
    rw [if_neg (by omega)]
  freemap c := (and_iff_left fun ⟨j, hj, _⟩ => absurd hj (Nat.not_lt_zero j)).symm
  nonzero := ⟨fun hf => (by cases hf), fun ⟨j, hj, _⟩ => absurd hj (Nat.not_lt_zero j)⟩
  dirty := ⟨fun hf => (by cases hf), fun ⟨_, j, hj, _⟩ => absurd hj (Nat.not_lt_zero j)⟩
  freemapdirty := by simp

/-- An entry is the pointer to a block of the file. -/
theorem entry_owns (hino : I ino) {c : ℕ} (hc : w.entries ino k = c) (h0 : c ≠ 0) :
    w.Owns I (.block ino (sfsNdirect + k)) c := by
  refine ⟨hino, ?_, h0⟩
  rw [blockOf_entry (by omega), Nat.add_sub_cancel_left, hc]

/-- **An iteration over the entries of the indirect block.** -/
theorem returns_truncEntry (h : w.Physical I) (hino : I ino) (hk : k < sfsDbperidb)
    {flags : Bool × Bool} {w' : Vol} (hc : Cutting w ino blocklen k flags w') :
    Returns (truncEntry blocklen k flags) w'
      (Ends (Cutting w ino blocklen (k + 1)) fun _ _ => False) := by
  obtain ⟨tb, fm, fd, rfl⟩ := hc.fs
  have hblock : word tb k = w.entries ino k := by
    have hbuf := congrFun hc.buf k
    rwa [words_of_lt hk, if_neg (by omega)] at hbuf
  have hbuf : words tb = fun j => if j < k ∧ blocklen < sfsNdirect + j then 0 else w.entries ino j :=
    hc.buf
  unfold truncEntry
  rw [returns_get]
  simp only [hblock]
  split_ifs with hcut
  · have hown := entry_owns (w := w) hino rfl hcut.2
    have hmark : fm (w.entries ino k) = true := by
      refine (hc.freemap _).mpr ⟨(h.exact.marked _ _ hown).2, ?_⟩
      rintro ⟨j, hj, -, he, h0⟩
      have := h.exact.unique _ _ _ (entry_owns (w := w) hino he h0) hown
      injection this with _ hjk
      omega
    refine (returns_bfree ?_ hmark).mpr (returns_modify.mpr (returns_pure.mpr ?_))
    · exact h.lt_bits hown
    refine ⟨⟨_, _, _, rfl⟩, ?_, fun c => ?_, ?_, ?_, ?_⟩
    · change words (setWord tb k 0) = _
      rw [words_setWord hk (by decide), hbuf]
      funext j
      by_cases hj : j = k
      · rw [hj, Function.update_self, if_pos ⟨Nat.lt_succ_self k, hcut.1⟩]
      · rw [Function.update_of_ne hj]
        exact if_congr (by omega) rfl rfl
    · change Function.update fm _ false c = true ↔ _
      rw [cut_succ]
      by_cases hce : c = w.entries ino k
      · rw [hce, Function.update_self]
        simp [hcut.1, hcut.2]
      · rw [Function.update_of_ne hce]
        refine (hc.freemap c).trans (and_congr_right fun _ => not_congr ?_)
        exact (or_iff_left fun hn => hce hn.2.1.symm).symm
    · refine hc.nonzero.trans ⟨fun ⟨j, hj, hn⟩ => ⟨j, by omega, hn⟩, ?_⟩
      rintro ⟨j, hj, hn⟩
      refine ⟨j, ?_, hn⟩
      by_contra hge
      obtain rfl : j = k := by omega
      exact hn.1 hcut.1
    · exact iff_of_true rfl ⟨_, cut_succ.mpr (.inr ⟨hcut.1, rfl, hcut.2⟩)⟩
    · exact iff_of_true rfl (.inr rfl)
  · rw [returns_pure]
    have hsame : ∀ c, Cut w ino blocklen (k + 1) c ↔ Cut w ino blocklen k c := fun c =>
      cut_succ.trans (or_iff_left fun hn => hcut ⟨hn.1, hn.2.1 ▸ hn.2.2⟩)
    refine ⟨⟨_, _, _, rfl⟩, hbuf.trans ?_, fun c => ?_, ?_, ?_, hc.freemapdirty⟩
    · funext j
      by_cases hj : j = k
      · rw [hj, if_neg (by omega)]
        split_ifs with hlt
        · exact not_not.mp fun h0 => hcut ⟨hlt.2, h0⟩
        · rfl
      · exact if_congr (by omega) rfl rfl
    · rw [hsame]
      exact hc.freemap c
    · rw [Bool.or_eq_true, decide_eq_true_iff]
      constructor
      · rintro (hf | h0)
        · obtain ⟨j, hj, hn⟩ := hc.nonzero.mp hf
          exact ⟨j, by omega, hn⟩
        · exact ⟨k, Nat.lt_succ_self k, fun hlt => hcut ⟨hlt, h0⟩, h0⟩
      · rintro ⟨j, hj, hn⟩
        by_cases hjk : j = k
        · exact .inr (hjk ▸ hn.2)
        · exact .inl (hc.nonzero.mpr ⟨j, by omega, hn⟩)
    · exact hc.dirty.trans (exists_congr fun c => (hsame c).symm)

/-- A step that frees the cut blocks, the blocks of `E`, and the pointers to them. -/
theorem Cutting.drop (h : w.Physical I) (hino : I ino) {flags : Bool × Bool} {w' v : Vol}
    (hc : Cutting w ino blocklen sfsDbperidb flags w') (ht : Touch I ino w v) (E : ℕ → Prop)
    (hE : ∀ c, E c → w.Owns I (.indirect ino) c)
    (hind : ∀ c ≠ 0, v.indirect ino = c ↔ w.indirect ino = c ∧ ¬ E c)
    (hdirect : ∀ i < sfsNdirect, v.inodeWords ino (2 + i) = w.inodeWords ino (2 + i))
    (hentries : ∀ k c, c ≠ 0 → (v.entries ino k = c ↔
      w.entries ino k = c ∧ ¬ Cut w ino blocklen sfsDbperidb c))
    (hfreemap : ∀ c, v.fs.freemap c = true ↔ w'.fs.freemap c = true ∧ ¬ E c)
    (hdirty : v.fs.freemapdirty = true)
    (hclean : ino ∈ w.fs.vnodes → (v.fs.sv ino).dirty = false →
      words (v.fs.inode ino) = words (v.disk.sector ino))
    (htype : v.inodeWords ino 1 = w.inodeWords ino 1) : v.Physical I := by
  have hcut : ∀ c, Cut w ino blocklen sfsDbperidb c → ∃ k, w.Owns I (.block ino (sfsNdirect + k)) c := by
    rintro c ⟨k, -, -, hk, h0⟩
    exact ⟨k, entry_owns hino hk h0⟩
  have hother : ∀ t c, w.Owns I t c → (∀ k, t ≠ .block ino (sfsNdirect + k)) →
      ¬ Cut w ino blocklen sfsDbperidb c := fun t c hs hne hcc => by
    obtain ⟨k, hown⟩ := hcut c hcc
    exact h.ne_of_ne hs hown (hne k) rfl
  have hnotE : ∀ t c, w.Owns I t c → t ≠ .indirect ino → ¬ E c := fun t c hs hne hEc =>
    h.ne_of_ne hs (hE c hEc) hne rfl
  refine h.drop ht (fun c => Cut w ino blocklen sfsDbperidb c ∨ E c) ?_ (owns_drop _ ?_ ?_ ?_)
    (fun c => ?_) hdirty hclean fun _ => congrArg (· / 2 ^ 16) htype
  · rintro c (hcc | hEc)
    · exact (hcut c hcc).elim fun k hown => ⟨_, rfl, hown⟩
    · exact ⟨_, rfl, hE c hEc⟩
  · have hself : w.Owns I (.inode ino) ino := ⟨rfl, hino⟩
    exact not_or.mpr ⟨hother _ _ hself (by simp), hnotE _ _ hself (by simp)⟩
  · intro c h0
    rw [hind c h0]
    refine and_congr_right fun he => ?_
    rw [or_iff_right (hother (.indirect ino) c ⟨hino, he, h0⟩ (by simp))]
  · intro fb c h0
    by_cases hfb : fb < sfsNdirect
    · rw [blockOf_direct hfb, blockOf_direct hfb, hdirect fb hfb]
      refine (and_iff_left_of_imp fun he => ?_).symm
      have hown : w.Owns I (.block ino fb) c := ⟨hino, (blockOf_direct hfb).trans he, h0⟩
      refine not_or.mpr ⟨hother _ _ hown fun k hk => ?_, hnotE _ _ hown (by simp)⟩
      injection hk
      omega
    · rw [blockOf_entry hfb, blockOf_entry hfb, hentries _ _ h0]
      refine and_congr_right fun he => ?_
      have hown : w.Owns I (.block ino fb) c := ⟨hino, (blockOf_entry hfb).trans he, h0⟩
      rw [or_iff_left (hnotE _ _ hown (by simp))]
  · rw [hfreemap, hc.freemap, and_assoc, not_or]

/-- The indirect block is freed. -/
theorem Cutting.free (h : w.Physical I) (hino : I ino) (hload : ino ∈ w.fs.vnodes)
    (h0 : w.indirect ino ≠ 0) {f : Bool} {w' v : Vol}
    (hc : Cutting w ino blocklen sfsDbperidb (false, f) w')
    (hv : v = (w'.release (w.indirect ino)).setInode ino (setWord (w'.fs.inode ino) 17 0)) :
    v.Physical I ∧ Touch I ino w v ∧ v.inodeWords ino = Function.update (w.inodeWords ino) 17 0 := by
  obtain ⟨tb, fm, fd, rfl⟩ := hc.fs
  have hid : sfsDbperidb = 128 := rfl
  have ht : Touch I ino w v := by
    rw [hv]
    exact ⟨rfl, rfl, rfl, rfl, rfl, fun _ => refcount_setInode .., fun j hj => sv_setInode_of_ne _ _ hj,
      fun _ _ _ _ => rfl⟩
  have hwords : v.inodeWords ino = Function.update (w.inodeWords ino) 17 0 := by
    rw [inodeWords_loaded (v := w) hload, ← words_setWord (by omega) (by decide), hv]
    exact inodeWords_setInode (v := Vol.release _ (w.indirect ino)) hload _
  have hind : v.indirect ino = 0 := (congrFun hwords 17).trans (Function.update_self ..)
  have hdirty : (v.fs.sv ino).dirty = true := by
    rw [hv]
    exact dirty_setInode _ ino _
  refine ⟨hc.drop h hino ht (· = w.indirect ino) ?_ ?_ ?_ ?_ ?_ ?_ ?_ ?_, ht, hwords⟩
  · rintro c rfl
    exact ⟨hino, rfl, h0⟩
  · intro c hc0
    rw [hind]
    exact ⟨fun he => absurd he.symm hc0, fun he => absurd he.1.symm he.2⟩
  · intro i hi
    rw [hwords, Function.update_of_ne (by unfold sfsNdirect at hi; omega)]
  · intro k c hc0
    rw [entries_zero hind]
    refine ⟨fun he => absurd he.symm hc0, ?_⟩
    rintro ⟨he, hncut⟩
    -- an entry that is not cut would have been seen
    have hk : k < sfsDbperidb := by
      by_contra hge
      exact hc0 (by rw [← he, entries_of_le k (Nat.not_lt.mp hge)])
    refine absurd (hc.nonzero.mpr ⟨k, hk, fun hlt => hncut ⟨k, hk, hlt, he, hc0⟩, he ▸ hc0⟩) ?_
    exact Bool.false_ne_true
  · intro c
    rw [hv]
    change Function.update fm _ false c = true ↔ fm c = true ∧ _
    by_cases hce : c = w.indirect ino
    · rw [hce, Function.update_self]
      simp
    · rw [Function.update_of_ne hce, and_iff_left hce]
  · rw [hv]
    rfl
  · intro _ hd
    exact absurd (hdirty.symm.trans hd) (by decide)
  · rw [hwords, Function.update_of_ne (by decide)]

/-- The indirect block is written. -/
theorem Cutting.write (h : w.Physical I) (hino : I ino) (h0 : w.indirect ino ≠ 0) {f : Bool}
    {w' v : Vol} (hc : Cutting w ino blocklen sfsDbperidb (f, true) w')
    (hv : v = ⟨w'.fs, w'.disk.write (w.indirect ino) (clip w'.fs.truncbuf)⟩) :
    v.Physical I ∧ Touch I ino w v ∧ v.inodeWords ino = w.inodeWords ino := by
  obtain ⟨tb, fm, fd, rfl⟩ := hc.fs
  have hown : w.Owns I (.indirect ino) (w.indirect ino) := ⟨hino, rfl, h0⟩
  have hsector : ∀ s c, w.Owns I s c → s ≠ .indirect ino → v.disk.sector c = w.disk.sector c := by
    intro s c hs hne
    rw [hv]
    exact Function.update_of_ne (h.ne_of_ne hs hown hne) ..
  have ht : Touch I ino w v := by
    have hsv : v.fs.sv = w.fs.sv := by rw [hv]
    refine ⟨by rw [hv]; rfl, by rw [hv], by rw [hv], by rw [hv], by rw [hv], fun _ => by rw [hsv], fun j _ => by rw [hsv],
      fun s c hs hne => hsector s c hs ?_⟩
    rintro rfl
    exact hne rfl
  have hinode : v.disk.sector ino = w.disk.sector ino := hsector (.inode ino) ino ⟨rfl, hino⟩ (by simp)
  have hwords : v.inodeWords ino = w.inodeWords ino := by
    unfold Vol.inodeWords
    rw [hinode, hv]
    rfl
  have hind : v.indirect ino = w.indirect ino := congrFun hwords 17
  have hentries : v.entries ino = words tb := by
    have hsec : v.disk.sector (w.indirect ino) = clip tb := by
      rw [hv]
      exact Function.update_self ..
    rw [entries_ne (by rw [hind]; exact h0), hind, hsec, words_clip]
  have hbuf : words tb = fun j => if j < sfsDbperidb ∧ blocklen < sfsNdirect + j then 0
      else w.entries ino j := hc.buf
  refine ⟨hc.drop h hino ht (fun _ => False) (fun _ hf => hf.elim) ?_ ?_ ?_ ?_ ?_ ?_ ?_, ht, hwords⟩
  · intro c _
    rw [hind, and_iff_left not_false]
  · intro i _
    rw [hwords]
  · intro k c hc0
    rw [hentries, hbuf]
    simp only
    constructor
    · split_ifs with hcut
      · exact fun he => absurd he.symm hc0
      · intro he
        refine ⟨he, ?_⟩
        rintro ⟨j, hj, hlt, hej, -⟩
        have hslot := h.exact.unique _ _ _ (entry_owns (w := w) hino he hc0) (entry_owns hino hej hc0)
        injection hslot with _ hkj
        exact hcut ⟨by omega, by omega⟩
    · rintro ⟨he, hncut⟩
      rw [if_neg fun hcut => hncut ⟨k, hcut.1, hcut.2, he, hc0⟩, he]
  · intro c
    rw [hv, and_iff_left not_false]
  · rw [hv]
    exact hc.freemapdirty.mpr (.inr rfl)
  · intro hload hd
    rw [hinode]
    rw [hv] at hd ⊢
    exact h.clean ino hload hd
  · rw [hwords]

/-- The loop over the entries of the indirect block, which is in the buffer. -/
theorem returns_truncEntries (h : w.Physical I) (hino : I ino) (h0 : w.indirect ino ≠ 0) :
    Returns (loop (truncEntry blocklen) sfsDbperidb 0 (false, false))
      ⟨{ w.fs with truncbuf := clip (w.disk.sector (w.indirect ino)) }, w.disk⟩
      (Ends (fun flags => Cutting w ino blocklen sfsDbperidb flags) fun _ _ => False) :=
  returns_loop (fun k flags => Cutting w ino blocklen k flags) (fun _ _ => False)
    sfsDbperidb 0 (Nat.zero_add _) (fun _ _ _ hk hc => returns_truncEntry h hino hk hc) (false, false)
    (cutting_zero _ (words_clip.trans (entries_ne h0).symm))

/-- The volume after `sfs_itrunc` has dealt with the indirect block `idblock`, whose entries are cut
in `w`. -/
def cutResult (ino idblock : ℕ) (flags : Bool × Bool) (w : Vol) : Vol :=
  if flags.1 = false then
    (w.release idblock).setInode ino (setWord (w.fs.inode ino) 17 0)
  else if flags.2 = true then ⟨w.fs, w.disk.write idblock (clip w.fs.truncbuf)⟩
  else w

/-- **The run of the indirect block's part of `sfs_itrunc`.** -/
theorem returns_truncIndirect_of (h : w.Physical I) (hino : I ino) (h0 : w.indirect ino ≠ 0)
    {Q : Except FsErr Unit → Vol → Prop}
    (hQ : ∀ flags w', Cutting w ino blocklen sfsDbperidb flags w' →
      Q (.ok ()) (cutResult ino (w.indirect ino) flags w')) :
    Returns (truncIndirect ino blocklen (w.indirect ino)) w Q := by
  have hown : w.Owns I (.indirect ino) (w.indirect ino) := ⟨hino, rfl, h0⟩
  unfold truncIndirect
  rw [returns_readblock (h.lt_nsect hown), returns_modify]
  refine (returns_truncEntries h hino h0).bind ?_
  rintro (e | ⟨nonzero, dirty⟩) w' hc
  · exact hc.elim
  replace hc : Cutting w ino blocklen sfsDbperidb (nonzero, dirty) w' := hc
  have hres := hQ _ _ hc
  unfold cutResult at hres
  change Returns (if nonzero = false then _ else _) w' _
  split_ifs with hnz hd
  · rw [if_pos hnz] at hres
    have hmark : w'.fs.freemap (w.indirect ino) = true := by
      refine (hc.freemap _).mpr ⟨(h.exact.marked _ _ hown).2, ?_⟩
      rintro ⟨k, -, -, hk, hk0⟩
      exact h.ne_of_ne hown (entry_owns hino hk hk0) (by simp) rfl
    have hbits : w.indirect ino < w'.fs.freemapBits := by
      obtain ⟨tb, fm, fd, rfl⟩ := hc.fs
      exact h.lt_bits hown
    rw [returns_bfree hbits hmark, returns_modify_last]
    exact hres
  · rw [if_neg hnz, if_pos hd] at hres
    refine (returns_writeblock_last ?_).mpr hres
    obtain ⟨tb, fm, fd, rfl⟩ := hc.fs
    exact h.lt_nsect hown
  · rw [if_neg hnz, if_neg hd] at hres
    exact returns_pure.mpr hres

/-- No entry was cut. -/
theorem Cutting.kept (h : w.Physical I) {f : Bool} {w' : Vol}
    (hc : Cutting w ino blocklen sfsDbperidb (f, false) w') : Kept I ino w w' := by
  obtain ⟨tb, fm, fd, rfl⟩ := hc.fs
  have hcut : ∀ c, ¬ Cut w ino blocklen sfsDbperidb c := fun c hcc =>
    Bool.false_ne_true (hc.dirty.mpr ⟨c, hcc⟩)
  have hfm : fm = w.fs.freemap := funext fun c =>
    Bool.eq_iff_iff.mpr ((hc.freemap c).trans (and_iff_left (hcut c)))
  have hfd : fd = w.fs.freemapdirty := Bool.eq_iff_iff.mpr
    (hc.freemapdirty.trans (or_iff_left Bool.false_ne_true))
  subst hfm hfd
  exact h.kept ino (rfl : (⟨{ w.fs with truncbuf := tb }, w.disk⟩ : Vol) = _)

/-- **The indirect block in `sfs_itrunc`.** -/
theorem returns_truncIndirect (h : w.Physical I) (hino : I ino) (hload : ino ∈ w.fs.vnodes)
    (h0 : w.indirect ino ≠ 0) : Returns (truncIndirect ino blocklen (w.indirect ino)) w
      (Ends (fun _ v => v.Physical I ∧ Touch I ino w v ∧
        (∀ i, i ≠ 17 → v.inodeWords ino i = w.inodeWords ino i) ∧
        (blocklen = 0 → v.indirect ino = 0)) fun _ _ => False) := by
  refine returns_truncIndirect_of h hino h0 fun flags w' hc => ?_
  obtain ⟨nonzero, dirty⟩ := flags
  -- an entry that is not cut is within the length
  have hlen : nonzero = true → blocklen ≠ 0 := fun hnz hb => by
    obtain ⟨k, -, hk, -⟩ := hc.nonzero.mp hnz
    exact hk (by unfold sfsNdirect; omega)
  unfold cutResult
  cases nonzero with
  | false =>
    obtain ⟨hp, ht, hwords⟩ := hc.free h hino hload h0 rfl
    rw [if_pos rfl]
    refine ⟨hp, ht, fun i hi => ?_, fun _ => ?_⟩
    · exact (congrFun hwords i).trans (Function.update_of_ne hi ..)
    · exact (congrFun hwords 17).trans (Function.update_self ..)
  | true =>
    rw [if_neg (by simp)]
    cases dirty with
    | true =>
      obtain ⟨hp, ht, hwords⟩ := hc.write h hino h0 rfl
      rw [if_pos rfl]
      exact ⟨hp, ht, fun i _ => congrFun hwords i, fun hb => absurd hb (hlen rfl)⟩
    | false =>
      rw [if_neg Bool.false_ne_true]
      have hk := hc.kept h
      obtain ⟨tb, fm, fd, rfl⟩ := hc.fs
      exact ⟨hk.physical, hk.touch, fun _ _ => rfl, fun hb => absurd hb (hlen rfl)⟩

/-- What `sfs_itrunc` does to a file. -/
structure Resized (I : ℕ → Prop) (ino : ℕ) (len : ℤ) (v w : Vol) : Prop where
  physical : w.Physical I
  touch : Touch I ino v w
  size : w.inodeWords ino 0 = (len % wordSize).toNat
  link : w.inodeWords ino 1 = v.inodeWords ino 1
  empty : truncBlocklen len = 0 → w.indirect ino = 0 ∧ ∀ fb, w.blockOf ino fb = 0

/-- **`sfs_itrunc`** changes the size of the file, and frees all its blocks if the size is zero. -/
theorem returns_itrunc (h : v.Physical I) (hino : I ino) (hload : ino ∈ v.fs.vnodes) (len : ℤ) :
    Returns (sfsItrunc ino len) v (Ends (fun _ => Resized I ino len v) fun _ _ => False) := by
  unfold sfsItrunc
  refine (returns_truncDirect h hino hload (truncBlocklen len)).bind ?_
  rintro (e | _) w hw
  · exact hw.elim
  replace hw : Truncating I ino (truncBlocklen len) sfsNdirect v w := hw
  have hloadw : ino ∈ w.fs.vnodes := hw.touch.vnodes ▸ hload
  have hblock : sfiIndirect (w.fs.inode ino) = w.indirect ino := by
    rw [Vol.indirect, inodeWords_loaded hloadw]
    exact (words_of_lt (by decide)).symm
  change Returns (getFs >>= _) w _
  rw [returns_get]
  simp only [hblock]
  have hpart : Returns (if truncBlocklen len < sfsNdirect + sfsDbperidb - 1 ∧ w.indirect ino ≠ 0
      then truncIndirect ino (truncBlocklen len) (w.indirect ino) else pure ()) w
      (Ends (fun _ u => u.Physical I ∧ Touch I ino w u ∧
        (∀ i, i ≠ 17 → u.inodeWords ino i = w.inodeWords ino i) ∧
        (truncBlocklen len = 0 → u.indirect ino = 0)) fun _ _ => False) := by
    split_ifs with hcut
    · exact returns_truncIndirect hw.physical hino hloadw hcut.2
    · refine returns_pure.mpr ⟨hw.physical, .refl I ino w, fun _ _ => rfl, fun hb => ?_⟩
      by_contra h0
      exact hcut ⟨by rw [hb]; decide, h0⟩
  refine hpart.bind ?_
  rintro (e | _) u hu
  · exact hu.elim
  obtain ⟨hp, ht, hwords, hempty⟩ := hu
  have hloadu : ino ∈ u.fs.vnodes := ht.vnodes ▸ hloadw
  have hsize : (len % wordSize).toNat < wordSize := by
    have := Int.emod_lt_of_pos len (show (0 : ℤ) < wordSize by decide)
    have := Int.emod_nonneg len (show (wordSize : ℤ) ≠ 0 by decide)
    omega
  obtain ⟨hp', ht', hset, hmap, -⟩ :=
    hp.set_word hloadu (i := 0) (by decide) hsize (fun hi => absurd hi (by decide)) rfl
  refine returns_modify_last.mpr ⟨hp', hw.touch.trans (ht.trans ht'), ?_, ?_, fun hb => ?_⟩
  · exact (congrFun hset 0).trans (Function.update_self ..)
  · refine (congrFun hset 1).trans ?_
    rw [Function.update_of_ne (by decide), hwords 1 (by decide)]
    exact hw.link
  · have hind := hempty hb
    refine ⟨(congrFun hset 17).trans ((Function.update_of_ne (by decide) ..).trans hind), fun fb => ?_⟩
    refine (congrFun hmap fb).trans ?_
    by_cases hfb : fb < sfsNdirect
    · rw [blockOf_direct hfb, hwords _ (by unfold sfsNdirect at hfb; omega), ← blockOf_direct hfb]
      exact hw.direct fb hfb (by rw [hb]; exact Nat.zero_le fb)
    · rw [blockOf_entry hfb, entries_zero hind]

end Truncate

end SfsFs

end Os161
