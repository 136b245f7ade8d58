import Os161.Sfs.Data
import Os161.Sfs.Layout
import Os161.Sfs.Shrink

set_option autoImplicit false

/-!
# A file that grows again

What a truncation has cut is gone, also when the file grows again later.

* `Later`: the volumes after truncations and writes, and the bytes that were written.
* `Later.zeros`: zeros behind a position stay zeros, unless they are written.
* **`itrunc_regrow_iff`**: when a truncation does all that it is to do.
-/

namespace Os161

open Buffer Vol

namespace SfsFs

/-- The length in blocks, rounded up. -/
def ceilBlocks (len : ℕ) : ℕ := (len + (sfsBlocksize - 1)) / sfsBlocksize

/-- **The file later**: after truncations to any length and writes below 2^41 whose blocks have
positions of 32 bits, with the bytes that these have written. -/
inductive Later (ino : ℕ) (v : Vol) : (ℕ → Prop) → Vol → Prop
  | start : Later ino v (fun _ => False) v
  | truncate {S : ℕ → Prop} {w w' : Vol} {r : Except FsErr Unit} (len : ℤ) (h : Later ino v S w)
    (he : exec (sfsItrunc ino len) w = .ok (r, w')) : Later ino v S w'
  | write {S : ℕ → Prop} {w w' : Vol} {u u' : Uio} {e : Option FsErr} (h : Later ino v S w)
    (hrw : u.rw = .write) (hu : Valid u) (hlow : Low ino w u) (hend : u.offset + u.resid < 2 ^ 41)
    (he : exec (sfsIo ino u) w = .ok (.ok (e, u'), w')) :
    Later ino v (fun x => S x ∨ u.offset ≤ x ∧ x < u'.offset) w'

/-- **What a truncation is to do**: the size is set, the blocks from the end on are freed, the indirect
block is freed exactly if it maps nothing, the other blocks stay, and whatever is not written later
reads as zero. -/
structure Shrunk (ino len : ℕ) (v w : Vol) : Prop where
  size : (w.file ino).size = len
  freed : ∀ fb, ceilBlocks len ≤ fb → v.blockOf ino fb ≠ 0 →
    w.blockOf ino fb = 0 ∧ w.fs.freemap (v.blockOf ino fb) = false
  indirect : v.indirect ino ≠ 0 →
    (w.indirect ino = 0 ∧ w.fs.freemap (v.indirect ino) = false ↔
      ∀ fb, sfsNdirect ≤ fb → w.blockOf ino fb = 0)
  kept : ∀ fb < ceilBlocks len, w.blockOf ino fb = v.blockOf ino fb ∧
    (v.blockOf ino fb ≠ 0 → w.disk.sector (v.blockOf ino fb) = v.disk.sector (v.blockOf ino fb))
  zeros : ∀ S w', Later ino w S w' → ∀ x, len ≤ x → x < (w'.file ino).size → ¬ S x →
    w'.byte ino x = 0

/-- **When it does**: the block at the end is not one of the indirect block's that is mapped, an indirect
block that is not looked at maps something, and the last block holds zeros from the end on. -/
structure CutsClean (ino len : ℕ) (v : Vol) : Prop where
  block : sfsNdirect ≤ ceilBlocks len → v.blockOf ino (ceilBlocks len) = 0
  indirect : sfsNdirect + sfsDbperidb - 1 ≤ ceilBlocks len → v.indirect ino ≠ 0 →
    ∃ fb, sfsNdirect ≤ fb ∧ v.blockOf ino fb ≠ 0
  tail : ∀ x, len ≤ x → x < ceilBlocks len * sfsBlocksize → v.byte ino x = 0

section Lemmas

variable {v w : Vol} {I : ℕ → Prop} {ino len : ℕ}

theorem truncBlocklen_eq (h : len ≤ (sfsNdirect + sfsDbperidb) * sfsBlocksize) :
    truncBlocklen (len : ℤ) = ceilBlocks len := by
  have hb : sfsBlocksize = 512 := rfl
  have hn : sfsNdirect = 15 := rfl
  have hd : sfsDbperidb = 128 := rfl
  have hw : wordSize = 2 ^ 32 := rfl
  unfold truncBlocklen ceilBlocks
  have hcast : (len : ℤ) + ((sfsBlocksize - 1 : ℕ) : ℤ) = ((len + (sfsBlocksize - 1) : ℕ) : ℤ) := by
    push_cast
    rfl
  rw [hcast, ← Int.ofNat_tdiv, ← Int.natCast_mod, Int.toNat_natCast]
  refine Nat.mod_eq_of_lt ?_
  rw [hb, hw]
  rw [hb, hn, hd] at h
  omega

theorem ceilBlocks_le (h : len ≤ (sfsNdirect + sfsDbperidb) * sfsBlocksize) :
    ceilBlocks len ≤ sfsNdirect + sfsDbperidb := by
  have hb : sfsBlocksize = 512 := rfl
  unfold ceilBlocks
  rw [hb] at h ⊢
  omega

theorem le_ceilBlocks : len ≤ ceilBlocks len * sfsBlocksize := by
  have hb : sfsBlocksize = 512 := rfl
  unfold ceilBlocks
  rw [hb]
  omega

/-- Block `fb` after a truncation. -/
theorem ItruncCut.blockOf {len : ℤ} (h : ItruncCut I ino len v w) (fb : ℕ) : w.blockOf ino fb =
    if fb < sfsNdirect ∧ truncBlocklen len ≤ fb ∨ ¬ fb < sfsNdirect ∧
      truncBlocklen len < sfsNdirect + sfsDbperidb - 1 ∧ truncBlocklen len < fb then 0
    else v.blockOf ino fb := by
  by_cases hfb : fb < sfsNdirect
  · rw [h.direct fb hfb]
    exact if_congr (by simp [hfb]) rfl rfl
  · rw [blockOf_entry hfb, blockOf_entry hfb, h.entries, Nat.add_sub_cancel' (Nat.not_lt.mp hfb)]
    exact if_congr (by simp [hfb]) rfl rfl

/-- A byte after a truncation is what it was, or zero. -/
theorem ItruncCut.byte {len : ℤ} (h : ItruncCut I ino len v w) (x : ℕ) :
    w.byte ino x = if w.blockOf ino (x / sfsBlocksize) = 0 then 0 else v.byte ino x := by
  unfold Vol.byte
  by_cases h0 : w.blockOf ino (x / sfsBlocksize) = 0
  · rw [if_pos h0, if_pos h0]
  · have hsame : v.blockOf ino (x / sfsBlocksize) = w.blockOf ino (x / sfsBlocksize) := by
      have hb := h.blockOf (x / sfsBlocksize)
      split_ifs at hb
      · exact absurd hb h0
      · exact hb.symm
    rw [if_neg h0, if_neg h0, h.sector _ h0, hsame, if_neg h0]

theorem ItruncCut.byte_zero {len : ℤ} (h : ItruncCut I ino len v w) {x : ℕ} (hz : v.byte ino x = 0) :
    w.byte ino x = 0 := by
  rw [h.byte, hz, ite_self]

/-- `sfs_itrunc` returns what `returns_itrunc_cut` says. -/
theorem itruncCut_of_exec (h : v.Physical I) (hino : I ino) (hload : ino ∈ v.fs.vnodes) {len : ℤ}
    {r : Except FsErr Unit} (he : exec (sfsItrunc ino len) v = .ok (r, w)) :
    r = .ok () ∧ ItruncCut I ino len v w := by
  obtain ⟨r', w', he', hr⟩ := returns_itrunc_cut h hino hload len
  cases he'.symm.trans he
  cases r with
  | error e => exact hr.elim
  | ok _ => exact ⟨rfl, hr⟩

/-- **Zeros stay zeros** unless they are written. -/
theorem Later.zeros {S : ℕ → Prop} (hlater : Later ino v S w) (h : v.Physical I) (hino : I ino)
    (hload : ino ∈ v.fs.vnodes) (hz : ∀ x, len ≤ x → v.byte ino x = 0) :
    w.Physical I ∧ ino ∈ w.fs.vnodes ∧ ∀ x, len ≤ x → ¬ S x → w.byte ino x = 0 := by
  induction hlater with
  | start => exact ⟨h, hload, fun x hx _ => hz x hx⟩
  | truncate n _ he ih =>
    obtain ⟨hp, hl, hzero⟩ := ih
    obtain ⟨-, hcut⟩ := itruncCut_of_exec hp hino hl he
    exact ⟨hcut.resized.physical, hcut.resized.touch.vnodes ▸ hl,
      fun x hx hS => hcut.byte_zero (hzero x hx hS)⟩
  | write _ _ hu hlow hend he ih =>
    obtain ⟨hp, hl, hzero⟩ := ih
    obtain ⟨r, w', he', hr⟩ := returns_io_framed hp hino hl hu hlow
    cases he'.symm.trans he
    obtain ⟨hrw, hframe⟩ := hr
    refine ⟨hrw.physical, hrw.touch.vnodes ▸ hl, fun x hx hS => ?_⟩
    obtain ⟨hS, hout⟩ := not_or.mp hS
    refine ((hframe hend).2 x ?_).trans (hzero x hx hS)
    simp only
    by_contra hno
    exact hout (by omega)

end Lemmas

section Main

variable {v w : Vol} {I : ℕ → Prop} {ino len : ℕ}

/-- The blocks from the end on are not mapped any more. -/
theorem CutsClean.unmapped (hc : CutsClean ino len v) (hcut : ItruncCut I ino len v w)
    (hlen : len ≤ (sfsNdirect + sfsDbperidb) * sfsBlocksize) {fb : ℕ} (hfb : ceilBlocks len ≤ fb) :
    w.blockOf ino fb = 0 := by
  have hn : sfsNdirect = 15 := rfl
  have hd : sfsDbperidb = 128 := rfl
  rw [hcut.blockOf, truncBlocklen_eq hlen]
  split_ifs with hgone
  · rfl
  · by_cases heq : fb = ceilBlocks len
    · subst heq
      exact hc.block (by omega)
    · rw [blockOf_entry (by omega)]
      exact entries_of_le _ (by omega)

/-- **A clean cut.** -/
theorem CutsClean.shrunk (hc : CutsClean ino len v) (hino : I ino)
    (hload : ino ∈ v.fs.vnodes) (hlen : len ≤ (sfsNdirect + sfsDbperidb) * sfsBlocksize)
    (hcut : ItruncCut I ino len v w) : Shrunk ino len v w := by
  have hn : sfsNdirect = 15 := rfl
  have hd : sfsDbperidb = 128 := rfl
  have hlt : len < wordSize := lt_of_le_of_lt hlen (by decide)
  have hbl := truncBlocklen_eq hlen
  have hkept : ∀ fb < ceilBlocks len, w.blockOf ino fb = v.blockOf ino fb := fun fb hfb => by
    rw [hcut.blockOf, hbl, if_neg (by omega)]
  refine ⟨?_, fun fb hfb h0 => ?_, fun h0 => ⟨fun hz fb hfb => ?_, fun hnone => ?_⟩,
    fun fb hfb => ⟨hkept fb hfb, fun h0 => ?_⟩, fun S w' hlater x hx _ hS => ?_⟩
  · change w.inodeWords ino 0 = len
    rw [hcut.resized.size, Int.emod_eq_of_lt (by omega) (by exact_mod_cast hlt), Int.toNat_natCast]
  · have hz := hc.unmapped hcut hlen hfb
    refine ⟨hz, Bool.eq_false_iff.mpr fun hm => ?_⟩
    exact ((hcut.freemap _).mp hm).2 (.inl ⟨fb, rfl, h0, hz⟩)
  · rw [blockOf_entry (by omega), entries_zero hz.1]
  · have hgone : w.indirect ino = 0 := by
      rcases hcut.indirect with ⟨hsame, hne⟩ | ⟨hz, -⟩
      · rw [hbl] at hne
        by_cases hlook : ceilBlocks len < sfsNdirect + sfsDbperidb - 1
        · obtain ⟨j, hj⟩ := hne hlook h0
          have hz := hnone (sfsNdirect + j) (Nat.le_add_right ..)
          rw [blockOf_entry (by omega), Nat.add_sub_cancel_left] at hz
          exact absurd hz hj
        · obtain ⟨fb, hfb, hmap⟩ := hc.indirect (Nat.not_lt.mp hlook) h0
          have hz := hnone fb hfb
          rw [hcut.blockOf, hbl, if_neg (by omega)] at hz
          exact absurd hz hmap
      · exact hz
    refine ⟨hgone, Bool.eq_false_iff.mpr fun hm => ?_⟩
    exact ((hcut.freemap _).mp hm).2 (.inr ⟨rfl, h0, hgone⟩)
  · have hs := hcut.sector fb (by rw [hkept fb hfb]; exact h0)
    rwa [hkept fb hfb] at hs
  · refine (hlater.zeros hcut.resized.physical hino (hcut.resized.touch.vnodes ▸ hload)
      fun x (hx : len ≤ x) => ?_).2.2 x hx hS
    rw [hcut.byte]
    split_ifs with h0
    · rfl
    · refine hc.tail x hx ?_
      by_contra hge
      refine h0 (hc.unmapped hcut hlen ?_)
      exact (Nat.le_div_iff_mul_le (by decide)).mpr (Nat.not_lt.mp hge)

/-- **Every clean cut is one that the truncation does.** -/
theorem Shrunk.cutsClean (hs : Shrunk ino len v w) (hino : I ino)
    (hload : ino ∈ v.fs.vnodes) (hlen : len ≤ (sfsNdirect + sfsDbperidb) * sfsBlocksize)
    (hcut : ItruncCut I ino len v w) : CutsClean ino len v := by
  have hn : sfsNdirect = 15 := rfl
  have hd : sfsDbperidb = 128 := rfl
  have hbl := truncBlocklen_eq hlen
  refine ⟨fun hle => ?_, fun hle h0 => ?_, fun x hx hlt => ?_⟩
  · by_contra h0
    have hz := (hs.freed _ (le_refl _) h0).1
    rw [hcut.blockOf, hbl, if_neg (by omega)] at hz
    exact h0 hz
  · by_contra hno
    have hnone : ∀ fb, sfsNdirect ≤ fb → w.blockOf ino fb = 0 := fun fb hfb => by
      rw [hcut.blockOf, hbl, if_neg (by omega)]
      by_contra hmap
      exact hno ⟨fb, hfb, hmap⟩
    have hz := ((hs.indirect h0).mpr hnone).1
    rcases hcut.indirect with ⟨hsame, -⟩ | ⟨-, hlook⟩
    · exact h0 (hsame.symm.trans hz)
    · rw [hbl] at hlook
      omega
  · -- the file grows to its maximum
    have hpw := hcut.resized.physical
    have hloadw : ino ∈ w.fs.vnodes := hcut.resized.touch.vnodes ▸ hload
    obtain ⟨r, w', he, hr⟩ := returns_itrunc_cut hpw hino hloadw
      ((sfsNdirect + sfsDbperidb) * sfsBlocksize : ℕ)
    obtain ⟨-, hgrow⟩ := itruncCut_of_exec hpw hino hloadw he
    have hceil := ceilBlocks_le hlen
    have hmax : ceilBlocks ((sfsNdirect + sfsDbperidb) * sfsBlocksize) = sfsNdirect + sfsDbperidb := by
      decide
    have hdiv : x / sfsBlocksize < ceilBlocks len :=
      (Nat.div_lt_iff_lt_mul (by decide)).mpr hlt
    have hsize : x < (w'.file ino).size := by
      change x < w'.inodeWords ino 0
      rw [hgrow.resized.size, Int.emod_eq_of_lt (by omega) (by decide), Int.toNat_natCast]
      exact lt_of_lt_of_le hlt (Nat.mul_le_mul_right _ hceil)
    have hz := hs.zeros _ w' (.truncate _ .start he) x hx hsize not_false
    have hsame : w'.blockOf ino (x / sfsBlocksize) = w.blockOf ino (x / sfsBlocksize) := by
      rw [hgrow.blockOf, truncBlocklen_eq (le_refl _), hmax, if_neg (by omega)]
    have hkept := (hs.kept _ hdiv).1
    rw [hgrow.byte, hsame, hkept] at hz
    split_ifs at hz with h0
    · unfold Vol.byte
      rw [if_pos h0]
    · rw [hcut.byte, hkept, if_neg h0] at hz
      exact hz

/-- **Truncation**: a truncation to at most the maximal size does all that it is to do exactly if it cuts
clean. -/
theorem itrunc_regrow_iff (h : v.Physical I) (hino : I ino) (hload : ino ∈ v.fs.vnodes)
    (hlen : len ≤ (sfsNdirect + sfsDbperidb) * sfsBlocksize) :
    (∀ w, exec (sfsItrunc ino len) v = .ok (.ok (), w) → Shrunk ino len v w) ↔
      CutsClean ino len v := by
  constructor
  · intro hall
    obtain ⟨r, w, he, -⟩ := returns_itrunc_cut h hino hload (len : ℤ)
    obtain ⟨rfl, hcut⟩ := itruncCut_of_exec h hino hload he
    exact (hall w he).cutsClean hino hload hlen hcut
  · intro hc w he
    exact hc.shrunk hino hload hlen (itruncCut_of_exec h hino hload he).2

theorem itrunc_regrow_twoEntries : ∃ w,
    exec (sfsItrunc layoutIno (0 : ℕ)) twoEntries.vol = .ok (.ok (), w) ∧
      Shrunk layoutIno 0 twoEntries.vol w := by
  obtain ⟨r, w, he, -⟩ := returns_itrunc_cut Layout.physical (.inr rfl)
    (Layout.mem_vnodes (l := twoEntries)) (0 : ℕ)
  obtain ⟨rfl, -⟩ := itruncCut_of_exec Layout.physical (.inr rfl) Layout.mem_vnodes he
  exact ⟨w, he, (itrunc_regrow_iff Layout.physical (.inr rfl) Layout.mem_vnodes (Nat.zero_le _)).mpr
    ⟨fun hle => absurd hle (by decide), fun hle => absurd hle (by decide),
      fun x _ hlt => absurd hlt (Nat.not_lt_zero x)⟩ w he⟩

/-- **A truncation to 15 blocks** leaves block 15. -/
theorem not_shrunk_twoEntries : ¬ ∀ w,
    exec (sfsItrunc layoutIno (7680 : ℕ)) twoEntries.vol = .ok (.ok (), w) →
      Shrunk layoutIno 7680 twoEntries.vol w := by
  intro hall
  obtain ⟨r, w, he, -⟩ := returns_itrunc_cut Layout.physical (.inr rfl)
    (Layout.mem_vnodes (l := twoEntries)) (7680 : ℕ)
  obtain ⟨rfl, hcut⟩ := itruncCut_of_exec Layout.physical (.inr rfl) Layout.mem_vnodes he
  have hblock := ((hall w he).cutsClean (.inr rfl) Layout.mem_vnodes (by decide) hcut).block
    (by decide)
  rw [Layout.vol_blockOf] at hblock
  exact absurd hblock (by decide)

end Main

end SfsFs

end Os161
