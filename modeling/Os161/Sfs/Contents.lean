import Os161.Sfs.Io
import Os161.Sfs.Volume

set_option autoImplicit false

/-!
# Contents of files

A file is a sparse array of bytes. A request on it is served by partial blocks and whole blocks.

* `Served`: `n` bytes of a request were moved between the caller's memory and the file.
* `ioTransfer_ok`: a request is served, or a write stops because there is no space.
-/

namespace Os161

open Buffer Transition

/-- **`n` bytes of the request were served.** -/
structure Served (s s' : Sfs) (u u' : Uio) (n : ℕ) : Prop where
  sound : s'.Sound
  size : s'.size = s.size
  moved : u.Moved u' n
  read : u.rw = .read → s'.file = s.file ∧ u'.area = blit u.area u.pos n s.file u.offset
  write : u.rw = .write → s'.file = blit s.file u.offset n u.area u.pos ∧ u'.area = u.area

/-- The result of a part of a request for `n` bytes: they were served, or a write found no space. -/
def Serves (s : Sfs) (u : Uio) (n : ℕ) (r : Except FsPanic (Option FsErr × Sfs × Uio)) : Prop :=
  (∃ s' u', r = .ok (none, s', u') ∧ Served s s' u u' n) ∨
  ∃ m ≤ n, ∃ s' u', r = .ok (some .enospc, s', u') ∧ u.rw = .write ∧ Served s s' u u' m

/-- The block that a request is at, if it has one, has a position that 32 bits can hold. -/
def LowBlock (s : Sfs) (u : Uio) : Prop :=
  ∀ b s', sfsBmap s (u.offset / sfsBlocksize % wordSize) (u.rw = .write) = .ok (.ok b, s') →
    b < 2 ^ 23

section Lemmas

variable {s s' s'' : Sfs} {u u' u'' : Uio} {fb n m skipstart len : ℕ}

theorem Sfs.Keeps.served (h : s.Keeps s') (u : Uio) : Served s s' u u 0 where
  sound := h.sound
  size := h.size
  moved := .refl u
  read := fun _ => ⟨h.file, blit_zero.symm⟩
  write := fun _ => ⟨h.file.trans blit_zero.symm, rfl⟩

theorem Served.trans (h : Served s s' u u' n) (h' : Served s' s'' u' u'' m) :
    Served s s'' u u'' (n + m) where
  sound := h'.sound
  size := h'.size.trans h.size
  moved := h.moved.trans h'.moved
  read := by
    intro hrw
    obtain ⟨hf, ha⟩ := h.read hrw
    obtain ⟨hf', ha'⟩ := h'.read (h.moved.rw.trans hrw)
    rw [ha', ha, h.moved.pos, h.moved.offset, hf, blit_blit]
    exact ⟨hf'.trans hf, rfl⟩
  write := by
    intro hrw
    obtain ⟨hf, ha⟩ := h.write hrw
    obtain ⟨hf', ha'⟩ := h'.write (h.moved.rw.trans hrw)
    rw [hf', hf, ha', ha, h.moved.pos, h.moved.offset, blit_blit]
    exact ⟨rfl, rfl⟩

theorem Served.serves {r : Except FsPanic (Option FsErr × Sfs × Uio)} (h : Served s s' u u' n)
    (h' : Serves s' u' m r) : Serves s u (n + m) r := by
  rcases h' with ⟨s'', u'', he, hs⟩ | ⟨k, hk, s'', u'', he, hrw, hs⟩
  · exact .inl ⟨s'', u'', he, h.trans hs⟩
  · exact .inr ⟨n + k, by omega, s'', u'', he, h.moved.rw.symm.trans hrw, h.trans hs⟩

/-- Two parts of a request, one after the other. -/
theorem Serves.bind {r : Except FsPanic (Option FsErr × Sfs × Uio)}
    {f : Sfs → Uio → Except FsPanic (Option FsErr × Sfs × Uio)} (h : Serves s u n r)
    (hf : ∀ s' u', r = .ok (none, s', u') → Served s s' u u' n → Serves s' u' m (f s' u')) :
    Serves s u (n + m) (r >>= fun (e, s, u) => if e.isSome then .ok (e, s, u) else f s u) := by
  rcases h with ⟨s', u', rfl, hs⟩ | ⟨k, hk, s', u', rfl, hrw, hs⟩
  · exact hs.serves (hf s' u' rfl hs)
  · exact .inr ⟨k, by omega, s', u', rfl, hrw, hs⟩

/-- Byte `o` of a block of the file. -/
theorem Sfs.file_block {o : ℕ} (ho : o < sfsBlocksize) :
    s.file (fb * sfsBlocksize + o) = s.content fb o := by
  unfold sfsBlocksize at *
  unfold Sfs.file sfsBlocksize
  rw [show (fb * 512 + o) / 512 = fb by omega, show (fb * 512 + o) % 512 = o by omega]

/-- **Bytes of a block of the file are written.** -/
theorem Sfs.Sound.write (h : s.Sound) (hf : s.Frame s') (hd : s'.direct = s.direct)
    (hi : s'.indirect = s.indirect) (hne : s.blockOf fb ≠ 0) {old w area : Buffer} {pos : ℕ}
    (hold : ∀ o < sfsBlocksize, old o = s.content fb o)
    (hdisk : s'.dev.disk = Function.update s.dev.disk (s.blockOf fb) w)
    (hw : EqOn sfsBlocksize w (blit old skipstart len area pos))
    (hlen : skipstart + len ≤ sfsBlocksize) :
    s'.Sound ∧ s'.file = blit s.file (fb * sfsBlocksize + skipstart) len area pos := by
  have hb : s'.blockOf = s.blockOf := Sfs.blockOf_congr hd hi fun _ o _ => by
    rw [hdisk, Function.update_of_ne (h.indirect_ne fb hne).symm]
  refine ⟨h.congr hf hb hi, ?_⟩
  funext x
  have hx : x = x / sfsBlocksize * sfsBlocksize + x % sfsBlocksize := by
    rw [Nat.mul_comm]
    exact (Nat.div_add_mod x sfsBlocksize).symm
  have ho : x % sfsBlocksize < sfsBlocksize := Nat.mod_lt x (by decide)
  change s'.content (x / sfsBlocksize) (x % sfsBlocksize) = _
  by_cases hfb : x / sfsBlocksize = fb
  · rw [Sfs.content, hb, hfb, if_neg hne, hdisk, Function.update_self, hw _ ho]
    unfold blit
    rw [hfb] at hx
    split_ifs with h₁ h₂ h₂
    · congr 1
      omega
    · omega
    · omega
    · rw [hold _ ho]
      change _ = s.content (x / sfsBlocksize) (x % sfsBlocksize)
      rw [hfb]
  · have hother : s'.content (x / sfsBlocksize) (x % sfsBlocksize) = s.file x := by
      unfold Sfs.content
      rw [hb]
      change _ = s.content (x / sfsBlocksize) (x % sfsBlocksize)
      unfold Sfs.content
      split_ifs with hzero
      · rfl
      · rw [hdisk, Function.update_of_ne fun heq => hfb (h.inj _ _ hzero heq)]
    rw [hother, blit_of_not_mem]
    unfold sfsBlocksize at *
    omega

/-- The block that a request is at is in `iobuf`. -/
theorem loadBlock_ok (h : s.Sound) (fb : ℕ) : ∃ s', loadBlock s (s.blockOf fb) = .ok (none, s') ∧
    s.Keeps s' ∧ s'.blockOf = s.blockOf ∧ ∀ o < sfsBlocksize, s'.iobuf o = s'.content fb o := by
  unfold loadBlock
  by_cases hb : s.blockOf fb = 0
  · have hf : s.Frame { s with iobuf := fun _ => 0 } := ⟨rfl, rfl, rfl, rfl, rfl, fun _ hc => hc⟩
    obtain ⟨hmap, hk⟩ := h.keeps hf rfl rfl fun b _ o _ => rfl
    refine ⟨_, if_pos hb, hk, hmap, fun o _ => ?_⟩
    rw [Sfs.content, hmap, if_pos hb]
  · obtain ⟨d', hd, he⟩ := sfsReadblock_works h.works ((h.inUse fb hb).lt_nsect h.toMounted) s.iobuf
    have hdisk : d'.disk = s.dev.disk := hd.disk
    obtain ⟨hmap, hk⟩ := h.keeps (hd.frame s.idbuf
      (blit s.iobuf 0 lhdSectsize (s.dev.disk (s.blockOf fb)) 0)) rfl rfl
        fun b _ o _ => by rw [hdisk]
    refine ⟨_, by rw [if_neg hb, he]; rfl, hk, hmap, fun o ho => ?_⟩
    rw [Sfs.content, hmap, if_neg hb]
    simp only [hdisk]
    exact blit_eqOn o ho

/-- `sfs_partialio` from the `uiomove` on. -/
theorem movePartial_ok (h : s.Sound) (hbuf : ∀ o < sfsBlocksize, s.iobuf o = s.content fb o)
    (hne : u.rw = .write → s.blockOf fb ≠ 0) (hfits : u.Fits len)
    (hoff : u.offset = fb * sfsBlocksize + skipstart) (hlen : skipstart + len ≤ sfsBlocksize) :
    ∃ s' u', movePartial s u (s.blockOf fb) skipstart len = .ok (none, s', u') ∧
      Served s s' u u' len := by
  obtain ⟨u', buf, hu, hm, hc⟩ := uiomove_ok hfits s.iobuf skipstart
  unfold movePartial
  rw [hu]
  cases hrw : u.rw with
  | read =>
    obtain ⟨harea, rfl⟩ := hc.read hrw
    refine ⟨s, u', ?_, h, rfl, hm, fun _ => ⟨rfl, ?_⟩, fun hw => ?_⟩
    · change (if u'.rw = .write then _ else _) = _
      rw [hm.rw, hrw, if_neg (by decide)]
      rfl
    · rw [harea, hoff]
      refine blit_congr fun o ho => ?_
      rw [hbuf _ (by omega), Nat.add_assoc, Sfs.file_block (by omega)]
    · rw [hrw] at hw
      cases hw
  | write =>
    obtain ⟨harea, rfl⟩ := hc.write hrw
    obtain ⟨d', w, hd, hw, he⟩ := sfsWriteblock_works h.works
      ((h.inUse fb (hne hrw)).lt_nsect h.toMounted) (blit s.iobuf skipstart len u.area u.pos)
    obtain ⟨hs, hfile⟩ := h.write (hd.frame s.idbuf (blit s.iobuf skipstart len u.area u.pos)) rfl
      rfl (hne hrw) hbuf hd.disk hw hlen
    refine ⟨_, u', ?_, hs, rfl, hm, fun hr => ?_, fun _ => ⟨?_, harea⟩⟩
    · change (if u'.rw = .write then _ else _) = _
      rw [hm.rw, hrw, if_pos rfl]
      change sfsWriteblock s.dev (s.blockOf fb) _ >>= _ = _
      rw [he]
      rfl
    · rw [hrw] at hr
      cases hr
    · rw [hoff]
      exact hfile

/-- **`sfs_partialio`** serves a part of a block. -/
theorem sfsPartialio_ok (h : s.Sound) (hfits : u.Fits len)
    (hmax : u.offset / sfsBlocksize < sfsMaxblocks)
    (hlen : u.offset % sfsBlocksize + len ≤ sfsBlocksize) :
    Serves s u len (sfsPartialio s u (u.offset % sfsBlocksize) len) := by
  have hfb : u.offset / sfsBlocksize % wordSize = u.offset / sfsBlocksize :=
    Nat.mod_eq_of_lt (lt_trans hmax (by decide))
  have hoff : u.offset = u.offset / sfsBlocksize * sfsBlocksize + u.offset % sfsBlocksize :=
    (Nat.div_add_mod' u.offset sfsBlocksize).symm
  rw [sfsPartialio, if_neg (by omega)]
  dsimp only
  rw [hfb]
  rcases sfsBmap_ok h hmax (u.rw = .write) with ⟨s₁, he, hrw, hk⟩ | ⟨s₁, he, hk, hne⟩
  · rw [he]
    exact .inr ⟨0, Nat.zero_le _, s₁, u, rfl, of_decide_eq_true hrw, hk.served u⟩
  · rw [he]
    change Serves s u len (partialTransfer s₁ u (s₁.blockOf (u.offset / sfsBlocksize)) _ len)
    obtain ⟨s₂, he₂, hk₂, hmap, hbuf⟩ := loadBlock_ok hk.sound (u.offset / sfsBlocksize)
    have hne₁ : u.rw = .write → s₁.blockOf (u.offset / sfsBlocksize) ≠ 0 := fun hrw =>
      hne (decide_eq_true hrw)
    obtain ⟨s₃, u', he₃, hs⟩ := movePartial_ok hk₂.sound hbuf (by rw [hmap]; exact hne₁) hfits hoff
      hlen
    refine .inl ⟨s₃, u', ?_, by simpa using ((hk.trans hk₂).served u).trans hs⟩
    rw [partialTransfer, if_neg fun hc => hne₁ hc.2 hc.1, he₂]
    change movePartial s₂ u (s₁.blockOf (u.offset / sfsBlocksize)) _ len = _
    rw [← hmap]
    exact he₃

/-- **`sfs_blockio`** on a block with a position that 32 bits can hold. -/
theorem blockTransfer_ok (h : s.Sound) (hfits : u.Fits sfsBlocksize)
    (hoff : u.offset = fb * sfsBlocksize) (hne : u.rw = .write → s.blockOf fb ≠ 0)
    (hlow : s.blockOf fb < 2 ^ 23) :
    ∃ s' u', blockTransfer s u (s.blockOf fb) = .ok (none, s', u') ∧
      Served s s' u u' sfsBlocksize := by
  have hzero : ∀ o < sfsBlocksize, s.file (u.offset + o) = s.content fb o := fun o ho => by
    rw [hoff, Sfs.file_block ho]
  by_cases hb : s.blockOf fb = 0
  · have hrw : u.rw = .read := by
      cases hrw : u.rw with
      | read => rfl
      | write => exact absurd hb (hne hrw)
    obtain ⟨u', he, hm, harea⟩ := uiomovezeros_ok hrw hfits
    refine ⟨s, u', ?_, h, rfl, hm, fun _ => ⟨rfl, ?_⟩, fun hw => ?_⟩
    · rw [blockTransfer, if_pos hb, hrw, if_neg (by decide), he]
      rfl
    · rw [harea]
      refine blit_congr fun o ho => ?_
      rw [hzero o ho, Sfs.content, if_pos hb]
    · rw [hrw] at hw
      cases hw
  · have hin := (h.inUse fb hb).lt_nsect h.toMounted
    have ha : (u.forDevice (s.blockOf fb)).Accessible lhdSectsize := hfits.accessible
    have hsector := Uio.forDevice_forSector (b := s.blockOf fb) hfits.iov
    rw [Nat.mod_eq_of_lt hlow] at hsector
    obtain ⟨d', v, he, hm, hr, hw⟩ := sfsRwblock_works h.works hsector hin ha
    have htransfer : blockTransfer s u (s.blockOf fb) =
        .ok (none, { s with dev := d' }, v.restore u (s.blockOf fb)) := by
      rw [blockTransfer, if_neg hb, if_neg (Nat.not_lt.mpr hfits.resid), he]
      rfl
    refine ⟨_, _, htransfer, ?_⟩
    cases hrw : u.rw with
    | read =>
      obtain ⟨hd, harea⟩ := hr hrw
      have hdisk : d'.disk = s.dev.disk := hd.disk
      have hk := (h.keeps (hd.frame s.idbuf s.iobuf) rfl rfl fun b _ o _ => by rw [hdisk]).2
      refine ⟨hk.sound, hk.size, hm.restore hfits.resid, fun _ => ⟨hk.file, ?_⟩, fun hw => ?_⟩
      · refine Eq.trans harea (blit_congr fun o ho => ?_)
        rw [hzero o ho, Sfs.content, if_neg hb, Nat.zero_add]
      · rw [hrw] at hw
        cases hw
    | write =>
      obtain ⟨harea, w, hd, hdata⟩ := hw hrw
      have hblock : EqOn sfsBlocksize w (blit (s.content fb) 0 sfsBlocksize u.area u.pos) := by
        intro o ho
        rw [hdata o ho, blit_of_mem (Nat.zero_le o) (by omega), Nat.sub_zero]
        rfl
      obtain ⟨hs, hfile⟩ := h.write (hd.frame s.idbuf s.iobuf) rfl rfl hb (fun o _ => rfl) hd.disk
        hblock (le_refl _)
      refine ⟨hs, rfl, hm.restore hfits.resid, fun hr => ?_, fun _ => ⟨?_, harea⟩⟩
      · rw [hrw] at hr
        cases hr
      · rw [Nat.add_zero, ← hoff] at hfile
        exact hfile

/-- **`sfs_blockio`** serves a whole block. -/
theorem sfsBlockio_ok (h : s.Sound) (hfits : u.Fits sfsBlocksize)
    (hoff : u.offset % sfsBlocksize = 0) (hmax : u.offset / sfsBlocksize < sfsMaxblocks)
    (hlow : LowBlock s u) : Serves s u sfsBlocksize (sfsBlockio s u) := by
  have hfb : u.offset / sfsBlocksize % wordSize = u.offset / sfsBlocksize :=
    Nat.mod_eq_of_lt (lt_trans hmax (by decide))
  have hoff' : u.offset = u.offset / sfsBlocksize * sfsBlocksize :=
    (Nat.div_mul_cancel (Nat.dvd_of_mod_eq_zero hoff)).symm
  rw [LowBlock, hfb] at hlow
  rw [sfsBlockio]
  dsimp only
  rw [hfb]
  rcases sfsBmap_ok h hmax (u.rw = .write) with ⟨s₁, he, hrw, hk⟩ | ⟨s₁, he, hk, hne⟩
  · rw [he]
    exact .inr ⟨0, Nat.zero_le _, s₁, u, rfl, of_decide_eq_true hrw, hk.served u⟩
  · obtain ⟨s₂, u', he₂, hs⟩ := blockTransfer_ok hk.sound hfits hoff'
      (fun hrw => hne (decide_eq_true hrw)) (hlow _ _ he)
    rw [he]
    exact .inl ⟨s₂, u', he₂, by simpa using (hk.served u).trans hs⟩

/-- No whole block that `n` iterations of `sfs_io` reach is beyond the positions of 32 bits. -/
def LowBlocks : (n : ℕ) → Sfs → Uio → Prop
  | 0, _, _ => True
  | n + 1, s, u => LowBlock s u ∧ ∀ s' u', sfsBlockio s u = .ok (none, s', u') → LowBlocks n s' u'

theorem ioBlocks_ok (h : s.Sound) (hfits : u.Fits (n * sfsBlocksize))
    (hoff : u.offset % sfsBlocksize = 0) (hmax : u.offset / sfsBlocksize + n ≤ sfsMaxblocks)
    (hlow : LowBlocks n s u) : Serves s u (n * sfsBlocksize) (ioBlocks n s u) := by
  induction n generalizing s u with
  | zero =>
    rw [Nat.zero_mul]
    exact .inl ⟨s, u, rfl, (Sfs.Keeps.refl h).served u⟩
  | succ n ih =>
    rw [Nat.succ_mul, Nat.add_comm] at hfits ⊢
    have hblock := sfsBlockio_ok h (hfits.le (Nat.le_add_right ..)) hoff (by omega) hlow.1
    refine hblock.bind fun s' u' he hs => ih hs.sound (hfits.rest hs.moved) ?_ ?_ (hlow.2 s' u' he)
    · rw [hs.moved.offset, Nat.add_mod_right]
      exact hoff
    · rw [hs.moved.offset, Nat.add_div_right _ (by decide)]
      omega

theorem ioTail_ok (h : s.Sound) (hfits : u.Fits u.resid) (hoff : u.offset % sfsBlocksize = 0)
    (hmax : u.offset + u.resid ≤ sfsMaxblocks * sfsBlocksize) (hres : u.resid < sfsBlocksize) :
    Serves s u u.resid (ioTail s u) := by
  rw [ioTail, if_neg (Nat.not_le.mpr hres)]
  split_ifs with hzero
  · rw [hzero]
    exact .inl ⟨s, u, rfl, (Sfs.Keeps.refl h).served u⟩
  · have hpart := sfsPartialio_ok h hfits ?_ (by rw [hoff, Nat.zero_add]; exact le_of_lt hres)
    · rwa [hoff] at hpart
    · unfold sfsBlocksize at *
      omega

/-- The request behind its first `n` bytes ends where the whole request does. -/
theorem Uio.Moved.end_eq (h : u.Moved u' n) : u'.offset + u'.resid = u.offset + u.resid := by
  have := h.offset
  have := h.resid
  omega

/-- The leading partial block ends at a block boundary, or the request is done. -/
theorem ioLead_ok (h : s.Sound) (hfits : u.Fits u.resid)
    (hmax : u.offset + u.resid ≤ sfsMaxblocks * sfsBlocksize) :
    ∃ n ≤ u.resid, Serves s u n (ioLead s u) ∧
      (n = u.resid ∨ (u.offset + n) % sfsBlocksize = 0) := by
  unfold ioLead
  dsimp only
  split_ifs with hoff
  · exact ⟨0, Nat.zero_le _, .inl ⟨s, u, rfl, (Sfs.Keeps.refl h).served u⟩, .inr hoff⟩
  · have hlt : u.offset % sfsBlocksize < sfsBlocksize := Nat.mod_lt _ (by decide)
    refine ⟨min (sfsBlocksize - u.offset % sfsBlocksize) u.resid, min_le_right .., ?_, ?_⟩
    · refine sfsPartialio_ok h (hfits.le (min_le_right ..)) ?_ (by omega)
      unfold sfsBlocksize at *
      omega
    · unfold sfsBlocksize at *
      omega

/-- **A request is served**, or a write finds no space for some block. -/
theorem ioTransfer_ok (h : s.Sound) (hfits : u.Fits u.resid)
    (hmax : u.offset + u.resid ≤ sfsMaxblocks * sfsBlocksize)
    (hlow : ∀ s' u', ioLead s u = .ok (none, s', u') → LowBlocks (u'.resid / sfsBlocksize) s' u') :
    Serves s u u.resid (ioTransfer s u) := by
  obtain ⟨n, hn, hlead, haligned⟩ := ioLead_ok h hfits hmax
  unfold ioTransfer
  rcases hlead with ⟨s₁, u₁, he, hs⟩ | ⟨m, hm, s₁, u₁, he, hrw, hs⟩
  · rw [he]
    change Serves s u u.resid (if none.isSome = true ∨ u₁.resid = 0 then _ else _)
    have hres := hs.moved.resid
    by_cases hzero : u₁.resid = 0
    · rw [if_pos (.inr hzero)]
      obtain rfl : n = u.resid := by omega
      exact .inl ⟨s₁, u₁, rfl, hs⟩
    · have hoff : u₁.offset % sfsBlocksize = 0 := by
        rw [hs.moved.offset]
        exact haligned.resolve_left (by omega)
      rw [if_neg (by simp [hzero]), if_neg (by simp [hoff])]
      have hfits₁ : u₁.Fits u₁.resid := Uio.Fits.rest (by rw [Nat.add_comm, hres]; exact hfits) hs.moved
      have hend := hs.moved.end_eq
      have hwhole := Nat.div_add_mod' u₁.resid sfsBlocksize
      have hblocks := ioBlocks_ok (n := u₁.resid / sfsBlocksize) hs.sound
        (hfits₁.le (by omega)) hoff (by unfold sfsBlocksize at *; omega) (hlow s₁ u₁ he)
      have hboth := hblocks.bind (f := ioTail) (m := u₁.resid % sfsBlocksize) fun s₂ u₂ he₂ hs₂ => by
        have hres₂ : u₂.resid = u₁.resid % sfsBlocksize := by
          have := hs₂.moved.resid
          omega
        have hend₂ := hs₂.moved.end_eq
        rw [← hres₂]
        refine ioTail_ok hs₂.sound ?_ ?_ (by omega) ?_
        · exact Uio.Fits.rest (by rw [hres₂, hwhole]; exact hfits₁) hs₂.moved
        · rw [hs₂.moved.offset, Nat.add_mul_mod_self_right]
          exact hoff
        · rw [hres₂]
          exact Nat.mod_lt _ (by decide)
      rw [hwhole] at hboth
      rw [show u.resid = n + u₁.resid by omega]
      exact hs.serves hboth
  · rw [he]
    exact .inr ⟨m, hm.trans hn, s₁, u₁, rfl, hrw, hs⟩

end Lemmas

end Os161
