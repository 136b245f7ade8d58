import Os161.Sfs.Truncate

set_option autoImplicit false

/-!
# Data blocks

`sfs_io` and `sfs_metaio` on a volume that is in order.

* `Rewritten`: a step that changes the data and the size of a file.
* `Physical.write_block`: a block of a file is written.
* `Low`: a request whose whole blocks have positions that 32 bits can hold; **`returns_io_framed`**:
  such a request keeps the volume in order, and the bytes before and after its positions.
* **`returns_metaio_read`**, **`returns_metaio_write`**: the bytes of a directory.
-/

namespace Os161

open Buffer SfsFs

namespace Vol

/-- **A step that changes the data and the size of a file**, and nothing else. -/
structure Rewritten (I : ℕ → Prop) (ino : ℕ) (v v' : Vol) : Prop where
  physical : v'.Physical I
  touch : Touch I ino v v'
  type : (v'.file ino).type = (v.file ino).type
  linkcount : (v'.file ino).linkcount = (v.file ino).linkcount

section Lemmas

variable {v v' v'' : Vol} {I : ℕ → Prop} {ino fb x : ℕ} {data : Buffer}

theorem Kept.rewritten (h : Kept I ino v v') : Rewritten I ino v v' :=
  ⟨h.physical, h.touch, congrArg FileView.type h.file, congrArg FileView.linkcount h.file⟩

theorem Rewritten.trans (h : Rewritten I ino v v') (h' : Rewritten I ino v' v'') :
    Rewritten I ino v v'' :=
  ⟨h'.physical, h.touch.trans h'.touch, h'.type.trans h.type, h'.linkcount.trans h.linkcount⟩

/-- **A block of a file is written.** -/
theorem Physical.write_block (h : v.Physical I) (hino : I ino) (h0 : v.blockOf ino fb ≠ 0)
    (hv : v' = ⟨v.fs, v.disk.write (v.blockOf ino fb) data⟩) :
    v'.Physical I ∧ Touch I ino v v' ∧ v'.inodeWords ino = v.inodeWords ino ∧
      v'.byte ino = fun x => if x / sfsBlocksize = fb then data (x % sfsBlocksize)
        else v.byte ino x := by
  have hown : v.Owns I (.block ino fb) (v.blockOf ino fb) := ⟨hino, rfl, h0⟩
  have hsector : ∀ s c, v.Owns I s c → s ≠ .block ino fb → v'.disk.sector c = v.disk.sector c := by
    intro s c hs hne
    rw [hv]
    exact Function.update_of_ne (h.ne_of_ne hs hown hne) ..
  have ht : Touch I ino v v' := by
    have hfs : v'.fs = v.fs := by rw [hv]
    refine ⟨by rw [hv]; rfl, by rw [hfs], by rw [hfs], by rw [hfs], by rw [hfs], fun _ => by rw [hfs],
      fun j _ => by rw [hfs], fun s c hs hne => hsector s c hs ?_⟩
    rintro rfl
    exact hne rfl
  have hinode : v'.disk.sector ino = v.disk.sector ino :=
    hsector (.inode ino) ino ⟨rfl, hino⟩ (by simp)
  have hwords : v'.inodeWords ino = v.inodeWords ino := by
    unfold Vol.inodeWords
    rw [hinode, hv]
  have hmap : v'.blockOf ino = v.blockOf ino := blockOf_congr hwords fun hi =>
    congrArg words (hsector (.indirect ino) _ ⟨hino, rfl, hi⟩ (by simp))
  have hbyte : v'.byte ino = fun x => if x / sfsBlocksize = fb then data (x % sfsBlocksize)
      else v.byte ino x := by
    funext x
    unfold Vol.byte
    rw [hmap]
    by_cases hx : x / sfsBlocksize = fb
    · rw [hx, if_neg h0, if_pos rfl, hv]
      exact congrFun (Function.update_self ..) _
    · rw [if_neg hx]
      split_ifs with hz
      · rfl
      · exact congrFun (hsector (.block ino (x / sfsBlocksize)) _ ⟨hino, rfl, hz⟩ (by simpa using hx)) _
  have hfile : (v'.file ino).type = (v.file ino).type := congrArg (· / 2 ^ 16) (congrFun hwords 1)
  refine ⟨h.touch ht (h.exact.congr (fun t c => ?_) fun _ => by rw [hv]; rfl)
    (fun _ _ => by rw [hv]) (fun hd => by rw [hv] at hd ⊢; exact ⟨hd, rfl⟩) (fun hload hd => ?_)
    fun _ => hfile, ht, hwords, hbyte⟩
  · by_cases htf : t.file = some ino
    · cases t with
      | metadata k => cases htf
      | inode j => exact Iff.rfl
      | indirect j =>
        obtain rfl := Option.some.inj htf
        exact and_congr_right fun _ => by rw [show v'.indirect j = v.indirect j from congrFun hwords 17]
      | block j k =>
        obtain rfl := Option.some.inj htf
        exact and_congr_right fun _ => by rw [hmap]
    · exact ht.owns htf
  · rw [hinode]
    rw [hv] at hd ⊢
    exact h.clean ino hload hd

theorem Physical.rewrite_block (h : v.Physical I) (hino : I ino) (h0 : v.blockOf ino fb ≠ 0)
    (hv : v' = ⟨v.fs, v.disk.write (v.blockOf ino fb) data⟩) : Rewritten I ino v v' := by
  obtain ⟨hp, ht, hwords, -⟩ := h.write_block hino h0 hv
  exact ⟨hp, ht, congrArg (· / 2 ^ 16) (congrFun hwords 1), congrArg (· % 2 ^ 16) (congrFun hwords 1)⟩

/-- The size of a file is set. -/
theorem Physical.set_size (h : v.Physical I) (hload : ino ∈ v.fs.vnodes) (hx : x < wordSize)
    (hv : v' = v.setInode ino (setWord (v.fs.inode ino) 0 x)) : Rewritten I ino v v' ∧
      (v'.file ino).size = x ∧ v'.byte ino = v.byte ino := by
  obtain ⟨hp, ht, hwords, -, hbyte⟩ :=
    h.set_word hload (i := 0) (by decide) hx (fun h0 => absurd h0 (by decide)) hv
  have h1 : v'.inodeWords ino 1 = v.inodeWords ino 1 := by
    rw [hwords, Function.update_of_ne (by decide)]
  refine ⟨⟨hp, ht, congrArg (· / 2 ^ 16) h1, congrArg (· % 2 ^ 16) h1⟩, ?_, hbyte⟩
  exact (congrFun hwords 0).trans (Function.update_self ..)

end Lemmas

end Vol

namespace SfsFs

open Vol

/-- The block that `sfs_blockio` is at, if it has one, has a position that 32 bits can hold. -/
def LowBlock (ino : ℕ) (v : Vol) (u : Uio) : Prop :=
  ∀ b w, exec (sfsBmap ino (u.offset / sfsBlocksize % wordSize) (u.rw = .write)) v = .ok (.ok b, w) →
    b < 2 ^ 23

/-- No whole block that `n` iterations of `sfs_io` reach is beyond the positions of 32 bits. -/
def LowBlocks (ino : ℕ) : (n : ℕ) → Vol → Uio → Prop
  | 0, _, _ => True
  | n + 1, v, u => LowBlock ino v u ∧
    ∀ u' w, exec (sfsBlockio ino u) v = .ok (.ok (none, u'), w) → LowBlocks ino n w u'

/-- What `sfs_io` transfers of a request. -/
def cut (size : ℕ) (u : Uio) : Uio :=
  { u with resid := u.resid - if u.rw = .read then u.offset + u.resid - size else 0 }

/-- **No whole block** of a request is beyond the positions of 32 bits. -/
def Low (ino : ℕ) (v : Vol) (u : Uio) : Prop :=
  ∀ u' w, exec (ioLead ino (cut (v.file ino).size u)) v = .ok (.ok (none, u'), w) →
    LowBlocks ino (u'.resid / sfsBlocksize) w u'

/-- A uio whose bytes are in its iovecs. -/
structure Valid (u : Uio) : Prop where
  iov : u.resid ≤ u.iov.sum
  lt : u.resid < wordSize

section Uio

variable {u u' : Uio} {n m : ℕ}

theorem Valid.moved (h : Valid u) (hm : u.Moved u' n) : Valid u' where
  iov := by have := h.iov; have := hm.sum; have := hm.resid; omega
  lt := by have := h.lt; have := hm.resid; omega

theorem copy_offset (u : Uio) (n : ℕ) (ptr : Buffer) (k : ℕ) : (u.copy n ptr k).1.offset = u.offset := by
  unfold Uio.copy
  cases u.rw <;> rfl

/-- A transfer never goes back. -/
theorem uiomoveLoop_offset_le (iov : List ℕ) {e : Option FsErr} {ptr ptr' : Buffer} {k : ℕ}
    (h : uiomoveLoop u k n ptr iov = .ok (e, u', ptr')) : u.offset ≤ u'.offset := by
  induction iov generalizing u k n ptr with
  | nil =>
    rw [uiomoveLoop] at h
    split_ifs at h
    cases h
    exact le_refl _
  | cons len iov ih =>
    have hstep : u.offset ≤ ((u.copy (min len n) ptr k).1.advance (min len n)).offset := by
      change u.offset ≤ (u.copy (min len n) ptr k).1.offset + min len n
      rw [copy_offset]
      exact Nat.le_add_right ..
    rw [uiomoveLoop] at h
    simp only at h
    split_ifs at h with h₁ h₂ h₃
    · cases h
      exact le_refl _
    · cases h
      exact hstep
    · exact hstep.trans (ih h)
    · cases h
      exact le_of_eq (copy_offset ..).symm

/-- A transfer within a valid uio succeeds, or the memory cannot be accessed. -/
theorem Valid.uiomove (h : Valid u) (hn : n ≤ u.resid) (ptr : Buffer) (k : ℕ) :
    ∃ e u' ptr', uiomove ptr k n u = .ok (e, u', ptr') ∧ u.offset ≤ u'.offset ∧
      (e = none → u.Moved u' n ∧ u.Copied u' ptr ptr' k n) := by
  by_cases ha : u.Accessible n
  · obtain ⟨u', ptr', he, hm, hc⟩ := uiomove_ok ⟨hn, hn.trans h.iov, h.lt, ha⟩ ptr k
    exact ⟨none, u', ptr', he, uiomoveLoop_offset_le u.iov he, fun _ => ⟨hm, hc⟩⟩
  · obtain ⟨u', ptr', he⟩ := uiomove_fault hn (hn.trans h.iov) h.lt ha ptr k
    exact ⟨some .efault, u', ptr', he, uiomoveLoop_offset_le u.iov he, fun hno => by cases hno⟩

theorem Valid.zerosLoop (h : Valid u) (hn : n ≤ u.resid) (hm : n ≤ 16 * m) :
    ∃ e u', zerosLoop m n u = .ok (e, u') ∧ u.offset ≤ u'.offset ∧ (e = none → u.Moved u' n) := by
  induction m generalizing u n with
  | zero =>
    obtain rfl : n = 0 := by omega
    exact ⟨none, u, rfl, le_refl _, fun _ => .refl u⟩
  | succ m ih =>
    rw [Os161.zerosLoop]
    obtain ⟨e, u', ptr', he, hle, hmove⟩ := h.uiomove (n := min 16 n) (by omega) (fun _ => 0) 0
    rw [he]
    cases e with
    | some e => exact ⟨some e, u', rfl, hle, fun hno => by cases hno⟩
    | none =>
      have hm' := (hmove rfl).1
      have hres := hm'.resid
      obtain ⟨e, u'', he', hle', hmove'⟩ := ih (h.moved hm') (n := n - min 16 n) (by omega) (by omega)
      refine ⟨e, u'', he', hle.trans hle', fun hno => ?_⟩
      have hsplit : min 16 n + (n - min 16 n) = n := by omega
      simpa only [hsplit] using hm'.trans (hmove' hno)

theorem Valid.uiomovezeros (h : Valid u) (hrw : u.rw = .read) (hn : n ≤ u.resid) :
    ∃ e u', uiomovezeros n u = .ok (e, u') ∧ u.offset ≤ u'.offset ∧ (e = none → u.Moved u' n) := by
  rw [Os161.uiomovezeros, if_pos hrw]
  exact h.zerosLoop hn (by omega)

end Uio

/-- What a part of `sfs_io` returns: the file may be changed, and what was to be moved was, unless there
is an error. -/
def Part (I : ℕ → Prop) (ino : ℕ) (v : Vol) (u : Uio) (n : ℕ) :
    Except FsErr (Option FsErr × Uio) → Vol → Prop :=
  Ends (fun r w => Rewritten I ino v w ∧ (r.1 = none → u.Moved r.2 n)) fun _ _ => False

/-- What a part of `sfs_io` leaves alone: the bytes before and after its positions, if those are below
2^41. -/
def Framed (ino : ℕ) (v : Vol) (u : Uio) : Except FsErr (Option FsErr × Uio) → Vol → Prop :=
  Ends (fun r w => u.offset + u.resid < 2 ^ 41 → u.offset ≤ r.2.offset ∧
    ∀ x, x < u.offset ∨ r.2.offset ≤ x → w.byte ino x = v.byte ino x) fun _ _ => False

/-- What a part of `sfs_io` returns, with the bytes that it leaves alone. -/
def Written (I : ℕ → Prop) (ino : ℕ) (v : Vol) (u : Uio) (n : ℕ)
    (r : Except FsErr (Option FsErr × Uio)) (w : Vol) : Prop :=
  Part I ino v u n r w ∧ Framed ino v u r w

section Io

variable {v w : Vol} {I : ℕ → Prop} {ino b n len pos skipstart : ℕ} {u u' : Uio} {data : Buffer}
  {e : Option FsErr}

/-- A part that writes nothing. -/
theorem Written.same (hv : Rewritten I ino v w) (hbyte : w.byte ino = v.byte ino)
    (hle : u.offset ≤ u'.offset) (hmove : e = none → u.Moved u' n) :
    Written I ino v u n (.ok (e, u')) w := ⟨⟨hv, hmove⟩, fun _ => ⟨hle, fun x _ => by rw [hbyte]⟩⟩

theorem Written.kept (hk : Kept I ino v w) (hle : u.offset ≤ u'.offset)
    (hmove : e = none → u.Moved u' n) : Written I ino v u n (.ok (e, u')) w :=
  .same hk.rewritten (congrArg FileView.byte hk.file) hle hmove

/-- **One part after another.** -/
theorem Written.trans {r : Except FsErr (Option FsErr × Uio)} {w' : Vol}
    (hw : Written I ino v u n (.ok (none, u')) w) (h : Written I ino w u' len r w') :
    Written I ino v u (n + len) r w' := by
  obtain ⟨⟨hv, hmove⟩, hframe⟩ := hw
  have hm : u.Moved u' n := hmove rfl
  cases r with
  | error e => exact h
  | ok r =>
    refine ⟨⟨hv.trans h.1.1, fun hno => hm.trans (h.1.2 hno)⟩, fun hend => ?_⟩
    have hoff := hm.offset
    have hres := hm.resid
    obtain ⟨-, hbyte⟩ := hframe hend
    obtain ⟨hle, hbyte'⟩ := h.2 (by omega)
    refine ⟨by omega, fun x hx => ?_⟩
    exact (hbyte' x (by omega)).trans (hbyte x (show x < u.offset ∨ u'.offset ≤ x by omega))

theorem Written.start {r : Except FsErr (Option FsErr × Uio)} {w' : Vol} (hk : Kept I ino v w)
    (h : Written I ino w u n r w') : Written I ino v u n r w' := by
  have hw : Written I ino v u 0 (.ok (none, u)) w := .kept hk (le_refl _) fun _ => .refl u
  simpa using hw.trans h

/-- The bytes of a file after a write within one block. -/
theorem byte_write (hfit : pos % sfsBlocksize + len ≤ sfsBlocksize)
    (h0 : v.blockOf ino (pos / sfsBlocksize) ≠ 0) {buf : Buffer}
    (hbuf : EqOn sfsBlocksize buf (v.disk.sector (v.blockOf ino (pos / sfsBlocksize)))) :
    (fun x => if x / sfsBlocksize = pos / sfsBlocksize then
        clip (blit buf (pos % sfsBlocksize) len data 0) (x % sfsBlocksize) else v.byte ino x) =
      blit (v.byte ino) pos len data 0 := by
  funext x
  have hlt : x % sfsBlocksize < sfsBlocksize := Nat.mod_lt _ (by decide)
  have hx := Nat.div_add_mod x sfsBlocksize
  have hp := Nat.div_add_mod pos sfsBlocksize
  by_cases hblock : x / sfsBlocksize = pos / sfsBlocksize
  · rw [if_pos hblock, clip_apply hlt]
    rw [hblock] at hx
    by_cases hin : pos ≤ x ∧ x < pos + len
    · rw [blit_of_mem (by omega) (by omega), blit_of_mem hin.1 hin.2]
      congr 1
      omega
    · rw [blit_of_not_mem (by omega), blit_of_not_mem (by omega), hbuf _ hlt, Vol.byte, hblock,
        if_neg h0]
  · rw [if_neg hblock, blit_of_not_mem]
    unfold sfsBlocksize at *
    omega

/-- The number of the block that a uio is at. -/
theorem block_number (hend : u.offset + u.resid < 2 ^ 41) :
    u.offset / sfsBlocksize % wordSize = u.offset / sfsBlocksize := by
  unfold sfsBlocksize wordSize
  omega

/-- `sfs_partialio` from the `uiomove` on. -/
theorem returns_movePartial (h : v.Physical I) (hino : I ino) (hu : Valid u) (hlen : len ≤ u.resid)
    (hoff : u.offset % sfsBlocksize = skipstart) (hfit : skipstart + len ≤ sfsBlocksize)
    (hb : u.rw = .write → v.blockOf ino (u.offset / sfsBlocksize % wordSize) = b ∧ b ≠ 0 ∧
      EqOn sfsBlocksize v.fs.iobuf (v.disk.sector b)) :
    Returns (movePartial u b skipstart len) v (Written I ino v u len) := by
  obtain ⟨e, u', buf, he, hle, hmove⟩ := hu.uiomove hlen v.fs.iobuf skipstart
  have hk := h.kept ino (rfl : (⟨{ v.fs with iobuf := buf }, v.disk⟩ : Vol) = _)
  unfold movePartial
  rw [returns_get, returns_lift he]
  refine returns_modify.mpr ?_
  split_ifs with hsome hrw
  · refine returns_pure.mpr (.kept hk hle fun hno => ?_)
    rw [show e = none from hno] at hsome
    cases hsome
  · have hno : e = none := by simpa using hsome
    obtain ⟨hm, hc⟩ := hmove hno
    rw [hm.rw] at hrw
    obtain ⟨hblock, h0, hbuf⟩ := hb hrw
    have hown : v.Owns I (.block ino (u.offset / sfsBlocksize % wordSize)) b := ⟨hino, hblock, h0⟩
    rw [returns_bind, returns_status]
    refine (returns_writeblock_last ?_).mpr (returns_pure.mpr ?_)
    · exact h.lt_nsect hown
    have hne : v.blockOf ino (u.offset / sfsBlocksize % wordSize) ≠ 0 := by rw [hblock]; exact h0
    obtain ⟨hp, ht, hwords, hbyte⟩ := hk.physical.write_block hino hne
      (rfl : (⟨_, Disk.write _ _ (clip buf)⟩ : Vol) = _)
    rw [show Vol.blockOf ⟨{ v.fs with iobuf := buf }, v.disk⟩ ino
      (u.offset / sfsBlocksize % wordSize) = b from hblock] at hp ht hwords hbyte
    refine ⟨⟨hk.rewritten.trans ⟨hp, ht, congrArg (· / 2 ^ 16) (congrFun hwords 1),
      congrArg (· % 2 ^ 16) (congrFun hwords 1)⟩, fun _ => hm⟩, fun hend => ⟨hle, fun x hx => ?_⟩⟩
    have hnum := block_number hend
    rw [hnum] at hbyte hne hblock
    have hdata : buf = blit v.fs.iobuf (u.offset % sfsBlocksize) len (fun o => u.area (u.pos + o)) 0 := by
      rw [(hc.write hrw).2, hoff]
      exact blit_congr fun o _ => by rw [Nat.zero_add]
    refine (congrFun hbyte x).trans ?_
    rw [hdata]
    refine (congrFun (byte_write (v := v) (by rw [hoff]; exact hfit) hne (by rw [hblock]; exact hbuf))
      x).trans (blit_of_not_mem ?_)
    have := hm.offset
    change x < u.offset ∨ u'.offset ≤ x at hx
    omega
  · exact returns_pure.mpr (.kept hk hle fun _ => (hmove (by simpa using hsome)).1)

/-- **`sfs_partialio`.** -/
theorem returns_partialio (h : v.Physical I) (hino : I ino) (hload : ino ∈ v.fs.vnodes)
    (hu : Valid u) (hlen : len ≤ u.resid) (hoff : u.offset % sfsBlocksize = skipstart)
    (hfit : skipstart + len ≤ sfsBlocksize) :
    Returns (sfsPartialio ino u skipstart len) v (Written I ino v u len) := by
  unfold sfsPartialio
  rw [returns_kassert hfit, returns_bind, returns_attempt]
  refine (returns_bmap h hino hload (u.rw = .write)).mono fun r w hw => ?_
  rcases hw with ⟨hmax, hk, -, hr⟩ | ⟨-, rfl, rfl⟩
  · cases r with
    | error e => exact returns_pure.mpr (.kept hk (le_refl _) fun hno => by cases hno)
    | ok b =>
      obtain ⟨hb, hne⟩ := hr
      -- the block is in iobuf
      have hload : Returns (status (loadBlock u.rw b)) w
          (Ends (fun e w' => e = none ∧ ∃ buf, w' = ⟨{ w.fs with iobuf := buf }, w.disk⟩ ∧
            (b ≠ 0 → EqOn sfsBlocksize buf (w.disk.sector b))) fun _ _ => False) := by
        rw [returns_status]
        unfold loadBlock
        split_ifs with h0
        · have hrw : u.rw = .read := by
            cases hrw : u.rw with
            | read => rfl
            | write => exact absurd h0 (hne (by rw [hrw]; rfl))
          rw [returns_kassert hrw, returns_modify_last]
          exact ⟨rfl, _, rfl, fun hb => absurd h0 hb⟩
        · have hown : w.Owns I (.block ino _) b := ⟨hino, hb, h0⟩
          rw [returns_readblock (hk.physical.lt_nsect hown), returns_modify_last]
          exact ⟨rfl, _, rfl, fun _ o ho => clip_apply ho⟩
      refine hload.bind ?_
      rintro (e | e) w' hw'
      · exact hw'.elim
      obtain ⟨rfl, buf, rfl, hbuf⟩ := hw'
      have hk' := hk.physical.kept ino
        (rfl : (⟨{ w.fs with iobuf := buf }, w.disk⟩ : Vol) = _)
      refine (returns_movePartial hk'.physical hino hu hlen hoff hfit fun hrw => ?_).mono
        fun r w' hr => Written.start (hk.trans hk') hr
      have h0 := hne (by rw [hrw]; rfl)
      exact ⟨hb, h0, hbuf h0⟩
  · exact returns_pure.mpr (.kept (Kept.refl h ino) (le_refl _) fun hno => by cases hno)

/-- The disk serves the request for a whole block. -/
theorem diskDevice_block (hu : Valid u) (hres : sfsBlocksize ≤ u.resid) (hlow : b < 2 ^ 23)
    (hb : b < v.disk.nsect) : ∃ e u' d, diskDevice v.disk ⟨u.forDevice b, rfl⟩ = .ok ((e, u'), d) ∧
      (e = none → (u.forDevice b).Moved u' sfsBlocksize) ∧
      (d = v.disk ∨ e = none ∧ ∃ data, d = v.disk.write b data) := by
  have hoff : (u.forDevice b).offset = b * lhdSectsize := by
    change b * 512 % 2 ^ 32 = b * 512
    omega
  have hvalid : Valid (u.forDevice b) :=
    ⟨hres.trans hu.iov, lt_of_le_of_lt hres hu.lt⟩
  rw [diskDevice_eq hoff hb, diskSector]
  cases hrw : u.rw with
  | read =>
    obtain ⟨e, u', buf, he, -, hmove⟩ :=
      hvalid.uiomove (n := lhdSectsize) (le_refl _) (v.disk.sector b) 0
    refine ⟨e, u', v.disk, ?_, fun hno => (hmove hno).1, .inl rfl⟩
    rw [show (u.forDevice b).rw = .read from hrw]
    simp only
    rw [he]
    rfl
  | write =>
    obtain ⟨e, u', buf, he, -, hmove⟩ := hvalid.uiomove (n := lhdSectsize) (le_refl _) (fun _ => 0) 0
    refine ⟨e, u', if e.isSome then v.disk else v.disk.write b buf, ?_,
      fun hno => (hmove hno).1, ?_⟩
    · rw [show (u.forDevice b).rw = .write from hrw]
      simp only
      rw [he]
      rfl
    · split_ifs with hsome
      · exact .inl rfl
      · exact .inr ⟨by simpa using hsome, buf, rfl⟩

/-- `sfs_blockio` on the block that `sfs_bmap` returned. -/
theorem returns_blockTransfer (h : v.Physical I) (hino : I ino) (hu : Valid u)
    (hres : sfsBlocksize ≤ u.resid) (hoff : u.offset % sfsBlocksize = 0)
    (hb : v.blockOf ino (u.offset / sfsBlocksize % wordSize) = b) (hne : u.rw = .write → b ≠ 0)
    (hlow : b < 2 ^ 23) : Returns (blockTransfer u b) v (Written I ino v u sfsBlocksize) := by
  unfold blockTransfer
  split_ifs with h0
  · have hrw : u.rw = .read := by
      cases hrw : u.rw with
      | read => rfl
      | write => exact absurd h0 (hne hrw)
    obtain ⟨e, u', he, hle, hmove⟩ := hu.uiomovezeros hrw hres
    rw [returns_kassert hrw, he]
    exact returns_pure.mpr (.kept (Kept.refl h ino) hle hmove)
  · have hown : v.Owns I (.block ino (u.offset / sfsBlocksize % wordSize)) b := ⟨hino, hb, h0⟩
    obtain ⟨e, u', d, he, hmove, hd⟩ := diskDevice_block (v := v) hu hres hlow (h.lt_nsect hown)
    rw [returns_kassert hres, returns_rwblock (q := fun _ => ⟨u.forDevice b, rfl⟩) he]
    have hle : u.offset ≤ (u'.restore u b).offset := Nat.le_add_left ..
    have hrest : e = none → u.Moved (u'.restore u b) sfsBlocksize := fun hno =>
      (hmove hno).restore hres
    refine returns_pure.mpr ?_
    rcases hd with rfl | ⟨hno, data, rfl⟩
    · exact .kept (Kept.refl h ino) hle hrest
    · obtain ⟨hp, ht, hwords, hbyte⟩ :=
        h.write_block hino (by rw [hb]; exact h0) (rfl : (⟨_, Disk.write _ _ data⟩ : Vol) = _)
      rw [hb] at hp ht hwords hbyte
      refine ⟨⟨⟨hp, ht, congrArg (· / 2 ^ 16) (congrFun hwords 1),
        congrArg (· % 2 ^ 16) (congrFun hwords 1)⟩, hrest⟩, fun hend => ⟨hle, fun x hx => ?_⟩⟩
      rw [block_number hend] at hbyte
      refine (congrFun hbyte x).trans (if_neg ?_)
      have hmoved := (hrest hno).offset
      change x < u.offset ∨ (u'.restore u b).offset ≤ x at hx
      unfold sfsBlocksize at *
      omega

/-- **`sfs_blockio`** on a block whose position 32 bits can hold. -/
theorem returns_blockio (h : v.Physical I) (hino : I ino) (hload : ino ∈ v.fs.vnodes)
    (hu : Valid u) (hres : sfsBlocksize ≤ u.resid) (hoff : u.offset % sfsBlocksize = 0)
    (hlow : LowBlock ino v u) :
    Returns (sfsBlockio ino u) v (Written I ino v u sfsBlocksize) := by
  unfold sfsBlockio
  obtain ⟨r, w, he, hw⟩ : Returns (sfsBmap ino (u.offset / sfsBlocksize % wordSize) _) v _ :=
    returns_bmap h hino hload (u.rw = .write)
  rw [returns_bind, returns_attempt]
  refine ⟨r, w, he, ?_⟩
  rcases hw with ⟨hmax, hk, -, hr⟩ | ⟨-, rfl, rfl⟩
  · cases r with
    | error e => exact returns_pure.mpr (.kept hk (le_refl _) fun hno => by cases hno)
    | ok b =>
      obtain ⟨hb, hne⟩ := hr
      exact (returns_blockTransfer hk.physical hino hu hres hoff hb
        (fun hrw => hne (by rw [hrw]; rfl)) (hlow b w he)).mono fun r w' hr => Written.start hk hr
  · exact returns_pure.mpr (.kept (Kept.refl h ino) (le_refl _) fun hno => by cases hno)

/-- **The whole blocks of `sfs_io`.** -/
theorem returns_ioBlocks (h : v.Physical I) (hino : I ino) (hload : ino ∈ v.fs.vnodes)
    (hu : Valid u) (hres : n * sfsBlocksize ≤ u.resid) (hoff : u.offset % sfsBlocksize = 0)
    (hlow : LowBlocks ino n v u) :
    Returns (ioBlocks ino n u) v (Written I ino v u (n * sfsBlocksize)) := by
  induction n generalizing v u with
  | zero =>
    rw [Nat.zero_mul]
    exact returns_pure.mpr (.kept (Kept.refl h ino) (le_refl _) fun _ => .refl u)
  | succ n ih =>
    rw [Nat.succ_mul] at hres
    obtain ⟨r, w, he, hw⟩ := returns_blockio h hino hload hu (by omega) hoff hlow.1
    rw [ioBlocks, returns_bind]
    refine ⟨r, w, he, ?_⟩
    cases r with
    | error e => exact hw
    | ok r =>
      obtain ⟨e, u'⟩ := r
      obtain ⟨hrw, hmove⟩ := hw.1
      change Returns (if e.isSome then pure (e, u') else _) w _
      split_ifs with hsome
      · refine returns_pure.mpr ⟨⟨hrw, fun hno => ?_⟩, hw.2⟩
        rw [show e = none from hno] at hsome
        cases hsome
      · obtain rfl : e = none := by simpa using hsome
        have hm : u.Moved u' sfsBlocksize := hmove rfl
        have hr : u'.resid + sfsBlocksize = u.resid := hm.resid
        have ho : u'.offset % sfsBlocksize = 0 := by rw [hm.offset, Nat.add_mod_right, hoff]
        refine (ih hrw.physical (hrw.touch.vnodes ▸ hload) (hu.moved hm) (by omega) ho
          (hlow.2 u' w he)).mono fun r w' hr => ?_
        rw [Nat.succ_mul, Nat.add_comm]
        exact hw.trans hr

/-- **The remaining partial block of `sfs_io`.** -/
theorem returns_ioTail (h : v.Physical I) (hino : I ino) (hload : ino ∈ v.fs.vnodes)
    (hu : Valid u) (hres : u.resid < sfsBlocksize) (hoff : u.offset % sfsBlocksize = 0) :
    Returns (ioTail ino u) v (Written I ino v u u.resid) := by
  unfold ioTail
  rw [returns_kassert hres]
  split_ifs with h0
  · rw [h0]
    exact returns_pure.mpr (.kept (Kept.refl h ino) (le_refl _) fun _ => .refl u)
  · exact returns_partialio h hino hload hu (le_refl _) hoff (by omega)

/-- **The leading partial block of `sfs_io`** ends at a block boundary, or the request is done. -/
theorem returns_ioLead (h : v.Physical I) (hino : I ino) (hload : ino ∈ v.fs.vnodes)
    (hu : Valid u) : Returns (ioLead ino u) v (Ends (fun r w => ∃ n,
      Written I ino v u n (.ok r) w ∧
      (r.1 = none → r.2.resid = 0 ∨ r.2.offset % sfsBlocksize = 0)) fun _ _ => False) := by
  unfold ioLead
  simp only
  split_ifs with h0
  · exact returns_pure.mpr ⟨0, .kept (Kept.refl h ino) (le_refl _) fun _ => .refl u, fun _ => .inr h0⟩
  · have hlt : u.offset % sfsBlocksize < sfsBlocksize := Nat.mod_lt _ (by decide)
    refine (returns_partialio h hino hload hu (Nat.min_le_right ..) rfl (by omega)).mono ?_
    rintro (e | r) w hw
    · exact hw.1
    · refine ⟨_, hw, fun hno => ?_⟩
      have hm := hw.1.2 hno
      have hr := hm.resid
      have ho := hm.offset
      unfold sfsBlocksize at *
      omega

/-- `sfs_io` between the check for the end of the file and the label `out`. -/
theorem returns_ioTransfer (h : v.Physical I) (hino : I ino) (hload : ino ∈ v.fs.vnodes)
    (hu : Valid u) (hlow : ∀ u' w, exec (ioLead ino u) v = .ok (.ok (none, u'), w) →
      LowBlocks ino (u'.resid / sfsBlocksize) w u') :
    Returns (ioTransfer ino u) v (Ends (fun r w => Rewritten I ino v w ∧ Framed ino v u (.ok r) w)
      fun _ _ => False) := by
  obtain ⟨r, w, he, hw⟩ := returns_ioLead h hino hload hu
  unfold ioTransfer
  rw [returns_bind]
  refine ⟨r, w, he, ?_⟩
  cases r with
  | error e => exact hw
  | ok r =>
    obtain ⟨e, u'⟩ := r
    obtain ⟨n, hlead, hstop⟩ := hw
    obtain ⟨hrw, hmove⟩ := hlead.1
    change Returns (if e.isSome ∨ u'.resid = 0 then pure (e, u') else _) w _
    split_ifs with hsome
    · exact returns_pure.mpr ⟨hrw, hlead.2⟩
    · obtain ⟨hno, hres⟩ := not_or.mp hsome
      obtain rfl : e = none := by simpa using hno
      have hm : u.Moved u' n := hmove rfl
      have hoff : u'.offset % sfsBlocksize = 0 := (hstop rfl).resolve_left hres
      have hloadw : ino ∈ w.fs.vnodes := hrw.touch.vnodes ▸ hload
      have hu' := hu.moved hm
      rw [returns_kassert hoff]
      refine (returns_ioBlocks hrw.physical hino hloadw hu' (Nat.div_mul_le_self ..) hoff
        (hlow u' w he)).bind ?_
      rintro (e | ⟨e, u₂⟩) w₂ hw₂
      · exact hw₂.1.elim
      · have hall := hlead.trans hw₂
        obtain ⟨hrw₂, hmove₂⟩ := hw₂.1
        change Returns (if e.isSome then pure (e, u₂) else _) w₂ _
        split_ifs with hsome₂
        · exact returns_pure.mpr ⟨hrw.trans hrw₂, hall.2⟩
        · obtain rfl : e = none := by simpa using hsome₂
          have hm₂ : u'.Moved u₂ (u'.resid / sfsBlocksize * sfsBlocksize) := hmove₂ rfl
          have hres₂ : u₂.resid + u'.resid / sfsBlocksize * sfsBlocksize = u'.resid := hm₂.resid
          have hdiv := Nat.div_add_mod u'.resid sfsBlocksize
          have hlt := Nat.mod_lt u'.resid (show 0 < sfsBlocksize by decide)
          rw [Nat.mul_comm] at hdiv
          have hoff₂ : u₂.offset % sfsBlocksize = 0 := by
            rw [hm₂.offset, Nat.add_mul_mod_self_right, hoff]
          refine (returns_ioTail hrw₂.physical hino (hrw₂.touch.vnodes ▸ hloadw) (hu'.moved hm₂)
            (by omega) hoff₂).mono ?_
          rintro (e | r) w₃ hw₃
          · exact hw₃.1
          · exact ⟨hrw.trans (hrw₂.trans hw₃.1.1), (hall.trans hw₃).2⟩

theorem returns_ioOut (h : v.Physical I) (hload : ino ∈ v.fs.vnodes) (origresid extra : ℕ) :
    Returns (ioOut ino u origresid extra) v (Ends (fun u' w => Rewritten I ino v w ∧
      w.byte ino = v.byte ino ∧ u'.offset = u.offset) fun _ _ => False) := by
  unfold ioOut
  rw [returns_get, returns_bind]
  split_ifs
  · obtain ⟨hrw, -, hbyte⟩ := h.set_size (x := u.offset % wordSize) hload (Nat.mod_lt _ (by decide)) rfl
    exact returns_modify_last.mpr (returns_pure.mpr ⟨hrw, hbyte, rfl⟩)
  · exact returns_pure.mpr (returns_pure.mpr ⟨(Kept.refl h ino).rewritten, rfl, rfl⟩)

/-- **`sfs_io`** keeps the volume in order, if the positions of its whole blocks fit, and leaves the
other bytes of the file alone. -/
theorem returns_io_framed (h : v.Physical I) (hino : I ino) (hload : ino ∈ v.fs.vnodes) (hu : Valid u)
    (hlow : Low ino v u) : Returns (sfsIo ino u) v
      (Ends (fun r w => Rewritten I ino v w ∧ Framed ino v u (.ok r) w) fun _ _ => False) := by
  have hsize : sfiSize (v.fs.inode ino) = (v.file ino).size := by
    change _ = v.inodeWords ino 0
    rw [inodeWords_loaded hload]
    exact (words_of_lt (by decide)).symm
  unfold sfsIo
  rw [returns_get, hsize]
  simp only
  by_cases heof : u.rw = .read ∧ (v.file ino).size ≤ u.offset
  · rw [if_pos heof]
    exact returns_pure.mpr ⟨(Kept.refl h ino).rewritten, fun _ => ⟨le_refl _, fun _ _ => rfl⟩⟩
  · rw [if_neg heof]
    have hextra : (if u.rw = .read then u.offset + u.resid - (v.file ino).size else 0) = 0 ∨
        (if u.rw = .read then u.offset + u.resid - (v.file ino).size else 0) < u.resid := by
      split_ifs with hrw
      · have : u.offset < (v.file ino).size := by
          by_contra hge
          exact heof ⟨hrw, Nat.not_lt.mp hge⟩
        omega
      · exact .inl rfl
    rw [returns_kassert hextra]
    have hu' : Valid (cut (v.file ino).size u) :=
      ⟨(Nat.sub_le ..).trans hu.iov, lt_of_le_of_lt (Nat.sub_le ..) hu.lt⟩
    refine (returns_ioTransfer h hino hload hu' hlow).bind ?_
    rintro (e | ⟨e, u'⟩) w hw
    · exact hw.elim
    obtain ⟨hw, hframe⟩ : Rewritten I ino v w ∧
      Framed ino v (cut (v.file ino).size u) (.ok (e, u')) w := hw
    refine (returns_ioOut hw.physical (hw.touch.vnodes ▸ hload) _ _).bind ?_
    rintro (e' | u₂) w₂ hw₂
    · exact hw₂.elim
    · obtain ⟨hw₂, hbyte, hoff⟩ : Rewritten I ino w w₂ ∧ w₂.byte ino = w.byte ino ∧
        u₂.offset = u'.offset := hw₂
      refine returns_pure.mpr ⟨hw.trans hw₂, fun hend => ?_⟩
      obtain ⟨hle, hsame⟩ := hframe (lt_of_le_of_lt (Nat.add_le_add_left (Nat.sub_le ..) _) hend)
      change u.offset ≤ u₂.offset ∧ ∀ x, x < u.offset ∨ u₂.offset ≤ x → w₂.byte ino x = v.byte ino x
      rw [hoff, hbyte]
      exact ⟨hle, hsame⟩

/-- **`sfs_io`** keeps the volume in order, if the positions of its whole blocks fit. -/
theorem returns_io (h : v.Physical I) (hino : I ino) (hload : ino ∈ v.fs.vnodes) (hu : Valid u)
    (hlow : Low ino v u) :
    Returns (sfsIo ino u) v (Ends (fun _ w => Rewritten I ino v w) fun _ _ => False) := by
  refine (returns_io_framed h hino hload hu hlow).mono ?_
  rintro (e | r) w hw
  · exact hw
  · exact hw.1

end Io

section Metaio

variable {v w : Vol} {I : ℕ → Prop} {ino pos len : ℕ} {data : Buffer}

/-- The bytes of a file within one block. -/
theorem byte_within (hfit : pos % sfsBlocksize + len ≤ sfsBlocksize) {o : ℕ} (ho : o < len) :
    v.byte ino (pos + o) = if v.blockOf ino (pos / sfsBlocksize) = 0 then 0
      else v.disk.sector (v.blockOf ino (pos / sfsBlocksize)) (pos % sfsBlocksize + o) := by
  have hdiv : (pos + o) / sfsBlocksize = pos / sfsBlocksize := by unfold sfsBlocksize at *; omega
  have hmod : (pos + o) % sfsBlocksize = pos % sfsBlocksize + o := by unfold sfsBlocksize at *; omega
  rw [Vol.byte, hdiv, hmod]

/-- **`sfs_metaio` reads** the bytes of the file. -/
theorem returns_metaio_read (h : v.Physical I) (hino : I ino) (hload : ino ∈ v.fs.vnodes)
    (hmax : pos / sfsBlocksize < sfsMaxblocks) (hfit : pos % sfsBlocksize + len ≤ sfsBlocksize) :
    Returns (sfsMetaio ino pos data len .read) v (Ends (fun buf w => Kept I ino v w ∧
      w.fs.freemap = v.fs.freemap ∧ buf = blit data 0 len (fun o => v.byte ino (pos + o)) 0)
      fun _ _ => False) := by
  have hfb : pos / sfsBlocksize % wordSize = pos / sfsBlocksize :=
    Nat.mod_eq_of_lt (lt_trans hmax (by decide))
  unfold sfsMetaio
  simp only [hfb]
  refine (returns_bmap h hino hload _).bind fun r w hw => ?_
  rcases hw with ⟨-, hk, hfm, hr⟩ | ⟨hge, -⟩
  swap
  · exact absurd hmax (Nat.not_lt.mpr hge)
  replace hfm := hfm (by decide)
  cases r with
  | error e => exact absurd hr.2.1 (by decide)
  | ok b =>
    obtain ⟨hb, -⟩ := hr
    have hbyte : v.byte ino = w.byte ino := (congrArg FileView.byte hk.file).symm
    change Returns (if b = 0 then _ else _) w _
    split_ifs with h0
    · rw [returns_kassert rfl]
      refine returns_pure.mpr ⟨hk, hfm, blit_congr fun o ho => ?_⟩
      rw [Nat.zero_add, hbyte, byte_within hfit ho, hb, if_pos h0]
    · have hown : w.Owns I (.block ino _) b := ⟨hino, hb, h0⟩
      rw [returns_readblock (hk.physical.lt_nsect hown), returns_modify]
      have hk' := hk.physical.kept ino
        (rfl : (⟨{ w.fs with metaiobuf := clip (w.disk.sector b) }, w.disk⟩ : Vol) = _)
      refine returns_pure.mpr ⟨hk.trans hk', hfm, blit_congr fun o ho => ?_⟩
      rw [Nat.zero_add, hbyte, byte_within hfit ho, hb, if_neg h0]
      exact clip_apply (lt_of_lt_of_le (Nat.add_lt_add_left ho _) hfit)

/-- **`sfs_metaio` writes** the bytes of the file, unless there is no space for a block of it. -/
theorem returns_metaio_write (h : v.Physical I) (hino : I ino) (hload : ino ∈ v.fs.vnodes)
    (hpos : pos < wordSize) (hfit : pos % sfsBlocksize + len ≤ sfsBlocksize) :
    Returns (sfsMetaio ino pos data len .write) v (Ends
      (fun _ w => pos / sfsBlocksize < sfsMaxblocks ∧ Rewritten I ino v w ∧
        w.byte ino = blit (v.byte ino) pos len data 0 ∧
        (w.file ino).size = if (v.file ino).size < pos + len then (pos + len) % wordSize
          else (v.file ino).size)
      fun e w => Kept I ino v w ∧ (e = .enospc ∧ v.blockOf ino (pos / sfsBlocksize) = 0 ∧
        v.freeBlocks.card ≤ 1 ∨ e = .efbig ∧ sfsMaxblocks ≤ pos / sfsBlocksize)) := by
  have hfb : pos / sfsBlocksize % wordSize = pos / sfsBlocksize :=
    Nat.mod_eq_of_lt (lt_of_le_of_lt (Nat.div_le_self ..) hpos)
  unfold sfsMetaio
  simp only [hfb]
  refine (returns_bmap h hino hload _).bind fun r w hw => ?_
  rcases hw with ⟨hmax, hk, -, hr⟩ | ⟨hge, rfl, rfl⟩
  swap
  · exact ⟨Kept.refl h ino, .inr ⟨rfl, hge⟩⟩
  cases r with
  | error e => exact ⟨hk, .inl ⟨hr.1, hr.2.2.1, hr.2.2.2⟩⟩
  | ok b =>
    obtain ⟨hb, hne⟩ := hr
    have h0 : b ≠ 0 := hne (by decide)
    have hown : w.Owns I (.block ino _) b := ⟨hino, hb, h0⟩
    change Returns (if b = 0 then _ else _) w _
    rw [if_neg h0, returns_readblock (hk.physical.lt_nsect hown), returns_modify]
    refine returns_modify.mpr ((returns_writeblock ?_).mpr ?_)
    · exact hk.physical.lt_nsect hown
    -- the buffer does not matter, and the block is written
    have hk₁ := hk.physical.kept ino (rfl : (⟨{ w.fs with
      metaiobuf := blit (clip (w.disk.sector b)) (pos % sfsBlocksize) len data 0 }, w.disk⟩ : Vol) = _)
    have hkw := hk.trans hk₁
    have h0' : w.blockOf ino (pos / sfsBlocksize) ≠ 0 := by rw [hb]; exact h0
    obtain ⟨hp, ht, hwords, hbyte⟩ := hk₁.physical.write_block hino h0' (rfl :
      (⟨_, Disk.write _ _ (clip (blit (clip (w.disk.sector b)) (pos % sfsBlocksize) len data 0))⟩ :
        Vol) = _)
    have hbytes := (hbyte.trans (byte_write (v := w) hfit h0' fun o ho => by
      rw [hb]
      exact clip_apply ho)).trans (congrArg (fun f => blit f.byte pos len data 0) hk.file)
    have hre := hkw.rewritten.trans ⟨hp, ht, congrArg (· / 2 ^ 16) (congrFun hwords 1),
      congrArg (· % 2 ^ 16) (congrFun hwords 1)⟩
    subst hb
    refine returns_get.mpr ?_
    have hloadw := hre.touch.vnodes ▸ hload
    have hsize : sfiSize (w.fs.inode ino) = (v.file ino).size := by
      rw [← hk.file]
      change _ = w.inodeWords ino 0
      rw [inodeWords_loaded (hk.touch.vnodes ▸ hload)]
      exact (words_of_lt (by decide)).symm
    have hsame : (Vol.file ⟨_, _⟩ ino).size = (v.file ino).size :=
      (congrFun hwords 0).trans (congrArg FileView.size hk.file)
    change Returns ((if sfiSize (w.fs.inode ino) < pos + len then _ else _) >>= _) _ _
    rw [hsize, returns_bind]
    split_ifs with hgrow
    · obtain ⟨hset, hnew, hkeep⟩ := hp.set_size (x := (pos + len) % wordSize) hloadw
        (Nat.mod_lt _ (by decide)) rfl
      exact returns_modify_last.mpr (returns_pure.mpr
        ⟨hmax, hre.trans hset, hkeep.trans hbytes, hnew⟩)
    · exact returns_pure.mpr (returns_pure.mpr ⟨hmax, hre, hbytes, hsame⟩)

end Metaio

end SfsFs

end Os161
