import Os161.Sfs.Data
import Os161.Sfs.Refine
import Os161.Sfs.Shrink
import Os161.Sfs.Table

set_option autoImplicit false

/-!
# The bytes that are moved

What `sfs_io` does with the bytes of a file on a volume that is in order: a read hands them out, and a
write puts those of the caller in their place.

* `SparseFile.Answers`: how a file answers a request that may fail.
* `Handled`: what a part of a request does.
* `handled_partialio`, `handled_blockio`, `handled_ioBlocks`: the parts of `sfs_io`.
* **`handled_io`**: a whole request.
-/

namespace Os161

open Buffer SfsFs Vol Transition

/-- The sparse array that a file is. -/
def Vol.array (v : Vol) (ino : ℕ) : SparseFile := ⟨v.byte ino, (v.file ino).size⟩

/-- **How a file answers a request that may fail**: it is answered as by the array if there is no error;
otherwise a write may have changed the bytes before the offset that it has come to, and the size with
them. -/
structure SparseFile.Answers (f : SparseFile) (u : Uio) (r : Option FsErr × Uio) (f' : SparseFile) :
    Prop where
  done : r.1 = none → f.Step u none r.2 f'
  read : u.rw = .read → f' = f
  offset_le : u.offset ≤ r.2.offset
  le_offset : r.2.offset ≤ u.offset + u.resid
  frame : ∀ x, x < u.offset ∨ r.2.offset ≤ x → f'.byte x = f.byte x
  size : f'.size = f.size ∨ f.size < r.2.offset ∧ f'.size = r.2.offset % wordSize

section Answers

variable {f f' : SparseFile} {u u' : Uio} {x : ℕ}

/-- What a write has left. -/
theorem SparseFile.Answers.byte_write (h : f.Answers u (none, u') f') (hrw : u.rw = .write)
    (hx : u.offset ≤ x) (hlt : x < u.offset + u.resid) :
    f'.byte x = u.area (u.pos + (x - u.offset)) := by
  have hdone := h.done rfl
  cases hdone with
  | read hread =>
    rw [hrw] at hread
    cases hread
  | write hwrite hn hno =>
    obtain ⟨-, rfl⟩ := hno.resolve_right (by simp)
    exact blit_of_mem hx hlt

/-- What a read hands out. -/
theorem SparseFile.Answers.area_read (h : f.Answers u (none, u') f') (hrw : u.rw = .read)
    (hx : u.offset ≤ x) (hlt : x < u'.offset) : u'.area (u.pos + (x - u.offset)) = f.byte x := by
  have hdone := h.done rfl
  cases hdone with
  | write hwrite =>
    rw [hrw] at hwrite
    cases hwrite
  | read hread hm harea =>
    have hoff : u'.offset = u.offset + min u.resid (f.size - u.offset) := hm.offset
    have hin : x - u.offset < min u.resid (f.size - u.offset) := by omega
    rw [harea, blit_of_mem (Nat.le_add_right ..) (Nat.add_lt_add_left hin _)]
    refine congrArg f.byte ?_
    omega

end Answers

namespace SfsFs

/-- **What a part of a request for `n` bytes does**: a read changes no byte of the file, and hands out
those at the offset; a write changes those at the offset to the ones of the caller. -/
structure Handled (ino : ℕ) (v : Vol) (u : Uio) (n : ℕ) (r : Option FsErr × Uio) (w : Vol) : Prop where
  rw : r.2.rw = u.rw
  le : r.2.offset ≤ u.offset + n
  size : (w.file ino).size = (v.file ino).size
  same : u.rw = .read → w.byte ino = v.byte ino
  moved : r.1 = none → u.Moved r.2 n
  read : r.1 = none → u.rw = .read → r.2.area = blit u.area u.pos n (v.byte ino) u.offset
  write : r.1 = none → u.rw = .write →
    r.2.area = u.area ∧ w.byte ino = blit (v.byte ino) u.offset n u.area u.pos
  fits : r.1 = none → u.rw = .write → n = 0 ∨ u.offset + n ≤ sfsMaxblocks * sfsBlocksize

/-- The same of what a program returns. -/
def Handles (ino : ℕ) (v : Vol) (u : Uio) (n : ℕ) :
    Except FsErr (Option FsErr × Uio) → Vol → Prop :=
  Ends (fun r w => Handled ino v u n r w) fun _ _ => False

section Rules

variable {v w w' : Vol} {ino n m : ℕ} {u u' : Uio} {e : FsErr} {r : Option FsErr × Uio}

/-- Nothing is moved. -/
theorem Handled.zero (hk : w.file ino = v.file ino) : Handled ino v u 0 (none, u) w where
  rw := rfl
  le := le_refl _
  size := congrArg FileView.size hk
  same _ := congrArg FileView.byte hk
  moved _ := .refl u
  read _ _ := blit_zero.symm
  write _ _ := ⟨rfl, (congrArg FileView.byte hk).trans blit_zero.symm⟩
  fits _ _ := .inl rfl

/-- An error before a byte of the file is changed. -/
theorem Handled.error (hk : w.file ino = v.file ino) (hrw : u'.rw = u.rw)
    (hle : u'.offset ≤ u.offset + n) : Handled ino v u n (some e, u') w where
  rw := hrw
  le := hle
  size := congrArg FileView.size hk
  same _ := congrArg FileView.byte hk
  moved h := by cases h
  read h := by cases h
  write h := by cases h
  fits h := by cases h

/-- The rest of the request does not matter after an error. -/
theorem Handled.stop (h : Handled ino v u n (some e, u') w) (hle : n ≤ m) :
    Handled ino v u m (some e, u') w where
  rw := h.rw
  le := h.le.trans (Nat.add_le_add_left hle _)
  size := h.size
  same := h.same
  moved h := by cases h
  read h := by cases h
  write h := by cases h
  fits h := by cases h

/-- **One part after another.** -/
theorem Handled.trans (h : Handled ino v u n (none, u') w) (h' : Handled ino w u' m r w') :
    Handled ino v u (n + m) r w' where
  rw := h'.rw.trans h.rw
  le := by
    have hoff : u'.offset = u.offset + n := (h.moved rfl).offset
    rw [Nat.add_comm n, ← Nat.add_assoc, Nat.add_right_comm, ← hoff]
    exact h'.le
  size := h'.size.trans h.size
  same hrw := (h'.same ((h.moved rfl).rw.trans hrw)).trans (h.same hrw)
  moved hno := (h.moved rfl).trans (h'.moved hno)
  read hno hrw := by
    have hm := h.moved rfl
    rw [h'.read hno (hm.rw.trans hrw), h.read rfl hrw, hm.pos, hm.offset, h.same hrw, blit_blit]
  write hno hrw := by
    have hm := h.moved rfl
    obtain ⟨harea, hbyte⟩ := h.write rfl hrw
    obtain ⟨harea', hbyte'⟩ := h'.write hno (hm.rw.trans hrw)
    refine ⟨harea'.trans harea, ?_⟩
    rw [hbyte', hbyte, harea, hm.pos, hm.offset, blit_blit]
  fits hno hrw := by
    have hm := h.moved rfl
    have hoff : u'.offset = u.offset + n := hm.offset
    have hn := h.fits rfl hrw
    have hm' := h'.fits hno (hm.rw.trans hrw)
    omega

theorem Handled.start (hk : w.file ino = v.file ino) (h : Handled ino w u n r w') :
    Handled ino v u n r w' := by
  have hz : Handled ino v u 0 (none, u) w := .zero hk
  simpa using hz.trans h

end Rules

section Parts

variable {v w : Vol} {I : ℕ → Prop} {ino b n len skipstart : ℕ} {u u' : Uio}

theorem copy_rw (u : Uio) (n : ℕ) (ptr : Buffer) (k : ℕ) : (u.copy n ptr k).1.rw = u.rw := by
  unfold Uio.copy
  split <;> rfl

/-- A transfer keeps its direction. -/
theorem uiomoveLoop_rw (iov : List ℕ) {e : Option FsErr} {ptr ptr' : Buffer} {k : ℕ}
    (h : uiomoveLoop u k n ptr iov = .ok (e, u', ptr')) : u'.rw = u.rw := by
  induction iov generalizing u k n ptr with
  | nil =>
    rw [uiomoveLoop] at h
    split_ifs at h
    cases h
    rfl
  | cons len iov ih =>
    rw [uiomoveLoop] at h
    simp only at h
    split_ifs at h with h₁ h₂ h₃
    · cases h
      rfl
    · cases h
      exact copy_rw ..
    · exact (ih h).trans (copy_rw ..)
    · cases h
      exact copy_rw ..

/-- A transfer moves the offset at most over what is to be moved. -/
theorem uiomoveLoop_le (iov : List ℕ) {e : Option FsErr} {ptr ptr' : Buffer} {k : ℕ}
    (h : uiomoveLoop u k n ptr iov = .ok (e, u', ptr')) : u'.offset ≤ u.offset + n := by
  induction iov generalizing u k n ptr with
  | nil =>
    rw [uiomoveLoop] at h
    split_ifs at h
    cases h
    exact Nat.le_add_right ..
  | cons len iov ih =>
    have hadv : ((u.copy (min len n) ptr k).1.advance (min len n)).offset = u.offset + min len n :=
      congrArg (· + min len n) (copy_offset ..)
    have hmin : min len n ≤ n := Nat.min_le_right ..
    rw [uiomoveLoop] at h
    simp only at h
    split_ifs at h with h₁ h₂ h₃
    · cases h
      exact Nat.le_add_right ..
    · cases h
      change ((u.copy (min len n) ptr k).1.advance (min len n)).offset ≤ _
      omega
    · have hle := ih h
      omega
    · cases h
      change (u.copy _ ptr k).1.offset ≤ _
      rw [copy_offset]
      exact Nat.le_add_right ..

theorem zerosLoop_le {m : ℕ} {e : Option FsErr} (h : Valid u) (hn : n ≤ u.resid)
    (he : zerosLoop m n u = .ok (e, u')) : u'.offset ≤ u.offset + n := by
  induction m generalizing u n with
  | zero =>
    cases he
    exact Nat.le_add_right ..
  | succ m ih =>
    obtain ⟨e₁, u₁, ptr, he₁, -, hmove⟩ := h.uiomove (n := min 16 n) (by omega) (fun _ => 0) 0
    have hle := uiomoveLoop_le u.iov he₁
    rw [zerosLoop, he₁] at he
    cases e₁ with
    | some e₁ =>
      cases he
      omega
    | none =>
      obtain ⟨hm, -⟩ := hmove rfl
      have hres := hm.resid
      have hrest := ih (h.moved hm) (n := n - min 16 n) (by omega) he
      omega

theorem zerosLoop_rw {m : ℕ} {e : Option FsErr} (h : zerosLoop m n u = .ok (e, u')) :
    u'.rw = u.rw := by
  induction m generalizing u n with
  | zero =>
    cases h
    rfl
  | succ m ih =>
    obtain ⟨⟨e₁, u₁, ptr⟩, h₁, h⟩ := bind_eq_ok.mp h
    have hrw := uiomoveLoop_rw u.iov h₁
    cases e₁ with
    | some e₁ =>
      cases h
      exact hrw
    | none => exact (ih h).trans hrw

/-- The bytes of `uiomovezeros`. -/
theorem zerosLoop_area {m : ℕ} (h : Valid u) (hrw : u.rw = .read) (hn : n ≤ u.resid)
    (hm : n ≤ 16 * m) (he : zerosLoop m n u = .ok (none, u')) :
    u'.area = blit u.area u.pos n (fun _ => 0) 0 := by
  induction m generalizing u n with
  | zero =>
    obtain rfl : n = 0 := by omega
    cases he
    exact blit_zero.symm
  | succ m ih =>
    obtain ⟨e, u₁, ptr, he₁, -, hmove⟩ := h.uiomove (n := min 16 n) (by omega) (fun _ => 0) 0
    rw [zerosLoop, he₁] at he
    cases e with
    | some e => cases he
    | none =>
      obtain ⟨hm₁, hc⟩ := hmove rfl
      have hres := hm₁.resid
      have hsplit : min 16 n + (n - min 16 n) = n := by omega
      rw [ih (h.moved hm₁) (hm₁.rw.trans hrw) (n := n - min 16 n) (by omega) (by omega) he,
        (hc.read hrw).1, hm₁.pos]
      have hblit : blit (blit u.area u.pos (min 16 n) (fun _ => 0) 0) (u.pos + min 16 n)
          (n - min 16 n) (fun _ => 0) (0 + min 16 n) =
            blit u.area u.pos (min 16 n + (n - min 16 n)) (fun _ => 0) 0 := blit_blit
      exact hblit.trans (by rw [hsplit])

/-- `uiomovezeros` hands out zeros. -/
theorem handled_zeros (h : Valid u) (hrw : u.rw = .read) (hn : n ≤ u.resid)
    (hzero : ∀ o < n, v.byte ino (u.offset + o) = 0) :
    ∃ r, uiomovezeros n u = .ok r ∧ Handled ino v u n r v := by
  obtain ⟨e, u', he, -, hmove⟩ := h.uiomovezeros hrw hn
  have hloop := he
  rw [Os161.uiomovezeros, if_pos hrw] at hloop
  refine ⟨(e, u'), he, zerosLoop_rw hloop, zerosLoop_le h hn hloop, rfl, fun _ => rfl, hmove,
    fun hno _ => ?_, fun _ hw => ?_, fun _ hw => ?_⟩
  · rw [Os161.uiomovezeros, if_pos hrw, show e = none from hno] at he
    rw [zerosLoop_area h hrw hn (by omega) he]
    exact blit_congr fun o ho => (hzero o ho).symm
  · rw [hrw] at hw
    cases hw
  · rw [hrw] at hw
    cases hw

/-- What is within a block of a file is within the largest file. -/
theorem offset_le (hmax : u.offset / sfsBlocksize < sfsMaxblocks)
    (hfit : u.offset % sfsBlocksize + len ≤ sfsBlocksize) :
    u.offset + len ≤ sfsMaxblocks * sfsBlocksize := by
  unfold sfsBlocksize at *
  omega

/-- `sfs_partialio` from the `uiomove` on. -/
theorem handled_movePartial (h : v.Physical I) (hino : I ino) (hu : Valid u) (hlen : len ≤ u.resid)
    (hmax : u.offset / sfsBlocksize < sfsMaxblocks) (hoff : u.offset % sfsBlocksize = skipstart)
    (hfit : skipstart + len ≤ sfsBlocksize) (hb : v.blockOf ino (u.offset / sfsBlocksize) = b)
    (hne : u.rw = .write → b ≠ 0)
    (hbuf : EqOn sfsBlocksize v.fs.iobuf fun o => if b = 0 then 0 else v.disk.sector b o) :
    Returns (movePartial u b skipstart len) v (Handles ino v u len) := by
  obtain ⟨e, u', buf, he, -, hmove⟩ := hu.uiomove hlen v.fs.iobuf skipstart
  have hk := h.kept ino (rfl : (⟨{ v.fs with iobuf := buf }, v.disk⟩ : Vol) = _)
  unfold movePartial
  rw [returns_get, returns_lift he]
  refine returns_modify.mpr ?_
  cases e with
  | some e => exact returns_pure.mpr (.error hk.file (uiomoveLoop_rw u.iov he) (uiomoveLoop_le u.iov he))
  | none =>
    obtain ⟨hm, hc⟩ := hmove rfl
    change Returns (if u'.rw = .write then _ else _) _ _
    split_ifs with hrw
    · rw [hm.rw] at hrw
      have h0 := hne hrw
      have hown : v.Owns I (.block ino (u.offset / sfsBlocksize)) b := ⟨hino, hb, h0⟩
      obtain ⟨harea, hdata⟩ := hc.write hrw
      rw [returns_bind, returns_status]
      refine (returns_writeblock_last ?_).mpr (returns_pure.mpr ?_)
      · exact h.lt_nsect hown
      have hb' : Vol.blockOf ⟨{ v.fs with iobuf := buf }, v.disk⟩ ino (u.offset / sfsBlocksize) = b := hb
      obtain ⟨-, -, hwords, hbyte⟩ := hk.physical.write_block hino (ne_of_eq_of_ne hb' h0)
        (rfl : (⟨_, Disk.write _ _ (clip buf)⟩ : Vol) = _)
      rw [hb'] at hwords hbyte
      refine ⟨hm.rw, le_of_eq hm.offset, congrFun hwords 0, fun hr => ?_, fun _ => hm, fun _ hr => ?_,
        fun _ _ => ⟨harea, ?_⟩, fun _ _ => .inr (offset_le hmax (by rw [hoff]; exact hfit))⟩
      · rw [hrw] at hr
        cases hr
      · rw [hrw] at hr
        cases hr
      refine hbyte.trans ?_
      have hclip : buf =
          blit v.fs.iobuf (u.offset % sfsBlocksize) len (fun o => u.area (u.pos + o)) 0 := by
        rw [hdata, hoff]
        exact blit_congr fun o _ => by rw [Nat.zero_add]
      rw [hclip]
      refine (byte_write (v := v) (by rw [hoff]; exact hfit) (by rw [hb]; exact h0) ?_).trans
        (blit_congr fun o _ => by rw [Nat.zero_add])
      rw [hb]
      exact fun o ho => (hbuf o ho).trans (if_neg h0)
    · have hread : u.rw ≠ .write := fun hw => hrw (hm.rw.trans hw)
      refine returns_pure.mpr ⟨hm.rw, le_of_eq hm.offset, congrArg FileView.size hk.file,
        fun _ => congrArg FileView.byte hk.file,
        fun _ => hm, fun _ hr => ?_, fun _ hw => absurd hw hread, fun _ hw => absurd hw hread⟩
      rw [(hc.read hr).1]
      refine blit_congr fun o ho => ?_
      rw [byte_within (by rw [hoff]; exact hfit) ho, hb, hoff]
      exact hbuf _ (lt_of_lt_of_le (Nat.add_lt_add_left ho _) hfit)

/-- **`sfs_partialio`.** -/
theorem handled_partialio (h : v.Physical I) (hino : I ino) (hload : ino ∈ v.fs.vnodes)
    (hu : Valid u) (hlen : len ≤ u.resid) (hend : u.offset + u.resid < 2 ^ 41)
    (hoff : u.offset % sfsBlocksize = skipstart) (hfit : skipstart + len ≤ sfsBlocksize) :
    Returns (sfsPartialio ino u skipstart len) v (Handles ino v u len) := by
  unfold sfsPartialio
  rw [returns_kassert hfit, returns_bind, returns_attempt]
  refine (returns_bmap h hino hload (u.rw = .write)).mono fun r w hw => ?_
  rcases hw with ⟨hmax, hk, -, hr⟩ | ⟨-, rfl, rfl⟩
  · cases r with
    | error e => exact returns_pure.mpr (.error hk.file rfl (Nat.le_add_right ..))
    | ok b =>
      obtain ⟨hb, hne⟩ := hr
      rw [block_number hend] at hb hmax
      have hne' : u.rw = .write → b ≠ 0 := fun hrw => hne (by rw [hrw]; rfl)
      -- the block is in iobuf
      have hload : Returns (status (loadBlock u.rw b)) w
          (Ends (fun e w' => e = none ∧ ∃ buf, w' = ⟨{ w.fs with iobuf := buf }, w.disk⟩ ∧
            EqOn sfsBlocksize buf fun o => if b = 0 then 0 else w.disk.sector b o) fun _ _ => False) := by
        rw [returns_status]
        unfold loadBlock
        split_ifs with h0
        · have hrw : u.rw = .read := by
            cases hrw : u.rw with
            | read => rfl
            | write => exact absurd h0 (hne' hrw)
          rw [returns_kassert hrw, returns_modify_last]
          exact ⟨rfl, _, rfl, fun o _ => rfl⟩
        · have hown : w.Owns I (.block ino _) b := ⟨hino, hb, h0⟩
          rw [returns_readblock (hk.physical.lt_nsect hown), returns_modify_last]
          exact ⟨rfl, _, rfl, fun o ho => clip_apply ho⟩
      refine hload.bind ?_
      rintro (e | e) w' hw'
      · exact hw'.elim
      obtain ⟨rfl, buf, rfl, hbuf⟩ := hw'
      have hk' := hk.physical.kept ino
        (rfl : (⟨{ w.fs with iobuf := buf }, w.disk⟩ : Vol) = _)
      refine (handled_movePartial hk'.physical hino hu hlen hmax hoff hfit hb hne' hbuf).mono ?_
      rintro (e | r) w' hr
      · exact hr
      · exact .start (hk.trans hk').file hr
  · exact returns_pure.mpr (.error rfl rfl (Nat.le_add_right ..))

/-- The disk serves the request for a whole block of a file. -/
theorem diskDevice_bytes (hu : Valid u) (hres : sfsBlocksize ≤ u.resid) (hlow : b < 2 ^ 23)
    (hb : b < v.disk.nsect) : ∃ e u' d, diskDevice v.disk ⟨u.forDevice b, rfl⟩ = .ok ((e, u'), d) ∧
      u'.rw = u.rw ∧ u'.offset ≤ (u.forDevice b).offset + sfsBlocksize ∧
      (e = none → (u.forDevice b).Moved u' sfsBlocksize) ∧
      (u.rw = .read → d = v.disk ∧
        (e = none → u'.area = blit u.area u.pos sfsBlocksize (v.disk.sector b) 0)) ∧
      (u.rw = .write → (e ≠ none → d = v.disk) ∧ (e = none → u'.area = u.area ∧
        d = v.disk.write b (blit (fun _ => 0) 0 sfsBlocksize u.area u.pos))) := by
  have hoff : (u.forDevice b).offset = b * lhdSectsize := by
    change b * 512 % 2 ^ 32 = b * 512
    omega
  have hvalid : Valid (u.forDevice b) :=
    ⟨hres.trans hu.iov, lt_of_le_of_lt hres hu.lt⟩
  rw [diskDevice_eq hoff hb, diskSector]
  cases hrw : u.rw with
  | read =>
    obtain ⟨e, u', buf, he, -, hmove⟩ :=
      hvalid.uiomove (n := lhdSectsize) (le_refl _) (v.disk.sector b) 0
    refine ⟨e, u', v.disk, ?_, (uiomoveLoop_rw _ he).trans hrw, uiomoveLoop_le _ he,
      fun hno => (hmove hno).1, fun _ => ⟨rfl, fun hno => ?_⟩, fun hw => ?_⟩
    · rw [show (u.forDevice b).rw = .read from hrw]
      simp only
      rw [he]
      rfl
    · exact ((hmove hno).2.read hrw).1
    · cases hw
  | write =>
    obtain ⟨e, u', buf, he, -, hmove⟩ := hvalid.uiomove (n := lhdSectsize) (le_refl _) (fun _ => 0) 0
    refine ⟨e, u', if e.isSome then v.disk else v.disk.write b buf, ?_, (uiomoveLoop_rw _ he).trans hrw,
      uiomoveLoop_le _ he, fun hno => (hmove hno).1, fun hr => ?_,
      fun _ => ⟨fun hsome => ?_, fun hno => ?_⟩⟩
    · rw [show (u.forDevice b).rw = .write from hrw]
      simp only
      rw [he]
      rfl
    · cases hr
    · rw [if_pos (Option.isSome_iff_ne_none.mpr hsome)]
    · obtain ⟨harea, hbuf⟩ := (hmove hno).2.write hrw
      refine ⟨harea, ?_⟩
      rw [hno, hbuf]
      rfl

/-- A whole block of a file is replaced. -/
theorem blit_block {f data : Buffer} {k pos : ℕ} (hk : k % sfsBlocksize = 0) :
    (fun x => if x / sfsBlocksize = k / sfsBlocksize
      then blit (fun _ => 0) 0 sfsBlocksize data pos (x % sfsBlocksize) else f x) =
      blit f k sfsBlocksize data pos := by
  funext x
  unfold sfsBlocksize at *
  by_cases hx : x / 512 = k / 512
  · rw [if_pos hx, blit_of_mem (Nat.zero_le _) (by omega), blit_of_mem (by omega) (by omega)]
    congr 1
    omega
  · rw [if_neg hx, blit_of_not_mem (by omega)]

/-- `sfs_blockio` on the block that `sfs_bmap` returned. -/
theorem handled_blockTransfer (h : v.Physical I) (hino : I ino) (hu : Valid u)
    (hres : sfsBlocksize ≤ u.resid) (hoff : u.offset % sfsBlocksize = 0)
    (hmax : u.offset / sfsBlocksize < sfsMaxblocks) (hb : v.blockOf ino (u.offset / sfsBlocksize) = b)
    (hne : u.rw = .write → b ≠ 0) (hlow : b < 2 ^ 23) :
    Returns (blockTransfer u b) v (Handles ino v u sfsBlocksize) := by
  have hfit : u.offset % sfsBlocksize + sfsBlocksize ≤ sfsBlocksize := by omega
  unfold blockTransfer
  split_ifs with h0
  · have hrw : u.rw = .read := by
      cases hrw : u.rw with
      | read => rfl
      | write => exact absurd h0 (hne hrw)
    have hzero : ∀ o < sfsBlocksize, v.byte ino (u.offset + o) = 0 := fun o ho => by
      rw [byte_within hfit ho, hb, if_pos h0]
    obtain ⟨r, he, hr⟩ := handled_zeros hu hrw hres hzero
    rw [returns_kassert hrw, he]
    exact returns_pure.mpr hr
  · have hown : v.Owns I (.block ino (u.offset / sfsBlocksize)) b := ⟨hino, hb, h0⟩
    obtain ⟨e, u', d, he, hkeep, hle, hmove, hread, hwrite⟩ :=
      diskDevice_bytes (v := v) hu hres hlow (h.lt_nsect hown)
    rw [returns_kassert hres, returns_rwblock (q := fun _ => ⟨u.forDevice b, rfl⟩) he]
    refine returns_pure.mpr ?_
    have hrest : e = none → u.Moved (u'.restore u b) sfsBlocksize := fun hno =>
      (hmove hno).restore hres
    have hle' : (u'.restore u b).offset ≤ u.offset + sfsBlocksize := by
      change u'.offset - b * sfsBlocksize % wordSize + u.offset ≤ _
      change u'.offset ≤ b * sfsBlocksize % wordSize + sfsBlocksize at hle
      omega
    cases hrw : u.rw with
    | read =>
      obtain ⟨rfl, harea⟩ := hread hrw
      have hread : u.rw ≠ .write := fun hw => by
        rw [hrw] at hw
        cases hw
      refine ⟨hkeep, hle', rfl, fun _ => rfl, hrest,
        fun hno _ => (harea hno).trans (blit_congr fun o ho => ?_),
        fun _ hw => absurd hw hread, fun _ hw => absurd hw hread⟩
      rw [byte_within hfit ho, hb, if_neg h0, hoff]
    | write =>
      obtain ⟨hsome, hnone⟩ := hwrite hrw
      cases e with
      | some e =>
        obtain rfl := hsome (by simp)
        exact .error rfl hkeep hle'
      | none =>
        obtain ⟨harea, rfl⟩ := hnone rfl
        obtain ⟨-, -, hwords, hbyte⟩ := h.write_block hino
          (ne_of_eq_of_ne hb h0) (rfl : (⟨_, Disk.write _ _ _⟩ : Vol) = _)
        rw [hb] at hwords hbyte
        refine ⟨hkeep, hle', congrFun hwords 0, fun hr => ?_, hrest, fun _ hr => ?_,
          fun _ _ => ⟨harea, ?_⟩,
          fun _ _ => .inr (offset_le hmax hfit)⟩
        · rw [hrw] at hr
          cases hr
        · rw [hrw] at hr
          cases hr
        exact hbyte.trans (blit_block hoff)

/-- **`sfs_blockio`** on a block whose position 32 bits can hold. -/
theorem handled_blockio (h : v.Physical I) (hino : I ino) (hload : ino ∈ v.fs.vnodes)
    (hu : Valid u) (hres : sfsBlocksize ≤ u.resid) (hend : u.offset + u.resid < 2 ^ 41)
    (hoff : u.offset % sfsBlocksize = 0) (hlow : LowBlock ino v u) :
    Returns (sfsBlockio ino u) v (Handles ino v u sfsBlocksize) := by
  unfold sfsBlockio
  obtain ⟨r, w, he, hw⟩ : Returns (sfsBmap ino (u.offset / sfsBlocksize % wordSize) _) v _ :=
    returns_bmap h hino hload (u.rw = .write)
  rw [returns_bind, returns_attempt]
  refine ⟨r, w, he, ?_⟩
  rcases hw with ⟨hmax, hk, -, hr⟩ | ⟨-, rfl, rfl⟩
  · cases r with
    | error e => exact returns_pure.mpr (.error hk.file rfl (Nat.le_add_right ..))
    | ok b =>
      obtain ⟨hb, hne⟩ := hr
      rw [block_number hend] at hb hmax
      refine (handled_blockTransfer hk.physical hino hu hres hoff hmax hb
        (fun hrw => hne (by rw [hrw]; rfl)) (hlow b w he)).mono ?_
      rintro (e | r) w' hr
      · exact hr
      · exact .start hk.file hr
  · exact returns_pure.mpr (.error rfl rfl (Nat.le_add_right ..))

/-- **The whole blocks of `sfs_io`.** -/
theorem handled_ioBlocks (h : v.Physical I) (hino : I ino) (hload : ino ∈ v.fs.vnodes)
    (hu : Valid u) (hres : n * sfsBlocksize ≤ u.resid) (hend : u.offset + u.resid < 2 ^ 41)
    (hoff : u.offset % sfsBlocksize = 0) (hlow : LowBlocks ino n v u) :
    Returns (ioBlocks ino n u) v (Handles ino v u (n * sfsBlocksize)) := by
  induction n generalizing v u with
  | zero =>
    rw [Nat.zero_mul]
    exact returns_pure.mpr (.zero rfl)
  | succ n ih =>
    rw [Nat.succ_mul] at hres ⊢
    have hfirst : sfsBlocksize ≤ u.resid := by omega
    obtain ⟨r, w, he, hw, hd⟩ := (returns_blockio h hino hload hu hfirst hoff hlow.1).and
      (handled_blockio h hino hload hu hfirst hend hoff hlow.1)
    rw [ioBlocks, returns_bind]
    refine ⟨r, w, he, ?_⟩
    cases r with
    | error e => exact hd
    | ok r =>
      obtain ⟨e, u'⟩ := r
      replace hd : Handled ino v u sfsBlocksize (e, u') w := hd
      obtain ⟨hrw, -⟩ := hw.1
      cases e with
      | some e => exact returns_pure.mpr (hd.stop (Nat.le_add_left ..))
      | none =>
        have hm : u.Moved u' sfsBlocksize := hd.moved rfl
        have hr : u'.resid + sfsBlocksize = u.resid := hm.resid
        have ho : u'.offset = u.offset + sfsBlocksize := hm.offset
        refine (ih hrw.physical (hrw.touch.vnodes ▸ hload) (hu.moved hm) (by omega) (by omega)
          (by rw [ho, Nat.add_mod_right, hoff]) (hlow.2 u' w he)).mono ?_
        rintro (e | r) w' hr'
        · exact hr'
        · rw [Nat.add_comm]
          exact hd.trans hr'

/-- **The remaining partial block of `sfs_io`.** -/
theorem handled_ioTail (h : v.Physical I) (hino : I ino) (hload : ino ∈ v.fs.vnodes)
    (hu : Valid u) (hres : u.resid < sfsBlocksize) (hend : u.offset + u.resid < 2 ^ 41)
    (hoff : u.offset % sfsBlocksize = 0) :
    Returns (ioTail ino u) v (Handles ino v u u.resid) := by
  unfold ioTail
  rw [returns_kassert hres]
  split_ifs with h0
  · rw [h0]
    exact returns_pure.mpr (.zero rfl)
  · exact handled_partialio h hino hload hu (le_refl _) hend hoff (by omega)

/-- **The leading partial block of `sfs_io`.** -/
theorem handled_ioLead (h : v.Physical I) (hino : I ino) (hload : ino ∈ v.fs.vnodes)
    (hu : Valid u) (hend : u.offset + u.resid < 2 ^ 41) : Returns (ioLead ino u) v
      (Ends (fun r w => ∃ n, Handled ino v u n r w ∧ n ≤ u.resid ∧
        (r.1 = none → r.2.resid = 0 ∨ r.2.offset % sfsBlocksize = 0)) fun _ _ => False) := by
  unfold ioLead
  simp only
  split_ifs with h0
  · exact returns_pure.mpr ⟨0, .zero rfl, Nat.zero_le _, fun _ => .inr h0⟩
  · have hlt : u.offset % sfsBlocksize < sfsBlocksize := Nat.mod_lt _ (by decide)
    refine (handled_partialio h hino hload hu (Nat.min_le_right ..) hend rfl (by omega)).mono ?_
    rintro (e | r) w hw
    · exact hw
    · refine ⟨_, hw, Nat.min_le_right .., fun hno => ?_⟩
      have hm := hw.moved hno
      have hr := hm.resid
      have ho := hm.offset
      unfold sfsBlocksize at *
      omega

/-- `sfs_io` between the check for the end of the file and the label `out`. -/
theorem handled_ioTransfer (h : v.Physical I) (hino : I ino) (hload : ino ∈ v.fs.vnodes)
    (hu : Valid u) (hend : u.offset + u.resid < 2 ^ 41)
    (hlow : ∀ u' w, exec (ioLead ino u) v = .ok (.ok (none, u'), w) →
      LowBlocks ino (u'.resid / sfsBlocksize) w u') :
    Returns (ioTransfer ino u) v (Handles ino v u u.resid) := by
  obtain ⟨r, w, he, hw, hd⟩ := (returns_ioLead h hino hload hu).and (handled_ioLead h hino hload hu hend)
  unfold ioTransfer
  rw [returns_bind]
  refine ⟨r, w, he, ?_⟩
  cases r with
  | error e => exact hd
  | ok r =>
    obtain ⟨e, u'⟩ := r
    obtain ⟨_, hlead, -⟩ := hw
    obtain ⟨n, hd, hn, hstop⟩ := hd
    obtain ⟨hrw, -⟩ := hlead.1
    cases e with
    | some e => exact returns_pure.mpr (hd.stop hn)
    | none =>
      have hm : u.Moved u' n := hd.moved rfl
      have hres : u'.resid + n = u.resid := hm.resid
      change Returns (if (none : Option FsErr).isSome ∨ u'.resid = 0 then pure (none, u') else _) w _
      by_cases h0 : u'.resid = 0
      · rw [if_pos (.inr h0)]
        obtain rfl : n = u.resid := by omega
        exact returns_pure.mpr hd
      · have hoff : u'.offset % sfsBlocksize = 0 := (hstop rfl).resolve_left h0
        have hloadw : ino ∈ w.fs.vnodes := hrw.touch.vnodes ▸ hload
        have hu' := hu.moved hm
        have hend' : u'.offset + u'.resid < 2 ^ 41 := by
          have ho := hm.offset
          omega
        have hle := Nat.div_mul_le_self u'.resid sfsBlocksize
        rw [if_neg (by simpa using h0), returns_kassert hoff]
        refine ((returns_ioBlocks hrw.physical hino hloadw hu' hle hoff (hlow u' w he)).and
          (handled_ioBlocks hrw.physical hino hloadw hu' hle hend' hoff (hlow u' w he))).bind ?_
        rintro (e | ⟨e, u₂⟩) w₂ ⟨hw₂, hd₂⟩
        · exact hd₂.elim
        replace hd₂ : Handled ino w u' _ (e, u₂) w₂ := hd₂
        have hall := hd.trans hd₂
        obtain ⟨hrw₂, -⟩ := hw₂.1
        cases e with
        | some e => exact returns_pure.mpr (hall.stop (by omega))
        | none =>
          have hm₂ := hd₂.moved rfl
          have hres₂ : u₂.resid + u'.resid / sfsBlocksize * sfsBlocksize = u'.resid := hm₂.resid
          have ho₂ : u₂.offset = u'.offset + u'.resid / sfsBlocksize * sfsBlocksize := hm₂.offset
          have hlt := Nat.mod_lt u'.resid (show 0 < sfsBlocksize by decide)
          have hdiv := Nat.div_add_mod u'.resid sfsBlocksize
          rw [Nat.mul_comm] at hdiv
          have hend₂ : u₂.offset + u₂.resid < 2 ^ 41 := by omega
          have hshort : u₂.resid < sfsBlocksize := by omega
          refine (handled_ioTail hrw₂.physical hino (hrw₂.touch.vnodes ▸ hloadw) (hu'.moved hm₂)
            hshort hend₂ (by rw [ho₂, Nat.add_mul_mod_self_right, hoff])).mono ?_
          rintro (e | r) w₃ hw₃
          · exact hw₃
          · have hlast := hall.trans hw₃
            rwa [show n + u'.resid / sfsBlocksize * sfsBlocksize + u₂.resid = u.resid by omega] at hlast

/-- The end of `sfs_io`. -/
theorem handled_ioOut (h : v.Physical I) (hload : ino ∈ v.fs.vnodes) (origresid extra : ℕ) :
    Returns (ioOut ino u origresid extra) v (Ends (fun u' w =>
      u' = { u with resid := wadd u.resid extra } ∧ w.byte ino = v.byte ino ∧
      (w.file ino).size = if u.resid ≠ origresid ∧ u.rw = .write ∧ (v.file ino).size < u.offset
        then u.offset % wordSize else (v.file ino).size) fun _ _ => False) := by
  unfold ioOut
  rw [returns_get, returns_bind, size_inode hload]
  split_ifs
  · obtain ⟨-, hnew, hbyte⟩ := h.set_size (x := u.offset % wordSize) hload (Nat.mod_lt _ (by decide)) rfl
    exact returns_modify_last.mpr (returns_pure.mpr ⟨rfl, hbyte, hnew⟩)
  · exact returns_pure.mpr (returns_pure.mpr ⟨rfl, rfl, rfl⟩)

/-- What the end of the file cuts off. -/
theorem cut_resid (hlt : u.rw = .read → u.offset < n) : (cut n u).resid =
    if u.rw = .read then min u.resid (n - u.offset) else u.resid := by
  unfold cut
  simp only
  split_ifs with hrw
  · have := hlt hrw
    omega
  · rfl

/-- What was cut off is added to the residue. -/
theorem moved_out (hu : Valid u) (hm : (cut n u).Moved u' (cut n u).resid)
    (hlt : u.rw = .read → u.offset < n) :
    u.Moved { u' with resid := wadd u'.resid (if u.rw = .read then u.offset + u.resid - n else 0) }
      (cut n u).resid where
  sum := hm.sum
  pos := hm.pos
  user := hm.user
  valid := hm.valid
  offset := hm.offset
  resid := by
    have hres : u'.resid + (cut n u).resid = (cut n u).resid := hm.resid
    have hword := hu.lt
    have hcut : (cut n u).resid = u.resid - if u.rw = .read then u.offset + u.resid - n else 0 := rfl
    have hle : (if u.rw = .read then u.offset + u.resid - n else 0) ≤ u.resid := by
      split_ifs with hrw
      · have := hlt hrw
        omega
      · exact Nat.zero_le _
    change wadd u'.resid _ + _ = u.resid
    rw [wadd_of_lt (by omega), hcut]
    omega
  rw := hm.rw

/-- A read is answered. -/
theorem Handled.answer_read (hu : Valid u) (hrw : u.rw = .read) (hlt : u.offset < (v.file ino).size)
    (hd : Handled ino v (cut (v.file ino).size u) (cut (v.file ino).size u).resid (none, u') w) :
    (v.array ino).Step u none { u' with
      resid := wadd u'.resid (if u.rw = .read then u.offset + u.resid - (v.file ino).size else 0) }
      (v.array ino) := by
  have hm := moved_out hu (hd.moved rfl) fun _ => hlt
  have hn := cut_resid (u := u) fun _ => hlt
  have harea := hd.read rfl hrw
  rw [if_pos hrw] at hn
  rw [hn] at hm harea
  exact .read hrw hm harea

/-- A write is answered. -/
theorem Handled.answer_write {w₂ : Vol} (hu : Valid u) (hrw : u.rw = .write)
    (hd : Handled ino v (cut (v.file ino).size u) (cut (v.file ino).size u).resid (none, u') w)
    (hbyte : w₂.byte ino = w.byte ino)
    (hset : (w₂.file ino).size = if u'.resid ≠ u.resid ∧ u'.rw = .write ∧ (w.file ino).size < u'.offset
      then u'.offset % wordSize else (w.file ino).size) :
    (v.array ino).Step u none { u' with
      resid := wadd u'.resid (if u.rw = .read then u.offset + u.resid - (v.file ino).size else 0) }
      (w₂.array ino) := by
  have hread : u.rw ≠ .read := fun hr => by
    rw [hrw] at hr
    cases hr
  have hm := moved_out hu (hd.moved rfl) fun hr => absurd hr hread
  have hn := cut_resid (n := (v.file ino).size) (u := u) fun hr => absurd hr hread
  obtain ⟨harea, hbytes⟩ := hd.write rfl hrw
  have hfits := hd.fits rfl hrw
  have hmove := hd.moved rfl
  rw [if_neg hread] at hn
  rw [hn] at hm hbytes hfits hmove
  have hfile : w₂.array ino = (v.array ino).write u.offset u.resid u.area u.pos := by
    have hres : u'.resid + u.resid = (cut (v.file ino).size u).resid := hmove.resid
    have hoff : u'.offset = u.offset + u.resid := hmove.offset
    replace hfits : u.resid = 0 ∨ u.offset + u.resid ≤ 73216 := hfits
    have hsize : (w.file ino).size = (v.file ino).size := hd.size
    refine SparseFile.mk.injEq .. ▸ ⟨hbyte.trans hbytes, ?_⟩
    change (w₂.file ino).size =
      if u.resid = 0 then (v.file ino).size else max (v.file ino).size (u.offset + u.resid)
    have hw' : u'.rw = .write := hd.rw.trans hrw
    simp only [hset, hw', hsize, hoff, true_and]
    unfold wordSize
    split_ifs <;> omega
  rw [hfile]
  exact .write hrw (le_refl _) (.inl ⟨rfl, rfl⟩) hm harea

/-- A read at the end of the file, or after it. -/
theorem answers_eof (hrw : u.rw = .read) (hle : (v.file ino).size ≤ u.offset) :
    (v.array ino).Answers u (none, u) (v.array ino) where
  done _ := by
    have hzero : min u.resid ((v.array ino).size - u.offset) = 0 := by
      change min u.resid ((v.file ino).size - u.offset) = 0
      omega
    exact .read hrw (by rw [hzero]; exact .refl u) (by rw [hzero]; exact blit_zero.symm)
  read _ := rfl
  offset_le := le_refl _
  le_offset := Nat.le_add_right ..
  frame _ _ := rfl
  size := .inl rfl

/-- What the end of `sfs_io` makes of a request that was handled. -/
theorem Handled.answers {w₂ : Vol} {e : Option FsErr} (hu : Valid u)
    (heof : u.rw = .read → u.offset < (v.file ino).size)
    (hd : Handled ino v (cut (v.file ino).size u) (cut (v.file ino).size u).resid (e, u') w)
    (hge : u.offset ≤ u'.offset)
    (hframe : ∀ x, x < u.offset ∨ u'.offset ≤ x → w.byte ino x = v.byte ino x)
    (hbyte : w₂.byte ino = w.byte ino)
    (hset : (w₂.file ino).size = if u'.resid ≠ u.resid ∧ u'.rw = .write ∧ (w.file ino).size < u'.offset
      then u'.offset % wordSize else (w.file ino).size) :
    (v.array ino).Answers u (e, { u' with
      resid := wadd u'.resid (if u.rw = .read then u.offset + u.resid - (v.file ino).size else 0) })
      (w₂.array ino) := by
  have hsize : (w.file ino).size = (v.file ino).size := hd.size
  have hsame : u.rw = .read → w₂.array ino = v.array ino := by
    intro hrw
    have hno : ¬ (u'.resid ≠ u.resid ∧ u'.rw = .write ∧ (w.file ino).size < u'.offset) := by
      rintro ⟨-, hw', -⟩
      rw [hd.rw.trans hrw] at hw'
      cases hw'
    rw [if_neg hno] at hset
    unfold Vol.array
    rw [hbyte, hset, hd.same hrw, hsize]
  refine ⟨fun he => ?_, hsame, hge, hd.le.trans (Nat.add_le_add_left (Nat.sub_le ..) _),
    fun x hx => (congrFun hbyte x).trans (hframe x hx), ?_⟩
  · obtain rfl : e = none := he
    by_cases hrw : u.rw = .read
    · rw [hsame hrw]
      exact hd.answer_read hu hrw (heof hrw)
    · have hwrite : u.rw = .write := by
        cases hr : u.rw with
        | read => exact absurd hr hrw
        | write => rfl
      exact hd.answer_write hu hwrite hbyte hset
  · change (w₂.file ino).size = (v.file ino).size ∨
      (v.file ino).size < u'.offset ∧ (w₂.file ino).size = u'.offset % wordSize
    rw [hset, ← hsize]
    split_ifs with hgrow
    · exact .inr ⟨hgrow.2.2, rfl⟩
    · exact .inl rfl

/-- **A whole request** is answered as by the sparse array that the file is. -/
theorem handled_io (h : v.Physical I) (hino : I ino) (hload : ino ∈ v.fs.vnodes) (hu : Valid u)
    (hend : u.offset + u.resid < 2 ^ 41) (hlow : Low ino v u) : Returns (sfsIo ino u) v
      (Ends (fun r w => (v.array ino).Answers u r (w.array ino)) fun _ _ => False) := by
  unfold sfsIo
  rw [returns_get, size_inode hload]
  simp only
  by_cases heof : u.rw = .read ∧ (v.file ino).size ≤ u.offset
  · rw [if_pos heof]
    exact returns_pure.mpr (answers_eof heof.1 heof.2)
  · rw [if_neg heof]
    have hlt : u.rw = .read → u.offset < (v.file ino).size := fun hrw =>
      Nat.lt_of_not_le fun hle => heof ⟨hrw, hle⟩
    have hextra : (if u.rw = .read then u.offset + u.resid - (v.file ino).size else 0) = 0 ∨
        (if u.rw = .read then u.offset + u.resid - (v.file ino).size else 0) < u.resid := by
      split_ifs with hrw
      · have := hlt hrw
        omega
      · exact .inl rfl
    rw [returns_kassert hextra]
    have hu' : Valid (cut (v.file ino).size u) :=
      ⟨(Nat.sub_le ..).trans hu.iov, lt_of_le_of_lt (Nat.sub_le ..) hu.lt⟩
    have hend' : (cut (v.file ino).size u).offset + (cut (v.file ino).size u).resid < 2 ^ 41 :=
      lt_of_le_of_lt (Nat.add_le_add_left (Nat.sub_le ..) _) hend
    refine ((returns_ioTransfer h hino hload hu' hlow).and
      (handled_ioTransfer h hino hload hu' hend' hlow)).bind ?_
    rintro (e | ⟨e, u'⟩) w ⟨hw, hd⟩
    · exact hd.elim
    obtain ⟨hw, hframe⟩ : Rewritten I ino v w ∧ _ := hw
    obtain ⟨hge, hframe⟩ := hframe hend'
    refine (handled_ioOut hw.physical (hw.touch.vnodes ▸ hload) _ _).bind ?_
    rintro (e' | u₂) w₂ hw₂
    · exact hw₂.elim
    obtain ⟨rfl, hbyte, hset⟩ := hw₂
    exact returns_pure.mpr (Handled.answers hu hlt hd hge hframe hbyte hset)

end Parts

end SfsFs

end Os161
