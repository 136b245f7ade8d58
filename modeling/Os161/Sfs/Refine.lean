import Os161.Sfs.Contents

set_option autoImplicit false

/-!
# Files as sparse arrays

The purpose of `sfs_io`: a file is a sparse array of bytes with a size.

* `SparseFile`: the array; `SparseFile.Step`, `SparseFile.Run`: how it answers requests.
* **`sfsRun_refines`**: as long as no whole block is beyond the positions that 32 bits can hold, a
  sequence of requests on a file is answered as by the array.
-/

namespace Os161

open Buffer Transition

/-- A sparse array of bytes, zero where nothing was written. -/
structure SparseFile where
  byte : Buffer
  size : ℕ

namespace SparseFile

/-- A file in which nothing was written. -/
def empty : SparseFile := ⟨fun _ => 0, 0⟩

/-- `n` bytes are written at `offset`. -/
def write (f : SparseFile) (offset n : ℕ) (data : Buffer) (pos : ℕ) : SparseFile where
  byte := blit f.byte offset n data pos
  size := if n = 0 then f.size else max f.size (offset + n)

/-- **How the array answers a request**: a read ends at the size, and a write may end early. -/
inductive Step (f : SparseFile) (u : Uio) : Option FsErr → Uio → SparseFile → Prop
  | read {u' : Uio} (hrw : u.rw = .read) (hm : u.Moved u' (min u.resid (f.size - u.offset)))
      (harea : u'.area = blit u.area u.pos (min u.resid (f.size - u.offset)) f.byte u.offset) :
      Step f u none u' f
  | write {e : Option FsErr} {u' : Uio} {n : ℕ} (hrw : u.rw = .write) (hn : n ≤ u.resid)
      (he : e = none ∧ n = u.resid ∨ e = some .enospc) (hm : u.Moved u' n)
      (harea : u'.area = u.area) : Step f u e u' (f.write u.offset n u.area u.pos)

/-- The answers to a sequence of requests. -/
inductive Run : SparseFile → List (Uio × Option FsErr × Uio) → SparseFile → Prop
  | nil (f : SparseFile) : Run f [] f
  | cons {f f' f'' : SparseFile} {u u' : Uio} {e : Option FsErr}
      {rest : List (Uio × Option FsErr × Uio)} (h : f.Step u e u' f') (hrest : Run f' rest f'') :
      Run f ((u, e, u') :: rest) f''

end SparseFile

/-- A sequence of requests on the file, with the answers. -/
def sfsRun : Sfs → List Uio → Except FsPanic (List (Uio × Option FsErr × Uio) × Sfs)
  | s, [] => .ok ([], s)
  | s, u :: us => do
    let (e, s, u') ← sfsIo s u
    let (rest, s) ← sfsRun s us
    return ((u, e, u') :: rest, s)

/-- **The file is the array.** -/
structure Refines (s : Sfs) (f : SparseFile) : Prop where
  sound : s.Sound
  byte : s.file = f.byte
  size : s.size = f.size

/-- The request has memory that can be accessed, and it is within the largest file. -/
structure Uio.InFile (u : Uio) : Prop where
  fits : u.Fits u.resid
  le_max : u.offset + u.resid ≤ sfsMaxblocks * sfsBlocksize

/-- The request without what the end of the file cuts off. -/
def Uio.cut (u : Uio) (s : Sfs) : Uio := { u with resid := u.resid - extraresid s u }

/-- No whole block that the request transfers is beyond the positions that 32 bits can hold. -/
def Low (s : Sfs) (u : Uio) : Prop :=
  ∀ s' u', ioLead s (u.cut s) = .ok (none, s', u') → LowBlocks (u'.resid / sfsBlocksize) s' u'

/-- The same for each request of a sequence. -/
def LowRun : Sfs → List Uio → Prop
  | _, [] => True
  | s, u :: us => Low s u ∧ ∀ e s' u', sfsIo s u = .ok (e, s', u') → LowRun s' us

section Lemmas

variable {s s' : Sfs} {f : SparseFile} {u u' : Uio} {n : ℕ}

theorem Sfs.Sound.setSize (h : s.Sound) (size : ℕ) : ({ s with size := size } : Sfs).Sound where
  works := h.works
  nblocks_le := h.nblocks_le
  zero_mark := h.zero_mark
  free_lt := h.free_lt
  inUse fb hne := ⟨(h.inUse fb hne).lt, (h.inUse fb hne).mark⟩
  indirect_inUse hne := ⟨(h.indirect_inUse hne).lt, (h.indirect_inUse hne).mark⟩
  inj := h.inj
  indirect_ne := h.indirect_ne

/-- The length of the file is adjusted after a write. -/
theorem ioOut_write (h : Refines s f) (hu : u.InFile) (hs : Served s s' u u' n)
    (hrw : u.rw = .write) (hn : n ≤ u.resid) :
    Refines (ioOut s' u' u.resid 0).1 (f.write u.offset n u.area u.pos) ∧
      (ioOut s' u' u.resid 0).2 = u' := by
  have hoff := hs.moved.offset
  have hres := hs.moved.resid
  have hmax := hu.le_max
  have hlt := hu.fits.lt
  have hbyte : s'.file = blit f.byte u.offset n u.area u.pos := by
    rw [(hs.write hrw).1, h.byte]
  have hsize : s'.size = f.size := hs.size.trans h.size
  have hword : u'.offset < wordSize := by
    unfold sfsMaxblocks sfsNdirect sfsNindirect sfsDbperidb sfsBlocksize at hmax
    unfold wordSize
    omega
  constructor
  · unfold ioOut
    simp only
    split_ifs with hgrow
    · refine ⟨hs.sound.setSize _, hbyte, ?_⟩
      simp only [SparseFile.write, Nat.mod_eq_of_lt hword]
      rw [if_neg (by omega)]
      omega
    · refine ⟨hs.sound, hbyte, ?_⟩
      simp only [SparseFile.write]
      split_ifs with hzero
      · exact hsize
      · have hle : ¬ s'.size < u'.offset := fun hlt => hgrow ⟨by omega, hs.moved.rw.trans hrw, hlt⟩
        omega
  · unfold ioOut
    rw [show wadd u'.resid 0 = u'.resid from wadd_of_lt (by omega)]

/-- A read behind what the end of the file cuts off. -/
theorem sfsIo_read (h : Refines s f) (hu : u.InFile) (hlow : Low s u) (hrw : u.rw = .read)
    (hoff : u.offset < s.size) :
    ∃ s' u', sfsIo s u = .ok (none, s', u') ∧ f.Step u none u' f ∧ Refines s' f := by
  have hextra : extraresid s u = u.offset + u.resid - s.size := if_pos hrw
  have hmin : u.resid - extraresid s u = min u.resid (f.size - u.offset) := by
    rw [hextra, ← h.size]
    omega
  have hcut : (u.cut s).resid = u.resid - extraresid s u := rfl
  have hle : (u.cut s).resid ≤ u.resid := hcut ▸ Nat.sub_le ..
  have hlt := hu.fits.lt
  have hfits : (u.cut s).Fits (u.cut s).resid :=
    ⟨le_refl _, hle.trans hu.fits.iov, by omega, (hu.fits.le hle).accessible⟩
  have hmax : (u.cut s).offset + (u.cut s).resid ≤ sfsMaxblocks * sfsBlocksize :=
    le_trans (Nat.add_le_add_left hle _) hu.le_max
  have hbegin : sfsIo s u = ioTransfer s (u.cut s) >>= fun (e, t, v) =>
      .ok (e, (ioOut t v u.resid (extraresid s u)).1, (ioOut t v u.resid (extraresid s u)).2) := by
    rw [sfsIo, if_neg (by omega), if_neg (by omega)]
    rfl
  rcases ioTransfer_ok h.sound hfits hmax hlow with ⟨s₁, u₁, he, hs⟩ | ⟨_, _, _, _, _, hw, _⟩
  · obtain ⟨hfile, harea⟩ := hs.read hrw
    have hread : u₁.rw = .read := hs.moved.rw.trans hrw
    have hout : ioOut s₁ u₁ u.resid (extraresid s u) =
        (s₁, { u₁ with resid := extraresid s u }) := by
      have hres := hs.moved.resid
      have hdone : wadd u₁.resid (extraresid s u) = extraresid s u := by
        rw [show u₁.resid = 0 by omega, wadd_of_lt (by omega), Nat.zero_add]
      rw [ioOut, if_neg (by rw [hread]; simp), hdone]
    refine ⟨s₁, { u₁ with resid := extraresid s u }, ?_, .read hrw ?_ ?_, hs.sound,
      hfile.trans h.byte, hs.size.trans h.size⟩
    · rw [hbegin, he]
      change Except.ok (none, (ioOut s₁ u₁ _ _).1, (ioOut s₁ u₁ _ _).2) = _
      rw [hout]
    · rw [← hmin]
      exact ⟨hs.moved.sum, hs.moved.pos, hs.moved.user, hs.moved.valid, hs.moved.offset, by
        simp only
        omega, hs.moved.rw⟩
    · rw [← hmin, ← h.byte]
      exact harea
  · rw [show (u.cut s).rw = u.rw from rfl, hrw] at hw
    cases hw

theorem sfsIo_write (h : Refines s f) (hu : u.InFile) (hlow : Low s u) (hrw : u.rw = .write) :
    ∃ e s' u' f', sfsIo s u = .ok (e, s', u') ∧ f.Step u e u' f' ∧ Refines s' f' := by
  have hextra : extraresid s u = 0 := if_neg (by rw [hrw]; decide)
  have hcut : u.cut s = u := by
    rw [Uio.cut, hextra, Nat.sub_zero]
  have hbegin : sfsIo s u = ioTransfer s u >>= fun (e, t, v) =>
      .ok (e, (ioOut t v u.resid 0).1, (ioOut t v u.resid 0).2) := by
    rw [sfsIo, hextra, if_neg (by rw [hrw]; simp), if_neg (by omega)]
    rfl
  rw [Low, hcut] at hlow
  rw [hbegin]
  rcases ioTransfer_ok h.sound hu.fits hu.le_max hlow with
    ⟨s₁, u₁, he, hs⟩ | ⟨n, hn, s₁, u₁, he, -, hs⟩
  · obtain ⟨hr, hout⟩ := ioOut_write h hu hs hrw (le_refl _)
    refine ⟨none, _, u₁, _, ?_, .write hrw (le_refl _) (.inl ⟨rfl, rfl⟩) hs.moved (hs.write hrw).2, hr⟩
    rw [he]
    change Except.ok (none, _, (ioOut s₁ u₁ u.resid 0).2) = _
    rw [hout]
  · obtain ⟨hr, hout⟩ := ioOut_write h hu hs hrw hn
    refine ⟨some .enospc, _, u₁, _, ?_, .write hrw hn (.inr rfl) hs.moved (hs.write hrw).2, hr⟩
    rw [he]
    change Except.ok (some FsErr.enospc, _, (ioOut s₁ u₁ u.resid 0).2) = _
    rw [hout]

/-- **One request** is answered as by the array. -/
theorem sfsIo_refines (h : Refines s f) (hu : u.InFile) (hlow : Low s u) :
    ∃ e s' u' f', sfsIo s u = .ok (e, s', u') ∧ f.Step u e u' f' ∧ Refines s' f' := by
  cases hrw : u.rw with
  | write => exact sfsIo_write h hu hlow hrw
  | read =>
    by_cases hoff : u.offset < s.size
    · obtain ⟨s', u', he, hstep, hr⟩ := sfsIo_read h hu hlow hrw hoff
      exact ⟨none, s', u', f, he, hstep, hr⟩
    · have hmin : min u.resid (f.size - u.offset) = 0 := by
        rw [← h.size]
        omega
      refine ⟨none, s, u, f, ?_, .read hrw ?_ ?_, h⟩
      · rw [sfsIo, if_pos ⟨hrw, by omega⟩]
      · rw [hmin]
        exact .refl u
      · rw [hmin, blit_zero]

/-- **A sequence of requests** is answered as by the array. -/
theorem sfsRun_refines (us : List Uio) (h : Refines s f) (hus : ∀ u ∈ us, u.InFile)
    (hlow : LowRun s us) :
    ∃ answers s' f', sfsRun s us = .ok (answers, s') ∧ f.Run answers f' ∧ Refines s' f' ∧
      answers.map (fun a => a.1) = us := by
  induction us generalizing s f with
  | nil => exact ⟨[], s, f, rfl, .nil f, h, rfl⟩
  | cons u us ih =>
    obtain ⟨e, s₁, u', f₁, he, hstep, hr⟩ := sfsIo_refines h (hus u (List.mem_cons_self ..)) hlow.1
    obtain ⟨rest, s₂, f₂, hrun, hrest, hr₂, hmap⟩ :=
      ih hr (fun v hv => hus v (List.mem_cons_of_mem u hv)) (hlow.2 e s₁ u' he)
    refine ⟨(u, e, u') :: rest, s₂, f₂, ?_, .cons hstep hrest, hr₂, ?_⟩
    · rw [sfsRun, he]
      change (sfsRun s₁ us >>= fun (rest, s) => .ok ((u, e, u') :: rest, s)) = _
      rw [hrun]
      rfl
    · rw [List.map_cons, hmap]

end Lemmas

/-- A volume whose last block `b` is block 0 of an empty file. -/
def lastBlock (b : ℕ) (hb : b + 1 < wordSize) : Sfs where
  dev := {
    nsect := b + 1
    nsect_lt := hb
    disk := fun _ _ => 0
    buf := fun _ => 0
    answer := fun _ => (.ok, fun _ => 0)
    log := []
    calls := 0 }
  nblocks := b + 1
  nbits := (b / 4096 + 1) * 4096
  freemap := fun _ => true
  direct := fun i => if i = 0 then b else 0
  indirect := 0
  size := 0
  idbuf := fun _ => 0
  iobuf := fun _ => 0

/-- A request of the kernel for `n` bytes at the beginning of the file. -/
def request (rw : UioRw) (n : ℕ) (data : UInt8) : Uio where
  iov := [n]
  area := fun _ => data
  pos := 0
  user := false
  valid := 0
  offset := 0
  resid := n
  rw := rw

section Examples

variable {b n : ℕ} {hb : b + 1 < wordSize} {rw : UioRw} {data : UInt8}

theorem lastBlock_blockOf (fb : ℕ) : (lastBlock b hb).blockOf fb = if fb = 0 then b else 0 := by
  by_cases hfb : fb < sfsNdirect
  · exact Sfs.blockOf_direct hfb
  · rw [Sfs.blockOf_hole hfb rfl, if_neg]
    rintro rfl
    exact hfb (by decide)

theorem lastBlock_refines : Refines (lastBlock b hb) .empty where
  sound := {
    works := fun _ => rfl
    nblocks_le := le_refl _
    zero_mark := rfl
    free_lt := fun _ _ h => by cases h
    inUse := fun fb _ => by
      refine ⟨?_, rfl⟩
      rw [lastBlock_blockOf]
      change _ < b + 1
      split_ifs <;> omega
    indirect_inUse := fun h => absurd rfl h
    inj := fun fb fb' hne heq => by
      rw [lastBlock_blockOf] at hne heq
      rw [lastBlock_blockOf] at heq
      split_ifs at * <;> omega
    indirect_ne := fun fb hne => hne }
  byte := by
    funext x
    change (lastBlock b hb).content _ _ = 0
    unfold Sfs.content
    split_ifs <;> rfl
  size := rfl

theorem request_inFile (hn : n ≤ 512) : (request rw n data).InFile where
  fits := ⟨le_refl _, le_refl _, lt_of_le_of_lt hn (by decide), .inl rfl⟩
  le_max := le_trans (le_of_eq (Nat.zero_add n)) (hn.trans (by decide))

/-- A request for less than a block transfers no whole block. -/
theorem low_request (s : Sfs) (hn : n < 512) : Low s (request rw n data) := by
  intro s' u' he
  obtain ⟨-, -, rfl⟩ : none = (none : Option FsErr) ∧ s = s' ∧ (request rw n data).cut s = u' := by
    simpa [ioLead, Uio.cut, request] using he
  have hle : ((request rw n data).cut s).resid ≤ n := Nat.sub_le ..
  rw [Nat.div_eq_of_lt (by unfold sfsBlocksize; omega)]
  trivial

end Examples

/-- A block of ones is written at the beginning of a file whose block 0 is block 2^23, and then the
first byte is read: it is still zero. -/
theorem not_refines_lastBlock : Refines (lastBlock (2 ^ 23) (by decide)) .empty ∧
    ¬ ∀ us : List Uio, (∀ u ∈ us, u.InFile) →
      ∃ answers s' f', sfsRun (lastBlock (2 ^ 23) (by decide)) us = .ok (answers, s') ∧
        SparseFile.empty.Run answers f' ∧ Refines s' f' ∧ answers.map (fun a => a.1) = us := by
  refine ⟨lastBlock_refines, fun hall => ?_⟩
  obtain ⟨answers, s', f', he, hrun, -, hmap⟩ := hall [request .write 512 1, request .read 1 0]
    (by
      intro u hu
      rcases List.mem_pair.mp hu with rfl | rfl <;> exact request_inFile (by decide))
  have hanswers : (match sfsRun (lastBlock (2 ^ 23) (by decide))
      [request .write 512 1, request .read 1 0] with
      | .ok r => r.1.map fun a => (a.2.1, a.2.2.area 0)
      | .error _ => []) = [(none, 1), (none, 0)] := by
    decide +kernel
  rw [he] at hanswers
  generalize hf : SparseFile.empty = f at hrun
  cases hrun with
  | nil => cases hmap
  | cons hwrite hrest =>
    obtain ⟨rfl, htail⟩ := List.cons.inj hmap
    cases hrest with
    | nil => cases htail
    | cons hread hrest =>
      obtain ⟨rfl, -⟩ := List.cons.inj htail
      simp only [List.map_cons, List.cons.injEq, Prod.mk.injEq] at hanswers
      obtain ⟨⟨rfl, -⟩, ⟨rfl, hzero⟩, -⟩ := hanswers
      cases hwrite with
      | read hrw => cases hrw
      | write hrw hn hfull =>
        obtain ⟨-, rfl⟩ := hfull.resolve_right (by simp)
        cases hread with
        | write hrw => cases hrw
        | read hrw hm harea =>
          rw [harea, ← hf] at hzero
          exact absurd hzero (by decide)

/-- The same requests on a file whose block 0 is block 5. -/
theorem sfsRun_refines_lastBlock :
    ∃ answers s' f', sfsRun (lastBlock 5 (by decide)) [request .write 512 1, request .read 1 0] =
      .ok (answers, s') ∧ SparseFile.empty.Run answers f' ∧ Refines s' f' ∧
      answers.map (fun a => a.1) = [request .write 512 1, request .read 1 0] := by
  have hin : ∀ u ∈ [request .write 512 1, request .read 1 0], u.InFile := by
    intro u hu
    rcases List.mem_pair.mp hu with rfl | rfl <;> exact request_inFile (by decide)
  have hlow : Low (lastBlock 5 (by decide)) (request .write 512 1) := by
    intro s' u' he
    obtain ⟨-, rfl, rfl⟩ : none = (none : Option FsErr) ∧ lastBlock 5 (by decide) = s' ∧
        (request .write 512 1).cut (lastBlock 5 (by decide)) = u' := by
      simpa [ioLead, Uio.cut, request] using he
    refine ⟨fun b s' hb => ?_, fun _ _ _ => trivial⟩
    have hbmap : sfsBmap (lastBlock 5 (by decide)) 0 true =
        .ok (.ok 5, lastBlock 5 (by decide)) := rfl
    obtain ⟨rfl, -⟩ : 5 = b ∧ lastBlock 5 (by decide) = s' := by
      simpa using hbmap.symm.trans hb
    decide
  exact sfsRun_refines _ lastBlock_refines hin
    ⟨hlow, fun _ s' _ _ => ⟨low_request s' (by decide), fun _ _ _ _ => trivial⟩⟩

end Os161
