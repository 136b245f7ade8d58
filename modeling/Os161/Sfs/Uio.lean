import Mathlib.Algebra.BigOperators.Group.List.Basic
import Os161.Lib.Buffer
import Os161.Lib.Transition
import Os161.Machine.Word

set_option autoImplicit false

/-!
# Transfers

`uio.c`: a `struct uio` says between which memory and which positions of a file or device bytes are
to be moved, and keeps track of what is moved. The memory is the sequence of the bytes of all iovecs,
of which `pos` are behind.

* `uiomove`, `uiomovezeros`: the code.
* **`uiomove_ok`**: what a transfer within the limits does, whatever the iovecs are.
-/

namespace Os161

open Buffer

/-- `uio_rw`. -/
inductive UioRw
  | read
  | write
  deriving DecidableEq, Repr

/-- The errors of the file system. -/
inductive FsErr
  | efault
  | einval
  | eio
  | enospc
  | efbig
  | enoent
  | eexist
  | enametoolong
  | enotdir
  | eisdir
  | enomem
  | ebusy
  deriving DecidableEq, Repr

/-- The panics of the file system. -/
inductive FsPanic
  | outOfBuffers
  | devopEinval
  | invalidBlock
  | busedRange
  | markedFree
  | kassert
  | invalidSize
  | unallocated
  | invalidType
  | linkcountZero
  | cannotRecover
  | notInPool
  deriving DecidableEq, Repr

/-- `struct uio`: the lengths of the iovecs, the bytes of their memory, the first byte that has not
been moved and the first that cannot be accessed (for a transfer from or to a user), `uio_offset`,
`uio_resid` and `uio_rw`. -/
structure Uio where
  iov : List ℕ
  area : Buffer
  pos : ℕ
  user : Bool
  valid : ℕ
  offset : ℕ
  resid : ℕ
  rw : UioRw

namespace Uio

/-- One `memmove`, `copyin` or `copyout` of `n` bytes, of which those before `valid` arrive. -/
def copy (u : Uio) (n : ℕ) (ptr : Buffer) (k : ℕ) : Uio × Buffer :=
  match u.rw with
  | .read => ({ u with area := blit u.area u.pos n ptr k }, ptr)
  | .write => (u, blit ptr k n u.area u.pos)

/-- The bookkeeping for `n` bytes moved, apart from the iovec. -/
def advance (u : Uio) (n : ℕ) : Uio :=
  { u with pos := u.pos + n, offset := u.offset + n, resid := wsub u.resid n }

/-- `n` bytes can be accessed. -/
def Accessible (u : Uio) (n : ℕ) : Prop := u.user = false ∨ (0 < n → u.pos + n ≤ u.valid)

instance (u : Uio) (n : ℕ) : Decidable (u.Accessible n) := by unfold Accessible; infer_instance

end Uio

/-- The loop of `uiomove`, with the iovecs left: `n` bytes from or to `ptr + k`. -/
def uiomoveLoop (u : Uio) (k n : ℕ) (ptr : Buffer) :
    List ℕ → Except FsPanic (Option FsErr × Uio × Buffer)
  | [] => if n = 0 ∨ u.resid = 0 then .ok (none, { u with iov := [] }, ptr) else .error .outOfBuffers
  | len :: iov =>
    if n = 0 ∨ u.resid = 0 then .ok (none, { u with iov := len :: iov }, ptr)
    else
      let size := min len n
      if u.Accessible size then
        let (u', ptr') := u.copy size ptr k
        let u' := u'.advance size
        if n ≤ len ∨ u'.resid = 0 then .ok (none, { u' with iov := (len - size) :: iov }, ptr')
        else uiomoveLoop u' (k + size) (n - size) ptr' iov
      else
        let (u', ptr') := u.copy (u.valid - u.pos) ptr k
        .ok (some .efault, { u' with iov := len :: iov }, ptr')

/-- `uiomove(ptr + k, n, uio)`. -/
def uiomove (ptr : Buffer) (k n : ℕ) (u : Uio) : Except FsPanic (Option FsErr × Uio × Buffer) :=
  uiomoveLoop u k n ptr u.iov

/-- The loop of `uiomovezeros` over `m` pieces of 16 bytes, the last of which may be shorter. -/
def zerosLoop : (m n : ℕ) → Uio → Except FsPanic (Option FsErr × Uio)
  | 0, _, u => .ok (none, u)
  | m + 1, n, u => do
    let (e, u, _) ← uiomove (fun _ => 0) 0 (min 16 n) u
    if e.isSome then return (e, u) else zerosLoop m (n - min 16 n) u

/-- `uiomovezeros`. -/
def uiomovezeros (n : ℕ) (u : Uio) : Except FsPanic (Option FsErr × Uio) :=
  if u.rw = .read then zerosLoop ((n + 15) / 16) n u else .error .kassert

/-- **A transfer of `n` bytes is within the limits** of the uio. -/
structure Uio.Fits (u : Uio) (n : ℕ) : Prop where
  resid : n ≤ u.resid
  iov : n ≤ u.iov.sum
  lt : u.resid < wordSize
  accessible : u.Accessible n

/-- The uio after `n` bytes were moved. -/
structure Uio.Moved (u u' : Uio) (n : ℕ) : Prop where
  sum : u'.iov.sum + n = u.iov.sum
  pos : u'.pos = u.pos + n
  user : u'.user = u.user
  valid : u'.valid = u.valid
  offset : u'.offset = u.offset + n
  resid : u'.resid + n = u.resid
  rw : u'.rw = u.rw

section Lemmas

variable {u u' u'' : Uio} {ptr ptr' : Buffer} {n m k : ℕ}

theorem Uio.Moved.refl (u : Uio) : u.Moved u 0 := ⟨rfl, rfl, rfl, rfl, rfl, rfl, rfl⟩

theorem Uio.Moved.trans (h : u.Moved u' n) (h' : u'.Moved u'' m) : u.Moved u'' (n + m) where
  sum := by have := h.sum; have := h'.sum; omega
  pos := by rw [h'.pos, h.pos, Nat.add_assoc]
  user := h'.user.trans h.user
  valid := h'.valid.trans h.valid
  offset := by rw [h'.offset, h.offset, Nat.add_assoc]
  resid := by have := h.resid; have := h'.resid; omega
  rw := h'.rw.trans h.rw

/-- What is left fits when the whole did. -/
theorem Uio.Fits.rest (h : u.Fits (n + m)) (hm : u.Moved u' n) : u'.Fits m where
  resid := by have := h.resid; have := hm.resid; omega
  iov := by have := h.iov; have := hm.sum; omega
  lt := by have := h.lt; have := hm.resid; omega
  accessible := by
    have := h.accessible
    unfold Uio.Accessible at this ⊢
    rw [hm.user, hm.valid, hm.pos]
    exact this.imp id fun hv => by omega

theorem Uio.Fits.le (h : u.Fits n) (hm : m ≤ n) : u.Fits m where
  resid := hm.trans h.resid
  iov := hm.trans h.iov
  lt := h.lt
  accessible := h.accessible.imp id fun hv => by omega

/-- The memory and the kernel buffer after a transfer of `n` bytes. -/
def Uio.Copied (u u' : Uio) (ptr ptr' : Buffer) (k n : ℕ) : Prop :=
  match u.rw with
  | .read => u'.area = blit u.area u.pos n ptr k ∧ ptr' = ptr
  | .write => u'.area = u.area ∧ ptr' = blit ptr k n u.area u.pos

/-- One copy, with its bookkeeping. -/
theorem Uio.moved_copy {iov iov' : List ℕ} (hs : iov'.sum + n = iov.sum) (hr : n ≤ u.resid)
    (hlt : u.resid < wordSize) (ptr : Buffer) (k : ℕ) :
    ({ u with iov := iov } : Uio).Moved { (u.copy n ptr k).1.advance n with iov := iov' } n ∧
      u.Copied { (u.copy n ptr k).1.advance n with iov := iov' } ptr (u.copy n ptr k).2 k n := by
  have hsub : wsub u.resid n + n = u.resid := by rw [wsub_of_le hr hlt]; omega
  obtain ⟨iov₀, area, pos, user, valid, offset, resid, rw⟩ := u
  cases rw with
  | read => exact ⟨⟨hs, rfl, rfl, rfl, rfl, hsub, rfl⟩, rfl, rfl⟩
  | write => exact ⟨⟨hs, rfl, rfl, rfl, rfl, hsub, rfl⟩, rfl, rfl⟩

/-- Two copies, one behind the other, are one. -/
theorem Uio.Copied.trans {ptr'' : Buffer} (h : u.Copied u' ptr ptr' k n) (hp : u'.pos = u.pos + n)
    (hrw : u'.rw = u.rw) (h' : u'.Copied u'' ptr' ptr'' (k + n) m) :
    u.Copied u'' ptr ptr'' k (n + m) := by
  unfold Uio.Copied at *
  rw [hrw] at h'
  cases hr : u.rw with
  | read =>
    rw [hr] at h h'
    obtain ⟨ha, rfl⟩ := h
    rw [ha, hp, blit_blit] at h'
    exact h'
  | write =>
    rw [hr] at h h'
    obtain ⟨ha, rfl⟩ := h
    rw [ha, hp, blit_blit] at h'
    exact h'

theorem Uio.copied_zero {iov : List ℕ} : u.Copied { u with iov := iov } ptr ptr k 0 := by
  unfold Uio.Copied
  cases u.rw <;> simp

theorem uiomoveLoop_ok (iov : List ℕ) (hr : n ≤ u.resid) (hi : n ≤ iov.sum) (hlt : u.resid < wordSize)
    (ha : u.Accessible n) :
    ∃ u' ptr', uiomoveLoop u k n ptr iov = .ok (none, u', ptr') ∧
      ({ u with iov := iov } : Uio).Moved u' n ∧ u.Copied u' ptr ptr' k n := by
  induction iov generalizing u k n ptr with
  | nil =>
    obtain rfl : n = 0 := by simpa using hi
    exact ⟨_, _, if_pos (.inl rfl), .refl _, Uio.copied_zero⟩
  | cons len iov ih =>
    rw [uiomoveLoop]
    by_cases hn : n = 0
    · subst hn
      exact ⟨_, _, if_pos (.inl rfl), .refl _, Uio.copied_zero⟩
    have hsize : u.Accessible (min len n) := ha.imp id fun hv => by omega
    rw [if_neg (by omega)]
    simp only [if_pos hsize]
    by_cases hle : n ≤ len
    · rw [Nat.min_eq_right hle, if_pos (.inl hle)]
      have hs : ((len - n) :: iov).sum + n = (len :: iov).sum := by
        simp only [List.sum_cons]
        omega
      exact ⟨_, _, rfl, Uio.moved_copy hs hr hlt ptr k⟩
    · have hs : iov.sum + len = (len :: iov).sum := by
        rw [List.sum_cons, Nat.add_comm]
      rw [Nat.min_eq_left (by omega)]
      obtain ⟨hm, hc⟩ := Uio.moved_copy (u := u) hs (by omega) hlt ptr k
      have hres := hm.resid
      simp only at hres
      rw [if_neg (by omega)]
      have haccess : ((u.copy len ptr k).1.advance len).Accessible (n - len) := by
        have h₁ := hm.user
        have h₂ := hm.valid
        have h₃ := hm.pos
        simp only at h₁ h₂ h₃
        unfold Uio.Accessible at ha ⊢
        rw [h₁, h₂, h₃]
        exact ha.imp id fun hv => by omega
      obtain ⟨u'', ptr'', he, hm', hc'⟩ : ∃ u'' ptr'', uiomoveLoop
          ((u.copy len ptr k).1.advance len) (k + len) (n - len) (u.copy len ptr k).2 iov =
            .ok (none, u'', ptr'') ∧ _ ∧ _ :=
        ih (by omega) (by rw [List.sum_cons] at hi; omega) (by omega) haccess
      refine ⟨u'', ptr'', he, ?_, ?_⟩
      · have := hm.trans hm'
        rwa [Nat.add_sub_cancel' (by omega)] at this
      · have := hc.trans hm.pos hm.rw hc'
        rwa [Nat.add_sub_cancel' (by omega)] at this

/-- A transfer over a byte that cannot be accessed ends there. -/
theorem uiomoveLoop_fault (iov : List ℕ) (hr : n ≤ u.resid) (hi : n ≤ iov.sum)
    (hlt : u.resid < wordSize) (ha : ¬ u.Accessible n) :
    ∃ u' ptr', uiomoveLoop u k n ptr iov = .ok (some .efault, u', ptr') := by
  induction iov generalizing u k n ptr with
  | nil =>
    obtain rfl : n = 0 := by simpa using hi
    exact absurd (.inr fun h => absurd h (lt_irrefl 0)) ha
  | cons len iov ih =>
    obtain ⟨huser, hn, hv⟩ : u.user = true ∧ 0 < n ∧ u.valid < u.pos + n := by
      unfold Uio.Accessible at ha
      simpa using ha
    rw [uiomoveLoop, if_neg (by omega)]
    by_cases hsize : u.Accessible (min len n)
    · have hlen : len < n := by
        by_contra hle
        exact ha (by rwa [Nat.min_eq_right (by omega)] at hsize)
      have hs : iov.sum + len = (len :: iov).sum := by
        rw [List.sum_cons, Nat.add_comm]
      rw [Nat.min_eq_left (by omega)] at hsize ⊢
      obtain ⟨hm, -⟩ := Uio.moved_copy (u := u) hs (by omega) hlt ptr k
      have hres := hm.resid
      simp only at hres
      simp only [if_pos hsize]
      rw [if_neg (by omega)]
      refine ih (by omega) (by rw [List.sum_cons] at hi; omega) (by omega) fun hc => ha ?_
      have h₁ := hm.user
      have h₂ := hm.valid
      have h₃ := hm.pos
      simp only at h₁ h₂ h₃
      unfold Uio.Accessible at hc ⊢
      rw [h₁, h₂, h₃] at hc
      exact hc.imp id fun hv => by omega
    · simp only [if_neg hsize]
      exact ⟨_, _, rfl⟩

/-- **A transfer within the limits** moves its bytes. -/
theorem uiomove_ok (h : u.Fits n) (ptr : Buffer) (k : ℕ) :
    ∃ u' ptr', uiomove ptr k n u = .ok (none, u', ptr') ∧ u.Moved u' n ∧
      u.Copied u' ptr ptr' k n :=
  uiomoveLoop_ok u.iov h.resid h.iov h.lt h.accessible

theorem uiomove_fault (hr : n ≤ u.resid) (hi : n ≤ u.iov.sum) (hlt : u.resid < wordSize)
    (ha : ¬ u.Accessible n) (ptr : Buffer) (k : ℕ) :
    ∃ u' ptr', uiomove ptr k n u = .ok (some .efault, u', ptr') :=
  uiomoveLoop_fault u.iov hr hi hlt ha

/-- A transfer from the memory goes on in the same way whatever the kernel buffer holds. -/
theorem uiomoveLoop_write_congr (iov : List ℕ) (hrw : u.rw = .write) (ptr ptr' : Buffer) :
    (uiomoveLoop u k n ptr iov).map (fun r => (r.1, r.2.1)) =
      (uiomoveLoop u k n ptr' iov).map (fun r => (r.1, r.2.1)) := by
  induction iov generalizing u k n ptr ptr' with
  | nil =>
    rw [uiomoveLoop, uiomoveLoop]
    split_ifs <;> rfl
  | cons len iov ih =>
    have hcopy : ∀ (m : ℕ) (b : Buffer), u.copy m b k = (u, blit b k m u.area u.pos) := fun m b => by
      rw [Uio.copy, hrw]
    rw [uiomoveLoop, uiomoveLoop]
    simp only [hcopy]
    split_ifs
    · rfl
    · rfl
    · exact ih (u := u.advance (min len n)) hrw _ _
    · rfl

/-- The bytes of a transfer from the kernel to the memory. -/
theorem Uio.Copied.read (h : u.Copied u' ptr ptr' k n) (hrw : u.rw = .read) :
    u'.area = blit u.area u.pos n ptr k ∧ ptr' = ptr := by
  rw [Uio.Copied, hrw] at h
  exact h

/-- The bytes of a transfer from the memory to the kernel. -/
theorem Uio.Copied.write (h : u.Copied u' ptr ptr' k n) (hrw : u.rw = .write) :
    u'.area = u.area ∧ ptr' = blit ptr k n u.area u.pos := by
  rw [Uio.Copied, hrw] at h
  exact h

theorem zerosLoop_ok (hrw : u.rw = .read) (h : u.Fits n) (hn : n ≤ 16 * m) :
    ∃ u', zerosLoop m n u = .ok (none, u') ∧ u.Moved u' n ∧
      u'.area = blit u.area u.pos n (fun _ => 0) 0 := by
  induction m generalizing u n with
  | zero =>
    obtain rfl : n = 0 := by omega
    exact ⟨u, rfl, .refl u, blit_zero.symm⟩
  | succ m ih =>
    rw [zerosLoop]
    obtain ⟨u', ptr', he, hm, hc⟩ := uiomove_ok (h.le (m := min 16 n) (by omega)) (fun _ => 0) 0
    rw [he]
    have hsplit : min 16 n + (n - min 16 n) = n := by omega
    obtain ⟨u'', he', hm', ha'⟩ := ih (u := u') (n := n - min 16 n) (hm.rw.trans hrw)
      (Uio.Fits.rest (by rw [hsplit]; exact h) hm) (by omega)
    refine ⟨u'', he', by simpa only [hsplit] using hm.trans hm', ?_⟩
    rw [ha', (hc.read hrw).1, hm.pos]
    have hzeros : ∀ s : ℕ, blit (blit u.area u.pos (min 16 n) (fun _ => 0) 0) (u.pos + min 16 n)
        (n - min 16 n) (fun _ => 0) 0 = blit (blit u.area u.pos (min 16 n) (fun _ => 0) 0)
          (u.pos + min 16 n) (n - min 16 n) (fun _ => 0) s := fun s => rfl
    rw [hzeros (0 + min 16 n), blit_blit, hsplit]

/-- **`uiomovezeros`** clears bytes within the limits. -/
theorem uiomovezeros_ok (hrw : u.rw = .read) (h : u.Fits n) :
    ∃ u', uiomovezeros n u = .ok (none, u') ∧ u.Moved u' n ∧
      u'.area = blit u.area u.pos n (fun _ => 0) 0 := by
  rw [uiomovezeros, if_pos hrw]
  exact zerosLoop_ok hrw h (by omega)

end Lemmas

end Os161
