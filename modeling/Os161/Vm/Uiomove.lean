import Os161.Sfs.Uio
import Os161.Vm.Copyinout

set_option autoImplicit false

/-!
# Transfers through iovecs

`uiomove` and `uiomovezeros` with the iovecs at their addresses, in the memory of the kernel and of the
user, and with the bytes that a `copyin` or `copyout` has moved before it fails. The loop compares `n`
with the length of the first iovec only, not with `uio_resid`.

* `VecUio.uiomove`, `VecUio.uiomovezeros`: the calls; `MoveState.moves` records the bytes that were moved.
* `cells`: the bytes of the buffers that are left, one after the other.
* `IovEnds`: `uio_resid` ends with an iovec; `UioCall.Capped`: no copy goes beyond `uio_resid`.
* **`uiomove_run`**: what every sequence of such calls moves, and where it leaves the uio.
-/

namespace Os161

open Transition

/-- `struct iovec`. -/
structure Iovec where
  base : ℕ
  len : ℕ
  deriving DecidableEq, Repr

/-- `uio_segflg`. -/
inductive UioSeg
  | userispace
  | userspace
  | sysspace
  deriving DecidableEq, Repr

/-- `struct uio`. -/
structure VecUio where
  iov : List Iovec
  offset : BitVec 64
  resid : ℕ
  segflg : UioSeg
  rw : UioRw
  space : Option ℕ
  deriving DecidableEq, Repr

/-- Why a transfer does not return: a panic, a `KASSERT`, or the uio has no iovec. -/
inductive UioStop
  | outOfBuffers
  | noIovec
  | unfinished
  | stop (s : Stop)
  deriving DecidableEq, Repr

/-- Memory, and the bytes that were moved so far: the address in a buffer of the uio and that in the
kernel. -/
structure MoveState where
  mem : CopyState
  moves : List (ℕ × ℕ)

/-- `n` bytes at `d` are those at `s` in `src`. -/
def moveBytes (dst : ℕ → BitVec 8) (d n : ℕ) (src : ℕ → BitVec 8) (s : ℕ) : ℕ → BitVec 8 :=
  fun x => if d ≤ x ∧ x < d + n then src (s + (x - d)) else dst x

namespace CopyState

/-- Memory with the kernel's from `ptr` on. -/
def view (s : CopyState) (ptr : ℕ) : CopyState := { s with kernel := fun i => s.kernel (ptr + i) }

/-- The kernel's memory from `ptr` on is put back. -/
def back (s s' : CopyState) (ptr : ℕ) : CopyState :=
  { s' with kernel := fun x => if ptr ≤ x then s'.kernel (x - ptr) else s.kernel x }

/-- `memmove(dst, src, n)`. -/
def memmove (s : CopyState) (dst src n : ℕ) : CopyState :=
  { s with kernel := moveBytes s.kernel dst n s.kernel src }

end CopyState

/-- The bytes at the addresses `l`, with those in the kernel. -/
def trace (addr : ℕ → ℕ) (l : List ℕ) : List (ℕ × ℕ) := l.zipIdx.map fun c => (c.1, addr c.2)

/-- A `copyout` or `copyin`. -/
def copyUser (acc : UserAccess) (base size : ℕ) (s : CopyState) :
    UioRw → Except Stop (Except CopyErr Unit × CopyState)
  | .read => copyout acc base size s
  | .write => copyin acc base size s

/-- One copy of the loop. Of the addresses that a copy which fails has accessed the last one has
faulted. -/
def copyPiece (acc : UserAccess) (u : VecUio) (base size ptr : ℕ) (m : MoveState) :
    Except Stop (Option CopyErr × MoveState) :=
  match u.segflg with
  | .sysspace => .ok (none,
      { mem := match u.rw with
          | .read => m.mem.memmove base ptr size
          | .write => m.mem.memmove ptr base size
        moves := m.moves ++ trace (ptr + ·) (List.range' base size) })
  | _ => do
    let (result, s) ← copyUser acc base size (m.mem.view ptr) u.rw
    let touched := s.touched.drop m.mem.touched.length
    match result with
    | .ok _ => return (none,
        ⟨m.mem.back s ptr, m.moves ++ trace (ptr + ·) (List.range' base touched.length)⟩)
    | .error e => return (some e,
        ⟨m.mem.back s ptr, m.moves ++ trace (ptr + ·) (List.range' base (touched.length - 1))⟩)

/-- The bookkeeping for `size` bytes of the first iovec. -/
def VecUio.advance (u : VecUio) (v : Iovec) (rest : List Iovec) (size : ℕ) : VecUio :=
  { u with
    iov := ⟨v.base + size, v.len - size⟩ :: rest
    resid := wsub u.resid size
    offset := u.offset + BitVec.ofNat 64 size }

namespace VecUio

/-- The loop of `uiomove`, for up to `k` rounds. -/
def uiomoveLoop (acc : UserAccess) : (k n ptr : ℕ) → VecUio → MoveState →
    Except UioStop (Option CopyErr × VecUio × MoveState)
  | 0, n, _, u, m => if n = 0 ∨ u.resid = 0 then .ok (none, u, m) else .error .unfinished
  | k + 1, n, ptr, u, m =>
    if n = 0 ∨ u.resid = 0 then .ok (none, u, m)
    else
      match u.iov with
      | [] => .error .noIovec
      | v :: rest =>
        let size := min v.len n
        if size = 0 then
          -- the next iovec, if there is one
          if rest.length = 0 then .error .outOfBuffers
          else uiomoveLoop acc k n ptr { u with iov := rest } m
        else
          match copyPiece acc u v.base size ptr m with
          | .error s => .error (.stop s)
          | .ok (some e, m) => .ok (some e, u, m)
          | .ok (none, m) => uiomoveLoop acc k (n - size) (ptr + size) (u.advance v rest size) m

/-- The assertions on `uio_space`, in the address space `curas`. -/
def SpaceOk (u : VecUio) (curas : Option ℕ) : Prop :=
  u.space = if u.segflg = .sysspace then none else curas

instance (u : VecUio) (curas : Option ℕ) : Decidable (u.SpaceOk curas) := by
  unfold SpaceOk
  infer_instance

/-- `uiomove`, in the address space `curas`. -/
def uiomove (curas : Option ℕ) (acc : UserAccess) (ptr n : ℕ) (u : VecUio) (m : MoveState) :
    Except UioStop (Option CopyErr × VecUio × MoveState) :=
  if u.SpaceOk curas then uiomoveLoop acc (n + u.iov.length) n ptr u m
  else .error (.stop (.panic .kassert))

/-- The loop of `uiomovezeros` over `k` pieces of 16 bytes, the last of which may be shorter; `zeros` is
the address of its array. -/
def zerosLoop (curas : Option ℕ) (acc : UserAccess) (zeros : ℕ) : (k n : ℕ) → VecUio → MoveState →
    Except UioStop (Option CopyErr × VecUio × MoveState)
  | 0, _, u, m => .ok (none, u, m)
  | k + 1, n, u, m => do
    let (result, u, m) ← uiomove curas acc zeros (min 16 n) u m
    if result.isSome then return (result, u, m)
    else zerosLoop curas acc zeros k (n - min 16 n) u m

/-- `uiomovezeros`. -/
def uiomovezeros (curas : Option ℕ) (acc : UserAccess) (zeros n : ℕ) (u : VecUio)
    (m : MoveState) : Except UioStop (Option CopyErr × VecUio × MoveState) :=
  if u.rw = .read then zerosLoop curas acc zeros ((n + 15) / 16) n u m
  else .error (.stop (.panic .kassert))

end VecUio

/-! ## The bytes of the buffers -/

/-- **The bytes that are left**, one after the other. -/
def cells (iov : List Iovec) : List ℕ := iov.flatMap fun v => List.range' v.base v.len

/-- The total of the `iov_len` fields. -/
def total (iov : List Iovec) : ℕ := (iov.map Iovec.len).sum

/-- Some iovec ends behind `r` bytes. -/
def IovEnds (iov : List Iovec) (r : ℕ) : Prop := ∃ j, total (iov.take j) = r

section Cells

variable {iov rest : List Iovec} {v : Iovec} {r n : ℕ}

theorem cells_cons : cells (v :: rest) = List.range' v.base v.len ++ cells rest := rfl

theorem total_cons : total (v :: rest) = v.len + total rest := rfl

theorem length_cells (iov : List Iovec) : (cells iov).length = total iov := by
  induction iov with
  | nil => rfl
  | cons v rest ih => rw [cells_cons, List.length_append, List.length_range', ih, total_cons]

/-- Bytes of the first iovec are taken. -/
theorem cells_cut (h : n ≤ v.len) :
    cells (v :: rest) = List.range' v.base n ++ cells (⟨v.base + n, v.len - n⟩ :: rest) := by
  rw [cells_cons, cells_cons, ← List.append_assoc, List.range'_append_1, Nat.add_sub_cancel' h]

theorem ends_zero (iov : List Iovec) : IovEnds iov 0 := ⟨0, rfl⟩

/-- `uio_resid` is the total, as `uio.h` says. -/
theorem ends_total (iov : List Iovec) : IovEnds iov (total iov) :=
  ⟨iov.length, congrArg total List.take_length⟩

/-- An end behind some bytes is one behind the first iovec. -/
theorem IovEnds.cons (h : IovEnds (v :: rest) r) (hr : 0 < r) : v.len ≤ r ∧ IovEnds rest (r - v.len) := by
  obtain ⟨j, hj⟩ := h
  cases j with
  | zero => exact absurd hj (Nat.ne_of_lt hr)
  | succ j =>
    rw [List.take_succ_cons, total_cons] at hj
    exact ⟨by omega, j, by omega⟩

theorem IovEnds.of_rest (h : IovEnds rest r) : IovEnds (v :: rest) (v.len + r) := by
  obtain ⟨j, hj⟩ := h
  refine ⟨j + 1, ?_⟩
  rw [List.take_succ_cons, total_cons, hj]

theorem trace_append (addr : ℕ → ℕ) (l l' : List ℕ) :
    trace addr (l ++ l') = trace addr l ++ trace (fun i => addr (l.length + i)) l' := by
  unfold trace
  rw [List.zipIdx_append, List.map_append, Nat.zero_add]
  congr 1
  rw [List.zipIdx_eq_map_add, List.map_map]
  refine List.map_congr_left fun c _ => ?_
  simp only [Function.comp, Nat.add_comm]

end Cells

/-! ## One copy -/

/-- The memory of the user and of the kernel. -/
def CopyState.bytes (s : CopyState) : (ℕ → BitVec 8) × (ℕ → BitVec 8) := (s.user, s.kernel)

/-- A byte is moved. -/
def moveByte (segflg : UioSeg) (rw : UioRw) (s : (ℕ → BitVec 8) × (ℕ → BitVec 8)) (c : ℕ × ℕ) :
    (ℕ → BitVec 8) × (ℕ → BitVec 8) :=
  match segflg, rw with
  | .sysspace, .read => (s.1, Function.update s.2 c.1 (s.2 c.2))
  | .sysspace, .write => (s.1, Function.update s.2 c.2 (s.2 c.1))
  | _, .read => (Function.update s.1 c.1 (s.2 c.2), s.2)
  | _, .write => (s.1, Function.update s.2 c.2 (s.1 c.1))

/-- **The bytes are moved**, one after the other. -/
def replay (segflg : UioSeg) (rw : UioRw) (s : (ℕ → BitVec 8) × (ℕ → BitVec 8))
    (l : List (ℕ × ℕ)) : (ℕ → BitVec 8) × (ℕ → BitVec 8) := l.foldl (moveByte segflg rw) s

section Piece

variable {segflg : UioSeg} {rw : UioRw} {s : (ℕ → BitVec 8) × (ℕ → BitVec 8)} {base ptr n : ℕ}

theorem moveBytes_zero (dst src : ℕ → BitVec 8) (d k : ℕ) : moveBytes dst d 0 src k = dst := by
  funext x
  exact if_neg (by omega)

/-- One byte more. -/
theorem moveBytes_succ (dst src : ℕ → BitVec 8) (d n k : ℕ) :
    Function.update (moveBytes dst d n src k) (d + n) (src (k + n)) =
      moveBytes dst d (n + 1) src k := by
  funext x
  unfold moveBytes
  by_cases hx : x = d + n
  · rw [hx, Function.update_self, if_pos (by omega), Nat.add_sub_cancel_left]
  · rw [Function.update_of_ne hx]
    exact if_congr (by omega) rfl rfl

theorem trace_succ (base ptr n : ℕ) : trace (ptr + ·) (List.range' base (n + 1)) =
    trace (ptr + ·) (List.range' base n) ++ [(base + n, ptr + n)] := by
  rw [List.range'_1_concat, trace_append, List.length_range']
  rfl

theorem replay_succ : replay segflg rw s (trace (ptr + ·) (List.range' base (n + 1))) =
    moveByte segflg rw (replay segflg rw s (trace (ptr + ·) (List.range' base n)))
      (base + n, ptr + n) := by
  unfold replay
  rw [trace_succ, List.foldl_append]
  rfl

theorem replay_append (l l' : List (ℕ × ℕ)) :
    replay segflg rw s (l ++ l') = replay segflg rw (replay segflg rw s l) l' := List.foldl_append

/-- A copy to the user. -/
theorem replay_copyout (hseg : segflg ≠ .sysspace) (n : ℕ) :
    replay segflg .read s (trace (ptr + ·) (List.range' base n)) =
      (moveBytes s.1 base n s.2 ptr, s.2) := by
  induction n with
  | zero => rw [moveBytes_zero]; rfl
  | succ n ih =>
    rw [replay_succ, ih, ← moveBytes_succ]
    cases segflg with
    | userispace => rfl
    | userspace => rfl
    | sysspace => exact absurd rfl hseg

/-- A copy from the user. -/
theorem replay_copyin (hseg : segflg ≠ .sysspace) (n : ℕ) :
    replay segflg .write s (trace (ptr + ·) (List.range' base n)) =
      (s.1, moveBytes s.2 ptr n s.1 base) := by
  induction n with
  | zero => rw [moveBytes_zero]; rfl
  | succ n ih =>
    rw [replay_succ, ih, ← moveBytes_succ]
    cases segflg with
    | userispace => rfl
    | userspace => rfl
    | sysspace => exact absurd rfl hseg

/-- A copy to a buffer in the kernel that is apart from the other one. -/
theorem replay_memmove_read (n : ℕ) (h : ∀ i < n, ∀ j < n, base + i ≠ ptr + j) :
    replay .sysspace .read s (trace (ptr + ·) (List.range' base n)) =
      (s.1, moveBytes s.2 base n s.2 ptr) := by
  induction n with
  | zero => rw [moveBytes_zero]; rfl
  | succ n ih =>
    rw [replay_succ, ih fun i hi j hj => h i (by omega) j (by omega), ← moveBytes_succ]
    have hsrc : moveBytes s.2 base n s.2 ptr (ptr + n) = s.2 (ptr + n) := if_neg fun hx =>
      h (ptr + n - base) (by omega) n (by omega) (by omega)
    change (s.1, Function.update (moveBytes s.2 base n s.2 ptr) (base + n)
      (moveBytes s.2 base n s.2 ptr (ptr + n))) = _
    rw [hsrc]

/-- A copy from a buffer in the kernel that is apart from the other one. -/
theorem replay_memmove_write (n : ℕ) (h : ∀ i < n, ∀ j < n, base + i ≠ ptr + j) :
    replay .sysspace .write s (trace (ptr + ·) (List.range' base n)) =
      (s.1, moveBytes s.2 ptr n s.2 base) := by
  induction n with
  | zero => rw [moveBytes_zero]; rfl
  | succ n ih =>
    rw [replay_succ, ih fun i hi j hj => h i (by omega) j (by omega), ← moveBytes_succ]
    have hsrc : moveBytes s.2 ptr n s.2 base (base + n) = s.2 (base + n) := if_neg fun hx =>
      h n (by omega) (base + n - ptr) (by omega) (by omega)
    change (s.1, Function.update (moveBytes s.2 ptr n s.2 base) (ptr + n)
      (moveBytes s.2 ptr n s.2 base (base + n))) = _
    rw [hsrc]

/-- The direction of a copy. -/
def UioRw.dir : UioRw → CopyDir
  | .read => .toUser
  | .write => .toKernel

theorem copyUser_eq (acc : UserAccess) (base size : ℕ) (s : CopyState) (rw : UioRw) :
    copyUser acc base size s rw = copyBlock rw.dir acc base size s := by
  cases rw <;> rfl

/-- The bytes after the first `n` have been copied. -/
theorem bytes_after (hseg : segflg ≠ .sysspace) (c : CopyState) (n : ℕ) :
    (c.back ((c.view ptr).after rw.dir base n) ptr).bytes =
      replay segflg rw c.bytes (trace (ptr + ·) (List.range' base n)) := by
  cases rw with
  | read =>
    rw [replay_copyout hseg]
    refine Prod.ext rfl (funext fun x => ?_)
    change (if ptr ≤ x then c.kernel (ptr + (x - ptr)) else c.kernel x) = c.kernel x
    split_ifs with hx
    · rw [Nat.add_sub_cancel' hx]
    · rfl
  | write =>
    rw [replay_copyin hseg]
    refine Prod.ext rfl (funext fun x => ?_)
    change (if ptr ≤ x then (if x - ptr < n then c.user (base + (x - ptr))
      else c.kernel (ptr + (x - ptr))) else c.kernel x) = moveBytes c.kernel ptr n c.user base x
    unfold moveBytes
    by_cases hx : ptr ≤ x
    · rw [if_pos hx, Nat.add_sub_cancel' hx]
      exact if_congr (by omega) rfl rfl
    · rw [if_neg hx, if_neg fun h => hx h.1]

/-- **A copy from or to the user** moves all its bytes, or those before an address that faults, and
none of them when they are not all in user space. -/
theorem copyUser_cases (acc : UserAccess) (c : CopyState) (hseg : segflg ≠ .sysspace)
    {size : ℕ} (h₁ : 1 ≤ size) (hlt : size < wordSize) :
    ∃ r s' k, copyUser acc base size (c.view ptr) rw = .ok (r, s') ∧
      (c.back s' ptr).bytes =
        replay segflg rw c.bytes (trace (ptr + ·) (List.range' base k)) ∧
      ((∃ x, r = .ok x) ∧ k = size ∧ (s'.touched.drop c.touched.length).length = k ∨
        (∃ e, r = .error e) ∧ k < size ∧ (s'.touched.drop c.touched.length).length - 1 = k) := by
  have htouched : ∀ n, (((c.view ptr).after rw.dir base n).touched.drop c.touched.length).length =
      n := fun n => by
    rw [CopyState.after_touched]
    change ((c.touched ++ (List.range n).map (base + ·)).drop c.touched.length).length = n
    rw [List.drop_left, List.length_map, List.length_range]
  rw [copyUser_eq]
  by_cases htop : base + size ≤ userspaceTop
  · cases hf : Loop.firstIdx (fun i => !acc.allows rw.dir (base + i)) 0 size with
    | none =>
      have hall : ∀ i < size, acc.allows rw.dir (base + i) = true := fun i hi => by
        simpa using Loop.firstIdx_eq_none.mp hf i (Nat.zero_le _) (by omega)
      exact ⟨_, _, size, copyBlock_all h₁ htop hall, bytes_after hseg c size,
        .inl ⟨⟨_, rfl⟩, rfl, htouched size⟩⟩
    | some k =>
      obtain ⟨-, hk, hfault, hlow⟩ := Loop.firstIdx_eq_some.mp hf
      refine ⟨_, _, k, copyBlock_fault h₁ htop (by omega) (by simpa using hfault) fun i hi => ?_,
        bytes_after hseg c k, .inr ⟨⟨_, rfl⟩, by omega, ?_⟩⟩
      · simpa using hlow i (Nat.zero_le _) hi
      · change ((((c.view ptr).after rw.dir base k).touched ++ [base + k]).drop
          c.touched.length).length - 1 = k
        rw [CopyState.after_touched]
        change ((c.touched ++ (List.range k).map (base + ·) ++ [base + k]).drop
          c.touched.length).length - 1 = k
        rw [List.append_assoc, List.drop_left, List.length_append, List.length_map,
          List.length_range]
        rfl
  · have hout : copyBlock rw.dir acc base size (c.view ptr) = .ok (.error .efault, c.view ptr) := by
      by_cases hp : base < 2 ^ 32
      · exact copyBlock_outside hp h₁ hlt (by omega)
      · have hcheck : Copyinout.copycheck base size = .error .efault := by
          refine if_pos (Nat.lt_of_lt_of_le ?_ (Nat.le_of_not_lt hp))
          exact Nat.mod_lt _ (by decide)
        rw [copyBlock, hcheck]
        rfl
    refine ⟨_, _, 0, hout, ?_, .inr ⟨⟨_, rfl⟩, h₁, ?_⟩⟩
    · rw [← bytes_after hseg c 0, CopyState.after_zero]
    · change (c.touched.drop c.touched.length).length - 1 = 0
      rw [List.drop_length]
      rfl

/-- The buffers in the kernel are apart. -/
def VecUio.Apart (u : VecUio) (l : List ℕ) (addr : ℕ → ℕ) (n : ℕ) : Prop :=
  u.segflg = .sysspace → ∀ a ∈ l, ∀ i < n, a ≠ addr i

/-- **One copy** moves all its bytes, or fails after some of them. -/
theorem copyPiece_cases (acc : UserAccess) (u : VecUio) (base ptr : ℕ) (m : MoveState) {size : ℕ}
    (h₁ : 1 ≤ size) (hlt : size < wordSize) :
    ∃ e m' k, copyPiece acc u base size ptr m = .ok (e, m') ∧
      m'.moves = m.moves ++ trace (ptr + ·) (List.range' base k) ∧
      (e = none ∧ k = size ∨ (∃ x, e = some x) ∧ k < size) ∧
      (u.Apart (List.range' base size) (ptr + ·) size → m'.mem.bytes =
        replay u.segflg u.rw m.mem.bytes (trace (ptr + ·) (List.range' base k))) := by
  by_cases hseg : u.segflg = .sysspace
  · unfold copyPiece
    rw [hseg]
    refine ⟨_, _, size, rfl, rfl, .inl ⟨rfl, rfl⟩, fun hapart => ?_⟩
    have hne : ∀ i < size, ∀ j < size, base + i ≠ ptr + j := fun i hi j hj =>
      hapart hseg (base + i) (List.mem_range'_1.mpr ⟨by omega, by omega⟩) j hj
    cases u.rw with
    | read => rw [replay_memmove_read size hne]; rfl
    | write => rw [replay_memmove_write size hne]; rfl
  · obtain ⟨r, s', k, hr, hbytes, hk⟩ := @copyUser_cases u.segflg u.rw base ptr acc m.mem hseg size
      h₁ hlt
    have heq : copyPiece acc u base size ptr m =
        (copyUser acc base size (m.mem.view ptr) u.rw >>= fun x => match x.1 with
          | .ok _ => .ok (none, ⟨m.mem.back x.2 ptr, m.moves ++ trace (ptr + ·)
              (List.range' base (x.2.touched.drop m.mem.touched.length).length)⟩)
          | .error e => .ok (some e, ⟨m.mem.back x.2 ptr, m.moves ++ trace (ptr + ·)
              (List.range' base ((x.2.touched.drop m.mem.touched.length).length - 1))⟩)) := by
      unfold copyPiece
      cases hs : u.segflg with
      | sysspace => exact absurd hs hseg
      | userspace => rfl
      | userispace => rfl
    rw [heq, hr]
    rcases hk with ⟨⟨x, rfl⟩, hsize, hlen⟩ | ⟨⟨e, rfl⟩, hlt', hlen⟩
    · refine ⟨none, ⟨m.mem.back s' ptr, m.moves ++ trace (ptr + ·) (List.range' base k)⟩, k, ?_, rfl,
        .inl ⟨rfl, hsize⟩, fun _ => hbytes⟩
      rw [← hlen]
      rfl
    · refine ⟨some e, ⟨m.mem.back s' ptr, m.moves ++ trace (ptr + ·) (List.range' base k)⟩, k, ?_,
        rfl, .inr ⟨⟨e, rfl⟩, hlt'⟩, fun _ => hbytes⟩
      rw [← hlen]
      rfl

end Piece

/-! ## The loop -/

/-- **The cursor** is `t` bytes further. -/
structure VecUio.Advanced (u u' : VecUio) (t : ℕ) : Prop where
  cells : Os161.cells u'.iov = (Os161.cells u.iov).drop t
  resid : u'.resid + t = u.resid
  offset : u'.offset = u.offset + BitVec.ofNat 64 t
  segflg : u'.segflg = u.segflg
  rw : u'.rw = u.rw
  space : u'.space = u.space

/-- **What a call does** that is to move `n` bytes from or to the kernel addresses `addr 0`, `addr 1`, and
so on: the next bytes are moved, as many as there are up to `uio_resid`, and the cursor is behind
them. When a copy fails, the cursor is behind the `t` bytes of the copies that were completed, and
`p` bytes of the first iovec that is left were moved, too. -/
structure UioTransfer (addr : ℕ → ℕ) (n t p : ℕ) (u u' : VecUio) (m m' : MoveState)
    (e : Option CopyErr) : Prop where
  advanced : u.Advanced u' t
  moves : m'.moves = m.moves ++ trace addr ((cells u.iov).take (t + p))
  ok : e = none → t = min n u.resid ∧ p = 0
  failed : e ≠ none → t + p < min n u.resid ∧ ∃ v rest, u'.iov = v :: rest ∧ p < v.len
  bytes : u.Apart (cells u.iov) addr (min n u.resid) →
    m'.mem.bytes = replay u.segflg u.rw m.mem.bytes (trace addr ((cells u.iov).take (t + p)))

section Loop

variable {u u₁ u' : VecUio} {m m₁ m' : MoveState} {e : Option CopyErr} {addr addr' : ℕ → ℕ}
  {n n₁ n₂ t t₁ t₂ p k ptr : ℕ} {acc : UserAccess}

theorem VecUio.Advanced.refl (u : VecUio) : u.Advanced u 0 :=
  ⟨rfl, rfl, (BitVec.add_zero _).symm, rfl, rfl, rfl⟩

theorem VecUio.Advanced.trans (h : u.Advanced u₁ t₁) (h' : u₁.Advanced u' t₂) :
    u.Advanced u' (t₁ + t₂) where
  cells := by rw [h'.cells, h.cells, List.drop_drop]
  resid := by have := h.resid; have := h'.resid; omega
  offset := by rw [h'.offset, h.offset, BitVec.ofNat_add, BitVec.add_assoc]
  segflg := h'.segflg.trans h.segflg
  rw := h'.rw.trans h.rw
  space := h'.space.trans h.space

/-- Nothing is moved. -/
theorem UioTransfer.zero (hmin : min n u.resid = 0) : UioTransfer addr n 0 0 u u m m none where
  advanced := .refl u
  moves := (List.append_nil _).symm
  ok _ := ⟨hmin.symm, rfl⟩
  failed h := absurd rfl h
  bytes _ := rfl

theorem trace_congr (l : List ℕ) (h : ∀ i < l.length, addr i = addr' i) :
    trace addr l = trace addr' l := by
  unfold trace
  refine List.map_congr_left fun c hc => ?_
  rw [h c.2 (List.mem_zipIdx' hc).1]

theorem UioTransfer.le (h : UioTransfer addr n t p u u' m m' e) : t + p ≤ min n u.resid := by
  cases e with
  | none =>
    obtain ⟨ht, hp⟩ := h.ok rfl
    omega
  | some x => exact Nat.le_of_lt (h.failed (by rintro ⟨⟩)).1

/-- Only the addresses of the bytes that are moved matter. -/
theorem UioTransfer.congr (h : UioTransfer addr n t p u u' m m' e)
    (haddr : ∀ i < min n u.resid, addr i = addr' i) : UioTransfer addr' n t p u u' m m' e := by
  have htrace : trace addr ((cells u.iov).take (t + p)) =
      trace addr' ((cells u.iov).take (t + p)) := by
    refine trace_congr _ fun i hi => haddr i ?_
    have := h.le
    rw [List.length_take] at hi
    omega
  refine ⟨h.advanced, by rw [h.moves, htrace], h.ok, h.failed, fun hapart => ?_⟩
  rw [← htrace]
  exact h.bytes fun hseg a ha i hi => by rw [haddr i hi]; exact hapart hseg a ha i hi

/-- **Two transfers**, one behind the other. -/
theorem UioTransfer.trans (h : UioTransfer addr n₁ t₁ 0 u u₁ m m₁ none)
    (h' : UioTransfer (fun i => addr (t₁ + i)) n₂ t₂ p u₁ u' m₁ m' e)
    (hlen : t₁ ≤ total u.iov) (hmin : t₁ + min n₂ u₁.resid = min n u.resid) :
    UioTransfer addr n (t₁ + t₂) p u u' m m' e := by
  have htrace : trace addr ((cells u.iov).take (t₁ + t₂ + p)) =
      trace addr ((cells u.iov).take (t₁ + 0)) ++
        trace (fun i => addr (t₁ + i)) ((cells u₁.iov).take (t₂ + p)) := by
    have hlen' : ((cells u.iov).take t₁).length = t₁ := by
      rw [List.length_take, length_cells]
      omega
    rw [h.advanced.cells, Nat.add_assoc, List.take_add, trace_append, hlen', Nat.add_zero]
  refine ⟨h.advanced.trans h'.advanced, ?_, fun he => ?_, fun he => ?_, fun hapart => ?_⟩
  · rw [h'.moves, h.moves, htrace, List.append_assoc]
  · obtain ⟨ht, hp⟩ := h'.ok he
    exact ⟨by omega, hp⟩
  · obtain ⟨hlt, hhead⟩ := h'.failed he
    exact ⟨by omega, hhead⟩
  · have hmin₁ : min n₁ u.resid ≤ min n u.resid := by
      have := (h.ok rfl).1
      omega
    have hbytes := h'.bytes fun hseg a ha i hi => by
      rw [h.advanced.cells] at ha
      exact hapart (h.advanced.segflg ▸ hseg) a (List.mem_of_mem_drop ha) (t₁ + i) (by omega)
    rw [hbytes, htrace, replay_append, h.advanced.segflg, h.advanced.rw,
      h.bytes fun hseg a ha i hi => hapart hseg a ha i (Nat.lt_of_lt_of_le hi hmin₁)]

/-- An empty iovec is skipped. -/
theorem UioTransfer.skip {v : Iovec} {rest : List Iovec} (hiov : u.iov = v :: rest) (hv : v.len = 0)
    (h : UioTransfer addr n t p { u with iov := rest } u' m m' e) :
    UioTransfer addr n t p u u' m m' e := by
  have hcells : cells u.iov = cells rest := by
    rw [hiov, cells_cons, hv]
    rfl
  have ha := h.advanced
  refine ⟨⟨?_, ha.resid, ha.offset, ha.segflg, ha.rw, ha.space⟩, ?_, h.ok, h.failed, ?_⟩
  · rw [hcells]
    exact ha.cells
  · rw [hcells]
    exact h.moves
  · rw [hcells]
    exact h.bytes

/-- **A copy of the loop** that is completed. -/
theorem UioTransfer.piece {v : Iovec} {rest : List Iovec} {size : ℕ} (hiov : u.iov = v :: rest)
    (hv : size ≤ v.len) (hres : size ≤ u.resid) (hlt : u.resid < wordSize)
    (hmoves : m'.moves = m.moves ++ trace (ptr + ·) (List.range' v.base size))
    (hbytes : u.Apart (List.range' v.base size) (ptr + ·) size → m'.mem.bytes =
      replay u.segflg u.rw m.mem.bytes (trace (ptr + ·) (List.range' v.base size))) :
    UioTransfer (ptr + ·) size size 0 u (u.advance v rest size) m m' none := by
  have hcut : cells (v :: rest) = List.range' v.base size ++ _ := cells_cut hv
  have htake : (cells u.iov).take (size + 0) = List.range' v.base size := by
    rw [hiov, hcut, List.take_left' (by rw [List.length_range', Nat.add_zero])]
  have hmin : min size u.resid = size := Nat.min_eq_left hres
  refine ⟨⟨?_, ?_, rfl, rfl, rfl, rfl⟩, by rw [htake]; exact hmoves, fun _ => ⟨hmin.symm, rfl⟩,
    fun h => absurd rfl h, fun hapart => ?_⟩
  · rw [hiov, hcut, List.drop_left' (List.length_range' ..)]
    rfl
  · change wsub u.resid size + size = u.resid
    rw [wsub_of_le hres hlt]
    omega
  · rw [htake]
    refine hbytes fun hseg a ha i hi => hapart hseg a ?_ i (by omega)
    rw [← htake] at ha
    exact List.mem_of_mem_take ha

/-- **A copy of the loop** that fails. -/
theorem UioTransfer.fault {v : Iovec} {rest : List Iovec} {size : ℕ} {x : CopyErr}
    (hiov : u.iov = v :: rest) (hv : size ≤ v.len) (hres : size ≤ u.resid) (hn : size ≤ n)
    (hk : k < size) (hmoves : m'.moves = m.moves ++ trace (ptr + ·) (List.range' v.base k))
    (hbytes : u.Apart (List.range' v.base size) (ptr + ·) size → m'.mem.bytes =
      replay u.segflg u.rw m.mem.bytes (trace (ptr + ·) (List.range' v.base k))) :
    UioTransfer (ptr + ·) n 0 k u u m m' (some x) := by
  have htake : (cells u.iov).take (0 + k) = List.range' v.base k := by
    rw [hiov, cells_cut (n := k) (by omega), List.take_left' (by rw [List.length_range', Nat.zero_add])]
  refine ⟨.refl u, by rw [htake]; exact hmoves, fun h => absurd h (by rintro ⟨⟩),
    fun _ => ⟨by omega, v, rest, hiov, by omega⟩, fun hapart => ?_⟩
  rw [htake]
  refine hbytes fun hseg a ha i hi => hapart hseg a ?_ i (by omega)
  rw [hiov, cells_cut hv]
  exact List.mem_append_left _ ha

/-- **The loop** moves the next bytes, and `uio_resid` still ends with an iovec if it did. -/
theorem uiomoveLoop_spec (acc : UserAccess) (hk : u.iov.length + n ≤ k)
    (hres : u.resid ≤ total u.iov) (hlt : u.resid < wordSize) (hn : n < wordSize)
    (hcap : n ≤ u.resid ∨ IovEnds u.iov u.resid) :
    ∃ e u' m' t p, u.uiomoveLoop acc k n ptr m = .ok (e, u', m') ∧
      UioTransfer (ptr + ·) n t p u u' m m' e ∧ (IovEnds u.iov u.resid → IovEnds u'.iov u'.resid) := by
  have hdone : ∀ {k n ptr : ℕ} {u : VecUio} {m : MoveState}, n = 0 ∨ u.resid = 0 →
      u.uiomoveLoop acc k n ptr m = .ok (none, u, m) := fun {k n ptr u m} h => by
    cases k with
    | zero => exact if_pos h
    | succ k => exact if_pos h
  induction k generalizing n ptr u m with
  | zero => exact ⟨_, _, _, 0, 0, hdone (.inl (by omega)), .zero (by omega), id⟩
  | succ k ih =>
    by_cases h0 : n = 0 ∨ u.resid = 0
    · exact ⟨_, _, _, 0, 0, hdone h0, .zero (by omega), id⟩
    rw [VecUio.uiomoveLoop, if_neg h0]
    cases hiov : u.iov with
    | nil =>
      rw [hiov] at hres
      exact absurd hres (by change ¬ u.resid ≤ 0; omega)
    | cons v rest =>
      have htotal : u.resid ≤ v.len + total rest := by rw [hiov] at hres; exact hres
      have hends : IovEnds u.iov u.resid → v.len ≤ u.resid ∧ IovEnds rest (u.resid - v.len) := fun h =>
        (hiov ▸ h : IovEnds (v :: rest) u.resid).cons (by omega)
      have hlen : rest.length + 1 + n ≤ k + 1 := by rw [hiov] at hk; exact hk
      simp only
      by_cases hsize : min v.len n = 0
      · have hv : v.len = 0 := by omega
        have hmore : rest.length ≠ 0 := fun h => by
          rw [List.length_eq_zero_iff.mp h] at htotal
          have hnil : total [] = 0 := rfl
          omega
        rw [if_pos hsize, if_neg hmore]
        have hrest : IovEnds u.iov u.resid → IovEnds rest u.resid := fun h => by
          have := (hends h).2
          rwa [hv] at this
        obtain ⟨e, u', m', t, p, he, ht, hends'⟩ := @ih { u with iov := rest } m n ptr
          (by change rest.length + n ≤ k; omega) (by change u.resid ≤ total rest; omega) hlt hn
          (hcap.imp id hrest)
        rw [← hiov]
        exact ⟨e, u', m', t, p, he, ht.skip hiov hv, fun h => hends' (hrest h)⟩
      · rw [if_neg hsize, ← hiov]
        have hle : min v.len n ≤ u.resid := by
          rcases hcap with h | h
          · omega
          · have := (hends h).1
            omega
        obtain ⟨e, m₁, j, hcopy, hmoves, hj, hbytes⟩ :=
          copyPiece_cases acc u v.base ptr m (show 1 ≤ min v.len n by omega) (by omega)
        rw [hcopy]
        rcases hj with ⟨rfl, rfl⟩ | ⟨⟨x, rfl⟩, hj⟩
        · have hpiece := @UioTransfer.piece u m m₁ ptr v rest _ hiov (Nat.min_le_left v.len n) hle hlt
            hmoves hbytes
          have hres₁ : (u.advance v rest (min v.len n)).resid = u.resid - min v.len n :=
            wsub_of_le hle hlt
          have hends₁ : IovEnds u.iov u.resid → IovEnds (u.advance v rest (min v.len n)).iov
              (u.advance v rest (min v.len n)).resid := fun h => by
            obtain ⟨hv, hr⟩ := hends h
            have := IovEnds.of_rest (v := ⟨v.base + min v.len n, v.len - min v.len n⟩) hr
            rwa [show v.len - min v.len n + (u.resid - v.len) = u.resid - min v.len n by omega,
              ← hres₁] at this
          obtain ⟨e, u', m', t, p, he, ht, hends'⟩ := @ih (u.advance v rest (min v.len n)) m₁
            (n - min v.len n) (ptr + min v.len n)
            (by change rest.length + 1 + (n - min v.len n) ≤ k; omega)
            (by
              rw [hres₁]
              change u.resid - min v.len n ≤ v.len - min v.len n + total rest
              omega)
            (by rw [hres₁]; omega) (by omega)
            (hcap.imp (fun h => by rw [hres₁]; omega) hends₁)
          have hrest : UioTransfer (fun i => ptr + (min v.len n + i)) (n - min v.len n) t p
              (u.advance v rest (min v.len n)) u' m₁ m' e := by
            simpa only [Nat.add_assoc] using ht
          refine ⟨e, u', m', min v.len n + t, p, he, hpiece.trans hrest ?_ ?_,
            fun h => hends' (hends₁ h)⟩
          · rw [hiov, total_cons]
            omega
          · rw [hres₁]
            omega
        · exact ⟨_, _, _, 0, j, rfl, .fault hiov (Nat.min_le_left _ _) hle (Nat.min_le_right _ _) hj
            hmoves hbytes, id⟩

end Loop

/-! ## The calls -/

/-- A uio that is set up as `uio.h` says, but that `uio_resid` may be less than the total. -/
structure VecUio.Ok (u : VecUio) (curas : Option ℕ) : Prop where
  resid : u.resid ≤ total u.iov
  lt : u.resid < wordSize
  space : u.SpaceOk curas

/-- A call of `uiomove` or `uiomovezeros`. -/
inductive UioCall
  | move (ptr n : ℕ) (acc : UserAccess)
  | zeros (n : ℕ) (acc : UserAccess)

namespace UioCall

/-- How many bytes the call is to move. -/
def n : UioCall → ℕ
  | move _ n _ => n
  | zeros n _ => n

/-- The addresses in the kernel; `zeros` is that of the array of 16 zeros. -/
def addr (zeros : ℕ) : UioCall → ℕ → ℕ
  | move ptr _ _ => fun i => ptr + i
  | .zeros _ _ => fun i => zeros + i % 16

/-- **No copy goes beyond `uio_resid`**: the call is to move no more than that, or it ends with an iovec,
or with one of the pieces of 16 zeros. -/
def Capped (u : VecUio) : UioCall → Prop
  | move _ n _ => n < wordSize ∧ (n ≤ u.resid ∨ IovEnds u.iov u.resid)
  | zeros n _ => n < wordSize ∧ u.rw = .read ∧ (n ≤ u.resid ∨ 16 ∣ u.resid ∨ IovEnds u.iov u.resid)

/-- The call. -/
def exec (curas : Option ℕ) (zeros : ℕ) (u : VecUio) (m : MoveState) :
    UioCall → Except UioStop (Option CopyErr × VecUio × MoveState)
  | move ptr n acc => u.uiomove curas acc ptr n m
  | .zeros n acc => u.uiomovezeros curas acc zeros n m

end UioCall

/-- A call and what it leaves, whether it fails or not. -/
def uioStep (curas : Option ℕ) (zeros : ℕ) (w : VecUio × MoveState) (c : UioCall) :
    Except UioStop (VecUio × MoveState) := (c.exec curas zeros w.1 w.2).map Prod.snd

section Calls

variable {u u₁ u' : VecUio} {m m₁ m' : MoveState} {e : Option CopyErr} {addr : ℕ → ℕ}
  {n n₁ t p k ptr zeros : ℕ} {curas : Option ℕ}

/-- **`uio_offset + uio_resid` stays constant.** -/
theorem VecUio.Advanced.sum (h : u.Advanced u' t) :
    u'.offset + BitVec.ofNat 64 u'.resid = u.offset + BitVec.ofNat 64 u.resid := by
  rw [h.offset, ← h.resid, BitVec.add_assoc, ← BitVec.ofNat_add, Nat.add_comm t]

theorem VecUio.Ok.advanced (h : u.Ok curas) (ha : u.Advanced u' t) : u'.Ok curas where
  resid := by
    have hlen : total u'.iov = total u.iov - t := by
      rw [← length_cells, ha.cells, List.length_drop, length_cells]
    have := h.resid
    have := ha.resid
    omega
  lt := by have := h.lt; have := ha.resid; omega
  space := by
    have := h.space
    unfold VecUio.SpaceOk at this ⊢
    rw [ha.space, ha.segflg, this]

/-- **`uiomove`** moves the next bytes. -/
theorem uiomove_spec (h : u.Ok curas) (acc : UserAccess) (hn : n < wordSize)
    (hcap : n ≤ u.resid ∨ IovEnds u.iov u.resid) :
    ∃ e u' m' t p, u.uiomove curas acc ptr n m = .ok (e, u', m') ∧
      UioTransfer (ptr + ·) n t p u u' m m' e ∧ (IovEnds u.iov u.resid → IovEnds u'.iov u'.resid) := by
  unfold VecUio.uiomove
  rw [if_pos h.space]
  exact uiomoveLoop_spec acc (by omega) h.resid h.lt hn hcap

/-- A transfer that fails is one of more bytes, too. -/
theorem UioTransfer.mono {x : CopyErr} (h : UioTransfer addr n₁ t p u u' m m' (some x)) (hn : n₁ ≤ n) :
    UioTransfer addr n t p u u' m m' (some x) where
  advanced := h.advanced
  moves := h.moves
  ok he := by cases he
  failed he := by
    obtain ⟨hlt, hhead⟩ := h.failed he
    exact ⟨by omega, hhead⟩
  bytes hapart := h.bytes fun hseg a ha i hi => hapart hseg a ha i (by omega)

/-- **The loop of `uiomovezeros`** moves the next bytes. -/
theorem zerosLoop_spec (h : u.Ok curas) (acc : UserAccess) (hk : n ≤ 16 * k) (hn : n < wordSize)
    (hcap : n ≤ u.resid ∨ 16 ∣ u.resid ∨ IovEnds u.iov u.resid) :
    ∃ e u' m' t p, u.zerosLoop curas acc zeros k n m = .ok (e, u', m') ∧
      UioTransfer (fun i => zeros + i % 16) n t p u u' m m' e := by
  induction k generalizing n u m with
  | zero => exact ⟨none, u, m, 0, 0, rfl, .zero (by omega)⟩
  | succ k ih =>
    have hcap₁ : min 16 n ≤ u.resid ∨ IovEnds u.iov u.resid := by
      rcases hcap with hle | ⟨d, hd⟩ | hends
      · exact .inl (by omega)
      · cases d with
        | zero =>
          rw [hd]
          exact .inr (ends_zero _)
        | succ d => exact .inl (by omega)
      · exact .inr hends
    obtain ⟨e, u₁, m₁, t, p, he, ht, hends⟩ :=
      @uiomove_spec u m (min 16 n) zeros curas h acc (by omega) hcap₁
    have ht' : UioTransfer (fun i => zeros + i % 16) (min 16 n) t p u u₁ m m₁ e :=
      ht.congr fun i hi => by rw [Nat.mod_eq_of_lt (by omega)]
    cases e with
    | some x => exact ⟨some x, u₁, m₁, t, p, bind_eq_ok.mpr ⟨_, he, rfl⟩,
        ht'.mono (Nat.min_le_right _ _)⟩
    | none =>
      obtain ⟨hmin, rfl⟩ := ht.ok rfl
      have hres := ht.advanced.resid
      obtain ⟨e, u', m', t₂, p, he₂, ht₂⟩ := ih (u := u₁) (m := m₁) (n := n - min 16 n)
        (h.advanced ht.advanced) (by omega) (by omega) (by
          rcases hcap with hle | ⟨d, hd⟩ | h
          · exact .inl (by omega)
          · by_cases hle : n ≤ u.resid
            · exact .inl (by omega)
            · exact .inr (.inl ⟨d - 1, by omega⟩)
          · exact .inr (.inr (hends h)))
      have hrest : UioTransfer (fun i => zeros + (t + i) % 16) (n - min 16 n) t₂ p u₁ u' m₁ m' e :=
        ht₂.congr fun i hi => by
          -- another piece follows after 16 bytes only
          have h16 : t = 16 := by omega
          rw [h16, Nat.add_mod_left]
      refine ⟨e, u', m', t + t₂, p, bind_eq_ok.mpr ⟨_, he, he₂⟩, ht'.trans hrest ?_ (by omega)⟩
      · have := h.resid
        omega

/-- **A call** moves the next bytes. -/
theorem UioCall.exec_spec (h : u.Ok curas) {c : UioCall} (hcap : c.Capped u) :
    ∃ e u' m' t p, c.exec curas zeros u m = .ok (e, u', m') ∧
      UioTransfer (c.addr zeros) c.n t p u u' m m' e := by
  cases c with
  | move ptr n acc =>
    obtain ⟨e, u', m', t, p, he, ht, -⟩ := @uiomove_spec u m n ptr curas h acc hcap.1 hcap.2
    exact ⟨e, u', m', t, p, he, ht⟩
  | zeros n acc =>
    obtain ⟨hn, hrw, hcap⟩ := hcap
    obtain ⟨e, u', m', t, p, he, ht⟩ := @zerosLoop_spec u m n ((n + 15) / 16) zeros curas h acc
      (by omega) hn hcap
    exact ⟨e, u', m', t, p, (if_pos hrw).trans he, ht⟩

/-- **Every sequence of calls** in which no copy goes beyond `uio_resid` leaves the cursor behind the
bytes that it moved, and any further such call moves the next ones. No call panics. -/
theorem uiomove_run {calls : List UioCall} (h : u.Ok curas)
    (hcalls : Along (uioStep curas zeros) (fun w c => c.Capped w.1) (u, m) calls) :
    ∃ u' m', run (uioStep curas zeros) (u, m) calls = .ok (u', m') ∧
      (∃ t, u.Advanced u' t) ∧ u'.resid ≤ total u'.iov ∧
      u'.offset + BitVec.ofNat 64 u'.resid = u.offset + BitVec.ofNat 64 u.resid ∧
      ∀ c : UioCall, c.Capped u' → ∃ e u'' m'' t p, c.exec curas zeros u' m' = .ok (e, u'', m'') ∧
        UioTransfer (c.addr zeros) c.n t p u' u'' m' m'' e := by
  suffices hrun : ∃ u' m', run (uioStep curas zeros) (u, m) calls = .ok (u', m') ∧
      (∃ t, u.Advanced u' t) ∧ u'.Ok curas by
    obtain ⟨u', m', hr, ⟨t, ha⟩, hok⟩ := hrun
    exact ⟨u', m', hr, ⟨t, ha⟩, hok.resid, ha.sum, fun c hc => c.exec_spec hok hc⟩
  induction calls generalizing u m with
  | nil => exact ⟨u, m, rfl, ⟨0, .refl u⟩, h⟩
  | cons c calls ih =>
    obtain ⟨e, u₁, m₁, t, p, he, ht⟩ := @UioCall.exec_spec u m zeros curas h c hcalls.1
    have hstep : uioStep curas zeros (u, m) c = .ok (u₁, m₁) := by
      unfold uioStep
      rw [he]
      rfl
    obtain ⟨u', m', hr, ⟨t', ha⟩, hok⟩ := ih (h.advanced ht.advanced) (hcalls.2 _ hstep)
    refine ⟨u', m', ?_, ⟨_, ht.advanced.trans ha⟩, hok⟩
    rw [run_cons, hstep]
    exact hr

/-- A read through four iovecs, two of which are empty. -/
def fourIovecs : VecUio where
  iov := [⟨0, 0⟩, ⟨100, 3⟩, ⟨0, 0⟩, ⟨200, 5⟩]
  offset := 0
  resid := 8
  segflg := .sysspace
  rw := .read
  space := none

/-- After a transfer of four bytes any further call moves the next ones. -/
theorem uiomove_run_four : ∃ u' m', run (uioStep none 5000) (fourIovecs, ⟨zeroMemory, []⟩)
      [.move 1000 4 allAccess] = .ok (u', m') ∧
    (∃ t, fourIovecs.Advanced u' t) ∧ u'.resid ≤ total u'.iov ∧
    u'.offset + BitVec.ofNat 64 u'.resid = fourIovecs.offset + BitVec.ofNat 64 fourIovecs.resid ∧
    ∀ c : UioCall, c.Capped u' → ∃ e u'' m'' t p, c.exec none 5000 u' m' = .ok (e, u'', m'') ∧
      UioTransfer (c.addr 5000) c.n t p u' u'' m' m'' e :=
  uiomove_run ⟨by decide, by decide, by decide⟩ ⟨⟨by decide, .inl (by decide)⟩, fun _ _ => trivial⟩

/-- **`uio_resid` does not bound a transfer**: with 5 of 10 bytes to go, a transfer of 11 runs out of
buffers. **A copy that fails moves bytes**: the first of two, and the cursor is still before it. -/
theorem not_uiomove_next :
    (∃ (u : VecUio) (m : MoveState), u.Ok none ∧
      u.uiomove none allAccess 1000 11 m = .error .outOfBuffers) ∧
    ∃ (u u' : VecUio) (m m' : MoveState) (acc : UserAccess) (e : CopyErr), u.Ok none ∧
      u.uiomove none acc 1000 2 m = .ok (some e, u', m') ∧
      m'.moves.length = m.moves.length + 1 ∧ cells u'.iov = cells u.iov := by
  refine ⟨⟨⟨[⟨100, 10⟩], 0, 5, .sysspace, .read, none⟩, ⟨zeroMemory, []⟩, ⟨by decide, by decide,
    by decide⟩, rfl⟩, ⟨[⟨0x1000, 2⟩], 0, 2, .userspace, .read, none⟩, _, ⟨zeroMemory, []⟩, _,
    ⟨fun a => a = 0x1000, fun a => a = 0x1000⟩, .efault, ⟨by decide, by decide, by decide⟩, rfl, rfl,
    rfl⟩

end Calls

end Os161
